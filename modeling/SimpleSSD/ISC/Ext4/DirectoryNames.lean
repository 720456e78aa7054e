import Mathlib.Data.List.Induction
import Mathlib.Data.List.Pairwise

/-!
# Entries of a name

Which entry of a directory is the one with a name, and which one is the last with it.
-/

namespace SimpleSSD.ISC.Ext4

structure DirEntry where
  inode : Nat
  name : List UInt8

structure Name where
  chars : List UInt8
  nul : 0 ∉ chars
  short : chars.length ≤ 255

def lookup (entries : List DirEntry) (name : List UInt8) : Nat :=
  ((entries.find? fun e => e.inode ≠ 0 ∧ e.name = name).map DirEntry.inode).getD 0

def lastInode (entries : List DirEntry) (name : List UInt8) : Nat :=
  entries.foldl (fun ino e => if e.name = name then e.inode else ino) 0

def Distinct (entries : List DirEntry) : Prop :=
  entries.Pairwise fun e later => e.inode ≠ 0 → later.inode ≠ 0 → later.name ≠ e.name

/-- No deleted entry stands behind the live entry of its name. -/
def NoneDeletedBehind (entries : List DirEntry) : Prop :=
  entries.Pairwise fun e later => e.inode ≠ 0 → later.inode = 0 → later.name ≠ e.name

section Entries

variable {entries seen : List DirEntry} {e : DirEntry} {name : List UInt8}

theorem lastInode_append (seen : List DirEntry) (e : DirEntry) (name : List UInt8) :
    lastInode (seen ++ [e]) name = if e.name = name then e.inode else lastInode seen name := by
  simp [lastInode]

theorem lookup_append_of_some (h : lookup seen name ≠ 0) (e : DirEntry) :
    lookup (seen ++ [e]) name = lookup seen name := by
  unfold lookup at h ⊢
  rw [List.find?_append]
  cases found : seen.find? fun e => e.inode ≠ 0 ∧ e.name = name with
  | none =>
      rw [found] at h
      exact absurd rfl h
  | some other => rfl

theorem lookup_eq_zero_iff :
    lookup entries name = 0 ↔ ∀ e ∈ entries, e.name = name → e.inode = 0 := by
  unfold lookup
  cases found : entries.find? fun e => e.inode ≠ 0 ∧ e.name = name with
  | none =>
      simp only [Option.map_none, Option.getD_none, true_iff]
      intro e he same
      by_contra live
      have missing := List.find?_eq_none.1 found e he
      simp [live, same] at missing
  | some other =>
      have holds := List.find?_some found
      have hmem := List.mem_of_find?_eq_some found
      simp only [decide_eq_true_eq] at holds
      simp only [Option.map_some, Option.getD_some]
      exact ⟨fun zero => absurd zero holds.1, fun all => all other hmem holds.2⟩

theorem lookup_ne_zero_iff :
    lookup entries name ≠ 0 ↔ ∃ e ∈ entries, e.name = name ∧ e.inode ≠ 0 := by
  rw [ne_eq, lookup_eq_zero_iff]
  simp

theorem lookup_append_of_zero (h : lookup seen name = 0) (e : DirEntry) :
    lookup (seen ++ [e]) name = if e.name = name then e.inode else 0 := by
  have none : seen.find? (fun e => e.inode ≠ 0 ∧ e.name = name) = none := by
    rw [List.find?_eq_none]
    intro other hother
    have deleted := lookup_eq_zero_iff.1 h other hother
    simp only [decide_eq_true_eq]
    exact fun holds => holds.1 (deleted holds.2)
  unfold lookup
  rw [List.find?_append, none, Option.none_or]
  by_cases same : e.name = name <;> by_cases live : e.inode = 0 <;> simp [same, live]

/-- The last entry of a name is its live one, if there is one, when no deleted one follows. -/
theorem lastInode_eq_lookup (distinct : Distinct entries) (kept : NoneDeletedBehind entries)
    (name : List UInt8) : lastInode entries name = lookup entries name := by
  induction entries using List.reverseRecOn with
  | nil => rfl
  | append_singleton seen e ih =>
      obtain ⟨distinctSeen, -, apart⟩ := List.pairwise_append.1 distinct
      obtain ⟨noneSeen, -, behind⟩ := List.pairwise_append.1 kept
      rw [lastInode_append, ih distinctSeen noneSeen]
      by_cases before : lookup seen name = 0
      · rw [lookup_append_of_zero before, before]
      · rw [lookup_append_of_some before, if_neg]
        intro same
        -- a live entry before `e` has its name
        obtain ⟨other, hother, named, live⟩ := lookup_ne_zero_iff.1 before
        by_cases deleted : e.inode = 0
        · exact behind other hother e (List.mem_singleton_self e) live deleted
            (same.trans named.symm)
        · exact apart other hother e (List.mem_singleton_self e) live deleted
            (same.trans named.symm)

theorem exists_hidden (distinct : Distinct entries) (fails : ¬ NoneDeletedBehind entries) :
    ∃ e ∈ entries, lastInode entries e.name = 0 ∧ lookup entries e.name ≠ 0 := by
  induction entries using List.reverseRecOn with
  | nil => exact absurd List.Pairwise.nil fails
  | append_singleton seen e ih =>
      obtain ⟨distinctSeen, -, apart⟩ := List.pairwise_append.1 distinct
      by_cases noneSeen : NoneDeletedBehind seen
      · -- it is `e` that hides an entry
        have hides : ∃ other ∈ seen, other.inode ≠ 0 ∧ e.inode = 0 ∧ e.name = other.name := by
          by_contra hidesNone
          refine fails (List.pairwise_append.2 ⟨noneSeen, List.pairwise_singleton _ _, ?_⟩)
          intro other hother e' he' live
          rw [List.mem_singleton.1 he']
          exact fun deleted same => hidesNone ⟨other, hother, live, deleted, same⟩
        obtain ⟨other, hother, live, deleted, same⟩ := hides
        refine ⟨other, List.mem_append_left _ hother, ?_, fun zero => ?_⟩
        · rw [lastInode_append, if_pos same, deleted]
        · exact live (lookup_eq_zero_iff.1 zero other (List.mem_append_left _ hother) rfl)
      · obtain ⟨other, hother, last, live⟩ := ih distinctSeen noneSeen
        refine ⟨other, List.mem_append_left _ hother, ?_, ?_⟩
        · rw [lastInode_append]
          by_cases same : e.name = other.name
          · rw [if_pos same]
            by_contra liveToo
            obtain ⟨third, hthird, named, liveThird⟩ := lookup_ne_zero_iff.1 live
            exact apart third hthird e (List.mem_singleton_self e) liveThird liveToo
              (same.trans named.symm)
          · rw [if_neg same, last]
        · rwa [lookup_append_of_some live]

end Entries

end SimpleSSD.ISC.Ext4
