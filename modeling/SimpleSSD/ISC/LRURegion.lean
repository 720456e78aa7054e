import Mathlib.Data.Fin.VecNotation
import Mathlib.Data.Fintype.Basic
import Mathlib.Data.List.Perm.Basic
import SimpleSSD.Foundation.Fallible
import SimpleSSD.Foundation.Recency
import SimpleSSD.Util.Def

/-!
# The buffer cache in device memory

`isc/sims/dram.cc`.  An `LRURegion` keeps `nmem` cells of `unit` bytes in the order of their
last use.  What a cell holds, and which cells hold the same key, is decided by the comparison
and the two copies the region is allocated with.
-/

namespace SimpleSSD.ISC

open SimpleSSD.Foundation

def ENOENT : Int := 2

/-- What `DRAM::alloc` is given.  The callbacks see one cell and the data of the caller. -/
structure Region (δ : Type) where
  nmem : Nat
  unit : Nat
  cmp : (Fin unit → UInt8) → δ → Int
  cpin : (Fin unit → UInt8) → δ → Fin unit → UInt8
  cpout : δ → (Fin unit → UInt8) → δ

structure Format (δ κ β : Type) extends Region δ where
  key : δ → κ
  value : δ → β
  keyAt : (Fin unit → UInt8) → κ
  valueAt : (Fin unit → UInt8) → β
  cmp_eq_zero : ∀ cell dat, cmp cell dat = 0 ↔ keyAt cell = key dat
  keyAt_cpin : ∀ cell dat, keyAt (cpin cell dat) = key dat
  valueAt_cpin : ∀ cell dat, valueAt (cpin cell dat) = value dat
  key_cpout : ∀ dat cell, key (cpout dat cell) = keyAt cell
  value_cpout : ∀ dat cell, value (cpout dat cell) = valueAt cell

/-- The bytes behind `addr` and the two lists of offsets. -/
structure LRURegion where
  memory : Nat → UInt8
  ofsFree : List Nat
  ofsLRU : List Nat

inductive LRURegion.Access (δ : Type) where
  | read (dat : δ)
  | write (dat : δ)

namespace LRURegion

variable {δ κ β : Type}

section Model

variable (reg : Region δ)

def init : LRURegion where
  memory := fun _ => 0
  ofsFree := (List.range reg.nmem).map (· * reg.unit)
  ofsLRU := []

def cell (s : LRURegion) (ofs : Nat) : Fin reg.unit → UInt8 := fun i => s.memory (ofs + i)

def store (s : LRURegion) (ofs : Nat) (bytes : Fin reg.unit → UInt8) (a : Nat) : UInt8 :=
  if h : ofs ≤ a ∧ a < ofs + reg.unit then bytes ⟨a - ofs, by omega⟩ else s.memory a

def find (dat : δ) (s : LRURegion) : Option Nat :=
  s.ofsLRU.find? fun ofs => reg.cmp (s.cell reg ofs) dat = 0

def touch (ofs : Nat) (s : LRURegion) : LRURegion :=
  { s with ofsLRU := ofs :: s.ofsLRU.filter (· ≠ ofs) }

def put (ofs : Nat) (dat : δ) (s : LRURegion) : LRURegion :=
  { s with memory := s.store reg ofs (reg.cpin (s.cell reg ofs) dat) }

def read (dat : δ) (s : LRURegion) : Int × δ × LRURegion :=
  match s.find reg dat with
  | some ofs => (0, reg.cpout dat (s.cell reg ofs), s.touch ofs)
  | none => (-ENOENT, dat, s)

def write (dat : δ) (s : LRURegion) : Except Fault (Int × LRURegion) :=
  match s.find reg dat with
  | some ofs => .ok (0, (s.touch ofs).put reg ofs dat)
  | none =>
      if reg.nmem < s.ofsLRU.length then .error (.panic "ofsLRU.size() <= nmem")
      else if s.ofsLRU.length = reg.nmem then
        match s.ofsLRU.getLast? with
        | none => .error .undefined
        | some ofs => .ok (0, put reg ofs dat { s with ofsLRU := ofs :: s.ofsLRU.dropLast })
      else
        match s.ofsFree with
        | [] => .error (.panic "ofsFree.size() > 0")
        | ofs :: free =>
            .ok (0, put reg ofs dat { s with ofsFree := free, ofsLRU := ofs :: s.ofsLRU })

def access (s : LRURegion) : Access δ → Except Fault LRURegion
  | .read dat => .ok (s.read reg dat).2.2
  | .write dat => (s.write reg dat).map Prod.snd

def run (accesses : List (Access δ)) : Except Fault LRURegion :=
  accesses.foldlM (access reg) (init reg)

end Model

/-! ## What the cache is for -/

section Specification

variable [DecidableEq κ] (fmt : Format δ κ β)

/-- The keys used by a history of accesses, both with the newest first.  A read uses its key
while the key is among the `nmem` last used ones. -/
def uses : List (Access δ) → List κ
  | [] => []
  | .write dat :: history => fmt.key dat :: uses history
  | .read dat :: history =>
      if fmt.key dat ∈ uses history ∧ (usedSince (fmt.key dat) (uses history)).card < fmt.nmem
      then fmt.key dat :: uses history
      else uses history

/-- The key has been used, and fewer than `nmem` other keys since. -/
def Live (history : List (Access δ)) (k : κ) : Prop :=
  k ∈ uses fmt history ∧ (usedSince k (uses fmt history)).card < fmt.nmem

def lastWritten (k : κ) : List (Access δ) → Option β
  | [] => none
  | .write dat :: history =>
      if fmt.key dat = k then some (fmt.value dat) else lastWritten k history
  | .read _ :: history => lastWritten k history

structure BoundedMap (history : List (Access δ)) (s : LRURegion) : Prop where
  keys : (s.ofsLRU.map fun ofs => fmt.keyAt (s.cell fmt.toRegion ofs)).Nodup
  slots : s.ofsLRU.length + s.ofsFree.length = fmt.nmem
  apart : (s.ofsLRU ++ s.ofsFree).Pairwise fun a b => a + fmt.unit ≤ b ∨ b + fmt.unit ≤ a
  inside : ∀ ofs ∈ s.ofsLRU ++ s.ofsFree, ofs + fmt.unit ≤ fmt.nmem * fmt.unit
  hit : ∀ dat, Live fmt history (fmt.key dat) →
    (s.read fmt.toRegion dat).1 = 0 ∧
      fmt.key (s.read fmt.toRegion dat).2.1 = fmt.key dat ∧
      lastWritten fmt (fmt.key dat) history = some (fmt.value (s.read fmt.toRegion dat).2.1)
  miss : ∀ dat, ¬ Live fmt history (fmt.key dat) → s.read fmt.toRegion dat = (-ENOENT, dat, s)

end Specification

/-! ## Cells -/

section Cells

variable {reg : Region δ} {s : LRURegion} {ofs : Nat} {dat : δ}

theorem cell_put_same : (s.put reg ofs dat).cell reg ofs = reg.cpin (s.cell reg ofs) dat := by
  funext i
  have inside : ofs ≤ ofs + i.val ∧ ofs + i.val < ofs + reg.unit :=
    ⟨Nat.le_add_right _ _, Nat.add_lt_add_left i.isLt _⟩
  change store reg s ofs _ (ofs + i.val) = _
  rw [store, dif_pos inside]
  congr 1
  exact Fin.ext (Nat.add_sub_cancel_left _ _)

theorem cell_put_apart {other : Nat} (apart : ofs + reg.unit ≤ other ∨ other + reg.unit ≤ ofs) :
    (s.put reg ofs dat).cell reg other = s.cell reg other := by
  funext i
  change store reg s ofs _ (other + i.val) = _
  have hi := i.isLt
  rw [store, dif_neg (by omega)]
  rfl

def slots (reg : Region δ) : List Nat := (List.range reg.nmem).map (· * reg.unit)

theorem slots_apart {a b : Nat} (ha : a ∈ slots reg)
    (hb : b ∈ slots reg) (ne : a ≠ b) : a + reg.unit ≤ b ∨ b + reg.unit ≤ a := by
  obtain ⟨i, -, rfl⟩ := List.mem_map.1 ha
  obtain ⟨j, -, rfl⟩ := List.mem_map.1 hb
  rcases Nat.lt_trichotomy i j with lt | same | gt
  · exact .inl (by simpa [Nat.succ_mul] using Nat.mul_le_mul_right reg.unit (Nat.succ_le_of_lt lt))
  · exact absurd (congrArg (· * reg.unit) same) ne
  · exact .inr (by simpa [Nat.succ_mul] using Nat.mul_le_mul_right reg.unit (Nat.succ_le_of_lt gt))

theorem slots_nodup (positive : 0 < reg.unit) : (slots reg).Nodup :=
  List.nodup_range.map fun _ _ h => Nat.eq_of_mul_eq_mul_right positive h

theorem slots_inside {a : Nat} (ha : a ∈ slots reg) : a + reg.unit ≤ reg.nmem * reg.unit := by
  obtain ⟨i, hi, rfl⟩ := List.mem_map.1 ha
  have := Nat.mul_le_mul_right reg.unit (Nat.succ_le_of_lt (List.mem_range.1 hi))
  rwa [Nat.succ_mul] at this

end Cells

/-! ## Refinement -/

section Refinement

variable {fmt : Format δ κ β} {s : LRURegion}

theorem find_eq_some {dat : δ} {ofs : Nat} (found : s.find fmt.toRegion dat = some ofs) :
    ofs ∈ s.ofsLRU ∧ fmt.keyAt (s.cell fmt.toRegion ofs) = fmt.key dat :=
  ⟨List.mem_of_find?_eq_some found,
    (fmt.cmp_eq_zero _ _).1 (of_decide_eq_true (List.find?_some found :))⟩

theorem find_eq_none {dat : δ} (missing : s.find fmt.toRegion dat = none) :
    ∀ ofs ∈ s.ofsLRU, fmt.keyAt (s.cell fmt.toRegion ofs) ≠ fmt.key dat := by
  intro ofs hmem same
  have differ := List.find?_eq_none.1 missing ofs hmem
  exact differ (decide_eq_true ((fmt.cmp_eq_zero _ _).2 same))

variable [DecidableEq κ] {history : List (Access δ)}

/-- The offsets share out the cells, the keys of the cells in use are the last used ones in
their order, and each cell holds what was last written under its key. -/
structure Inv (fmt : Format δ κ β) (history : List (Access δ)) (s : LRURegion) : Prop where
  offsets : (s.ofsLRU ++ s.ofsFree).Perm (slots fmt.toRegion)
  keys : s.ofsLRU.map (fun ofs => fmt.keyAt (s.cell fmt.toRegion ofs)) =
    (recent (uses fmt history)).take fmt.nmem
  values : ∀ ofs ∈ s.ofsLRU, lastWritten fmt (fmt.keyAt (s.cell fmt.toRegion ofs)) history =
    some (fmt.valueAt (s.cell fmt.toRegion ofs))

theorem inv_init : Inv fmt [] (init fmt.toRegion) where
  offsets := .refl _
  keys := List.take_nil.symm
  values := by simp [init]

namespace Inv

variable (h : Inv fmt history s) {dat : δ} {ofs : Nat}

include h

theorem keys_nodup : (s.ofsLRU.map fun ofs => fmt.keyAt (s.cell fmt.toRegion ofs)).Nodup := by
  rw [h.keys]
  exact recent_nodup.sublist (List.take_sublist _ _)

theorem length : s.ofsLRU.length + s.ofsFree.length = fmt.nmem := by
  rw [← List.length_append, h.offsets.length_eq, slots, List.length_map, List.length_range]

theorem live_iff {k : κ} :
    Live fmt history k ↔ ∃ ofs ∈ s.ofsLRU, fmt.keyAt (s.cell fmt.toRegion ofs) = k := by
  rw [Live, ← mem_take_recent, ← h.keys, List.mem_map]

theorem offsets_nodup (positive : 0 < fmt.unit) : (s.ofsLRU ++ s.ofsFree).Nodup :=
  h.offsets.nodup_iff.2 (slots_nodup positive)

end Inv

theorem uses_read_of_live {dat : δ} (live : Live fmt history (fmt.key dat)) :
    uses fmt (.read dat :: history) = fmt.key dat :: uses fmt history := if_pos live

theorem uses_read_of_not_live {dat : δ} (dead : ¬ Live fmt history (fmt.key dat)) :
    uses fmt (.read dat :: history) = uses fmt history := if_neg dead

theorem live_of_use {k other : κ} (differ : other ≠ k) {later : List (Access δ)}
    (used : uses fmt later = other :: uses fmt history) (live : Live fmt later k) :
    Live fmt history k := by
  obtain ⟨hmem, few⟩ := live
  rw [used] at hmem few
  refine ⟨(List.mem_cons.1 hmem).resolve_left (Ne.symm differ), lt_of_le_of_lt ?_ few⟩
  apply Finset.card_le_card
  intro key hkey
  rw [usedSince, List.mem_toFinset] at hkey ⊢
  rw [List.takeWhile_cons_of_pos (by simpa using differ)]
  exact List.mem_cons_of_mem _ hkey

theorem live_of_write {dat : δ} {k : κ} (differ : fmt.key dat ≠ k)
    (live : Live fmt (.write dat :: history) k) : Live fmt history k :=
  live_of_use differ rfl live

theorem live_write (capacity : 0 < fmt.nmem) (history : List (Access δ)) {dat : δ} :
    Live fmt (.write dat :: history) (fmt.key dat) := by
  refine ⟨List.mem_cons_self, ?_⟩
  rw [uses, usedSince, List.takeWhile_cons_of_neg (by simp)]
  exact capacity

theorem live_of_read {dat : δ} {k : κ} (live : Live fmt (.read dat :: history) k) :
    Live fmt history k := by
  by_cases before : Live fmt history (fmt.key dat)
  · by_cases same : fmt.key dat = k
    · rwa [same] at before
    · exact live_of_use same (uses_read_of_live before) live
  · rwa [Live, uses_read_of_not_live before] at live

theorem touch_perm {ofs : Nat} {l : List Nat} (nodup : l.Nodup) (hmem : ofs ∈ l) :
    (ofs :: l.filter (· ≠ ofs)).Perm l := by
  have erased : l.filter (· ≠ ofs) = l.erase ofs := by
    rw [nodup.erase_eq_filter]
    apply List.filter_congr
    intro other _
    by_cases same : other = ofs
    · simp [same]
    · simp [same]
  rw [erased]
  exact (List.perm_cons_erase hmem).symm

theorem touch_keys {key : Nat → κ} {l : List Nat} (nodup : (l.map key).Nodup) {ofs : Nat}
    (hmem : ofs ∈ l) :
    (l.filter (· ≠ ofs)).map key = (l.map key).filter (· ≠ key ofs) := by
  rw [List.filter_map]
  congr 1
  apply List.filter_congr
  intro other hother
  have injective := List.inj_on_of_nodup_map nodup hother hmem
  by_cases same : other = ofs
  · simp [same]
  · have differ : key other ≠ key ofs := fun h => same (injective h)
    simp [same, differ]

theorem inv_touch (h : Inv fmt history s) (positive : 0 < fmt.unit) {dat : δ} {ofs : Nat}
    (found : s.find fmt.toRegion dat = some ofs) :
    Inv fmt (.read dat :: history) (s.touch ofs) := by
  obtain ⟨hmem, key⟩ := find_eq_some found
  have live := h.live_iff.2 ⟨ofs, hmem, key⟩
  have perm := touch_perm (h.offsets_nodup positive).of_append_left hmem
  refine ⟨(perm.append_right _).trans h.offsets, ?_, ?_⟩
  · rw [uses_read_of_live live, take_recent_of_mem (mem_take_recent.2 live), ← h.keys, ← key]
    exact congrArg _ (touch_keys h.keys_nodup hmem)
  · intro other hother
    exact h.values other (perm.subset hother)

theorem inv_put (positive : 0 < fmt.unit) {dat : δ} {ofs : Nat} {l free : List Nat}
    (offsets : (ofs :: l ++ free).Perm (slots fmt.toRegion))
    (keys : (recent (fmt.key dat :: uses fmt history)).take fmt.nmem =
      fmt.key dat :: l.map fun ofs => fmt.keyAt (s.cell fmt.toRegion ofs))
    (values : ∀ ofs ∈ l, lastWritten fmt (fmt.keyAt (s.cell fmt.toRegion ofs)) history =
      some (fmt.valueAt (s.cell fmt.toRegion ofs))) :
    Inv fmt (.write dat :: history)
      (put fmt.toRegion ofs dat { s with ofsLRU := ofs :: l, ofsFree := free }) := by
  have nodup := offsets.nodup_iff.2 (slots_nodup positive)
  rw [List.cons_append, List.nodup_cons] at nodup
  have kept : ∀ other ∈ l,
      (put fmt.toRegion ofs dat { s with ofsLRU := ofs :: l, ofsFree := free }).cell
        fmt.toRegion other = s.cell fmt.toRegion other := by
    intro other hother
    apply cell_put_apart
    apply slots_apart
    · exact offsets.subset List.mem_cons_self
    · exact offsets.subset (List.mem_cons_of_mem _ (List.mem_append_left _ hother))
    · rintro rfl
      exact nodup.1 (List.mem_append_left _ hother)
  refine ⟨offsets, ?_, ?_⟩
  · rw [uses, keys]
    change fmt.keyAt (cell _ (put _ _ _ _) ofs) :: l.map _ = _
    rw [cell_put_same, fmt.keyAt_cpin]
    congr 1
    apply List.map_congr_left
    intro other hother
    rw [kept other hother]
  · intro other hother
    rcases List.mem_cons.1 hother with rfl | hother
    · rw [cell_put_same, fmt.keyAt_cpin, fmt.valueAt_cpin, lastWritten, if_pos rfl]
    · have fresh : fmt.key dat ∉ l.map fun ofs => fmt.keyAt (s.cell fmt.toRegion ofs) := by
        have distinct := recent_nodup.sublist
          (List.take_sublist fmt.nmem (recent (fmt.key dat :: uses fmt history)))
        rw [keys] at distinct
        exact (List.nodup_cons.1 distinct).1
      have other_key : fmt.key dat ≠ fmt.keyAt (s.cell fmt.toRegion other) := fun same =>
        fresh (List.mem_map.2 ⟨other, hother, same.symm⟩)
      rw [kept other hother, lastWritten, if_neg other_key, values other hother]

theorem write_total (h : Inv fmt history s) (capacity : 0 < fmt.nmem) (positive : 0 < fmt.unit)
    (dat : δ) :
    ∃ s', s.write fmt.toRegion dat = .ok (0, s') ∧ Inv fmt (.write dat :: history) s' := by
  unfold write
  cases found : s.find fmt.toRegion dat with
  | some ofs =>
      obtain ⟨hmem, key⟩ := find_eq_some found
      have held := mem_take_recent.2 (h.live_iff.2 ⟨ofs, hmem, key⟩)
      have perm := touch_perm (h.offsets_nodup positive).of_append_left hmem
      refine ⟨_, rfl, inv_put positive ((perm.append_right _).trans h.offsets) ?_ ?_⟩
      · rw [take_recent_of_mem held, ← h.keys, ← key]
        exact congrArg _ (touch_keys h.keys_nodup hmem).symm
      · intro other hother
        exact h.values other (List.mem_of_mem_filter hother)
  | none =>
      have missing := find_eq_none found
      have absent : fmt.key dat ∉ (recent (uses fmt history)).take fmt.nmem := by
        rw [← h.keys]
        intro hmem
        obtain ⟨ofs, hofs, key⟩ := List.mem_map.1 hmem
        exact missing ofs hofs key
      have used : ((recent (uses fmt history)).take fmt.nmem).length = s.ofsLRU.length := by
        rw [← h.keys, List.length_map]
      have length := h.length
      have bounded : ¬ fmt.nmem < s.ofsLRU.length := by omega
      simp only [if_neg bounded]
      by_cases full : s.ofsLRU.length = fmt.nmem
      · rw [if_pos full]
        have nonempty : s.ofsLRU ≠ [] := by
          intro empty
          rw [empty, List.length_nil] at full
          omega
        have split := List.dropLast_append_getLast nonempty
        have perm : (s.ofsLRU.getLast nonempty :: s.ofsLRU.dropLast).Perm s.ofsLRU := by
          have rotated := (List.perm_append_singleton (s.ofsLRU.getLast nonempty)
            s.ofsLRU.dropLast).symm
          rwa [split] at rotated
        rw [List.getLast?_eq_getLast_of_ne_nil nonempty]
        refine ⟨_, rfl, inv_put positive ((perm.append_right _).trans h.offsets) ?_ ?_⟩
        · rw [take_recent_of_full absent capacity (used.trans full), ← h.keys, List.map_dropLast]
        · intro other hother
          exact h.values other (List.mem_of_mem_dropLast hother)
      · rw [if_neg full]
        cases hfree : s.ofsFree with
        | nil =>
            rw [hfree, List.length_nil] at length
            omega
        | cons ofs free =>
            have perm : (ofs :: s.ofsLRU ++ free).Perm (s.ofsLRU ++ s.ofsFree) := by
              rw [hfree]
              exact List.perm_middle.symm
            refine ⟨_, rfl, inv_put positive (perm.trans h.offsets) ?_ h.values⟩
            rw [take_recent_of_room absent (by omega), ← h.keys]

theorem read_of_live (h : Inv fmt history s) {dat : δ} (live : Live fmt history (fmt.key dat)) :
    ∃ ofs, s.find fmt.toRegion dat = some ofs ∧
      s.read fmt.toRegion dat =
        (0, fmt.cpout dat (s.cell fmt.toRegion ofs), s.touch ofs) ∧
      fmt.key (fmt.cpout dat (s.cell fmt.toRegion ofs)) = fmt.key dat ∧
      lastWritten fmt (fmt.key dat) history =
        some (fmt.value (fmt.cpout dat (s.cell fmt.toRegion ofs))) := by
  cases found : s.find fmt.toRegion dat with
  | none =>
      obtain ⟨ofs, hmem, key⟩ := h.live_iff.1 live
      exact absurd key (find_eq_none found ofs hmem)
  | some ofs =>
      obtain ⟨hmem, key⟩ := find_eq_some found
      refine ⟨ofs, rfl, ?_, ?_, ?_⟩
      · rw [read, found]
      · rw [fmt.key_cpout, key]
      · rw [fmt.value_cpout, ← key, h.values ofs hmem]

theorem read_of_not_live (h : Inv fmt history s) {dat : δ}
    (dead : ¬ Live fmt history (fmt.key dat)) : s.read fmt.toRegion dat = (-ENOENT, dat, s) := by
  cases found : s.find fmt.toRegion dat with
  | none => rw [read, found]
  | some ofs => exact absurd (h.live_iff.2 ⟨ofs, find_eq_some found⟩) dead

theorem access_total (h : Inv fmt history s) (capacity : 0 < fmt.nmem) (positive : 0 < fmt.unit)
    (a : Access δ) :
    ∃ s', access fmt.toRegion s a = .ok s' ∧ Inv fmt (a :: history) s' := by
  cases a with
  | write dat =>
      obtain ⟨s', run, inv⟩ := write_total h capacity positive dat
      exact ⟨s', by rw [access, run]; rfl, inv⟩
  | read dat =>
      refine ⟨_, rfl, ?_⟩
      by_cases live : Live fmt history (fmt.key dat)
      · obtain ⟨ofs, found, run, -⟩ := read_of_live h live
        rw [run]
        exact inv_touch h positive found
      · rw [read_of_not_live h live]
        refine ⟨h.offsets, ?_, h.values⟩
        rw [uses_read_of_not_live live]
        exact h.keys

theorem run_total (capacity : 0 < fmt.nmem) (positive : 0 < fmt.unit)
    (accesses : List (Access δ)) :
    ∃ s, run fmt.toRegion accesses = .ok s ∧ Inv fmt accesses.reverse s := by
  induction accesses using List.reverseRecOn with
  | nil => exact ⟨_, rfl, inv_init⟩
  | append_singleton accesses a ih =>
      obtain ⟨s, before, inv⟩ := ih
      obtain ⟨s', last, inv'⟩ := access_total inv capacity positive a
      refine ⟨s', ?_, ?_⟩
      · rw [run, List.foldlM_append, bind_eq_ok]
        refine ⟨s, before, ?_⟩
        rw [List.foldlM_cons, last]
        rfl
      · rw [List.reverse_append]
        exact inv'

theorem Inv.boundedMap (h : Inv fmt history s) (positive : 0 < fmt.unit) :
    BoundedMap fmt history s where
  keys := h.keys_nodup
  slots := h.length
  apart := by
    refine List.Pairwise.imp_of_mem ?_ (h.offsets_nodup positive)
    intro a b ha hb ne
    exact slots_apart (h.offsets.subset ha) (h.offsets.subset hb) ne
  inside := fun ofs hofs => slots_inside (h.offsets.subset hofs)
  hit := by
    intro dat live
    obtain ⟨ofs, -, run, key, written⟩ := read_of_live h live
    rw [run]
    exact ⟨rfl, key, written⟩
  miss := fun dat dead => read_of_not_live h dead

/-- Whatever is read and written, the region is a bounded map that gives up the key that has
not been used for the longest time. -/
theorem run_boundedMap (fmt : Format δ κ β) (capacity : 0 < fmt.nmem) (positive : 0 < fmt.unit)
    (accesses : List (Access δ)) :
    ∃ s, run fmt.toRegion accesses = .ok s ∧ BoundedMap fmt accesses.reverse s := by
  obtain ⟨s, run, inv⟩ := run_total capacity positive accesses
  exact ⟨s, run, inv.boundedMap positive⟩

end Refinement

/-! ## The inode cache -/

def littleEndian {size : Nat} (bytes : Fin size → UInt8) : Nat :=
  (List.ofFn bytes).foldr (fun byte acc => byte.toNat + 256 * acc) 0

/-- The cells of `lruInoCache`: the number of an inode and behind it the inode. -/
def inodes (nmem szKey szVal : Nat) :
    Format ((Fin szKey → UInt8) × (Fin szVal → UInt8)) (Fin szKey → UInt8) (Fin szVal → UInt8) where
  nmem := nmem
  unit := szKey + szVal
  cmp := fun mem buf =>
    let number := fun i => mem (Fin.castAdd szVal i)
    if number = buf.1 then 0 else if littleEndian number < littleEndian buf.1 then -1 else 1
  cpin := fun _ buf => Fin.append buf.1 buf.2
  cpout := fun _ mem => (fun i => mem (Fin.castAdd szVal i), fun i => mem (Fin.natAdd szKey i))
  key := Prod.fst
  value := Prod.snd
  keyAt := fun mem i => mem (Fin.castAdd szVal i)
  valueAt := fun mem i => mem (Fin.natAdd szKey i)
  cmp_eq_zero := by
    intro mem buf
    by_cases same : (fun i => mem (Fin.castAdd szVal i)) = buf.1
    · simp [same]
    · simp only [same, if_false, iff_false]
      split_ifs
      · decide
      · decide
  keyAt_cpin := fun _ buf => funext fun i => Fin.append_left buf.1 buf.2 i
  valueAt_cpin := fun _ buf => funext fun i => Fin.append_right buf.1 buf.2 i
  key_cpout := fun _ _ => rfl
  value_cpout := fun _ _ => rfl

/-- Three inodes in a cache of two. -/
theorem run_boundedMap_inodes :
    ∃ s, run (inodes 2 1 1).toRegion [.write (![1], ![10]), .write (![2], ![20]),
        .read (![1], ![0]), .write (![3], ![30])] = .ok s ∧
      BoundedMap (inodes 2 1 1) [.write (![3], ![30]), .read (![1], ![0]),
        .write (![2], ![20]), .write (![1], ![10])] s :=
  run_boundedMap (inodes 2 1 1) (by decide) (by decide) _

end LRURegion

end SimpleSSD.ISC
