import Mathlib.Data.List.Nodup
import Mathlib.Data.List.Perm.Basic

/-!
# Maps of queues

A first-in first-out queue for each key.  Keys are created on first use and
never removed; `all` gathers the elements of every queue.
-/

namespace SimpleSSD.Foundation

variable {κ α : Type*} [DecidableEq κ]

namespace QueueList

def get (k : κ) : List (κ × List α) → List α
  | [] => []
  | entry :: rest => if entry.1 = k then entry.2 else get k rest

def update (k : κ) (f : List α → List α) : List (κ × List α) → List (κ × List α)
  | [] => [(k, f [])]
  | entry :: rest =>
      if entry.1 = k then (entry.1, f entry.2) :: rest else entry :: update k f rest

def all (l : List (κ × List α)) : List α := l.flatMap Prod.snd

variable {k k' : κ} {f : List α → List α} {l : List (κ × List α)} {x : α} {xs : List α}

theorem get_update : get k' (update k f l) = if k' = k then f (get k l) else get k' l := by
  induction l with
  | nil =>
      by_cases same : k' = k
      · simp [update, get, same]
      · simp [update, get, same, Ne.symm same]
  | cons entry rest ih =>
      by_cases here : entry.1 = k
      · by_cases same : k' = k
        · simp [update, get, here, same]
        · have other : entry.1 ≠ k' := fun h => same (h.symm.trans here)
          simp [update, get, here, same, Ne.symm same]
      · by_cases there : entry.1 = k'
        · have other : k' ≠ k := fun h => here (there.trans h)
          simp [update, get, there, other]
        · simp [update, get, here, there, ih]

theorem keys_update : (update k f l).map Prod.fst =
    if k ∈ l.map Prod.fst then l.map Prod.fst else l.map Prod.fst ++ [k] := by
  induction l with
  | nil => simp [update]
  | cons entry rest ih =>
      by_cases here : entry.1 = k
      · simp [update, here]
      · simp only [update, here, if_false, List.map_cons, ih, List.mem_cons,
          Ne.symm here, false_or]
        split <;> simp

theorem nodup_update (h : (l.map Prod.fst).Nodup) : ((update k f l).map Prod.fst).Nodup := by
  rw [keys_update]
  split
  · exact h
  next absent =>
    rw [← List.concat_eq_append]
    exact h.concat absent

theorem all_update_perm (xs : List α) (grow : ∀ q : List α, (f q).Perm (xs ++ q)) :
    (all (update k f l)).Perm (xs ++ all l) := by
  induction l with
  | nil => simpa [update, all] using grow []
  | cons entry rest ih =>
      by_cases here : entry.1 = k
      · simp only [update, here, if_true, all, List.flatMap_cons]
        rw [← List.append_assoc]
        exact (grow entry.2).append_right _
      · simp only [update, here, if_false, all, List.flatMap_cons]
        refine (ih.append_left entry.2).trans ?_
        exact List.perm_append_comm_assoc _ _ _

theorem all_pop (h : get k l = x :: xs) : (all l).Perm (x :: all (update k List.tail l)) := by
  induction l with
  | nil => cases h
  | cons entry rest ih =>
      by_cases here : entry.1 = k
      · simp only [get, here, if_true] at h
        simp [update, here, all, h]
      · simp only [get, here, if_false] at h
        simp only [update, here, if_false, all, List.flatMap_cons]
        exact ((ih h).append_left entry.2).trans List.perm_middle

theorem mem_all_of_get (h : x ∈ get k l) : x ∈ all l := by
  induction l with
  | nil => cases h
  | cons entry rest ih =>
      by_cases here : entry.1 = k
      · simp only [get, here, if_true] at h
        simp [all, h]
      · simp only [get, here, if_false] at h
        exact List.mem_append_right _ (ih h)

theorem get_of_absent (h : k ∉ l.map Prod.fst) : get k l = [] := by
  induction l with
  | nil => rfl
  | cons entry rest ih =>
      simp only [List.map_cons, List.mem_cons, not_or] at h
      simp [get, Ne.symm h.1, ih h.2]

theorem exists_get (keys : (l.map Prod.fst).Nodup) (h : x ∈ all l) : ∃ k, x ∈ get k l := by
  induction l with
  | nil => cases h
  | cons entry rest ih =>
      obtain ⟨fresh, keysRest⟩ := List.nodup_cons.1 keys
      rcases List.mem_append.1 h with here | there
      · exact ⟨entry.1, by simpa [get] using here⟩
      · obtain ⟨k, hk⟩ := ih keysRest there
        by_cases same : entry.1 = k
        · rw [get_of_absent (same ▸ fresh)] at hk
          cases hk
        · exact ⟨k, by simpa [get, same] using hk⟩

end QueueList

structure QueueMap (κ α : Type*) where
  entries : List (κ × List α)
  nodup : (entries.map Prod.fst).Nodup
  deriving DecidableEq

namespace QueueMap

def empty : QueueMap κ α := ⟨[], List.nodup_nil⟩

def get (m : QueueMap κ α) (k : κ) : List α := QueueList.get k m.entries

def push (m : QueueMap κ α) (k : κ) (x : α) : QueueMap κ α :=
  ⟨QueueList.update k (· ++ [x]) m.entries, QueueList.nodup_update m.nodup⟩

def pop (m : QueueMap κ α) (k : κ) : QueueMap κ α :=
  ⟨QueueList.update k List.tail m.entries, QueueList.nodup_update m.nodup⟩

def filter (m : QueueMap κ α) (p : α → Bool) : QueueMap κ α :=
  ⟨m.entries.map fun entry => (entry.1, entry.2.filter p), by
    rw [List.map_map]
    exact m.nodup⟩

def all (m : QueueMap κ α) : List α := QueueList.all m.entries

variable {m : QueueMap κ α} {k k' : κ} {x : α} {xs : List α} {p : α → Bool}

theorem get_push : (m.push k x).get k' = if k' = k then m.get k ++ [x] else m.get k' :=
  QueueList.get_update

theorem get_pop : (m.pop k).get k' = if k' = k then (m.get k).tail else m.get k' :=
  QueueList.get_update

theorem get_filter : (m.filter p).get k = (m.get k).filter p := by
  change QueueList.get k (m.entries.map _) = (QueueList.get k m.entries).filter p
  induction m.entries with
  | nil => rfl
  | cons entry rest ih =>
      by_cases here : entry.1 = k
      · simp [QueueList.get, here]
      · simp [QueueList.get, here, ih]

theorem all_push : (m.push k x).all.Perm (x :: m.all) :=
  QueueList.all_update_perm [x] fun _ => List.perm_append_singleton _ _

theorem all_pop (h : m.get k = x :: xs) : m.all.Perm (x :: (m.pop k).all) :=
  QueueList.all_pop h

omit [DecidableEq κ] in
theorem all_filter : (m.filter p).all = m.all.filter p := by
  change (m.entries.map _).flatMap _ = (m.entries.flatMap _).filter p
  rw [List.flatMap_map, List.filter_flatMap]

theorem mem_all_of_get (h : x ∈ m.get k) : x ∈ m.all := QueueList.mem_all_of_get h

theorem exists_get (h : x ∈ m.all) : ∃ k, x ∈ m.get k := QueueList.exists_get m.nodup h

end QueueMap

end SimpleSSD.Foundation
