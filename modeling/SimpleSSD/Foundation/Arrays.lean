import Mathlib.Data.List.Induction
import Mathlib.Data.List.TakeDrop

/-!
# Arrays

What stands in an array from an entry on, and the array behind writes to a stretch of it.
-/

namespace SimpleSSD.Foundation

variable {α : Type*}

/-- The list stands in an array from the entry `start` on. -/
def Listed (entry : Nat → α → Prop) : Nat → List α → Prop
  | _, [] => True
  | start, a :: rest => entry start a ∧ Listed entry (start + 1) rest

theorem listed_of_getElem {entry : Nat → α → Prop} {start : Nat} {list : List α}
    (h : ∀ i (_ : i < list.length), entry (start + i) list[i]) : Listed entry start list := by
  induction list generalizing start with
  | nil => trivial
  | cons a rest ih =>
      refine ⟨h 0 (Nat.succ_pos _), ih fun i hi => ?_⟩
      have later := h (i + 1) (Nat.succ_lt_succ hi)
      rwa [← Nat.add_assoc, Nat.add_right_comm] at later

theorem Listed.getElem {entry : Nat → α → Prop} {start : Nat} {list : List α}
    (h : Listed entry start list) {i : Nat} (hi : i < list.length) :
    entry (start + i) list[i] := by
  induction list generalizing start i with
  | nil => cases hi
  | cons a rest ih =>
      cases i with
      | zero => exact h.1
      | succ i =>
          have later := ih h.2 (Nat.lt_of_succ_lt_succ hi)
          rwa [Nat.add_assoc, Nat.add_comm 1] at later

theorem listed_append {entry : Nat → α → Prop} {start : Nat} {list later : List α} :
    Listed entry start (list ++ later) ↔
      Listed entry start list ∧ Listed entry (start + list.length) later := by
  induction list generalizing start with
  | nil => simp [Listed]
  | cons a rest ih =>
      rw [List.cons_append, Listed, Listed, ih, List.length_cons, and_assoc,
        Nat.add_right_comm, Nat.add_assoc start]

theorem listed_range' {entry : Nat → Nat → Prop} {start first n : Nat}
    (h : ∀ i < n, entry (start + i) (first + i)) : Listed entry start (List.range' first n) := by
  induction n generalizing start first with
  | zero => trivial
  | succ n ih =>
      rw [List.range'_succ]
      refine ⟨h 0 (Nat.succ_pos n), ih fun i hi => ?_⟩
      have later := h (i + 1) (Nat.succ_lt_succ hi)
      rwa [← Nat.add_assoc, ← Nat.add_assoc, Nat.add_right_comm, Nat.add_right_comm first] at later

/-- The array with a list written over its entries from `start` on. -/
def overwrite (array : List α) (start : Nat) (list : List α) : List α :=
  array.take start ++ list ++ array.drop (start + list.length)

variable {array list : List α} {start : Nat}

theorem overwrite_nil (array : List α) (start : Nat) : overwrite array start [] = array := by
  simp [overwrite]

theorem length_overwrite (room : start + list.length ≤ array.length) :
    (overwrite array start list).length = array.length := by
  simp only [overwrite, List.length_append, List.length_take, List.length_drop]
  omega

theorem getElem?_overwrite (room : start + list.length ≤ array.length) (i : Nat) :
    (overwrite array start list)[i]? =
      if start ≤ i ∧ i < start + list.length then list[i - start]? else array[i]? := by
  have front : (array.take start).length = start := by
    rw [List.length_take]
    omega
  unfold overwrite
  by_cases before : i < start
  · rw [if_neg (by omega), List.append_assoc, List.getElem?_append_left (by omega),
      List.getElem?_take_of_lt before]
  · rw [List.append_assoc, List.getElem?_append_right (by omega), front]
    by_cases within : i < start + list.length
    · rw [if_pos (by omega), List.getElem?_append_left (by omega)]
    · rw [if_neg (by omega), List.getElem?_append_right (by omega), List.getElem?_drop]
      congr 1
      omega

theorem overwrite_cons {a : α} (room : start + (list.length + 1) ≤ array.length) :
    overwrite array start (a :: list) = overwrite (array.set start a) (start + 1) list := by
  apply List.ext_getElem?
  intro i
  rw [getElem?_overwrite room, getElem?_overwrite (by rw [List.length_set]; omega),
    List.length_cons, List.getElem?_set]
  by_cases first : start = i
  · subst first
    rw [if_pos (by omega), if_neg (by omega), if_pos rfl, if_pos (by omega), Nat.sub_self]
    rfl
  · rw [if_neg first]
    by_cases within : start ≤ i ∧ i < start + (list.length + 1)
    · rw [if_pos within, if_pos (by omega), ← Nat.sub_add_cancel (show 1 ≤ i - start by omega),
        List.getElem?_cons_succ, Nat.sub_sub]
    · rw [if_neg within, if_neg (by omega)]

theorem overwrite_append {later : List α}
    (room : start + list.length + later.length ≤ array.length) :
    overwrite array start (list ++ later) =
      overwrite (overwrite array start list) (start + list.length) later := by
  have roomFirst : start + list.length ≤ array.length := by omega
  apply List.ext_getElem?
  intro i
  rw [getElem?_overwrite (by rw [List.length_append]; omega),
    getElem?_overwrite (by rw [length_overwrite roomFirst]; omega),
    getElem?_overwrite roomFirst, List.length_append]
  by_cases behind : start + list.length ≤ i
  · by_cases within : i < start + list.length + later.length
    · rw [if_pos (by omega), if_pos ⟨behind, within⟩, List.getElem?_append_right (by omega)]
      congr 1
      omega
    · rw [if_neg (by omega), if_neg (by omega), if_neg (by omega)]
  · rw [if_neg (show ¬(start + list.length ≤ i ∧ _) by omega)]
    by_cases within : start ≤ i
    · rw [if_pos (by omega), if_pos (by omega), List.getElem?_append_left (by omega)]
    · rw [if_neg (by omega), if_neg (by omega)]

theorem mem_overwrite {a : α} (h : a ∈ overwrite array start list) : a ∈ array ∨ a ∈ list := by
  rw [overwrite, List.mem_append, List.mem_append] at h
  rcases h with (front | written) | behind
  · exact .inl (List.mem_of_mem_take front)
  · exact .inr written
  · exact .inl (List.mem_of_mem_drop behind)

theorem length_flatMap_overwrite_le {β : Type*} (f : α → List β) (array : List α) (start : Nat)
    (list : List α) :
    ((overwrite array start list).flatMap f).length ≤
      (array.flatMap f).length + (list.flatMap f).length := by
  have split : ∀ (l : List α) n, (l.flatMap f).length =
      ((l.take n).flatMap f).length + ((l.drop n).flatMap f).length := by
    intro l n
    rw [← List.length_append, ← List.flatMap_append, List.take_append_drop]
  have parts := split array start
  have behind := split (array.drop start) list.length
  rw [List.drop_drop] at behind
  rw [overwrite, List.flatMap_append, List.flatMap_append, List.length_append, List.length_append]
  omega

theorem length_foldl_set {β : Type*} (place : β → Nat) (entry : β → α) (list : List β)
    (array : List α) :
    (list.foldl (fun array b => array.set (place b) (entry b)) array).length = array.length := by
  induction list generalizing array with
  | nil => rfl
  | cons b rest ih => rw [List.foldl_cons, ih, List.length_set]

theorem getElem?_foldl_set {β : Type*} (place : β → Nat) (entry : β → α) {list : List β}
    {array : List α} (apart : ∀ b ∈ list, ∀ c ∈ list, place b = place c → b = c)
    {b : β} (mem : b ∈ list) (room : place b < array.length) :
    (list.foldl (fun array b => array.set (place b) (entry b)) array)[place b]? =
      some (entry b) := by
  induction list using List.reverseRecOn with
  | nil => cases mem
  | append_singleton list last ih =>
      rw [List.foldl_append, List.foldl_cons, List.foldl_nil, List.getElem?_set]
      by_cases same : place last = place b
      · obtain rfl := apart last (by simp) b mem same
        simp [length_foldl_set, room]
      · have before : b ∈ list := by
          rcases List.mem_append.1 mem with before | only
          · exact before
          · exact absurd (by rw [List.mem_singleton.1 only]) same
        rw [if_neg same]
        exact ih (fun b hb c hc => apart b (by simp [hb]) c (by simp [hc])) before

/-! ## One entry among those that are chosen -/

section

variable {l : List α} {i : Nat} {x y : α} {p : α → Bool}

theorem exists_split (entry : l[i]? = some x) : ∃ a b, l = a ++ x :: b ∧ a.length = i := by
  obtain ⟨inside, rfl⟩ := List.getElem?_eq_some_iff.1 entry
  refine ⟨l.take i, l.drop (i + 1), ?_, List.length_take_of_le (Nat.le_of_lt inside)⟩
  rw [List.getElem_cons_drop, List.take_append_drop]

theorem filter_set_of_pos (entry : l[i]? = some x) (before : p x = true) (after : p y = true) :
    ∃ a b, l.filter p = a ++ x :: b ∧ (l.set i y).filter p = a ++ y :: b := by
  obtain ⟨a, b, rfl, rfl⟩ := exists_split entry
  exact ⟨a.filter p, b.filter p, by simp [before], by simp [after]⟩

theorem filter_set_of_neg (entry : l[i]? = some x) (before : p x = false) (after : p y = false) :
    (l.set i y).filter p = l.filter p := by
  obtain ⟨a, b, rfl, rfl⟩ := exists_split entry
  simp [before, after]

theorem filter_eraseIdx_of_pos (entry : l[i]? = some x) (chosen : p x = true) :
    ∃ a b, l.filter p = a ++ x :: b ∧ (l.eraseIdx i).filter p = a ++ b := by
  obtain ⟨a, b, rfl, rfl⟩ := exists_split entry
  exact ⟨a.filter p, b.filter p, by simp [chosen], by simp [List.eraseIdx_append_of_length_le]⟩

theorem filter_eraseIdx_of_neg (entry : l[i]? = some x) (other : p x = false) :
    (l.eraseIdx i).filter p = l.filter p := by
  obtain ⟨a, b, rfl, rfl⟩ := exists_split entry
  simp [other, List.eraseIdx_append_of_length_le]

end

end SimpleSSD.Foundation
