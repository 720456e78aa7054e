import Mathlib.Data.List.Basic
import Mathlib.Data.Nat.Init

/-!
# Lines

A list with delimiters in it falls into lines.  A line stands between two of them, or an end of
the list, and has none.
-/

namespace SimpleSSD.Foundation

variable {α : Type*} {d : α} {l : List α} {a b a' b' p q : Nat}

/-- What stands from `a` on, in front of `b`. -/
def cut (l : List α) (a b : Nat) : List α := (l.drop a).take (b - a)

theorem not_mem_cut_iff : d ∉ cut l a b ↔ ∀ i, a ≤ i → i < b → l[i]? ≠ some d := by
  rw [cut, List.mem_iff_getElem?, not_exists]
  constructor
  · intro none i low high stands
    refine none (i - a) ?_
    rw [List.getElem?_take_of_lt (by omega), List.getElem?_drop, Nat.add_sub_cancel' low]
    exact stands
  · intro none k stands
    by_cases inside : k < b - a
    · rw [List.getElem?_take_of_lt inside, List.getElem?_drop] at stands
      exact none (a + k) (Nat.le_add_right a k) (by omega) stands
    · rw [List.getElem?_take_eq_none (by omega)] at stands
      cases stands

/-- The line from `a` on ends in front of `b`. -/
structure IsLine (d : α) (l : List α) (a b : Nat) : Prop where
  le : a ≤ b
  inside : b ≤ l.length
  starts : a = 0 ∨ l[a - 1]? = some d
  stops : b = l.length ∨ l[b]? = some d
  inner : d ∉ cut l a b

/-- The line that the places from `p` on, in front of `q`, stand in. -/
def LineOf (d : α) (l : List α) (p q : Nat) (line : List α) : Prop :=
  ∃ a b, IsLine d l a b ∧ a ≤ p ∧ q ≤ b ∧ line = cut l a b

/-- From `a` to `b` there are only the delimiters between `p` and `q`. -/
structure Enclosed (d : α) (l : List α) (p q a b : Nat) : Prop where
  before : a ≤ p
  behind : q ≤ b
  starts : a = 0 ∨ l[a - 1]? = some d
  stops : l[b]? = some d
  left : ∀ i, a ≤ i → i < p → l[i]? ≠ some d
  right : ∀ i, q ≤ i → i < b → l[i]? ≠ some d

theorem exists_start (d : α) (l : List α) (p : Nat) :
    ∃ a ≤ p, (a = 0 ∨ l[a - 1]? = some d) ∧ ∀ i, a ≤ i → i < p → l[i]? ≠ some d := by
  induction p with
  | zero => exact ⟨0, Nat.le_refl 0, .inl rfl, fun i _ hi => absurd hi (Nat.not_lt_zero i)⟩
  | succ p ih =>
      by_cases delimiter : l[p]? = some d
      · exact ⟨p + 1, Nat.le_refl _, .inr delimiter, fun i low high => by omega⟩
      · obtain ⟨a, le, starts, none⟩ := ih
        refine ⟨a, Nat.le_succ_of_le le, starts, fun i low high => ?_⟩
        rcases Nat.lt_succ_iff_lt_or_eq.1 high with lt | rfl
        · exact none i low lt
        · exact delimiter

theorem exists_stop (d : α) {l : List α} {q : Nat} (inside : q ≤ l.length) :
    ∃ b, q ≤ b ∧ b ≤ l.length ∧ (b = l.length ∨ l[b]? = some d) ∧
      ∀ i, q ≤ i → i < b → l[i]? ≠ some d := by
  induction inside using Nat.decreasingInduction with
  | self => exact ⟨l.length, Nat.le_refl _, Nat.le_refl _, .inl rfl, fun i low high => by omega⟩
  | of_succ q hq ih =>
      by_cases delimiter : l[q]? = some d
      · exact ⟨q, Nat.le_refl q, Nat.le_of_lt hq, .inr delimiter, fun i low high => by omega⟩
      · obtain ⟨b, le, inside, stops, none⟩ := ih
        refine ⟨b, Nat.le_of_succ_le le, inside, stops, fun i low high => ?_⟩
        rcases Nat.eq_or_lt_of_le low with rfl | lt
        · exact delimiter
        · exact none i lt high

theorem exists_lineOf (le : p ≤ q) (inside : q ≤ l.length)
    (inner : ∀ i, p ≤ i → i < q → l[i]? ≠ some d) : ∃ line, LineOf d l p q line := by
  obtain ⟨a, before, starts, left⟩ := exists_start d l p
  obtain ⟨b, behind, fits, stops, right⟩ := exists_stop d inside
  refine ⟨cut l a b, a, b, ⟨by omega, fits, starts, stops, ?_⟩, before, behind, rfl⟩
  refine not_mem_cut_iff.2 fun i low high => ?_
  by_cases first : i < p
  · exact left i low first
  · by_cases second : i < q
    · exact inner i (by omega) second
    · exact right i (by omega) high

/-- What reaches around to the next delimiters is a line, if it has none. -/
theorem Enclosed.isLine (enclosed : Enclosed d l p q a b) (le : p ≤ q) (inner : d ∉ cut l a b) :
    IsLine d l a b where
  le := by
    have before := enclosed.before
    have behind := enclosed.behind
    omega
  inside := Nat.le_of_lt (List.getElem?_eq_some_iff.1 enclosed.stops).1
  starts := enclosed.starts
  stops := .inr enclosed.stops
  inner := inner

theorem IsLine.enclosed (line : IsLine d l a b) (start : a ≤ p) (le : p ≤ q) (stop : q ≤ b)
    (more : d ∈ l.drop q) : Enclosed d l p q a b := by
  have inner := not_mem_cut_iff.1 line.inner
  refine ⟨start, stop, line.starts, ?_, fun i low high => inner i low (by omega),
    fun i low high => inner i (by omega) high⟩
  rcases line.stops with whole | delimiter
  · obtain ⟨k, hk⟩ := List.mem_iff_getElem?.1 more
    rw [List.getElem?_drop] at hk
    have lt := (List.getElem?_eq_some_iff.1 hk).1
    exact absurd hk (inner (q + k) (by omega) (by omega))
  · exact delimiter

end SimpleSSD.Foundation
