import Mathlib.Algebra.Order.Ring.Nat
import Mathlib.Order.Interval.Finset.Nat
import Mathlib.Data.Finset.Union

/-!
# Covered time

The points that some interval of a list covers.  Intervals that begin in order can be
measured in one sweep that remembers only the latest end: whatever lies between the
beginning of the last interval and that end is covered.
-/

namespace SimpleSSD.Foundation

open Finset

def covered (intervals : List (ℕ × ℕ)) : Finset ℕ :=
  intervals.toFinset.biUnion fun i => Ico i.1 i.2

theorem mem_covered {intervals : List (ℕ × ℕ)} {x : ℕ} :
    x ∈ covered intervals ↔ ∃ i ∈ intervals, i.1 ≤ x ∧ x < i.2 := by
  simp [covered]

@[simp] theorem covered_nil : covered [] = ∅ := rfl

theorem covered_append (intervals : List (ℕ × ℕ)) (i : ℕ × ℕ) :
    covered (intervals ++ [i]) = covered intervals ∪ Ico i.1 i.2 := by
  ext x
  simp only [mem_covered, mem_union, mem_Ico, List.mem_append, List.mem_singleton]
  constructor
  · rintro ⟨j, hold | rfl, hx⟩
    · exact .inl ⟨j, hold, hx⟩
    · exact .inr hx
  · rintro (⟨j, hold, hx⟩ | hx)
    · exact ⟨j, .inl hold, hx⟩
    · exact ⟨i, .inr rfl, hx⟩

theorem covered_cons (i : ℕ × ℕ) (intervals : List (ℕ × ℕ)) :
    covered (i :: intervals) = Ico i.1 i.2 ∪ covered intervals := by
  unfold covered
  rw [List.toFinset_cons, biUnion_insert]

theorem disjoint_covered_iff {points : Finset ℕ} {intervals : List (ℕ × ℕ)} :
    Disjoint points (covered intervals) ↔ ∀ i ∈ intervals, Disjoint points (Ico i.1 i.2) := by
  unfold covered
  rw [disjoint_biUnion_right]
  simp only [List.mem_toFinset]

theorem card_covered_le (intervals : List (ℕ × ℕ)) :
    (covered intervals).card ≤ (intervals.map fun i => i.2 - i.1).sum := by
  induction intervals with
  | nil => exact le_refl 0
  | cons i rest ih =>
      have union := card_union_le (Ico i.1 i.2) (covered rest)
      rw [covered_cons, List.map_cons, List.sum_cons]
      rw [Nat.card_Ico] at union
      omega

/-- The lengths add up to the covered time when no two intervals overlap. -/
theorem card_covered_eq_iff (intervals : List (ℕ × ℕ)) :
    (covered intervals).card = (intervals.map fun i => i.2 - i.1).sum ↔
      intervals.Pairwise fun i j => Disjoint (Ico i.1 i.2) (Ico j.1 j.2) := by
  induction intervals with
  | nil => exact ⟨fun _ => List.Pairwise.nil, fun _ => rfl⟩
  | cons i rest ih =>
      have union := card_union_le (Ico i.1 i.2) (covered rest)
      have le := card_covered_le rest
      have apart := card_union_eq_card_add_card (s := Ico i.1 i.2) (t := covered rest)
      rw [Nat.card_Ico] at union apart
      rw [List.pairwise_cons, ← disjoint_covered_iff, ← ih, ← apart, covered_cons,
        List.map_cons, List.sum_cons]
      omega

/-- `points` ends at `reach` and has no gap from `since` on. -/
structure Swept (points : Finset ℕ) (since reach : ℕ) : Prop where
  below : ∀ x ∈ points, x < reach
  solid : ∀ x, since ≤ x → x < reach → x ∈ points

namespace Swept

variable {points : Finset ℕ} {since reach first last : ℕ}

theorem empty : Swept ∅ 0 0 := ⟨nofun, fun x _ h => absurd h (Nat.not_lt_zero x)⟩

theorem later (swept : Swept points since reach) (h : since ≤ first) :
    Swept points first reach :=
  ⟨swept.below, fun x from_ => swept.solid x (h.trans from_)⟩

theorem inside (swept : Swept points since reach) (h : since ≤ first) (ends : last ≤ reach) :
    points ∪ Ico first last = points := by
  rw [union_eq_left]
  intro x hx
  rw [mem_Ico] at hx
  exact swept.solid x (h.trans hx.1) (hx.2.trans_le ends)

theorem extend (swept : Swept points since reach) (h : since ≤ first) (ends : reach < last) :
    (points ∪ Ico first last).card = points.card + (last - max first reach) ∧
      Swept (points ∪ Ico first last) first last := by
  have added : points ∪ Ico first last = points ∪ Ico (max first reach) last := by
    ext x
    simp only [mem_union, mem_Ico, max_le_iff]
    constructor
    · rintro (old | ⟨from_, to_⟩)
      · exact .inl old
      · by_cases reached : reach ≤ x
        · exact .inr ⟨⟨from_, reached⟩, to_⟩
        · exact .inl (swept.solid x (h.trans from_) (not_le.1 reached))
    · rintro (old | ⟨⟨from_, -⟩, to_⟩)
      · exact .inl old
      · exact .inr ⟨from_, to_⟩
  have apart : Disjoint points (Ico (max first reach) last) := by
    rw [disjoint_left]
    intro x old new
    rw [mem_Ico, max_le_iff] at new
    exact absurd (swept.below x old) (not_lt.2 new.1.2)
  refine ⟨?_, fun x hx => ?_, fun x from_ to_ => ?_⟩
  · rw [added, card_union_of_disjoint apart, Nat.card_Ico]
  · rcases mem_union.1 hx with old | new
    · exact (swept.below x old).trans ends
    · exact (mem_Ico.1 new).2
  · exact mem_union_right _ (mem_Ico.2 ⟨from_, to_⟩)

theorem card_le (swept : Swept points since reach) : points.card ≤ reach := by
  have within : points ⊆ range reach := fun x hx => mem_range.2 (swept.below x hx)
  exact (card_le_card within).trans_eq (card_range reach)

end Swept

end SimpleSSD.Foundation
