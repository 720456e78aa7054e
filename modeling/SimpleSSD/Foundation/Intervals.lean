import Mathlib.Order.CompletePartialOrder
import Mathlib.Order.Interval.Set.Disjoint
import Mathlib.Data.List.Sort

/-!
# Disjoint intervals and the gaps between them

Half-open intervals given by their two ends.  Sorted intervals that do not
overlap form a chain; the gaps of a chain are what an allocator may hand out.
-/

namespace SimpleSSD.Foundation

variable {α : Type*} [LinearOrder α] {lo hi : α} {i j g : α × α} {l : List (α × α)}

def Apart (i j : α × α) : Prop := i.2 ≤ j.1 ∨ j.2 ≤ i.1

theorem Apart.symm (h : Apart i j) : Apart j i := Or.symm h

theorem Apart.disjoint (h : Apart i j) : Disjoint (Set.Ico i.1 i.2) (Set.Ico j.1 j.2) := by
  rw [Set.disjoint_left]
  rintro x ⟨fromI, belowI⟩ ⟨fromJ, belowJ⟩
  rcases h with h | h
  · exact absurd (belowI.trans_le h) fromJ.not_gt
  · exact absurd (belowJ.trans_le h) fromI.not_gt

theorem Apart.of_subset (h : Apart g j) (first : g.1 ≤ i.1) (last : i.2 ≤ g.2) :
    Apart i j := by
  rcases h with h | h
  · exact .inl (last.trans h)
  · exact .inr (h.trans first)

def Chain (lo hi : α) : List (α × α) → Prop
  | [] => lo ≤ hi
  | i :: rest => lo ≤ i.1 ∧ i.1 ≤ i.2 ∧ Chain i.2 hi rest

def gaps (lo hi : α) : List (α × α) → List (α × α)
  | [] => [(lo, hi)]
  | i :: rest => (lo, i.1) :: gaps i.2 hi rest

theorem Chain.le (chain : Chain lo hi l) : lo ≤ hi := by
  induction l generalizing lo with
  | nil => exact chain
  | cons i rest ih => exact chain.1.trans (chain.2.1.trans (ih chain.2.2))

theorem Chain.within (chain : Chain lo hi l) (hmem : i ∈ l) : lo ≤ i.1 ∧ i.2 ≤ hi := by
  induction l generalizing lo with
  | nil => cases hmem
  | cons head rest ih =>
      obtain ⟨first, ends, later⟩ := chain
      rcases List.mem_cons.1 hmem with rfl | hrest
      · exact ⟨first, later.le⟩
      · obtain ⟨from_, to_⟩ := ih later hrest
        exact ⟨first.trans (ends.trans from_), to_⟩

theorem Chain.gap_within (chain : Chain lo hi l) (hmem : g ∈ gaps lo hi l) :
    lo ≤ g.1 ∧ g.1 ≤ g.2 ∧ g.2 ≤ hi := by
  induction l generalizing lo with
  | nil =>
      obtain rfl := List.mem_singleton.1 hmem
      exact ⟨le_rfl, chain, le_rfl⟩
  | cons head rest ih =>
      obtain ⟨first, ends, later⟩ := chain
      rcases List.mem_cons.1 hmem with rfl | hrest
      · exact ⟨le_rfl, first, ends.trans later.le⟩
      · obtain ⟨from_, sorted, to_⟩ := ih later hrest
        exact ⟨first.trans (ends.trans from_), sorted, to_⟩

theorem Chain.gap_apart (chain : Chain lo hi l) (hgap : g ∈ gaps lo hi l) (hmem : i ∈ l) :
    Apart g i := by
  induction l generalizing lo with
  | nil => cases hmem
  | cons head rest ih =>
      obtain ⟨first, ends, later⟩ := chain
      rcases List.mem_cons.1 hgap with rfl | hlater
      · rcases List.mem_cons.1 hmem with rfl | hrest
        · exact .inl le_rfl
        · exact .inl (ends.trans (later.within hrest).1)
      · rcases List.mem_cons.1 hmem with rfl | hrest
        · exact .inr (later.gap_within hlater).1
        · exact ih later hlater hrest

/-- Sorted non-empty intervals of a range form a chain when no two overlap. -/
theorem chain_of_sorted (le : lo ≤ hi) (sorted : l.Pairwise fun i j => i.1 ≤ j.1)
    (apart : l.Pairwise Apart) (nonempty : ∀ i ∈ l, i.1 < i.2)
    (within : ∀ i ∈ l, lo ≤ i.1 ∧ i.2 ≤ hi) : Chain lo hi l := by
  induction l generalizing lo with
  | nil => exact le
  | cons head rest ih =>
      obtain ⟨before, sortedRest⟩ := List.pairwise_cons.1 sorted
      obtain ⟨apartHead, apartRest⟩ := List.pairwise_cons.1 apart
      obtain ⟨first, last⟩ := within head List.mem_cons_self
      refine ⟨first, (nonempty head List.mem_cons_self).le,
        ih last sortedRest apartRest (fun i hi => nonempty i (List.mem_cons_of_mem _ hi)) ?_⟩
      intro i hmem
      refine ⟨?_, (within i (List.mem_cons_of_mem _ hmem)).2⟩
      rcases apartHead i hmem with h | h
      · exact h
      · have : i.1 < i.1 := calc
          i.1 < i.2 := nonempty i (List.mem_cons_of_mem _ hmem)
          _ ≤ head.1 := h
          _ ≤ i.1 := before i hmem
        exact absurd this (lt_irrefl _)

/-! ## Tilings -/

/-- The intervals follow each other from `lo` to `hi`, with nothing between them. -/
def Tiling (lo hi : α) : List (α × α) → Prop
  | [] => lo = hi
  | i :: rest => i.1 = lo ∧ i.1 ≤ i.2 ∧ Tiling i.2 hi rest

end SimpleSSD.Foundation
