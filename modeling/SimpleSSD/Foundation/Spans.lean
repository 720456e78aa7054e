import Mathlib.Order.Lattice
import Mathlib.Data.List.Pairwise
import Mathlib.Data.List.Perm.Subperm

/-!
# Spans that stay clear of each other

A span is given by its first and its last point.  Spans are carved out of a span:
the parts are clear of everything the whole was clear of.
-/

namespace SimpleSSD.Foundation

variable {α β : Type*}

theorem perm_cons_eraseP {p : β → Bool} {list : List β} {a : β} (h : list.find? p = some a) :
    list.Perm (a :: list.eraseP p) := by
  induction list with
  | nil => cases h
  | cons other rest ih =>
      cases hp : p other with
      | true =>
          rw [List.find?_cons_of_pos hp] at h
          rw [List.eraseP_cons_of_pos hp]
          cases h
          exact List.Perm.refl _
      | false =>
          rw [List.find?_cons_of_neg (by simp [hp])] at h
          rw [List.eraseP_cons_of_neg (by simp [hp])]
          exact ((ih h).cons other).trans (.swap ..)

theorem pairwise_of_subperm {r : β → β → Prop} {list list' : List β}
    (symm : ∀ {a b}, r a b → r b a) (h : List.Subperm list' list) (apart : list.Pairwise r) :
    list'.Pairwise r := by
  obtain ⟨middle, hperm, hsublist⟩ := h
  exact (apart.sublist hsublist).perm hperm symm

variable [LinearOrder α] {a b part : α × α} {list list' parts rest : List (α × α)}

def Clear (a b : α × α) : Prop := a.2 < b.1 ∨ b.2 < a.1

theorem Clear.symm (h : Clear a b) : Clear b a := Or.symm h

instance : Std.Symm (@Clear α _) := ⟨fun _ _ => Clear.symm⟩

theorem Clear.of_within (h : Clear a b) (first : a.1 ≤ part.1) (last : part.2 ≤ a.2) :
    Clear part b := by
  rcases h with h | h
  · exact .inl (last.trans_lt h)
  · exact .inr (h.trans_le first)

theorem Clear.not_both {x : α} (h : Clear a b) (inA : a.1 ≤ x ∧ x ≤ a.2)
    (inB : b.1 ≤ x ∧ x ≤ b.2) : False := by
  rcases h with h | h
  · exact absurd (h.trans_le inB.1) inA.2.not_gt
  · exact absurd (h.trans_le inA.1) inB.2.not_gt

theorem clear_of_pairwise (apart : list.Pairwise Clear) (ha : a ∈ list) (hb : b ∈ list) :
    a = b ∨ Clear a b := by
  by_cases same : a = b
  · exact .inl same
  · exact .inr (apart.forall ha hb same)

theorem pairwise_clear_of_subperm (h : List.Subperm list' list) (apart : list.Pairwise Clear) :
    list'.Pairwise Clear :=
  pairwise_of_subperm Clear.symm h apart

theorem pairwise_clear_parts (h : (a :: rest).Pairwise Clear)
    (within : ∀ part ∈ parts, a.1 ≤ part.1 ∧ part.2 ≤ a.2) (apart : parts.Pairwise Clear) :
    (parts ++ rest).Pairwise Clear := by
  obtain ⟨hclear, hrest⟩ := List.pairwise_cons.1 h
  refine List.pairwise_append.2 ⟨apart, hrest, fun part hpart other hother => ?_⟩
  obtain ⟨first, last⟩ := within part hpart
  exact (hclear other hother).of_within first last

end SimpleSSD.Foundation
