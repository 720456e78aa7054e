import Mathlib.Data.List.Nodup

/-!
# Selections that are prefixes

When what is selected of a list stands at the front of it, and how that shows element by
element.
-/

namespace SimpleSSD.Foundation

variable {α β : Type*} {p q : α → Bool} {l m : List α}

theorem forall_mem_dropLast_cons {P : α → Prop} {a : α} :
    (∀ b ∈ (a :: l).dropLast, P b) ↔ (l ≠ [] → P a) ∧ ∀ b ∈ l.dropLast, P b := by
  cases l <;> simp

/-- What is selected is a prefix if nothing else stands before it. -/
theorem filter_prefix_iff : l.filter p <+: l ↔ l.Pairwise fun a b => p b = true → p a = true := by
  induction l with
  | nil => simp
  | cons a rest ih =>
      rw [List.pairwise_cons]
      by_cases here : p a = true
      · rw [List.filter_cons_of_pos here, List.cons_prefix_cons, ih]
        simp [here]
      · rw [List.filter_cons_of_neg here]
        have none : rest.filter p <+: a :: rest ↔ ∀ b ∈ rest, p b = true → p a = true := by
          constructor
          · intro front b hb selected
            cases selection : rest.filter p with
            | nil =>
                rw [List.filter_eq_nil_iff] at selection
                exact absurd selected (selection b hb)
            | cons c later =>
                rw [selection, List.cons_prefix_cons] at front
                have first := List.of_mem_filter (selection ▸ List.mem_cons_self :
                  c ∈ rest.filter p)
                rwa [front.1] at first
          · intro all
            have nothing : rest.filter p = [] :=
              List.filter_eq_nil_iff.2 fun b hb selected => here (all b hb selected)
            rw [nothing]
            exact List.nil_prefix
        rw [none, iff_self_and]
        intro all
        exact List.pairwise_of_forall_mem_list fun b _ c hc selected =>
          absurd (all c hc selected) here

theorem filter_prefix_filter_iff (weaker : ∀ a ∈ l, q a = true → p a = true) :
    l.filter q <+: l.filter p ↔
      l.Pairwise fun a b => p a = true → q b = true → q a = true := by
  have twice : l.filter q = (l.filter p).filter q := by
    rw [List.filter_filter]
    refine List.filter_congr fun a ha => ?_
    by_cases h : q a = true
    · simp [h, weaker a ha h]
    · simp [h]
  rw [twice, filter_prefix_iff, List.pairwise_filter]
  refine List.Pairwise.iff_of_mem fun {a b} _ hb => ?_
  constructor
  · intro h pa qb
    exact h pa (weaker b hb qb) qb
  · intro h pa _ qb
    exact h pa qb

theorem map_prefix_iff {f : α → β} {all : List α} (apart : (all.map f).Nodup)
    (left : l ⊆ all) (right : m ⊆ all) : l.map f <+: m.map f ↔ l <+: m := by
  refine ⟨fun front => ?_, fun front => front.map f⟩
  induction l generalizing m with
  | nil => exact List.nil_prefix
  | cons a rest ih =>
      cases m with
      | nil => cases List.eq_nil_of_prefix_nil front
      | cons b later =>
          rw [List.map_cons, List.map_cons, List.cons_prefix_cons] at front
          obtain ⟨first, left⟩ := List.cons_subset.1 left
          obtain ⟨first', right⟩ := List.cons_subset.1 right
          rw [List.cons_prefix_cons]
          exact ⟨List.inj_on_of_nodup_map apart first first' front.1, ih left right front.2⟩

theorem filter_zipIdx_outside {a b : Nat} (le : a ≤ b) (l : List α) (j : Nat) :
    ((l.zipIdx j).filter fun p => decide (p.2 < a ∨ b ≤ p.2)).map Prod.fst =
      l.take (a - j) ++ l.drop (b - j) := by
  induction l generalizing j with
  | nil => simp
  | cons x rest ih =>
      have later := ih (j + 1)
      rw [List.zipIdx_cons]
      rcases Nat.lt_or_ge j a with first | beyond
      · obtain ⟨m, hm⟩ : ∃ m, a - j = m + 1 := ⟨a - j - 1, by omega⟩
        obtain ⟨n, hn⟩ : ∃ n, b - j = n + 1 := ⟨b - j - 1, by omega⟩
        rw [show a - (j + 1) = m by omega, show b - (j + 1) = n by omega] at later
        rw [List.filter_cons_of_pos (by simp [first]), List.map_cons, later, hm, hn,
          List.take_succ_cons, List.drop_succ_cons, List.cons_append]
      · rw [show a - (j + 1) = 0 by omega] at later
        rw [show a - j = 0 by omega]
        rcases Nat.lt_or_ge j b with inside | last
        · obtain ⟨n, hn⟩ : ∃ n, b - j = n + 1 := ⟨b - j - 1, by omega⟩
          rw [show b - (j + 1) = n by omega] at later
          rw [List.filter_cons_of_neg (by simp [beyond, inside]), later, hn, List.drop_succ_cons,
            List.take_zero, List.take_zero]
        · rw [show b - (j + 1) = 0 by omega] at later
          rw [List.filter_cons_of_pos (by simp [last]), List.map_cons, later,
            show b - j = 0 by omega]
          rfl

end SimpleSSD.Foundation
