import Mathlib.Data.List.Induction
import Mathlib.Data.List.Pairwise
import Mathlib.Order.Nat

/-!
# Pages of a flash

A flash is programmed page by page and erased block by block.  What a history of both leaves in
a block are the pages that have been programmed since its last erase.
-/

namespace SimpleSSD.Foundation

/-- `κ` names the blocks. -/
inductive PageOp (κ : Type*) where
  | program (block : κ) (page : Nat)
  | erase (block : κ)
  deriving DecidableEq, Repr

namespace PageOp

variable {κ : Type*} [DecidableEq κ]

def apply (k : κ) (pages : List Nat) : PageOp κ → List Nat
  | program block page => if block = k then pages ++ [page] else pages
  | erase block => if block = k then [] else pages

def pages (k : κ) (log : List (PageOp κ)) : List Nat := log.foldl (apply k) []

def frontier (pages : List Nat) : Nat := pages.getLast?.elim 0 (· + 1)

/-- No page of the block is programmed behind one that is there. -/
def InOrder (pages : List Nat) : Prop := pages.Pairwise (· < ·)

instance (pages : List Nat) : Decidable (InOrder pages) :=
  inferInstanceAs (Decidable (List.Pairwise _ _))

variable {k block : κ} {page : Nat} {log : List (PageOp κ)} {l : List Nat}

@[simp] theorem pages_nil : pages k [] = [] := rfl

theorem pages_append (later : List (PageOp κ)) :
    pages k (log ++ later) = later.foldl (apply k) (pages k log) := List.foldl_append

theorem pages_program :
    pages k (log ++ [program block page]) =
      if block = k then pages k log ++ [page] else pages k log := by
  rw [pages_append]
  rfl

theorem pages_erase :
    pages k (log ++ [erase block]) = if block = k then [] else pages k log := by
  rw [pages_append]
  rfl

@[simp] theorem frontier_nil : frontier [] = 0 := rfl

@[simp] theorem frontier_concat (l : List Nat) (page : Nat) :
    frontier (l ++ [page]) = page + 1 := by
  simp [frontier]

theorem InOrder.lt_frontier (ordered : InOrder l) {p : Nat} (mem : p ∈ l) : p < frontier l := by
  induction l using List.reverseRecOn with
  | nil => cases mem
  | append_singleton l page =>
      rw [frontier_concat]
      obtain ⟨-, -, before⟩ := List.pairwise_append.1 ordered
      rcases List.mem_append.1 mem with earlier | only
      · exact Nat.lt_succ_of_lt (before p earlier page (List.mem_singleton_self page))
      · exact Nat.lt_succ_of_le (List.mem_singleton.1 only).le

theorem inOrder_concat : InOrder (l ++ [page]) ↔ InOrder l ∧ frontier l ≤ page := by
  constructor
  · intro ordered
    obtain ⟨first, -, before⟩ := List.pairwise_append.1 ordered
    refine ⟨first, ?_⟩
    induction l using List.reverseRecOn with
    | nil => exact Nat.zero_le page
    | append_singleton l last =>
        rw [frontier_concat]
        exact before last (by simp) page (List.mem_singleton_self page)
  · rintro ⟨ordered, above⟩
    refine List.pairwise_append.2 ⟨ordered, List.pairwise_singleton _ _, fun p mem q only => ?_⟩
    rw [List.mem_singleton.1 only]
    exact (ordered.lt_frontier mem).trans_le above

theorem frontier_lt_of_append {more : List Nat} (ordered : InOrder (l ++ more))
    (some' : more ≠ []) : frontier l < frontier (l ++ more) := by
  induction more using List.reverseRecOn with
  | nil => exact absurd rfl some'
  | append_singleton more page ih =>
      rw [← List.append_assoc] at ordered ⊢
      obtain ⟨before, above⟩ := inOrder_concat.1 ordered
      rw [frontier_concat]
      rcases eq_or_ne more [] with rfl | earlier
      · rw [List.append_nil] at above
        exact Nat.lt_succ_of_le above
      · exact ((ih before earlier).trans_le above).trans (Nat.lt_succ_self page)

theorem pages_append_programs {programs : List (κ × Nat)} :
    pages k (log ++ programs.map fun p => program p.1 p.2) =
      pages k log ++ (programs.filter fun p => p.1 = k).map Prod.snd := by
  induction programs using List.reverseRecOn with
  | nil => simp
  | append_singleton programs p ih =>
      rw [List.map_append, List.map_singleton, ← List.append_assoc, pages_program, ih,
        List.filter_append]
      by_cases here : p.1 = k <;> simp [here]

end PageOp

end SimpleSSD.Foundation
