import Mathlib.Data.List.Sort
import Mathlib.Data.List.Perm.Basic

/-!
# Priority queues

A queue whose top has the least key.  The order of the other items is left to
the implementation: removing the top leaves any queue of the items below it.
An item that is pushed passes the top only if its key is strictly smaller.
-/

namespace SimpleSSD.Foundation

variable {α : Type*} {key : α → Nat}

structure PriorityQueue (α : Type*) (key : α → Nat) where
  items : List α
  top_le : ∀ top ∈ items.head?, ∀ x ∈ items, key top ≤ key x

namespace PriorityQueue

def empty : PriorityQueue α key where
  items := []
  top_le := by simp

def top? (q : PriorityQueue α key) : Option α := q.items.head?

def pushItems (key : α → Nat) (x : α) : List α → List α
  | [] => [x]
  | top :: rest => if key x < key top then x :: top :: rest else top :: x :: rest

def push (q : PriorityQueue α key) (x : α) : PriorityQueue α key where
  items := pushItems key x q.items
  top_le := by
    have least := q.top_le
    cases hitems : q.items with
    | nil => simp [pushItems]
    | cons top rest =>
        simp only [hitems, List.head?_cons, Option.mem_def, Option.some.injEq,
          forall_eq', List.mem_cons, forall_eq_or_imp, le_refl, true_and] at least
        by_cases before : key x < key top
        · simp only [pushItems, before, if_true, List.head?_cons, Option.mem_def,
            Option.some.injEq, forall_eq', List.mem_cons, forall_eq_or_imp, le_refl,
            true_and]
          exact ⟨before.le, fun y hy => before.le.trans (least y hy)⟩
        · simp only [pushItems, before, if_false, List.head?_cons, Option.mem_def,
            Option.some.injEq, forall_eq', List.mem_cons, forall_eq_or_imp, le_refl,
            true_and]
          exact ⟨not_lt.1 before, least⟩

def PopsTo (q rest : PriorityQueue α key) : Prop := rest.items.Perm q.items.tail

instance [DecidableEq α] (q rest : PriorityQueue α key) : Decidable (q.PopsTo rest) :=
  inferInstanceAs (Decidable (List.Perm _ _))

variable {q rest : PriorityQueue α key} {x top : α}

theorem push_perm : (q.push x).items.Perm (x :: q.items) := by
  change (pushItems key x q.items).Perm _
  cases q.items with
  | nil => exact List.Perm.refl _
  | cons head tail =>
      by_cases before : key x < key head
      · simp only [pushItems, before, if_true]
        exact List.Perm.refl _
      · simp only [pushItems, before, if_false]
        exact List.Perm.swap _ _ _

theorem top?_push_empty (hempty : q.items = []) : (q.push x).top? = some x := by
  change (pushItems key x q.items).head? = _
  rw [hempty]
  rfl

theorem top?_push_of_le (htop : q.top? = some top) (le : key top ≤ key x) :
    (q.push x).top? = some top ∧ (q.push x).items.tail.Perm (x :: q.items.tail) := by
  change q.items.head? = some top at htop
  change (pushItems key x q.items).head? = _ ∧ (pushItems key x q.items).tail.Perm _
  cases hitems : q.items with
  | nil => simp [hitems] at htop
  | cons head tail =>
      obtain rfl : head = top := by simpa [hitems] using htop
      simp [pushItems, not_lt.2 le]

theorem top?_push_of_lt (htop : q.top? = some top) (before : key x < key top) :
    (q.push x).top? = some x := by
  change q.items.head? = some top at htop
  change (pushItems key x q.items).head? = _
  cases hitems : q.items with
  | nil => simp [hitems] at htop
  | cons head tail =>
      obtain rfl : head = top := by simpa [hitems] using htop
      simp [pushItems, before]

theorem items_eq_cons (htop : q.top? = some top) : q.items = top :: q.items.tail :=
  (List.cons_head?_tail htop).symm

theorem top?_eq_none : q.top? = none ↔ q.items = [] := List.head?_eq_none_iff

theorem exists_popsTo (q : PriorityQueue α key) : ∃ rest, q.PopsTo rest := by
  let le := fun x y => decide (key x ≤ key y)
  have trans (a b c : α) (hab : le a b) (hbc : le b c) : le a c := by
    simp only [le, decide_eq_true_eq] at *
    omega
  have total (a b : α) : le a b || le b a := by
    simp only [le, Bool.or_eq_true, decide_eq_true_eq]
    omega
  have pairs : (q.items.tail.mergeSort le).Pairwise fun x y => key x ≤ key y := by
    simpa only [le, decide_eq_true_eq] using List.pairwise_mergeSort trans total q.items.tail
  refine ⟨⟨q.items.tail.mergeSort le, ?_⟩, List.mergeSort_perm _ _⟩
  revert pairs
  cases q.items.tail.mergeSort le with
  | nil => simp
  | cons head tail =>
      intro pairs
      simpa using (List.pairwise_cons.1 pairs).1

end PriorityQueue

end SimpleSSD.Foundation
