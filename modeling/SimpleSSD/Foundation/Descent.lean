import Mathlib.Data.Set.Finite.Basic
import Mathlib.Data.Fintype.Order
import Mathlib.Logic.Relation

/-!
# Recursions that descend

A recursion looks at a node and goes to its children.  It ends exactly if all nodes that it comes
to are fine and none is below itself, where there are finitely many of them.
-/

namespace SimpleSSD.Foundation

open Relation

variable {α : Type*} {fine fine' : α → Prop} {child : α → α → Prop} {a b : α} {n m : Nat}

/-- The recursion ends within `n` frames. -/
def Ends (fine : α → Prop) (child : α → α → Prop) : Nat → α → Prop
  | 0, _ => False
  | n + 1, a => fine a ∧ ∀ b, child a b → Ends fine child n b

theorem Ends.imp (weaker : ∀ a, fine a → fine' a) (h : Ends fine child n a) :
    Ends fine' child n a := by
  induction n generalizing a with
  | zero => exact h
  | succ n ih => exact ⟨weaker a h.1, fun b below => ih (h.2 b below)⟩

theorem Ends.mono (h : Ends fine child n a) (le : n ≤ m) : Ends fine child m a := by
  induction n generalizing a m with
  | zero => exact absurd h id
  | succ n ih =>
      obtain ⟨m, rfl⟩ := Nat.exists_eq_add_of_le' (Nat.le_trans (Nat.le_add_left 1 n) le)
      exact ⟨h.1, fun b below => ih (h.2 b below) (Nat.le_of_succ_le_succ le)⟩

/-- Finitely many recursions end within one number of frames. -/
theorem exists_ends_all {nodes : Set α} (finite : nodes.Finite)
    (each : ∀ b ∈ nodes, ∃ n, Ends fine child n b) : ∃ n, ∀ b ∈ nodes, Ends fine child n b := by
  induction nodes, finite using Set.Finite.induction_on with
  | empty => exact ⟨0, nofun⟩
  | @insert b rest _ _ ih =>
      obtain ⟨n, first⟩ := each b (Set.mem_insert b rest)
      obtain ⟨m, later⟩ := ih fun c hc => each c (Set.mem_insert_of_mem b hc)
      refine ⟨max n m, ?_⟩
      rintro c (rfl | hc)
      · exact first.mono (Nat.le_max_left n m)
      · exact (later c hc).mono (Nat.le_max_right n m)

theorem Ends.acc (h : Ends fine child n a) : Acc (flip child) a := by
  induction n generalizing a with
  | zero => exact absurd h id
  | succ n ih => exact ⟨a, fun b below => ih (h.2 b below)⟩

theorem Ends.reached (h : Ends fine child n a) (reached : ReflTransGen child a b) : fine b := by
  induction reached using ReflTransGen.head_induction_on generalizing n with
  | refl =>
      cases n with
      | zero => exact absurd h id
      | succ n => exact h.1
  | head below _ ih =>
      cases n with
      | zero => exact absurd h id
      | succ n => exact ih (h.2 _ below)

/-- Among finitely many nodes, descents are bounded exactly if no node is below itself. -/
theorem acc_iff_no_cycle (finite : {b | ReflTransGen child a b}.Finite) :
    Acc (flip child) a ↔ ∀ b, ReflTransGen child a b → ¬ TransGen child b b := by
  constructor
  · intro acc b reached cycle
    have reachedAcc : Acc (flip child) b := by
      clear cycle
      induction reached with
      | refl => exact acc
      | tail _ below ih => exact ih.inv below
    have around : TransGen (flip child) b b := transGen_swap.2 cycle
    have below := reachedAcc.transGen
    clear cycle reached reachedAcc
    induction below with
    | intro b _ ih => exact ih b around around
  · intro none
    let Node := {b // ReflTransGen child a b}
    let below : Node → Node → Prop := fun x y => child y.1 x.1
    have : Finite Node := finite
    have : IsTrans Node (TransGen below) := ⟨fun _ _ _ => TransGen.trans⟩
    have : Std.Irrefl (TransGen below) := ⟨fun x cycle => by
      have around : TransGen (flip child) x.1 x.1 := cycle.lift Subtype.val fun _ _ step => step
      exact none x.1 x.2 (transGen_swap.1 around)⟩
    have founded : WellFounded (TransGen below) := Finite.wellFounded_of_trans_of_irrefl _
    have each : ∀ x : Node, Acc (flip child) x.1 := by
      intro x
      induction x using founded.induction with
      | h x ih =>
          exact ⟨x.1, fun b step => ih ⟨b, x.2.tail step⟩ (.single step)⟩
    exact each ⟨a, .refl⟩

/-- A recursion over finitely many nodes ends exactly if all of them are fine and none is below
itself. -/
theorem exists_ends_iff (finite : {b | ReflTransGen child a b}.Finite) :
    (∃ n, Ends fine child n a) ↔
      ∀ b, ReflTransGen child a b → fine b ∧ ¬ TransGen child b b := by
  constructor
  · rintro ⟨n, h⟩ b reached
    exact ⟨h.reached reached, (acc_iff_no_cycle finite).1 h.acc b reached⟩
  · intro all
    have acc := (acc_iff_no_cycle finite).2 fun b reached => (all b reached).2
    induction acc with
    | intro a _ ih =>
        have children : {b | child a b} ⊆ {b | ReflTransGen child a b} :=
          fun b below => .single below
        obtain ⟨n, later⟩ := exists_ends_all (finite.subset children) fun b below =>
          ih b below (finite.subset fun c reached => ReflTransGen.head below reached)
            fun c reached => all c (ReflTransGen.head below reached)
        exact ⟨n + 1, (all a .refl).1, later⟩

end SimpleSSD.Foundation
