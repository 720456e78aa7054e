import Mathlib.Data.List.Basic
import Mathlib.Logic.Function.Basic

/-!
# Debts paid in turn

A list of debts is paid from the balances of the debtors, one after the other.
All of it can be paid exactly when no debtor owes more than it holds.
-/

namespace SimpleSSD.Foundation

variable {α : Type*} [DecidableEq α]

def owed : List (α × Nat) → α → Nat
  | [], _ => 0
  | debt :: debts, a => (if debt.1 = a then debt.2 else 0) + owed debts a

def Affordable (debts : List (α × Nat)) (held : α → Nat) : Prop :=
  ∀ a, owed debts a ≤ held a

def pay (held : α → Nat) (debt : α × Nat) : α → Nat :=
  Function.update held debt.1 (held debt.1 - debt.2)

def payAll (held : α → Nat) (debts : List (α × Nat)) : α → Nat := debts.foldl pay held

def settle (held : α → Nat) (debts : List (α × Nat)) : α → Nat :=
  debts.foldl (fun held debt => if debt.2 ≤ held debt.1 then pay held debt else held) held

variable (debt : α × Nat) (debts more : List (α × Nat)) (held : α → Nat)

theorem owed_cons (a : α) :
    owed (debt :: debts) a = (if debt.1 = a then debt.2 else 0) + owed debts a := rfl

theorem pay_self : pay held debt debt.1 = held debt.1 - debt.2 := by simp [pay]

theorem pay_of_ne {a : α} (h : a ≠ debt.1) : pay held debt a = held a := by simp [pay, h]

theorem affordable_nil : Affordable [] held := fun _ => Nat.zero_le _

theorem affordable_cons :
    Affordable (debt :: debts) held ↔ debt.2 ≤ held debt.1 ∧ Affordable debts (pay held debt) := by
  constructor
  · intro all
    have first := all debt.1
    rw [owed_cons, if_pos rfl] at first
    refine ⟨by omega, fun a => ?_⟩
    by_cases h : a = debt.1
    · rw [h, pay_self]
      omega
    · have rest := all a
      rw [owed_cons, if_neg (Ne.symm h)] at rest
      rw [pay_of_ne debt held h]
      omega
  · rintro ⟨first, all⟩ a
    have rest := all a
    rw [owed_cons]
    by_cases h : a = debt.1
    · rw [h, pay_self] at rest
      rw [h, if_pos rfl]
      omega
    · rw [pay_of_ne debt held h] at rest
      rw [if_neg (Ne.symm h)]
      omega

theorem affordable_append :
    Affordable (debts ++ more) held ↔
      Affordable debts held ∧ Affordable more (payAll held debts) := by
  induction debts generalizing held with
  | nil => exact ⟨fun all => ⟨affordable_nil held, all⟩, And.right⟩
  | cons debt debts ih =>
      rw [List.cons_append, affordable_cons, ih, affordable_cons, and_assoc]
      rfl

theorem settle_cons_of_le (h : debt.2 ≤ held debt.1) :
    settle held (debt :: debts) = settle (pay held debt) debts := by
  rw [settle, List.foldl_cons, if_pos h]
  rfl

theorem settle_cons_of_not_le (h : ¬ debt.2 ≤ held debt.1) :
    settle held (debt :: debts) = settle held debts := by
  rw [settle, List.foldl_cons, if_neg h]
  rfl

section Others

variable {debts : List (α × Nat)} {a : α}

theorem owed_of_ne (h : ∀ debt ∈ debts, debt.1 ≠ a) : owed debts a = 0 := by
  induction debts with
  | nil => rfl
  | cons debt debts ih =>
      rw [owed_cons, if_neg (h debt List.mem_cons_self), Nat.zero_add]
      exact ih fun other hmem => h other (List.mem_cons_of_mem debt hmem)

theorem payAll_of_ne (held : α → Nat) (h : ∀ debt ∈ debts, debt.1 ≠ a) :
    payAll held debts a = held a := by
  induction debts generalizing held with
  | nil => rfl
  | cons debt debts ih =>
      have rest := ih (pay held debt) fun other hmem => h other (List.mem_cons_of_mem debt hmem)
      exact rest.trans (pay_of_ne debt held (h debt List.mem_cons_self).symm)

theorem settle_of_ne (held : α → Nat) (h : ∀ debt ∈ debts, debt.1 ≠ a) :
    settle held debts a = held a := by
  induction debts generalizing held with
  | nil => rfl
  | cons debt debts ih =>
      have others : ∀ other ∈ debts, other.1 ≠ a := fun other hmem =>
        h other (List.mem_cons_of_mem debt hmem)
      by_cases enough : debt.2 ≤ held debt.1
      · rw [settle_cons_of_le debt debts held enough, ih _ others]
        exact pay_of_ne debt held (h debt List.mem_cons_self).symm
      · rw [settle_cons_of_not_le debt debts held enough, ih _ others]

end Others

/-- Only the debtors named in the list have to be looked at. -/
theorem affordable_iff_mem :
    Affordable debts held ↔ ∀ a ∈ debts.map Prod.fst, owed debts a ≤ held a := by
  refine ⟨fun all a _ => all a, fun all a => ?_⟩
  by_cases h : a ∈ debts.map Prod.fst
  · exact all a h
  · have others : ∀ debt ∈ debts, debt.1 ≠ a := fun debt hdebt same =>
      h (List.mem_map.2 ⟨debt, hdebt, same⟩)
    rw [owed_of_ne others]
    exact Nat.zero_le _

instance : Decidable (Affordable debts held) :=
  decidable_of_iff _ (affordable_iff_mem debts held).symm

end SimpleSSD.Foundation
