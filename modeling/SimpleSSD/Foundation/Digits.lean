import Mathlib.Algebra.BigOperators.Group.List.Basic
import Mathlib.Algebra.Order.Ring.Nat

/-!
# Positional numbers

Numbers whose digits have sizes of their own, the most significant digit first.
-/

namespace SimpleSSD.Foundation.Digits

def value : List ℕ → List ℕ → ℕ
  | _ :: sizes, d :: digits => d * sizes.prod + value sizes digits
  | _, _ => 0

/-- The first digit is what remains above the sizes behind it. -/
def split : List ℕ → ℕ → List ℕ
  | [], _ => []
  | _ :: sizes, n => n / sizes.prod :: split sizes (n % sizes.prod)

variable {sizes digits : List ℕ} {n : ℕ}

theorem value_lt (within : List.Forall₂ (· < ·) digits sizes) :
    value sizes digits < sizes.prod := by
  induction within with
  | nil => simp [value]
  | @cons d size digits sizes less _ ih =>
      calc d * sizes.prod + value sizes digits < d * sizes.prod + sizes.prod :=
            Nat.add_lt_add_left ih _
        _ = (d + 1) * sizes.prod := by rw [Nat.succ_mul]
        _ ≤ size * sizes.prod := Nat.mul_le_mul_right _ less
        _ = (size :: sizes).prod := List.prod_cons.symm

theorem split_value (within : List.Forall₂ (· < ·) digits sizes) :
    split sizes (value sizes digits) = digits := by
  induction within with
  | nil => rfl
  | @cons d size digits sizes _ within ih =>
      have less := value_lt within
      have pos : 0 < sizes.prod := Nat.zero_lt_of_lt less
      have quotient : (d * sizes.prod + value sizes digits) / sizes.prod = d := by
        rw [Nat.mul_comm, Nat.mul_add_div pos, Nat.div_eq_of_lt less, Nat.add_zero]
      have remainder : (d * sizes.prod + value sizes digits) % sizes.prod =
          value sizes digits := by
        rw [Nat.mul_add_mod', Nat.mod_eq_of_lt less]
      simp only [value, split, quotient, remainder, ih]

theorem split_lt (less : n < sizes.prod) : List.Forall₂ (· < ·) (split sizes n) sizes := by
  induction sizes generalizing n with
  | nil => exact .nil
  | cons size sizes ih =>
      rw [List.prod_cons] at less
      have pos : 0 < sizes.prod := Nat.pos_of_mul_pos_left (Nat.zero_lt_of_lt less)
      exact .cons (Nat.div_lt_of_lt_mul (Nat.mul_comm size _ ▸ less)) (ih (Nat.mod_lt n pos))

theorem value_split (less : n < sizes.prod) : value sizes (split sizes n) = n := by
  induction sizes generalizing n with
  | nil =>
      rw [List.prod_nil, Nat.lt_one_iff] at less
      exact less.symm
  | cons size sizes ih =>
      rw [List.prod_cons] at less
      have pos : 0 < sizes.prod := Nat.pos_of_mul_pos_left (Nat.zero_lt_of_lt less)
      simp only [value, split, ih (Nat.mod_lt n pos), Nat.div_add_mod']

end SimpleSSD.Foundation.Digits
