import Mathlib.Algebra.BigOperators.Group.List.Basic
import Mathlib.Data.Nat.Bitwise
import Mathlib.Data.Nat.Log

/-!
# Bit fields

Words that hold one field after the other, from the lowest bit up.  A field is put in its place
and cut out again with a mask, so packing and unpacking are inverse to each other on words with
no bits outside of the fields.
-/

namespace SimpleSSD.Foundation

/-- `width` ones from bit `shift` on. -/
def fieldMask (shift width : Nat) : Nat := (2 ^ width - 1) <<< shift

theorem testBit_fieldMask (shift width i : Nat) :
    (fieldMask shift width).testBit i = decide (shift ≤ i ∧ i < shift + width) := by
  rw [fieldMask, Nat.testBit_shiftLeft, Nat.testBit_two_pow_sub_one]
  by_cases below : shift ≤ i
  · simp [below]
    omega
  · simp [below]

@[simp] theorem fieldMask_zero (shift : Nat) : fieldMask shift 0 = 0 := by simp [fieldMask]

theorem fieldMask_lt (shift width : Nat) : fieldMask shift width < 2 ^ (shift + width) := by
  refine Nat.lt_pow_two_of_testBit _ fun i beyond => ?_
  simp [testBit_fieldMask, Nat.not_lt.2 beyond]

theorem fieldMask_xor (shift first second : Nat) :
    fieldMask shift first ^^^ fieldMask (shift + first) second =
      fieldMask shift (first + second) := by
  refine Nat.eq_of_testBit_eq fun i => ?_
  simp only [Nat.testBit_xor, testBit_fieldMask]
  grind

theorem and_fieldMask_shiftRight (word shift width : Nat) :
    (word &&& fieldMask shift width) >>> shift = (word >>> shift) % 2 ^ width := by
  refine Nat.eq_of_testBit_eq fun i => ?_
  simp [testBit_fieldMask, Nat.testBit_mod_two_pow, Nat.testBit_shiftRight, Bool.and_comm]

theorem shiftLeft_and_fieldMask (value shift width : Nat) :
    value <<< shift &&& fieldMask shift width = (value % 2 ^ width) <<< shift := by
  refine Nat.eq_of_testBit_eq fun i => ?_
  simp only [Nat.testBit_and, testBit_fieldMask, Nat.testBit_shiftLeft, Nat.testBit_mod_two_pow]
  by_cases below : shift ≤ i
  · have inside : i < shift + width ↔ i - shift < width := by omega
    simp [below, inside, Bool.and_comm]
  · simp [below]

/-! ## Fields one behind the other -/

def packFields : Nat → List Nat → List Nat → Nat
  | shift, width :: widths, value :: values =>
      (value <<< shift &&& fieldMask shift width) ||| packFields (shift + width) widths values
  | _, _, _ => 0

def unpackFields : Nat → List Nat → Nat → List Nat
  | _, [], _ => []
  | shift, width :: widths, word =>
      (word &&& fieldMask shift width) >>> shift :: unpackFields (shift + width) widths word

theorem testBit_packFields_of_lt {shift i : Nat} {widths values : List Nat} (below : i < shift) :
    (packFields shift widths values).testBit i = false := by
  induction widths generalizing shift values with
  | nil => simp [packFields]
  | cons width widths ih =>
      cases values with
      | nil => simp [packFields]
      | cons value values =>
          have outside : ¬ shift ≤ i := Nat.not_le.2 below
          simp [packFields, testBit_fieldMask, outside, ih (Nat.lt_add_right width below)]

theorem unpackFields_congr {shift first second : Nat} {widths : List Nat}
    (same : ∀ i, shift ≤ i → first.testBit i = second.testBit i) :
    unpackFields shift widths first = unpackFields shift widths second := by
  induction widths generalizing shift with
  | nil => rfl
  | cons width widths ih =>
      have field : (first &&& fieldMask shift width) >>> shift =
          (second &&& fieldMask shift width) >>> shift := by
        refine Nat.eq_of_testBit_eq fun i => ?_
        simp [same (shift + i) (Nat.le_add_right shift i)]
      rw [unpackFields, unpackFields, field, ih fun i h => same i (by omega)]

theorem unpackFields_packFields {shift : Nat} {widths values : List Nat}
    (fits : List.Forall₂ (fun width value => value < 2 ^ width) widths values) :
    unpackFields shift widths (packFields shift widths values) = values := by
  induction fits generalizing shift with
  | nil => rfl
  | @cons width value widths values small _ ih =>
      have field : ((value <<< shift &&& fieldMask shift width) |||
          packFields (shift + width) widths values) >>> shift % 2 ^ width = value := by
        refine Nat.eq_of_testBit_eq fun i => ?_
        by_cases inside : i < width
        · simp [Nat.testBit_mod_two_pow, testBit_fieldMask, inside,
            testBit_packFields_of_lt (show shift + i < shift + width by omega)]
        · have high : value.testBit i = false :=
            Nat.testBit_lt_two_pow (small.trans_le (Nat.pow_le_pow_right (by decide) (by omega)))
          simp [Nat.testBit_mod_two_pow, inside, high]
      have later : unpackFields (shift + width) widths
          ((value <<< shift &&& fieldMask shift width) |||
            packFields (shift + width) widths values) = values := by
        refine (unpackFields_congr fun i h => ?_).trans ih
        have outside : ¬ i < shift + width := by omega
        simp [testBit_fieldMask, outside]
      rw [packFields, unpackFields, and_fieldMask_shiftRight, field, later]

theorem packFields_unpackFields (shift : Nat) (widths : List Nat) (word : Nat) :
    packFields shift widths (unpackFields shift widths word) =
      word &&& fieldMask shift widths.sum := by
  induction widths generalizing shift with
  | nil => simp [packFields]
  | cons width widths ih =>
      rw [unpackFields, packFields, ih, List.sum_cons, ← fieldMask_xor]
      refine Nat.eq_of_testBit_eq fun i => ?_
      simp only [Nat.testBit_or, Nat.testBit_and, Nat.testBit_shiftLeft, Nat.testBit_shiftRight,
        Nat.testBit_xor, testBit_fieldMask]
      by_cases before : shift ≤ i
      · simp only [Nat.add_sub_cancel' before]
        grind
      · have outside : ¬ shift + width ≤ i := by omega
        simp [before, outside]

theorem packFields_add (shift count : Nat) (widths values : List Nat) :
    packFields (shift + count) widths values = packFields shift widths values <<< count := by
  induction widths generalizing shift values with
  | nil => simp [packFields]
  | cons width widths ih =>
      cases values with
      | nil => simp [packFields]
      | cons value values =>
          have moved := ih (shift + width) values
          rw [Nat.add_right_comm] at moved
          rw [packFields, packFields, moved, shiftLeft_and_fieldMask, shiftLeft_and_fieldMask,
            Nat.shiftLeft_or_distrib, Nat.shiftLeft_add]

theorem packFields_cons {width value : Nat} {widths values : List Nat} (small : value < 2 ^ width) :
    packFields 0 (width :: widths) (value :: values) =
      2 ^ width * packFields 0 widths values + value := by
  have later := packFields_add 0 width widths values
  rw [packFields, shiftLeft_and_fieldMask, Nat.mod_eq_of_lt small, Nat.shiftLeft_zero, later,
    Nat.or_comm, ← Nat.shiftLeft_add_eq_or_of_lt small, Nat.shiftLeft_eq, Nat.mul_comm]

theorem mod_two_pow_and_fieldMask {word shift width bits : Nat} (within : shift + width ≤ bits) :
    word % 2 ^ bits &&& fieldMask shift width = word &&& fieldMask shift width := by
  refine Nat.eq_of_testBit_eq fun i => ?_
  simp only [Nat.testBit_and, Nat.testBit_mod_two_pow, testBit_fieldMask]
  grind

end SimpleSSD.Foundation
