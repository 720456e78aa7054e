import Mathlib.Algebra.Order.Ring.Nat
import Mathlib.Data.UInt
import SimpleSSD.Foundation.Overlay

/-!
# Bytes

Numbers as bytes with the most significant first, and lists that are stored in an array and loaded
from it.
-/

namespace SimpleSSD.Foundation

/-! ## Numbers -/

/-- The last `size` bytes of a number. -/
def bigEndian : Nat → Nat → List UInt8
  | 0, _ => []
  | size + 1, n => UInt8.ofNat (n / 256 ^ size) :: bigEndian size n

def ofBigEndian : List UInt8 → Nat
  | [] => 0
  | b :: rest => b.toNat * 256 ^ rest.length + ofBigEndian rest

@[simp] theorem length_bigEndian (size n : Nat) : (bigEndian size n).length = size := by
  induction size with
  | zero => rfl
  | succ size ih => simp [bigEndian, ih]

theorem ofBigEndian_bigEndian (size n : Nat) :
    ofBigEndian (bigEndian size n) = n % 256 ^ size := by
  induction size with
  | zero => simp [bigEndian, ofBigEndian, Nat.mod_one]
  | succ size ih =>
      have top : n % 256 ^ (size + 1) = n / 256 ^ size % 256 * 256 ^ size + n % 256 ^ size := by
        rw [Nat.pow_succ, Nat.mod_mul, Nat.add_comm, Nat.mul_comm]
      simp [bigEndian, ofBigEndian, ih, top]

/-! ## Lists in an array -/

variable {α : Type*}

def store (array : Nat → α) (start : Nat) (elements : List α) : Nat → α :=
  fill array start elements.get

def load (array : Nat → α) (start len : Nat) : List α := List.ofFn (slice array start len)

section

variable {array : Nat → α} {start len i : Nat} {elements : List α}

@[simp] theorem length_load : (load array start len).length = len := List.length_ofFn

theorem store_of_mem (inside : start ≤ i ∧ i < start + elements.length) :
    store array start elements i = elements.get ⟨i - start, by omega⟩ := fill_of_mem inside

theorem store_of_not_mem (outside : ¬(start ≤ i ∧ i < start + elements.length)) :
    store array start elements i = array i := fill_of_not_mem outside

@[simp] theorem load_store_self : load (store array start elements) start elements.length =
    elements := by
  refine List.ext_getElem (by simp) fun i _ inside => ?_
  have range : start ≤ start + i ∧ start + i < start + elements.length := by omega
  simp [load, slice, store_of_mem range]

theorem load_congr {array' : Nat → α} (same : ∀ i, start ≤ i → i < start + len →
    array i = array' i) : load array start len = load array' start len := by
  refine List.ext_getElem (by simp) fun i inside _ => ?_
  simp only [length_load] at inside
  simp [load, slice, same (start + i) (by omega) (by omega)]

end

end SimpleSSD.Foundation
