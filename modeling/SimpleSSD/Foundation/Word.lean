import Mathlib.Tactic.Ring

/-!
# Unsigned 64-bit words

The simulator keeps ticks, page counts and balances in `uint64_t`.  A word is
represented by a natural number; the operations below say what the machine
computes where the mathematical result leaves the range.
-/

namespace SimpleSSD.Foundation

def wordSize : Nat := 2 ^ 64

def sub64 (a b : Nat) : Nat := if b ≤ a then a - b else a + wordSize - b

def add64 (a b : Nat) : Nat := (a + b) % wordSize

def mul64 (a b : Nat) : Nat := (a * b) % wordSize

theorem sub64_of_le {a b : Nat} (h : b ≤ a) : sub64 a b = a - b := by
  simp [sub64, h]

theorem sub64_add_cancel {a b : Nat} (h : b ≤ a) : sub64 a b + b = a := by
  rw [sub64_of_le h]
  omega

theorem sub64_le {a b : Nat} (h : b ≤ a) : sub64 a b ≤ a := by
  rw [sub64_of_le h]
  omega

theorem add64_of_lt {a b : Nat} (h : a + b < wordSize) : add64 a b = a + b :=
  Nat.mod_eq_of_lt h

end SimpleSSD.Foundation
