import Mathlib.Tactic.SplitIfs
import SimpleSSD.Util.Def

/-!
# Buffers of bytes

A buffer may be read inside of its size only.  Numbers are little-endian.
-/

namespace SimpleSSD.ISC

open SimpleSSD.Foundation

structure Buffer where
  size : Nat
  byte : Nat → UInt8

/-- The number in `n` bytes from `ofs` on. -/
def leValue (byte : Nat → UInt8) (ofs : Nat) : Nat → Nat
  | 0 => 0
  | n + 1 => (byte ofs).toNat + 256 * leValue byte (ofs + 1) n

theorem leValue_lt (byte : Nat → UInt8) (ofs n : Nat) : leValue byte ofs n < 256 ^ n := by
  induction n generalizing ofs with
  | zero => simp [leValue]
  | succ n ih =>
      have first := (byte ofs).toNat_lt
      have later := ih (ofs + 1)
      rw [leValue, Nat.pow_succ]
      omega

namespace Buffer

def le (buf : Buffer) (ofs n : Nat) : Except Fault Nat :=
  if ofs + n ≤ buf.size then .ok (leValue buf.byte ofs n) else .error .undefined

theorem le_of_inside {buf : Buffer} {ofs n : Nat} (inside : ofs + n ≤ buf.size) :
    buf.le ofs n = .ok (leValue buf.byte ofs n) := if_pos inside

theorem le_eq_ok {buf : Buffer} {ofs n value : Nat} (read : buf.le ofs n = .ok value) :
    ofs + n ≤ buf.size ∧ value = leValue buf.byte ofs n := by
  unfold le at read
  split_ifs at read with inside
  exact ⟨inside, (Except.ok.inj read).symm⟩

end Buffer

abbrev Image := Nat → UInt8

def BLK_SIZE : Nat := 4096

def Image.block (image : Image) (blkNum : Nat) : Buffer where
  size := BLK_SIZE
  byte i := image (blkNum * BLK_SIZE + i)

end SimpleSSD.ISC
