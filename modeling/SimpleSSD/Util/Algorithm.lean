import SimpleSSD.Foundation.BitFields

/-!
# Bit arithmetic

`util/algorithm.hh`: the number of ones in a word, and masks of the bits that the numbers below
a bound need.
-/

namespace SimpleSSD

open SimpleSSD.Foundation

/-- `popcount<uint64_t>`, which adds up ever wider groups of bits. -/
def popcount64 (v : Nat) : Nat :=
  let ones := 2 ^ 64 - 1
  let v := v - (v >>> 1 &&& ones / 3)
  let v := (v &&& ones / 15 * 3) + (v >>> 2 &&& ones / 15 * 3)
  let v := (v + v >>> 4) &&& ones / 255 * 15
  (v * (ones / 255) % 2 ^ 64) >>> 56 % 2 ^ 8

theorem popcount64_fieldMask {shift width : Nat} (within : shift + width ≤ 64) :
    popcount64 (fieldMask shift width) = width := by
  have all : ∀ s < 65, ∀ w < 65, s + w ≤ 64 → popcount64 (fieldMask s w) = w := by decide +kernel
  exact all shift (by omega) width (by omega) within

def clzl (val : Nat) : Nat := 63 - val.log2

def ffsl (val : Nat) : Nat :=
  match (List.range 64).find? val.testBit with
  | some i => i + 1
  | none => 0

/-- The mask behind `count` bits, and how many bits are used with it. -/
def generateMask (val count : Nat) : Nat × Nat :=
  let mask := 2 ^ 64 - 1
  let (tmp, mask) :=
    if 0 < val then
      let shift := clzl val
      let shift := if shift + ffsl val = 64 then shift + 1 else shift
      (64 - shift, mask <<< (64 - shift) % 2 ^ 64)
    else (0, mask)
  ((2 ^ 64 - 1 - mask) <<< count % 2 ^ 64, (count + tmp) % 2 ^ 32)

theorem ffsl_two_pow {k : Nat} (small : k < 64) : ffsl (2 ^ k) = k + 1 := by
  have first : (List.range 64).find? (2 ^ k).testBit = some k := by
    rw [List.find?_range_eq_some]
    simp [Nat.testBit_two_pow, small]
    omega
  simp [ffsl, first]

theorem ffsl_fieldMask {shift width : Nat} (some' : 0 < width) (within : shift + width ≤ 64) :
    ffsl (fieldMask shift width) = shift + 1 := by
  have first : (List.range 64).find? (fieldMask shift width).testBit = some shift := by
    rw [List.find?_range_eq_some]
    simp only [testBit_fieldMask, List.mem_range, decide_eq_true_eq]
    refine ⟨by omega, by omega, fun j below => ?_⟩
    simp
    omega
  simp [ffsl, first]

theorem eq_two_pow_of_ffsl {val : Nat} (positive : 0 < val) (lowest : ffsl val = val.log2 + 1) :
    val = 2 ^ val.log2 := by
  unfold ffsl at lowest
  split at lowest
  next i found =>
    obtain rfl : i = val.log2 := by omega
    obtain ⟨-, -, lower⟩ := List.find?_range_eq_some.1 found
    refine Nat.eq_of_testBit_eq fun j => ?_
    rcases Nat.lt_trichotomy j val.log2 with below | rfl | above
    · simpa [Nat.testBit_two_pow, below.ne'] using lower j below
    · simp [Nat.testBit_log2 positive.ne']
    · have high : val.testBit j = false := Nat.testBit_lt_two_pow
        (Nat.lt_log2_self.trans_le (Nat.pow_le_pow_right (by decide) above))
      simp [high, above.ne]
  next none => omega

theorem clog_eq_log2 {val : Nat} (positive : 0 < val) (other : val ≠ 2 ^ val.log2) :
    Nat.clog 2 val = val.log2 + 1 := by
  have least : 2 ^ val.log2 < val :=
    lt_of_le_of_ne (Nat.log2_self_le positive.ne') other.symm
  refine Nat.le_antisymm ?_ ?_
  · exact (Nat.clog_le_iff_le_pow (by decide)).2 Nat.lt_log2_self.le
  · exact (Nat.lt_clog_iff_pow_lt (by decide)).2 least

theorem leading_eq_clog {val : Nat} (positive : 0 < val) (word : val < 2 ^ 32) :
    64 - (if clzl val + ffsl val = 64 then clzl val + 1 else clzl val) = Nat.clog 2 val := by
  have small : val.log2 < 32 := (Nat.log2_lt positive.ne').2 word
  by_cases power : val = 2 ^ val.log2
  · have lowest : ffsl val = val.log2 + 1 := by
      conv_lhs => rw [power]
      exact ffsl_two_pow (by omega)
    have bits : Nat.clog 2 val = val.log2 := by
      conv_lhs => rw [power]
      exact Nat.clog_pow 2 _ (by decide)
    rw [bits, lowest, if_pos (by unfold clzl; omega), clzl]
    omega
  · have above : ¬ clzl val + ffsl val = 64 := fun full =>
      power (eq_two_pow_of_ffsl positive (by unfold clzl at full; omega))
    rw [clog_eq_log2 positive power, if_neg above, clzl]
    omega

theorem generateMask_eq {val count : Nat} (word : val < 2 ^ 32)
    (within : count + Nat.clog 2 val ≤ 64) :
    generateMask val count = (fieldMask count (Nat.clog 2 val), count + Nat.clog 2 val) := by
  rcases Nat.eq_zero_or_pos val with rfl | positive
  · have none : (2 ^ 64 - 1 - (2 ^ 64 - 1)) <<< count % 2 ^ 64 = 0 := by simp
    simp only [generateMask, Nat.lt_irrefl, if_false, none, Nat.clog_zero_right, fieldMask_zero,
      Nat.add_zero]
    rw [Nat.mod_eq_of_lt (by omega)]
  · have bits := leading_eq_clog positive word
    set width := Nat.clog 2 val
    have below : 2 ^ width ≤ 2 ^ 64 := Nat.pow_le_pow_right (by decide) (by omega)
    have ones : 2 ^ 64 - 1 - (2 ^ 64 - 1) <<< width % 2 ^ 64 = 2 ^ width - 1 := by
      have shifted : (2 ^ 64 - 1) <<< width = 2 ^ 64 * (2 ^ width - 1) + (2 ^ 64 - 2 ^ width) := by
        have least : 1 ≤ 2 ^ width := Nat.one_le_two_pow
        rw [Nat.shiftLeft_eq, Nat.sub_mul, Nat.mul_sub]
        omega
      rw [shifted, Nat.mul_add_mod, Nat.mod_eq_of_lt (by have := Nat.two_pow_pos width; omega)]
      omega
    have fits : fieldMask count width < 2 ^ 64 :=
      (fieldMask_lt count width).trans_le (Nat.pow_le_pow_right (by decide) within)
    simp only [generateMask, if_pos positive, bits, ones]
    rw [← fieldMask, Nat.mod_eq_of_lt fits, Nat.mod_eq_of_lt (by omega)]

end SimpleSSD
