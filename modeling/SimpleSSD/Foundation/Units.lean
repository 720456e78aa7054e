import Mathlib.Algebra.Order.Floor.Div
import Mathlib.Data.Nat.ModEq
import SimpleSSD.Foundation.Word

/-!
# Runs of units

Points on a line are counted in units of one size.  A run of units is given by its first one and
their number, and a stretch of points by its first one and its length.
-/

namespace SimpleSSD.Foundation

variable {unit first count ofs len : Nat}

def Covers (unit first count ofs len : Nat) : Prop :=
  ∀ x, ofs ≤ x → x < ofs + len → first ≤ x / unit ∧ x / unit < first + count

/-- A run that begins early enough covers a stretch if it does not end too early. -/
theorem covers_iff (pos : 0 < unit) (positive : 0 < len) (early : first ≤ ofs / unit) :
    Covers unit first count ofs len ↔ ofs + len ≤ (first + count) * unit := by
  constructor
  · intro covers
    have last := (covers (ofs + len - 1) (by omega) (by omega)).2
    rw [Nat.div_lt_iff_lt_mul pos] at last
    omega
  · intro long x low high
    refine ⟨early.trans (Nat.div_le_div_right low), ?_⟩
    rw [Nat.div_lt_iff_lt_mul pos]
    omega

theorem covers_div_iff (pos : 0 < unit) (positive : 0 < len) :
    Covers unit (ofs / unit) count ofs len ↔ ofs % unit + len ≤ count * unit := by
  have split := Nat.div_add_mod' ofs unit
  rw [covers_iff pos positive le_rfl, Nat.add_mul]
  omega

theorem meets (pos : 0 < unit) (positive : 0 < len) (short : ∀ n < count, n * unit < len)
    {n : Nat} (low : ofs / unit ≤ n) (high : n < ofs / unit + count) :
    ∃ x, ofs ≤ x ∧ x < ofs + len ∧ x / unit = n := by
  rcases Nat.eq_or_lt_of_le low with rfl | behind
  · exact ⟨ofs, le_rfl, by omega, rfl⟩
  · have start : ofs < n * unit := (Nat.div_lt_iff_lt_mul pos).1 behind
    have floor := Nat.div_mul_le_self ofs unit
    have inside := short (n - ofs / unit) (by omega)
    have split : n * unit = ofs / unit * unit + (n - ofs / unit) * unit := by
      rw [← Nat.add_mul, Nat.add_sub_cancel' low]
    exact ⟨n * unit, start.le, by omega, Nat.mul_div_cancel n pos⟩

theorem div_sub_div_le (pos : 0 < unit) (ofs len : Nat) :
    (ofs + len) / unit - ofs / unit ≤ len := by
  have floor := Nat.lt_div_mul_add pos (a := ofs)
  have more := Nat.le_mul_of_pos_right len pos
  rw [Nat.sub_le_iff_le_add, ← Nat.lt_succ_iff, Nat.div_lt_iff_lt_mul pos, Nat.succ_mul,
    Nat.add_mul]
  omega

theorem ceilDiv_pos (pos : 0 < unit) (positive : 0 < len) : 0 < len ⌈/⌉ unit := by
  by_contra none
  have bound := (ceilDiv_le_iff_le_mul pos).1 (Nat.le_of_not_gt none)
  rw [Nat.mul_zero] at bound
  omega

theorem lt_of_lt_ceilDiv (pos : 0 < unit) {n : Nat} (h : n < len ⌈/⌉ unit) : n * unit < len := by
  rw [Nat.mul_comm]
  exact lt_of_not_ge fun le => absurd ((ceilDiv_le_iff_le_mul pos).2 le) (not_le.2 h)

theorem add64_add64 (a base i : Nat) : add64 (add64 a base) i = add64 (a + i) base := by
  unfold add64
  rw [Nat.mod_add_mod, Nat.add_right_comm]

theorem numbered_iff {base n : Nat} (early : first ≤ n) (near : n - first < wordSize)
    (word : count ≤ wordSize) :
    (∃ i < count, add64 (add64 first base) i = add64 n base) ↔ n < first + count := by
  constructor
  · rintro ⟨i, hi, same⟩
    have small : i < wordSize := by omega
    have shifted : first + base + i ≡ first + base + (n - first) [MOD wordSize] := by
      have total : first + base + (n - first) = n + base := by omega
      rw [Nat.ModEq, total, Nat.add_right_comm]
      rwa [add64_add64] at same
    have equal := Nat.ModEq.eq_of_lt_of_lt (Nat.ModEq.add_left_cancel' _ shifted) small near
    omega
  · intro inside
    refine ⟨n - first, by omega, ?_⟩
    rw [add64_add64, Nat.add_sub_cancel' early]

end SimpleSSD.Foundation
