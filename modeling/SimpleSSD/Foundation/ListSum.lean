import Mathlib.Algebra.BigOperators.Group.List.Basic
import Mathlib.Algebra.BigOperators.Ring.Finset
import Mathlib.Algebra.Order.BigOperators.Group.List
import Mathlib.Data.NNRat.Floor
import Mathlib.Algebra.Order.Ring.Rat
import Mathlib.Tactic.FieldSimp

/-!
# Sums over lists

Sums of proportional shares, of shares rounded down, the split of a rational
share into whole units and a carry, and sums in which one term changes.
-/

namespace SimpleSSD.Foundation

variable {ι : Type*}

/-- Whole units taken from a share and what remains make up the share. -/
theorem floor_take_add_rest {share : ℚ≥0} {taken : Nat} (h : taken ≤ ⌊share⌋₊) :
    (taken : ℚ≥0) + (share - taken) = share :=
  add_tsub_cancel_of_le (Nat.le_floor_iff zero_le |>.1 h)

/-- Shares proportional to the weights exhaust the budget. -/
theorem sum_proportional (l : List ι) (weight : ι → Nat) (budget : ℚ≥0)
    (h : 0 < (l.map weight).sum) :
    (l.map fun i => budget * ((weight i : ℚ≥0) / ((l.map weight).sum : Nat))).sum =
      budget := by
  have total : ((l.map weight).sum : ℚ≥0) ≠ 0 := by exact_mod_cast h.ne'
  have cast_sum : (l.map fun i => (weight i : ℚ≥0)).sum = ((l.map weight).sum : Nat) := by
    rw [Nat.cast_list_sum, List.map_map]
    rfl
  rw [List.sum_map_mul_left]
  simp only [div_eq_mul_inv]
  rw [List.sum_map_mul_right, cast_sum, mul_inv_cancel₀ total, mul_one]

/-- Demands scaled to a capacity and rounded down stay within it. -/
theorem sum_floor_scaled_le (l : List ι) (demand : ι → Nat) (capacity : Nat) :
    (l.map fun i => ⌊(demand i : ℚ≥0) *
      ((capacity : ℚ≥0) / ((l.map demand).sum : Nat))⌋₊).sum ≤ capacity := by
  set total := (l.map demand).sum with htotal
  have floors : ((l.map fun i => ⌊(demand i : ℚ≥0) *
      ((capacity : ℚ≥0) / (total : Nat))⌋₊).sum : ℚ≥0) ≤
      (l.map fun i => (demand i : ℚ≥0) * ((capacity : ℚ≥0) / (total : Nat))).sum := by
    rw [Nat.cast_list_sum, List.map_map]
    exact List.sum_le_sum fun i _ => Nat.floor_le zero_le
  have exact_sum : (l.map fun i => (demand i : ℚ≥0) *
      ((capacity : ℚ≥0) / (total : Nat))).sum ≤ capacity := by
    rw [List.sum_map_mul_right]
    have : (l.map fun i => (demand i : ℚ≥0)).sum = (total : ℚ≥0) := by
      rw [htotal, Nat.cast_list_sum, List.map_map]
      rfl
    rw [this]
    rcases Nat.eq_zero_or_pos total with hzero | hpos
    · simp [hzero]
    · have : (total : ℚ≥0) ≠ 0 := by exact_mod_cast hpos.ne'
      rw [mul_div_cancel₀ _ this]
  exact_mod_cast floors.trans exact_sum

theorem sum_filter_map {M : Type*} [AddMonoid M] (l : List ι) (keep : ι → Bool) (f : ι → M) :
    ((l.filter keep).map f).sum = (l.map fun i => if keep i then f i else 0).sum := by
  induction l with
  | nil => rfl
  | cons i l ih =>
      by_cases h : keep i <;> simp [h, ih]

theorem sum_map_update {M : Type*} [AddCommMonoid M] [DecidableEq ι] {l : List ι}
    (nodup : l.Nodup) {i : ι} (hmem : i ∈ l) (f : ι → M) (x : M) :
    (l.map (Function.update f i x)).sum + f i = (l.map f).sum + x := by
  induction l with
  | nil => exact absurd hmem List.not_mem_nil
  | cons j l ih =>
      obtain ⟨hj, nodup⟩ := List.nodup_cons.1 nodup
      rcases List.mem_cons.1 hmem with rfl | later
      · have rest : l.map (Function.update f i x) = l.map f :=
          List.map_congr_left fun k hk =>
            Function.update_of_ne (ne_of_mem_of_not_mem hk hj) _ _
        rw [List.map_cons, List.map_cons, List.sum_cons, List.sum_cons, rest,
          Function.update_self]
        ac_rfl
      · have other : Function.update f i x j = f j :=
          Function.update_of_ne (ne_of_mem_of_not_mem later hj).symm _ _
        rw [List.map_cons, List.map_cons, List.sum_cons, List.sum_cons, other, add_assoc,
          ih nodup later, add_assoc]

theorem sum_map_set {M : Type*} [AddCommMonoid M] {l : List ι} {j : Nat} {i : ι}
    (hget : l[j]? = some i) (f : ι → M) (i' : ι) :
    ((l.set j i').map f).sum + f i = (l.map f).sum + f i' := by
  induction l generalizing j with
  | nil => cases hget
  | cons k l ih =>
      cases j with
      | zero =>
          cases Option.some.inj hget
          simp only [List.set_cons_zero, List.map_cons, List.sum_cons]
          ac_rfl
      | succ j =>
          simp only [List.set_cons_succ, List.map_cons, List.sum_cons, add_assoc, ih hget]

end SimpleSSD.Foundation
