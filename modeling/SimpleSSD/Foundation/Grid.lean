import Mathlib.Algebra.BigOperators.Group.List.Basic
import Mathlib.Data.List.Nodup

/-!
# Grids

Points of a grid are functions from dimensions to coordinates.  Some dimensions are
filled from the digits of a number, in a mixed radix; others are enumerated, the first
of them slowest.
-/

namespace SimpleSSD.Foundation.Grid

variable {ι : Type*} [DecidableEq ι] (size : ι → Nat)

def spread : List ι → Nat → (ι → Nat) → (ι → Nat) × Nat
  | [], n, point => (point, n)
  | i :: rest, n, point => spread rest (n / size i) (Function.update point i (n % size i))

/-- All points that differ from `point` in the given dimensions only. -/
def cells : List ι → (ι → Nat) → List (ι → Nat)
  | [], point => [point]
  | i :: rest, point =>
      (List.range (size i)).flatMap fun v => cells rest (Function.update point i v)

variable {size} {i : ι} {dims : List ι} {n m : Nat} {point point' target : ι → Nat}

theorem spread_of_not_mem (h : i ∉ dims) : (spread size dims n point).1 i = point i := by
  induction dims generalizing n point with
  | nil => rfl
  | cons j rest ih =>
      obtain ⟨hne, hrest⟩ := not_or.1 (mt List.mem_cons.2 h)
      unfold spread
      rw [ih hrest, Function.update_of_ne hne]

theorem spread_cons_self (h : i ∉ dims) :
    (spread size (i :: dims) n point).1 i = n % size i := by
  unfold spread
  rw [spread_of_not_mem h, Function.update_self]

theorem spread_lt (positive : ∀ j ∈ dims, 0 < size j) (h : i ∈ dims) :
    (spread size dims n point).1 i < size i := by
  induction dims generalizing n point with
  | nil => cases h
  | cons j rest ih =>
      obtain ⟨hj, hpositive⟩ := List.forall_mem_cons.1 positive
      by_cases hrest : i ∈ rest
      · exact ih hpositive hrest
      · obtain rfl : i = j := (List.mem_cons.1 h).resolve_right hrest
        rw [spread_cons_self hrest]
        exact Nat.mod_lt n hj

theorem spread_snd_lt_iff (positive : ∀ j ∈ dims, 0 < size j) {bound : Nat} :
    (spread size dims n point).2 < bound ↔ n < bound * (dims.map size).prod := by
  induction dims generalizing n point with
  | nil => simp [spread]
  | cons j rest ih =>
      obtain ⟨hj, hpositive⟩ := List.forall_mem_cons.1 positive
      unfold spread
      rw [ih hpositive, Nat.div_lt_iff_lt_mul hj, List.map_cons, List.prod_cons]
      rw [Nat.mul_assoc, Nat.mul_comm (List.prod _)]

/-- A number is known from its digits and what remains of it. -/
theorem spread_injective (nodup : dims.Nodup)
    (same : ∀ i ∈ dims, (spread size dims n point).1 i = (spread size dims m point').1 i)
    (rest : (spread size dims n point).2 = (spread size dims m point').2) : n = m := by
  induction dims generalizing n m point point' with
  | nil => exact rest
  | cons j dims ih =>
      obtain ⟨hj, hnodup⟩ := List.nodup_cons.1 nodup
      have hfirst := same j List.mem_cons_self
      rw [spread_cons_self hj, spread_cons_self hj] at hfirst
      have hquotient : n / size j = m / size j :=
        ih hnodup (fun i hi => same i (List.mem_cons_of_mem j hi)) rest
      rw [← Nat.mod_add_div n (size j), ← Nat.mod_add_div m (size j), hfirst, hquotient]

theorem exists_spread (nodup : dims.Nodup) (within : ∀ i ∈ dims, target i < size i)
    (rest : Nat) (point : ι → Nat) :
    ∃ n, (∀ i ∈ dims, (spread size dims n point).1 i = target i) ∧
      (spread size dims n point).2 = rest := by
  induction dims generalizing point with
  | nil => exact ⟨rest, by simp [spread]⟩
  | cons j dims ih =>
      obtain ⟨hj, hnodup⟩ := List.nodup_cons.1 nodup
      obtain ⟨hlt, hwithin⟩ := List.forall_mem_cons.1 within
      obtain ⟨n, hdigits, hrest⟩ := ih hnodup hwithin (Function.update point j (target j))
      have hmod : (target j + size j * n) % size j = target j := by
        rw [Nat.add_mul_mod_self_left, Nat.mod_eq_of_lt hlt]
      have hdiv : (target j + size j * n) / size j = n := by
        rw [Nat.add_mul_div_left _ _ (Nat.zero_lt_of_lt hlt), Nat.div_eq_of_lt hlt, Nat.zero_add]
      refine ⟨target j + size j * n, ?_, ?_⟩
      · refine List.forall_mem_cons.2 ⟨?_, fun i hi => ?_⟩
        · rw [spread_cons_self hj, hmod]
        · unfold spread
          rw [hmod, hdiv]
          exact hdigits i hi
      · unfold spread
        rw [hmod, hdiv]
        exact hrest

theorem mem_cells (nodup : dims.Nodup) : target ∈ cells size dims point ↔
    (∀ i ∈ dims, target i < size i) ∧ ∀ i, i ∉ dims → target i = point i := by
  induction dims generalizing point with
  | nil =>
      simp only [cells, List.mem_singleton, List.not_mem_nil, false_implies, implies_true,
        true_and, not_false_eq_true, forall_const]
      exact funext_iff
  | cons j rest ih =>
      obtain ⟨hj, hnodup⟩ := List.nodup_cons.1 nodup
      simp only [cells, List.mem_flatMap, List.mem_range]
      constructor
      · rintro ⟨v, hv, hmem⟩
        obtain ⟨hwithin, houtside⟩ := (ih hnodup).1 hmem
        have hhere := houtside j hj
        rw [Function.update_self] at hhere
        refine ⟨List.forall_mem_cons.2 ⟨hhere ▸ hv, hwithin⟩, fun i hi => ?_⟩
        obtain ⟨hne, hrest⟩ := not_or.1 (mt List.mem_cons.2 hi)
        rw [houtside i hrest, Function.update_of_ne hne]
      · rintro ⟨hwithin, houtside⟩
        obtain ⟨hhere, hwithin⟩ := List.forall_mem_cons.1 hwithin
        refine ⟨target j, hhere, (ih hnodup).2 ⟨hwithin, fun i hi => ?_⟩⟩
        by_cases hij : i = j
        · rw [hij, Function.update_self]
        · rw [Function.update_of_ne hij]
          exact houtside i (by simp [hij, hi])

theorem length_cells : (cells size dims point).length = (dims.map size).prod := by
  induction dims generalizing point with
  | nil => rfl
  | cons j rest ih =>
      simp only [cells, List.length_flatMap, ih, List.map_cons, List.prod_cons]
      simp

theorem cells_nodup (nodup : dims.Nodup) : (cells size dims point).Nodup := by
  induction dims generalizing point with
  | nil => exact List.nodup_singleton _
  | cons j rest ih =>
      obtain ⟨hj, hnodup⟩ := List.nodup_cons.1 nodup
      refine List.nodup_flatMap.2 ⟨fun v _ => ih hnodup, ?_⟩
      refine List.nodup_range.imp fun {v w} hne => ?_
      intro target hv hw
      have hleft := ((mem_cells hnodup).1 hv).2 j hj
      have hright := ((mem_cells hnodup).1 hw).2 j hj
      rw [Function.update_self] at hleft hright
      exact hne (hleft.symm.trans hright)

end SimpleSSD.Foundation.Grid
