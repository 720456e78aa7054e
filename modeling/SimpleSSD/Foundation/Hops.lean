import Mathlib.Order.Basic
import Mathlib.Order.Defs.LinearOrder

/-!
# Scans that hop

A scan goes through records of their own lengths.  Each visit stops the scan, names the
offset to go on from, or fails.
-/

namespace SimpleSSD.Foundation

variable {ε σ α : Type*}

inductive Hop (σ : Type*) where
  | stop (s : σ)
  | go (s : σ) (next : Nat)

/-- Visit offsets below `size` until a visit stops.  Fuel bounds the number of visits. -/
def scan (size : Nat) (visit : σ → Nat → Except ε (Hop σ)) :
    Nat → σ → Nat → Option (Except ε σ)
  | 0, _, _ => none
  | fuel + 1, s, ofs =>
      if ofs < size then
        match visit s ofs with
        | .error e => some (.error e)
        | .ok (.stop s') => some (.ok s')
        | .ok (.go s' next) => scan size visit fuel s' next
      else some (.ok s)

variable {size : Nat} {visit : σ → Nat → Except ε (Hop σ)}

/-! ## When a scan ends

Where a scan goes is decided by the records alone. -/

inductive Reached (size : Nat) (next : Nat → Option Nat) : Nat → Nat → Prop where
  | here {ofs : Nat} : Reached size next ofs ofs
  | hop {ofs mid ofs' : Nat} : ofs < size → next ofs = some mid → Reached size next mid ofs' →
      Reached size next ofs ofs'

theorem Reached.trans {next : Nat → Option Nat} {a b c : Nat} (first : Reached size next a b)
    (later : Reached size next b c) : Reached size next a c := by
  induction first with
  | here => exact later
  | hop inside goes _ ih => exact .hop inside goes (ih later)

/-- A visit reads what `fits` says is there, and goes where `next` says. -/
structure Steered (size : Nat) (visit : σ → Nat → Except ε (Hop σ)) (Inv : σ → Prop)
    (fits : Nat → Prop) (next : Nat → Option Nat) : Prop where
  forward : ∀ ofs ofs', next ofs = some ofs' → ofs ≤ ofs'
  stops : ∀ s ofs, Inv s → ofs < size → fits ofs → next ofs = none →
    ∃ s', visit s ofs = .ok (.stop s')
  goes : ∀ s ofs ofs', Inv s → ofs < size → fits ofs → next ofs = some ofs' →
    ∃ s', visit s ofs = .ok (.go s' ofs') ∧ Inv s'
  fitting : ∀ s ofs hop, Inv s → ofs < size → visit s ofs = .ok hop → fits ofs

def Passes (fits : Nat → Prop) (next : Nat → Option Nat) (ofs : Nat) : Prop :=
  fits ofs ∧ next ofs ≠ some ofs

namespace Steered

variable {Inv : σ → Prop} {fits : Nat → Prop} {next : Nat → Option Nat}
  (steered : Steered size visit Inv fits next)

include steered

theorem ends {s : σ} {ofs : Nat} (inv : Inv s)
    (pass : ∀ ofs', Reached size next ofs ofs' → ofs' < size → Passes fits next ofs') :
    ∃ fuel s', scan size visit fuel s ofs = some (.ok s') := by
  induction hleft : size - ofs using Nat.strongRecOn generalizing s ofs with
  | ind left ih =>
      by_cases inside : ofs < size
      · obtain ⟨fit, leaves⟩ := pass ofs .here inside
        cases hop : next ofs with
        | none =>
            obtain ⟨s', stop⟩ := steered.stops s ofs inv inside fit hop
            exact ⟨1, s', by simp [scan, inside, stop]⟩
        | some ofs' =>
            obtain ⟨s', go, inv'⟩ := steered.goes s ofs ofs' inv inside fit hop
            have le := steered.forward ofs ofs' hop
            have ne : ofs ≠ ofs' := by
              rintro rfl
              exact leaves hop
            obtain ⟨fuel, s'', run⟩ := ih (size - ofs') (by omega) inv'
              (fun mid reached => pass mid (.hop inside hop reached)) rfl
            exact ⟨fuel + 1, s'', by simp [scan, inside, go, run]⟩
      · exact ⟨1, s, by simp [scan, inside]⟩

theorem passes {fuel : Nat} {s s' : σ} {ofs : Nat} (inv : Inv s)
    (run : scan size visit fuel s ofs = some (.ok s')) {ofs' : Nat}
    (reached : Reached size next ofs ofs') (inside' : ofs' < size) : Passes fits next ofs' := by
  induction fuel generalizing s ofs with
  | zero => cases run
  | succ fuel ih =>
      have here : ofs < size → fits ofs ∧ ∀ mid, next ofs = some mid →
          ∃ s₁, Inv s₁ ∧ scan size visit fuel s₁ mid = some (.ok s') := by
        intro inside
        rw [scan, if_pos inside] at run
        have fit : fits ofs := by
          cases hvisit : visit s ofs with
          | error e =>
              rw [hvisit] at run
              cases run
          | ok hop => exact steered.fitting s ofs hop inv inside hvisit
        refine ⟨fit, fun mid hop => ?_⟩
        obtain ⟨s₁, go, inv₁⟩ := steered.goes s ofs mid inv inside fit hop
        rw [go] at run
        exact ⟨s₁, inv₁, run⟩
      cases reached with
      | here =>
          refine ⟨(here inside').1, fun same => ?_⟩
          -- a record that the scan does not leave is visited again with less fuel
          obtain ⟨s₁, inv₁, run₁⟩ := (here inside').2 _ same
          exact (ih inv₁ run₁ .here).2 same
      | hop inside hop later =>
          obtain ⟨s₁, inv₁, run₁⟩ := (here inside).2 _ hop
          exact ih inv₁ run₁ later

/-- A scan ends without a failure exactly if it passes every record that it comes to. -/
theorem ends_iff {s : σ} {ofs : Nat} (inv : Inv s) :
    (∃ fuel s', scan size visit fuel s ofs = some (.ok s')) ↔
      ∀ ofs', Reached size next ofs ofs' → ofs' < size → Passes fits next ofs' :=
  ⟨fun ⟨_, _, run⟩ _ reached inside' => steered.passes inv run reached inside',
    steered.ends inv⟩

end Steered

/-! ## Records in a row -/

def InRow (size : Nat) (record : Nat → α → Nat → Prop) : Nat → List α → Prop
  | ofs, [] => ofs = size
  | ofs, a :: rest => ∃ next, ofs < next ∧ next ≤ size ∧ record ofs a next ∧
      InRow size record next rest

theorem InRow.imp {record record' : Nat → α → Nat → Prop} {ofs : Nat} {row : List α}
    (h : InRow size record ofs row)
    (weaker : ∀ a ∈ row, ∀ ofs next, record ofs a next → record' ofs a next) :
    InRow size record' ofs row := by
  induction row generalizing ofs with
  | nil => exact h
  | cons a rest ih =>
      obtain ⟨next, lt, le, here, later⟩ := h
      exact ⟨next, lt, le, weaker a List.mem_cons_self _ _ here,
        ih later fun b hb => weaker b (List.mem_cons_of_mem a hb)⟩

theorem InRow.of_mem {record : Nat → α → Nat → Prop} {ofs : Nat} {row : List α} {a : α}
    (h : InRow size record ofs row) (hmem : a ∈ row) : ∃ ofs' next, record ofs' a next := by
  induction row generalizing ofs with
  | nil => cases hmem
  | cons b rest ih =>
      obtain ⟨next, -, -, here, later⟩ := h
      rcases List.mem_cons.1 hmem with rfl | hmem
      · exact ⟨ofs, next, here⟩
      · exact ih later hmem

/-- A scan visits each record of a row; `seen` have been visited before. -/
theorem scan_row_from {record : Nat → α → Nat → Prop} (Inv : List α → σ → Prop)
    (step : ∀ seen s ofs a next, Inv seen s → next ≤ size → record ofs a next →
      ∃ s', visit s ofs = .ok (.go s' next) ∧ Inv (seen ++ [a]) s')
    {ofs : Nat} {row seen : List α} {s : σ} (inRow : InRow size record ofs row)
    (inv : Inv seen s) :
    ∃ fuel s', scan size visit fuel s ofs = some (.ok s') ∧ Inv (seen ++ row) s' := by
  induction row generalizing ofs seen s with
  | nil =>
      subst inRow
      exact ⟨1, s, by simp [scan], by simpa using inv⟩
  | cons a rest ih =>
      obtain ⟨next, lt, le, here, later⟩ := inRow
      obtain ⟨s₁, go, inv₁⟩ := step seen s ofs a next inv le here
      obtain ⟨fuel, s', run, inv'⟩ := ih later inv₁
      refine ⟨fuel + 1, s', ?_, by simpa using inv'⟩
      rw [scan, if_pos (Nat.lt_of_lt_of_le lt le), go]
      exact run

theorem scan_row {record : Nat → α → Nat → Prop} (Inv : List α → σ → Prop)
    (step : ∀ seen s ofs a next, Inv seen s → next ≤ size → record ofs a next →
      ∃ s', visit s ofs = .ok (.go s' next) ∧ Inv (seen ++ [a]) s')
    {ofs : Nat} {row : List α} {s : σ} (inRow : InRow size record ofs row) (inv : Inv [] s) :
    ∃ fuel s', scan size visit fuel s ofs = some (.ok s') ∧ Inv row s' :=
  scan_row_from Inv step inRow inv

theorem InRow.append {record : Nat → α → Nat → Prop} {size' ofs : Nat} {row later : List α}
    (first : InRow size record ofs row) (second : InRow size' record size later)
    (le : size ≤ size') : InRow size' record ofs (row ++ later) := by
  induction row generalizing ofs with
  | nil =>
      subst first
      exact second
  | cons a rest ih =>
      obtain ⟨next, lt, le', here, tail⟩ := first
      exact ⟨next, lt, Nat.le_trans le' le, here, ih tail⟩

theorem InRow.flatten {record : Nat → α → Nat → Prop} {unit : Nat} {rows : List (List α)}
    (start : Nat) (each : ∀ k (h : k < rows.length),
      InRow ((start + k + 1) * unit) record ((start + k) * unit) rows[k]) :
    InRow ((start + rows.length) * unit) record (start * unit) rows.flatten := by
  induction rows generalizing start with
  | nil => exact congrArg (· * unit) (Nat.add_zero start).symm
  | cons row rows ih =>
      have first := each 0 (Nat.succ_pos _)
      have later := ih (start + 1) fun k h => by
        have next := each (k + 1) (Nat.succ_lt_succ h)
        rwa [← Nat.add_assoc, Nat.add_right_comm start k 1] at next
      have count : start + (rows.length + 1) = start + 1 + rows.length := by omega
      rw [List.flatten_cons, List.length_cons, count]
      exact first.append later (Nat.mul_le_mul_right _ (Nat.le_add_right _ _))

theorem InRow.mul_length_le {record : Nat → α → Nat → Prop} {ofs gap : Nat} {row : List α}
    (h : InRow size record ofs row) (long : ∀ ofs a next, record ofs a next → ofs + gap ≤ next) :
    ofs + gap * row.length ≤ size := by
  induction row generalizing ofs with
  | nil => exact Nat.le_of_eq h
  | cons a rest ih =>
      obtain ⟨next, -, -, here, later⟩ := h
      have first := long _ _ _ here
      have behind := ih later
      rw [List.length_cons, Nat.mul_succ]
      omega

theorem InRow.shift {record record' : Nat → α → Nat → Prop} {base ofs : Nat} {row : List α}
    (h : InRow size record ofs row)
    (moved : ∀ a ∈ row, ∀ ofs next, next ≤ size → record ofs a next →
      record' (base + ofs) a (base + next)) :
    InRow (base + size) record' (base + ofs) row := by
  induction row generalizing ofs with
  | nil =>
      have last : ofs = size := h
      exact congrArg (base + ·) last
  | cons a rest ih =>
      obtain ⟨next, lt, le, here, later⟩ := h
      exact ⟨base + next, Nat.add_lt_add_left lt base, Nat.add_le_add_left le base,
        moved a List.mem_cons_self _ _ le here,
        ih later fun b hb => moved b (List.mem_cons_of_mem a hb)⟩

theorem InRow.placed {record : Nat → α → Nat → Prop} {ofs : Nat} {row : List α}
    (h : InRow size record ofs row) :
    ∃ placed : List (Nat × α), placed.map Prod.snd = row ∧
      InRow size (fun o p next => p.1 = o ∧ record o p.2 next) ofs placed ∧
      (∀ p ∈ placed, ofs ≤ p.1) ∧ placed.Pairwise fun p later => p.1 < later.1 := by
  induction row generalizing ofs with
  | nil => exact ⟨[], rfl, h, nofun, .nil⟩
  | cons a rest ih =>
      obtain ⟨next, lt, le, here, later⟩ := h
      obtain ⟨placed, entries, inRow, behind, increasing⟩ := ih later
      refine ⟨(ofs, a) :: placed, congrArg (a :: ·) entries, ⟨next, lt, le, ⟨rfl, here⟩, inRow⟩,
        ?_, List.pairwise_cons.2 ⟨fun p hp => Nat.lt_of_lt_of_le lt (behind p hp), increasing⟩⟩
      rintro p (_ | ⟨_, hp⟩)
      · exact Nat.le_refl ofs
      · exact Nat.le_trans (Nat.le_of_lt lt) (behind p hp)

/-- A scan of a row that stops at the first record which is not `good`. -/
theorem scan_row_while {record : Nat → α → Nat → Prop} {good : α → Bool} (Inv : List α → σ → Prop)
    (step : ∀ seen s ofs a next, Inv seen s → next ≤ size → record ofs a next →
      good a = true → ∃ s', visit s ofs = .ok (.go s' next) ∧ Inv (seen ++ [a]) s')
    (stop : ∀ seen s ofs a next, Inv seen s → next ≤ size → record ofs a next →
      good a = false → visit s ofs = .ok (.stop s))
    {ofs : Nat} {row seen : List α} {s : σ} (inRow : InRow size record ofs row)
    (inv : Inv seen s) :
    ∃ fuel s', scan size visit fuel s ofs = some (.ok s') ∧
      Inv (seen ++ row.takeWhile good) s' := by
  induction row generalizing ofs seen s with
  | nil =>
      subst inRow
      exact ⟨1, s, by simp [scan], by simpa using inv⟩
  | cons a rest ih =>
      obtain ⟨next, lt, le, here, later⟩ := inRow
      have inside : ofs < size := Nat.lt_of_lt_of_le lt le
      cases fine : good a with
      | true =>
          obtain ⟨s₁, go, inv₁⟩ := step seen s ofs a next inv le here fine
          obtain ⟨fuel, s', run, inv'⟩ := ih later inv₁
          refine ⟨fuel + 1, s', ?_, by simpa [fine] using inv'⟩
          rw [scan, if_pos inside, go]
          exact run
      | false =>
          refine ⟨1, s, ?_, by simpa [fine] using inv⟩
          rw [scan, if_pos inside, stop seen s ofs a next inv le here fine]

theorem scan_mono {fuel fuel' : Nat} {s : σ} {ofs : Nat} {result : Except ε σ}
    (run : scan size visit fuel s ofs = some result) (le : fuel ≤ fuel') :
    scan size visit fuel' s ofs = some result := by
  induction fuel generalizing fuel' s ofs with
  | zero => cases run
  | succ fuel ih =>
      obtain ⟨fuel', rfl⟩ := Nat.exists_eq_add_of_le' (Nat.le_trans (Nat.le_add_left 1 fuel) le)
      have le' : fuel ≤ fuel' := Nat.le_of_succ_le_succ le
      rw [scan] at run ⊢
      by_cases inside : ofs < size
      · rw [if_pos inside] at run ⊢
        cases hvisit : visit s ofs with
        | error e =>
            rw [hvisit] at run
            exact run
        | ok hop =>
            rw [hvisit] at run
            cases hop with
            | stop s' => exact run
            | go s' next => exact ih run le'
      · rw [if_neg inside] at run ⊢
        exact run

theorem scan_agree {fuel fuel' : Nat} {s : σ} {ofs : Nat} {result result' : Except ε σ}
    (run : scan size visit fuel s ofs = some result)
    (run' : scan size visit fuel' s ofs = some result') : result = result' := by
  have long := scan_mono run (Nat.le_max_left fuel fuel')
  have long' := scan_mono run' (Nat.le_max_right fuel fuel')
  exact Option.some.inj (long.symm.trans long')

/-! ## Scans that look for something -/

/-- A scan that stops where `P` holds, and hops over no such offset, finds the first one. -/
theorem scan_first {P : Nat → Prop} {s : σ} {found : Nat → σ} (inside : ∀ i, P i → i < size)
    (stop : ∀ ofs < size, P ofs → visit s ofs = .ok (.stop (found ofs)))
    (go : ∀ ofs < size, ¬ P ofs → ∃ next, visit s ofs = .ok (.go s next) ∧ ofs < next ∧
      ∀ i, ofs ≤ i → i < next → ¬ P i)
    (ofs : Nat) (before : ∀ i < ofs, ¬ P i) :
    ∃ fuel s', scan size visit fuel s ofs = some (.ok s') ∧
      ((∃ p, s' = found p ∧ P p ∧ ∀ i < p, ¬ P i) ∨ s' = s ∧ ∀ i, ¬ P i) := by
  induction left : size - ofs using Nat.strongRecOn generalizing ofs with
  | ind left ih =>
      by_cases within : ofs < size
      · by_cases here : P ofs
        · refine ⟨1, found ofs, ?_, .inl ⟨ofs, rfl, here, before⟩⟩
          rw [scan, if_pos within, stop ofs within here]
        · obtain ⟨next, hop, lt, none⟩ := go ofs within here
          have beforeNext : ∀ i < next, ¬ P i := fun i hi =>
            (Nat.lt_or_ge i ofs).elim (before i) fun le => none i le hi
          obtain ⟨fuel, s', run, result⟩ := ih (size - next) (by omega) next beforeNext rfl
          refine ⟨fuel + 1, s', ?_, result⟩
          rw [scan, if_pos within, hop]
          exact run
      · refine ⟨1, s, by rw [scan, if_neg within], .inr ⟨rfl, fun i hi => ?_⟩⟩
        exact before i (Nat.lt_of_lt_of_le (inside i hi) (Nat.le_of_not_lt within)) hi

/-! ## What a scan keeps of its state -/

def Hop.map {τ : Type*} (f : σ → τ) : Hop σ → Hop τ
  | .stop s => .stop (f s)
  | .go s next => .go (f s) next

theorem scan_map {τ : Type*} {visit' : τ → Nat → Except ε (Hop τ)} (f : σ → τ)
    (same : ∀ s ofs, visit' (f s) ofs = (visit s ofs).map (Hop.map f)) (fuel : Nat) (s : σ)
    (ofs : Nat) :
    scan size visit' fuel (f s) ofs = (scan size visit fuel s ofs).map (Except.map f) := by
  induction fuel generalizing s ofs with
  | zero => rfl
  | succ fuel ih =>
      rw [scan, scan]
      by_cases inside : ofs < size
      · rw [if_pos inside, if_pos inside, same]
        cases visit s ofs with
        | error e => rfl
        | ok hop =>
            cases hop with
            | stop s' => rfl
            | go s' next => exact ih s' next
      · rw [if_neg inside, if_neg inside]
        rfl

end SimpleSSD.Foundation
