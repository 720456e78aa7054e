import Mathlib.Order.Basic

/-!
# Loops that retry with another candidate

A body either finishes or names the candidate to try next.  Fuel bounds the number of
tries; a candidate that only moves up to a bound needs a bounded number of them.
-/

namespace SimpleSSD.Foundation

universe u

variable {σ α : Type*}

inductive Attempt (σ α : Type*) where
  | done (result : α)
  | retry (candidate : σ)

/-- Try until the body finishes; the body itself may run out of fuel. -/
def retryLoop (body : σ → Option (Attempt σ α)) : Nat → σ → Option α
  | 0, _ => none
  | fuel + 1, candidate =>
      match body candidate with
      | none => none
      | some (.done result) => some result
      | some (.retry next) => retryLoop body fuel next

theorem retryLoop_result {body : σ → Option (Attempt σ α)} (Inv : σ → Prop) {post : α → Prop}
    (finish : ∀ c a, Inv c → body c = some (.done a) → post a)
    (again : ∀ c c', Inv c → body c = some (.retry c') → Inv c') {fuel : Nat} {c : σ} {a : α}
    (start : Inv c) (run : retryLoop body fuel c = some a) : post a := by
  induction fuel generalizing c with
  | zero => cases run
  | succ fuel ih =>
      unfold retryLoop at run
      split at run
      · cases run
      · rename_i result hbody
        cases run
        exact finish c a start hbody
      · rename_i next hbody
        exact ih (again c next start hbody) run

/-- More fuel, inside or outside, does not change a result. -/
theorem retryLoop_mono {body body' : σ → Option (Attempt σ α)}
    (grows : ∀ c o, body c = some o → body' c = some o) {fuel fuel' : Nat} (le : fuel ≤ fuel')
    {c : σ} {a : α} (run : retryLoop body fuel c = some a) : retryLoop body' fuel' c = some a := by
  induction fuel generalizing c fuel' with
  | zero => cases run
  | succ fuel ih =>
      obtain ⟨more, rfl⟩ := Nat.exists_eq_add_of_le le
      rw [Nat.add_right_comm]
      unfold retryLoop at run ⊢
      split at run
      · cases run
      · rename_i result hbody
        cases run
        simp [grows c _ hbody]
      · rename_i next hbody
        simp only [grows c _ hbody]
        exact ih (Nat.le_add_right fuel more) run

/-- A loop whose retries move a natural candidate up, below a bound, finishes. -/
theorem retryLoop_finishes {body : Nat → Option (Attempt Nat α)} (Inv : Nat → Prop)
    (bound : Nat) (total : ∀ c, Inv c → ∃ o, body c = some o)
    (forward : ∀ c c', Inv c → body c = some (.retry c') → Inv c' ∧ c < c' ∧ c' ≤ bound)
    {c : Nat} (start : Inv c) : ∃ a, retryLoop body (bound - c + 1) c = some a := by
  induction hleft : bound - c using Nat.strongRecOn generalizing c with
  | ind left ih =>
      obtain ⟨o, hbody⟩ := total c start
      cases o with
      | done result => exact ⟨result, by simp [retryLoop, hbody]⟩
      | retry next =>
          obtain ⟨inv, lt, le⟩ := forward c next start hbody
          obtain ⟨a, run⟩ := ih (bound - next) (by omega) inv rfl
          refine ⟨a, ?_⟩
          unfold retryLoop
          simp only [hbody]
          exact retryLoop_mono (fun _ _ h => h) (by omega) run

/-- A candidate that is retried itself is retried for ever. -/
theorem retryLoop_stuck {body : σ → Option (Attempt σ α)} {c : σ}
    (same : body c = none ∨ body c = some (.retry c)) (fuel : Nat) :
    retryLoop body fuel c = none := by
  induction fuel with
  | zero => rfl
  | succ fuel ih =>
      unfold retryLoop
      rcases same with hbody | hbody
      · simp [hbody]
      · simpa [hbody] using ih

end SimpleSSD.Foundation
