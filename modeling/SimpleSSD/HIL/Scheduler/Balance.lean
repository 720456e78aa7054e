import SimpleSSD.HIL.Scheduler.Phase
import SimpleSSD.HIL.Scheduler.Run

/-!
# Balances

In every reachable state, callbacks and statistics resets included, no balance
is above its cap, and every charge was covered by the balance it was taken from.
-/

namespace SimpleSSD.HIL.CreditScheduler

open SimpleSSD.Foundation

/-- A charge takes no more than is held, so the subtraction does not wrap. -/
def Event.Covered : Event → Prop
  | .charge _ _ held paid left => paid ≤ held ∧ left + paid = held
  | _ => True

structure BalanceInv (s : CreditScheduler) : Prop where
  capped : ∀ uid, (s.account uid).credit ≤ (s.account uid).creditCap
  covered : ∀ event ∈ s.trace, event.Covered

variable {p : Params} {s s' : CreditScheduler}

theorem BalanceInv.modify (inv : BalanceInv s) (uid : UserID)
    (f : UserAccount → UserAccount)
    (capped : (s.account uid).credit ≤ (s.account uid).creditCap →
      (f (s.account uid)).credit ≤ (f (s.account uid)).creditCap) :
    BalanceInv (s.modify uid f) := by
  refine ⟨fun other => ?_, inv.covered⟩
  rw [modify_account]
  split
  · exact capped (inv.capped uid)
  · exact inv.capped other

theorem BalanceInv.emit (inv : BalanceInv s) (event : Event) (covered : event.Covered) :
    BalanceInv (s.emit event) := by
  refine ⟨inv.capped, fun other hmem => ?_⟩
  rcases List.mem_cons.1 hmem with rfl | hold
  · exact covered
  · exact inv.covered other hold

theorem BalanceInv.charge (inv : BalanceInv s) (site : ChargeSite) (cls : ChargeClass)
    (uid : UserID) {pages : Nat} (held : pages ≤ (s.account uid).credit) :
    BalanceInv (s.charge site cls uid pages) := by
  refine (inv.modify uid _ fun capped => ?_).emit _ ⟨held, sub64_add_cancel held⟩
  exact (sub64_le held).trans capped

theorem BalanceInv.activate (inv : BalanceInv s) (uid : UserID) (getTick : Tick) :
    BalanceInv (s.activate p getTick uid) := by
  unfold CreditScheduler.activate
  split
  · exact inv
  · have emptied : BalanceInv (s.modify uid (UserAccount.activate getTick)) :=
      inv.modify uid _ fun _ => Nat.zero_le _
    simp only
    split
    · exact emptied
    · exact ⟨emptied.capped, (emptied.emit (.timerStart getTick) trivial).covered⟩

theorem BalanceInv.phase (inv : BalanceInv s) : BalanceInv (s.refillPhase p) := by
  obtain ⟨account, grants⟩ := s.refillGrants_eq p
  refine ⟨fun uid => ?_, fun event hmem => ?_⟩
  · change ((s.refillGrants p).account uid).credit ≤
      ((s.refillGrants p).account uid).creditCap
    rw [refillGrants_credit, refillGrants_creditCap,
      ← UserAccount.credit_add_headroom _ (inv.capped uid)]
    exact Nat.add_le_add_left (phaseGrant_le_headroom p s uid) _
  · rcases List.mem_cons.1 hmem with rfl | hold
    · trivial
    · exact inv.covered event hold

theorem BalanceInv.effect {reset : Bool} (step : Effect p reset s s')
    (inv : BalanceInv s) : BalanceInv s' := by
  cases step with
  | frame h =>
      simp only [books, Books.mk.injEq] at h
      obtain ⟨-, balance, -, -, trace⟩ := h
      refine ⟨fun uid => ?_, trace ▸ inv.covered⟩
      have same := congrFun balance uid
      simp only [UserAccount.balance, Prod.mk.injEq] at same
      rw [same.1, same.2.1]
      exact inv.capped uid
  | create uid =>
      refine ⟨fun other => ?_, ?_⟩
      · rcases getOrCreateUser_account p uid other s with same | ⟨-, -, fresh⟩
        · rw [same]
          exact inv.capped other
        · rw [fresh]
          exact Nat.zero_le _
      · unfold getOrCreateUser
        split <;> exact inv.covered
  | charge site cls uid pages held => exact inv.charge site cls uid held
  | activate uid getTick => exact inv.activate uid getTick
  | serve item => exact inv.emit _ trivial
  | icl req beginAt finishedAt => exact inv.emit _ trivial
  | check now => exact inv.emit _ trivial
  | phase now started due seen => exact inv.phase
  | resetStat getTick allowed =>
      refine ⟨fun uid => ?_, inv.covered⟩
      simp only [resetStatValues, mapUsers]
      split
      · exact Nat.zero_le _
      · exact inv.capped uid

theorem BalanceInv.fresh (fresh : Fresh s) : BalanceInv s where
  capped uid := by simp [fresh.credit uid]
  covered := by simp [fresh.trace]

/-- Balances stay between zero and the cap, and every charging site subtracts
at most what is held. -/
theorem balance_bounded (p : Params) (reset : Bool) (uids : List UserID)
    (profile : UserID → Profile) (s : CreditScheduler)
    (run : Runs p reset (start p uids profile) s) :
    (∀ uid, 0 ≤ (s.account uid).credit ∧
      (s.account uid).credit ≤ (s.account uid).creditCap) ∧
    (∀ site uid held paid left, .charge site uid held paid left ∈ s.trace →
      paid ≤ held ∧ left + paid = held) := by
  have kept : ∀ t t', Effect p reset t t' → BalanceInv t → BalanceInv t' :=
    fun _ _ => BalanceInv.effect
  have inv : BalanceInv s :=
    invariant_of_steps kept run.evolves (.fresh (start_fresh p uids profile))
  exact ⟨fun uid => ⟨Nat.zero_le _, inv.capped uid⟩,
    fun site uid held paid left hmem => inv.covered _ hmem⟩

/-- A read that is charged once two phases have been caught up, and a direct
charge for more than is left. -/
def overdrawn : CreditScheduler :=
  (Op.useCredit 1001 100).run .small .idle
    ((Op.tick 2500).run .small .idle
      ((Op.submitRequest 0 (.ofPages .read 1001 2)).run .small .idle (construct .small)))

theorem overdrawn_runs : Runs .small true (start .small [] fun _ => .standard) overdrawn :=
  (((Runs.refl _).quiet Env.idle_quiet _ (by simp)).quiet Env.idle_quiet _
    (by simp)).quiet Env.idle_quiet _ (by simp)

theorem balance_bounded_overdrawn :
    (overdrawn.account 1001).credit = 0 ∧
      Event.charge .useCredit 1001 22 22 0 ∈ overdrawn.trace ∧ 22 ≤ 22 ∧ 0 + 22 = 22 :=
  have charged : Event.charge .useCredit 1001 22 22 0 ∈ overdrawn.trace := by
    decide +kernel
  ⟨by decide +kernel, charged,
    (balance_bounded .small true [] (fun _ => .standard) overdrawn overdrawn_runs).2
      .useCredit 1001 22 22 0 charged⟩

end SimpleSSD.HIL.CreditScheduler
