import Mathlib.Algebra.BigOperators.Group.List.Basic
import SimpleSSD.HIL.Scheduler.Account

/-!
# The refill phase

The body of the refill loop of `CreditScheduler::tick`.  Service-level users
are granted their demand first, scaled down when the demands exceed the
budget; what the budget leaves goes to the best-effort users by weight.
-/

namespace SimpleSSD.HIL.CreditScheduler

namespace UserAccount

def age (acc : UserAccount) : UserAccount :=
  if acc.isActive then
    if acc.queue = [] ∧ acc.queueISC = [] then
      { acc with idlePeriods :=
          if acc.idlePeriods < 2 ^ 32 - 1 then acc.idlePeriods + 1
          else acc.idlePeriods }
    else { acc with idlePeriods := 0 }
  else acc

def headroom (acc : UserAccount) : Nat :=
  if acc.creditCap ≤ acc.credit then 0 else acc.creditCap - acc.credit

/-- Pages a service-level user asks for in one phase, before its carry. -/
def demandRaw (periodSec phaseBudget : ℚ≥0) (activeWSLO : Nat)
    (acc : UserAccount) : ℚ≥0 :=
  match acc.sloMode with
  | .iopsTarget => acc.targetIOPS * periodSec
  | .tailTarget => phaseBudget * acc.weight / activeWSLO * acc.budgetBoost
  | .none => phaseBudget * acc.weight / activeWSLO

end UserAccount

def activeWeight (slo : Bool) (s : CreditScheduler) : Nat :=
  (s.users.map fun uid =>
    if (s.account uid).isActive ∧ (s.account uid).isSLO = slo then
      (s.account uid).weight else 0).sum

def activeUsers (slo : Bool) (s : CreditScheduler) : List UserID :=
  s.users.filter fun uid =>
    (s.account uid).isActive && (s.account uid).isSLO == slo

section SLO

variable (p : Params) (s : CreditScheduler)

/-- `demandRaw + carry`, which is split into the demand and the next carry. -/
def sloSum (uid : UserID) : ℚ≥0 :=
  (s.account uid).demandRaw p.periodSec p.pagesPerPeriod (s.activeWeight true) +
    (s.account uid).carry

def sloDemand (uid : UserID) : Nat := ⌊sloSum p s uid⌋₊

def sloPendingCarry (uid : UserID) : ℚ≥0 := sloSum p s uid - sloDemand p s uid

def totalDemand : Nat := ((activeUsers true s).map (sloDemand p s)).sum

def capacityInt : Nat := ⌊p.pagesPerPeriod⌋₊

def sloScaled (uid : UserID) : Nat :=
  if totalDemand p s ≤ capacityInt p then sloDemand p s uid
  else ⌊(sloDemand p s uid : ℚ≥0) * ((capacityInt p : ℚ≥0) / totalDemand p s)⌋₊

def sloGrant (uid : UserID) : Nat :=
  min (sloScaled p s uid) (s.account uid).headroom

def totalGranted : Nat := ((activeUsers true s).map (sloGrant p s)).sum

def spillToBE : ℚ≥0 :=
  if 0 < s.activeWeight true then
    if totalDemand p s ≤ capacityInt p then
      ((capacityInt p - totalGranted p s : Nat) : ℚ≥0)
    else 0
  else p.pagesPerPeriod

def refillSLO : CreditScheduler :=
  if 0 < s.activeWeight true then
    { s with account := fun uid =>
        if uid ∈ activeUsers true s then
          { s.account uid with
            credit := (s.account uid).credit + sloGrant p s uid
            carry := sloPendingCarry p s uid
            lastRefillTick := s.lastGlobalRefillTick }
        else s.account uid }
  else s

end SLO

section BestEffort

variable (spill : ℚ≥0) (s : CreditScheduler)

def beSum (uid : UserID) : ℚ≥0 :=
  spill * ((s.account uid).weight / s.activeWeight false) + (s.account uid).carry

def beAdd (uid : UserID) : Nat :=
  if (s.account uid).headroom < ⌊beSum spill s uid⌋₊ then (s.account uid).headroom
  else ⌊beSum spill s uid⌋₊

def refillBE : CreditScheduler :=
  if 0 < spill ∧ 0 < s.activeWeight false then
    { s with account := fun uid =>
        if uid ∈ activeUsers false s then
          { s.account uid with
            credit := (s.account uid).credit + beAdd spill s uid
            carry := beSum spill s uid - beAdd spill s uid
            lastRefillTick := s.lastGlobalRefillTick }
        else s.account uid }
  else s

end BestEffort

def classUsers (slo : Bool) (s : CreditScheduler) : List UserID :=
  s.users.filter fun uid => (s.account uid).isSLO == slo

/-- Credit one class holds in `s'` beyond what it holds in `s`. -/
def grantedBetween (slo : Bool) (s s' : CreditScheduler) : Nat :=
  ((s.classUsers slo).map fun uid =>
    (s'.account uid).credit - (s.account uid).credit).sum

def beCarry (s : CreditScheduler) : ℚ≥0 :=
  ((s.classUsers false).map fun uid => (s.account uid).carry).sum

def refillGrants (p : Params) (s : CreditScheduler) : CreditScheduler :=
  let aged := s.mapUsers UserAccount.age
  refillBE (spillToBE p aged) (refillSLO p aged)

theorem refillGrants_eq (p : Params) (s : CreditScheduler) :
    ∃ account, s.refillGrants p = { s with account := account } := by
  unfold refillGrants refillBE refillSLO mapUsers
  simp only
  split_ifs <;> exact ⟨_, rfl⟩

def refillPhase (p : Params) (s : CreditScheduler) : CreditScheduler :=
  let s' := refillGrants p s
  { s' with
    lastGlobalRefillTick := s.lastGlobalRefillTick + p.periodTicks
    trace := .refill s.lastGlobalRefillTick (grantedBetween true s s')
      (grantedBetween false s s') s.beCarry s'.beCarry :: s.trace }

/-- `while (timerStarted && now >= lastGlobalRefillTick_)`, at most `fuel`
phases. -/
def refillLoop (p : Params) (now : Tick) : Nat → CreditScheduler → CreditScheduler
  | 0, s => s
  | fuel + 1, s =>
      if s.timerStarted ∧ s.lastGlobalRefillTick ≤ now then
        refillLoop p now fuel (refillPhase p s)
      else s

def refill (p : Params) (now : Tick) (s : CreditScheduler) : CreditScheduler :=
  refillLoop p now (now + 1 - s.lastGlobalRefillTick)
    (s.emit (.refillCheck now))

theorem refillLoop_caughtUp (p : Params) {now : Tick} {fuel : Nat}
    {s : CreditScheduler} (enough : now < s.lastGlobalRefillTick + fuel) :
    (refillLoop p now fuel s).timerStarted = true →
      now < (refillLoop p now fuel s).lastGlobalRefillTick := by
  induction fuel generalizing s with
  | zero => exact fun _ => enough
  | succ fuel ih =>
      unfold refillLoop
      split_ifs with due
      · have next : (refillPhase p s).lastGlobalRefillTick =
            s.lastGlobalRefillTick + p.periodTicks := rfl
        refine ih (lt_of_lt_of_le enough ?_)
        rw [next, Nat.add_assoc, Nat.add_comm fuel 1]
        exact Nat.add_le_add_left (Nat.add_le_add_right p.periodTicks_pos fuel) _
      · exact fun started => Nat.lt_of_not_le fun le => due ⟨started, le⟩

theorem refill_caughtUp (p : Params) (now : Tick) (s : CreditScheduler) :
    (refill p now s).timerStarted = true →
      now < (refill p now s).lastGlobalRefillTick :=
  refillLoop_caughtUp p (lt_of_lt_of_le (Nat.lt_succ_self now) le_add_tsub)

end SimpleSSD.HIL.CreditScheduler
