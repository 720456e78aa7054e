import Mathlib.Data.Multiset.OrderedMonoid
import SimpleSSD.HIL.Scheduler.Holdings
import SimpleSSD.HIL.Scheduler.Statistics

/-!
# The statistics reset

`resetStatValues` also empties the admin queue and the in-storage queues, takes
all credit and sets the phase of the running timer to zero.  It changes no
service exactly where there is nothing of this to reset.
-/

namespace SimpleSSD.HIL.CreditScheduler

/-! ## What a reset keeps -/

def Event.phase? : Event → Option Tick
  | .refill phase _ _ _ _ => some phase
  | _ => none

def phaseTicks (trace : List Event) : List Tick := trace.filterMap Event.phase?

def runCalls (p : Params) (calls : List (Env × Op)) (s : CreditScheduler) : CreditScheduler :=
  calls.foldl (fun s call => call.2.run p call.1 s) s

/-- `s'` serves in the place of `s`: what waits is still there, the next refill executes
the phases it would have executed, and every later call charges, serves and grants the
same. -/
structure ServesAs (p : Params) (s s' : CreditScheduler) : Prop where
  waiting : s'.waiting = s.waiting
  phases : ∀ now, phaseTicks (s'.refill p now).trace = phaseTicks (s.refill p now).trace
  service : ∀ calls : List (Env × Op), (∀ call ∈ calls, call.1.IgnoresStatistics) →
    (runCalls p calls s').trace = (runCalls p calls s).trace ∧
      (runCalls p calls s').waiting = (runCalls p calls s).waiting

/-- No request where the reset deletes requests, no phase to come, and no account that
has been used. -/
structure NothingToReset (s : CreditScheduler) : Prop where
  adminQueue : s.adminQueue = []
  nextPhase : s.lastGlobalRefillTick = 0
  lastChosenUid : s.lastChosenUid = 0
  account : ∀ uid ∈ s.users, (s.account uid).queueISC = [] ∧ (s.account uid).isActive = false ∧
    (s.account uid).credit = 0 ∧ (s.account uid).carry = 0 ∧ (s.account uid).totalConsumed = 0

variable {p : Params} {s s' : CreditScheduler}

theorem Alike.waiting (h : Alike s s') : s.waiting = s'.waiting :=
  h.member CreditScheduler.waiting fun _ => rfl

theorem Alike.runCalls (h : Alike s s') {calls : List (Env × Op)}
    (ignores : ∀ call ∈ calls, call.1.IgnoresStatistics) :
    Alike (runCalls p calls s) (runCalls p calls s') := by
  induction calls generalizing s s' with
  | nil => exact h
  | cons call rest ih =>
      have first := h.run (p := p) (ignores call List.mem_cons_self) call.2
      exact ih first fun c hc => ignores c (List.mem_cons_of_mem _ hc)

theorem resetStat_service (acc : UserAccount) (getTick : Tick) (gates : acc.queueISC = [])
    (inactive : acc.isActive = false) (credit : acc.credit = 0) (carry : acc.carry = 0)
    (consumed : acc.totalConsumed = 0) : (acc.resetStat getTick).service = acc.service := by
  cases acc
  subst gates inactive credit carry consumed
  rfl

theorem resetStatValues_alike (nothing : NothingToReset s) (getTick : Tick) :
    Alike (s.resetStatValues getTick) s := by
  have members : s.resetStatValues getTick = s.mapUsers (UserAccount.resetStat getTick) := by
    obtain ⟨admin, next, chosen, -⟩ := nothing
    cases s
    subst admin next chosen
    rfl
  rw [members]
  refine (Alike.refl s).withAccounts fun uid => ?_
  split
  next hmem =>
    obtain ⟨gates, inactive, credit, carry, consumed⟩ := nothing.account uid hmem
    exact resetStat_service _ getTick gates inactive credit carry consumed
  next => rfl

/-! ## The phases of the next refill -/

theorem phaseTicks_congr (timer : s'.timerStarted = s.timerStarted)
    (next : s'.lastGlobalRefillTick = s.lastGlobalRefillTick)
    (trace : phaseTicks s'.trace = phaseTicks s.trace) (now : Tick) (fuel : Nat) :
    phaseTicks (s'.refillLoop p now fuel).trace = phaseTicks (s.refillLoop p now fuel).trace := by
  induction fuel generalizing s s' with
  | zero => exact trace
  | succ fuel ih =>
      unfold refillLoop
      rw [timer, next]
      split
      · obtain ⟨account, grants⟩ := s.refillGrants_eq p
        obtain ⟨account', grants'⟩ := s'.refillGrants_eq p
        refine ih ?_ ?_ ?_
        · simp only [refillPhase, grants, grants', timer]
        · simp only [refillPhase, next]
        · simp only [refillPhase, phaseTicks, List.filterMap_cons, Event.phase?, next]
          rw [← phaseTicks, ← phaseTicks, trace]
      · exact trace

theorem refillLoop_stopped (stopped : s.timerStarted = false) (now : Tick) (fuel : Nat) :
    s.refillLoop p now fuel = s := by
  cases fuel with
  | zero => rfl
  | succ fuel => simp [refillLoop, stopped]

theorem phases_kept_iff (getTick : Tick) :
    (∀ now, phaseTicks ((s.resetStatValues getTick).refill p now).trace =
        phaseTicks (s.refill p now).trace) ↔
      (s.timerStarted = true → s.lastGlobalRefillTick = 0) := by
  constructor
  · intro same started
    by_contra next
    have later : 0 + 1 - s.lastGlobalRefillTick = 0 := by
      have := Nat.pos_of_ne_zero next
      exact Nat.sub_eq_zero_of_le this
    have none : phaseTicks (s.refill p 0).trace = phaseTicks s.trace := by
      unfold refill
      rw [later]
      rfl
    have one : phaseTicks ((s.resetStatValues getTick).refill p 0).trace =
        0 :: phaseTicks s.trace := by
      have due : ((s.resetStatValues getTick).emit (.refillCheck 0)).timerStarted = true ∧
          ((s.resetStatValues getTick).emit (.refillCheck 0)).lastGlobalRefillTick ≤ 0 :=
        ⟨started, le_rfl⟩
      have step : (s.resetStatValues getTick).refill p 0 =
          ((s.resetStatValues getTick).emit (.refillCheck 0)).refillPhase p := by
        exact if_pos due
      rw [step]
      rfl
    have longer := (same 0).symm.trans one
    rw [none] at longer
    exact List.cons_ne_self _ _ longer.symm
  · intro next now
    cases started : s.timerStarted with
    | false =>
        unfold refill
        rw [refillLoop_stopped (show (emit _ s).timerStarted = false from started),
          refillLoop_stopped (show (emit _ (s.resetStatValues getTick)).timerStarted = false
            from started)]
        rfl
    | true =>
        have zero : (s.resetStatValues getTick).lastGlobalRefillTick = s.lastGlobalRefillTick :=
          (next started).symm
        unfold refill
        rw [zero]
        have timer : ((s.resetStatValues getTick).emit (.refillCheck now)).timerStarted =
            (s.emit (.refillCheck now)).timerStarted := rfl
        exact phaseTicks_congr timer zero rfl now _

/-! ## The requests that wait -/

def discarded (s : CreditScheduler) : Multiset Item :=
  (s.adminQueue.map Item.request : Multiset Item) +
    (s.users.map fun uid => ((s.account uid).queueISC.map Item.request : Multiset Item)).sum

theorem waiting_resetStatValues (getTick : Tick) :
    s.waiting = (s.resetStatValues getTick).waiting + s.discarded := by
  have users : (s.users.map fun uid => (s.account uid).items).sum =
      (s.users.map fun uid => ((s.resetStatValues getTick).account uid).items).sum +
        (s.users.map fun uid =>
          ((s.account uid).queueISC.map Item.request : Multiset Item)).sum := by
    rw [← List.sum_map_add]
    congr 1
    refine List.map_congr_left fun uid hmem => ?_
    simp [resetStatValues, mapUsers, hmem, UserAccount.resetStat, UserAccount.items]
  have kept : (s.resetStatValues getTick).waiting =
      (s.users.map fun uid => ((s.resetStatValues getTick).account uid).items).sum +
        (s.deferredQueue.map DeferredRequest.item : Multiset Item) +
        (s.deferredISC.map Item.custom : Multiset Item) +
        (s.deferredISCRequests.map ISCDeferredRequest.item : Multiset Item) := by
    change (([] : List Item) : Multiset Item) + _ + _ + _ + _ = _
    rw [Multiset.coe_nil, zero_add]
    rfl
  rw [kept]
  unfold waiting discarded
  rw [users]
  abel

theorem waiting_kept_iff (getTick : Tick) :
    (s.resetStatValues getTick).waiting = s.waiting ↔
      s.adminQueue = [] ∧ ∀ uid ∈ s.users, (s.account uid).queueISC = [] := by
  rw [waiting_resetStatValues (s := s) getTick, left_eq_add]
  unfold discarded
  simp only [add_eq_zero, List.sum_eq_zero_iff, Multiset.coe_eq_zero, List.map_eq_nil_iff,
    List.forall_mem_map]

/-- A reset changes no service where it has nothing to reset; where it changes none, no
request stood in a queue it empties and no phase was to come. -/
theorem resetStatValues_service (p : Params) (s : CreditScheduler) (getTick : Tick) :
    (NothingToReset s → ServesAs p s (s.resetStatValues getTick)) ∧
      (ServesAs p s (s.resetStatValues getTick) →
        s.adminQueue = [] ∧ (∀ uid ∈ s.users, (s.account uid).queueISC = []) ∧
          (s.timerStarted = true → s.lastGlobalRefillTick = 0)) := by
  refine ⟨fun nothing => ?_, fun same => ?_⟩
  · have alike := resetStatValues_alike nothing getTick
    refine ⟨alike.waiting, (phases_kept_iff getTick).2 fun _ => nothing.nextPhase, ?_⟩
    intro calls ignores
    have later := alike.runCalls (p := p) ignores
    exact ⟨later.trace, later.waiting⟩
  · obtain ⟨admin, gates⟩ := (waiting_kept_iff getTick).1 same.waiting
    exact ⟨admin, gates, (phases_kept_iff getTick).1 same.phases⟩

def callbackWaiting : CreditScheduler :=
  (Op.submitISCDeferred 0 1002 3 7 true).run .small .idle (construct .small)

theorem resetStatValues_service_callback :
    ServesAs .small callbackWaiting (callbackWaiting.resetStatValues 10) := by
  refine (resetStatValues_service .small callbackWaiting 10).1 ⟨rfl, rfl, rfl, ?_⟩
  have users : callbackWaiting.users = [1003, 1002, 1001] := by decide
  rw [users]
  decide

def gateWaiting : CreditScheduler :=
  (Op.submitRequest 0 (.ofPages .creditOnly 1001 4)).run .small .idle (construct .small)

/-- The reset deletes the gate, and the running timer starts over at tick zero. -/
theorem reset_deletes_gate :
    Runs .small true (start .small [] fun _ => .standard) gateWaiting ∧
      ¬ ServesAs .small gateWaiting (gateWaiting.resetStatValues 10) ∧
      gateWaiting.waiting = {Item.request (.ofPages .creditOnly 1001 4)} ∧
      (gateWaiting.resetStatValues 10).waiting = 0 ∧
      phaseTicks (gateWaiting.refill .small 2500).trace = [2000, 1000] ∧
      phaseTicks ((gateWaiting.resetStatValues 10).refill .small 2500).trace =
        [2000, 1000, 0] := by
  refine ⟨(Runs.refl _).quiet Env.idle_quiet _ (by simp), fun same => ?_, by decide +kernel,
    by decide +kernel, by decide +kernel, by decide +kernel⟩
  obtain ⟨-, gates⟩ := (waiting_kept_iff 10).1 same.waiting
  exact absurd (gates 1001 (by decide)) (by decide)

end SimpleSSD.HIL.CreditScheduler
