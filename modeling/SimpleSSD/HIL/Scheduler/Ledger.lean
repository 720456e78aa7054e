import SimpleSSD.Foundation.Transition
import SimpleSSD.HIL.Scheduler.Credit

/-!
# Effects on the credit ledger

Every function of the scheduler is a sequence of a few elementary effects on
balances, carries and the phase tick.  Invariants of the token bucket are then
proved for each effect, and hold after any function, callbacks included.
-/

namespace SimpleSSD.HIL.CreditScheduler

open SimpleSSD.Foundation Relation

structure Books where
  users : List UserID
  balance : UserID → Nat × Nat × ℚ≥0 × Bool
  timerStarted : Bool
  nextPhase : Tick
  trace : List Event

def UserAccount.balance (acc : UserAccount) : Nat × Nat × ℚ≥0 × Bool :=
  (acc.credit, acc.creditCap, acc.carry, acc.isSLO)

def books (s : CreditScheduler) : Books where
  users := s.users
  balance uid := (s.account uid).balance
  timerStarted := s.timerStarted
  nextPhase := s.lastGlobalRefillTick
  trace := s.trace

theorem books_modify (s : CreditScheduler) (uid : UserID)
    (f : UserAccount → UserAccount) (h : ∀ acc, (f acc).balance = acc.balance) :
    (s.modify uid f).books = s.books := by
  simp only [books, modify_users, modify_timerStarted, modify_lastGlobalRefillTick,
    modify_trace, modify_field _ _ _ UserAccount.balance h]

theorem books_mapUsers (s : CreditScheduler) (f : UserAccount → UserAccount)
    (h : ∀ acc, (f acc).balance = acc.balance) : (s.mapUsers f).books = s.books := by
  simp only [books, mapUsers_users, mapUsers_field _ _ UserAccount.balance h]
  rfl

/-- The elementary effects; `reset` says whether the statistics reset is among
them. -/
inductive Effect (p : Params) (reset : Bool) : CreditScheduler → CreditScheduler → Prop
  | frame {s s'} (h : s'.books = s.books) : Effect p reset s s'
  | create {s} (uid : UserID) : Effect p reset s (s.getOrCreateUser p uid)
  | charge {s} (site : ChargeSite) (cls : ChargeClass) (uid : UserID) (pages : Nat)
      (held : pages ≤ (s.account uid).credit) :
      Effect p reset s (s.charge site cls uid pages)
  | activate {s} (uid : UserID) (getTick : Tick) :
      Effect p reset s (s.activate p getTick uid)
  | serve {s} (item : Item) : Effect p reset s (s.emit (.serve item))
  | icl {s} (req : Request) (beginAt finishedAt : Tick) :
      Effect p reset s (s.emit (.icl req beginAt finishedAt))
  | check {s} (now : Tick) : Effect p reset s (s.emit (.refillCheck now))
  | phase {s} (now : Tick) (started : s.timerStarted)
      (due : s.lastGlobalRefillTick ≤ now) (seen : .refillCheck now ∈ s.trace) :
      Effect p reset s (s.refillPhase p)
  | resetStat {s} (getTick : Tick) (allowed : reset = true) :
      Effect p reset s (s.resetStatValues getTick)

abbrev Evolves (p : Params) (reset : Bool) : CreditScheduler → CreditScheduler → Prop :=
  ReflTransGen (Effect p reset)

structure Env.Respects (env : Env) (p : Params) (reset : Bool) : Prop where
  icl : ∀ req now s, Evolves p reset s (env.icl req now s).2
  resume : ∀ dc now s, Evolves p reset s (env.resume dc now s)
  iscCallback : ∀ ctx now s, Evolves p reset s (env.iscCallback ctx now s)

section Functions

variable {p : Params} {env : Env} {reset : Bool}

theorem Evolves.frame {s t t' : CreditScheduler} (run : Evolves p reset s t)
    (h : t'.books = t.books) : Evolves p reset s t' :=
  run.tail (.frame h)

theorem submitRequest_evolves (getTick : Tick) (req : Request) (s : CreditScheduler) :
    Evolves p reset s (s.submitRequest p getTick req) := by
  unfold submitRequest
  split
  · exact .single (.frame rfl)
  · refine ((ReflTransGen.single (.create req.userID)).tail (.frame ?_)).tail
      (.activate req.userID getTick)
    refine books_modify _ _ _ fun acc => ?_
    unfold enqueue
    split <;> rfl

theorem ensureActiveUser_evolves (getTick : Tick) (uid : UserID) (s : CreditScheduler) :
    Evolves p reset s (s.ensureActiveUser p getTick uid) :=
  (ReflTransGen.single (.create uid)).tail (.activate uid getTick)

theorem submitISCRequest_evolves (respects : env.Respects p reset) (getTick : Tick)
    (uid : UserID) (pages : Nat) (iscContext : Option Nat) (s : CreditScheduler) :
    Evolves p reset s (s.submitISCRequest p env getTick uid pages iscContext).2 := by
  unfold submitISCRequest
  cases iscContext with
  | none => exact .refl
  | some ctx =>
      have ready : Evolves p reset s (s.ensureActiveUser p getTick uid) :=
        ensureActiveUser_evolves getTick uid s
      simp only
      split
      · rename_i held
        refine ReflTransGen.trans ?_ (respects.iscCallback _ _ _)
        exact (ready.tail (.charge _ _ _ _ held)).tail (.serve _)
      · exact ready.frame rfl

theorem dispatchICL_evolves (respects : env.Respects p reset) (req : Request)
    (now : Tick) (s : CreditScheduler) :
    Evolves p reset s (s.dispatchICL p env req now).2 := by
  unfold dispatchICL
  split
  · refine Evolves.frame ?_ (books_modify _ _ _ fun _ => rfl)
    exact ((respects.icl req now s).tail (.icl _ _ _)).tail (.create _)
  · exact .refl

theorem dispatchReentrant_evolves (respects : env.Respects p reset) (req : Request)
    (now : Tick) (s : CreditScheduler) :
    Evolves p reset s (s.dispatchReentrant p env req now).2 := by
  have opened : Evolves p reset s { s with inTick := false } := .single (.frame rfl)
  exact Evolves.frame (opened.trans (dispatchICL_evolves respects req now _)) rfl

theorem tryDispatchWithCredit_evolves (req : Request) (now : Tick)
    (s : CreditScheduler) :
    Evolves p reset s (s.tryDispatchWithCredit p req now).2 := by
  have found : Evolves p reset s (s.getOrCreateUser p req.userID) :=
    .single (.create req.userID)
  unfold tryDispatchWithCredit
  simp only
  split
  · exact found.frame rfl
  · rename_i held
    exact found.tail (.charge _ _ _ _ (not_lt.1 held))

theorem iopsWindow_evolves (now : Tick) (s : CreditScheduler) :
    Evolves p reset s (s.iopsWindow p now) := by
  unfold iopsWindow
  simp only
  split
  · refine .single (.frame (books_mapUsers s _ fun acc => ?_))
    unfold UserAccount.resetWindow
    split <;> rfl
  · exact .single (.frame rfl)

theorem drainAdmin_evolves (respects : env.Respects p reset) (fuel : Nat) (now : Tick)
    (s : CreditScheduler) :
    Evolves p reset s (s.drainAdmin p env fuel now).2 := by
  induction fuel generalizing now s with
  | zero => exact .refl
  | succ fuel ih =>
      unfold drainAdmin
      split
      · exact .refl
      · refine ReflTransGen.trans ?_ (ih _ _)
        refine ReflTransGen.trans ?_ (dispatchICL_evolves respects _ _ _)
        exact (ReflTransGen.single (.frame rfl)).tail (.serve _)

theorem drainDeferred_evolves (respects : env.Respects p reset) (n : Nat) (now : Tick)
    (s : CreditScheduler) :
    Evolves p reset s (s.drainDeferred p env n now).2 := by
  induction n generalizing now s with
  | zero => exact .refl
  | succ n ih =>
      unfold drainDeferred
      split
      · exact .single (.frame rfl)
      · rename_i dr rest _
        have popped : Evolves p reset s
            ({ s with deferredQueue := rest }.getOrCreateUser p dr.req.userID) :=
          (ReflTransGen.single (.frame rfl)).tail (.create _)
        simp only
        split
        · rename_i held
          refine ReflTransGen.trans ?_ (ih _ _)
          refine ReflTransGen.trans ?_ (dispatchReentrant_evolves respects _ _ _)
          exact (popped.tail (.charge _ _ _ _ held)).tail (.serve _)
        · refine ReflTransGen.trans ?_ (ih _ _)
          exact popped.frame rfl

theorem resumeReentrant_evolves (respects : env.Respects p reset)
    (dc : DeferredCustom) (now : Tick) (s : CreditScheduler) :
    Evolves p reset s (s.resumeReentrant env dc now) := by
  unfold resumeReentrant
  split
  · have opened : Evolves p reset s { s with inTick := false } := .single (.frame rfl)
    exact Evolves.frame (opened.trans (respects.resume dc now _)) rfl
  · exact .refl

theorem drainDeferredISC_evolves (respects : env.Respects p reset) (now : Tick)
    (n : Nat) (s : CreditScheduler) :
    Evolves p reset s (s.drainDeferredISC p env now n) := by
  induction n generalizing s with
  | zero => exact .refl
  | succ n ih =>
      unfold drainDeferredISC
      split
      · exact .single (.frame rfl)
      · rename_i dc rest _
        have popped : Evolves p reset s
            ({ s with deferredISC := rest }.getOrCreateUser p dc.uid) :=
          (ReflTransGen.single (.frame rfl)).tail (.create _)
        simp only
        split
        · rename_i held
          refine ReflTransGen.trans ?_ (ih _)
          refine ReflTransGen.trans ?_ (resumeReentrant_evolves respects _ _ _)
          exact (popped.tail (.charge _ _ _ _ held)).tail (.serve _)
        · refine ReflTransGen.trans ?_ (ih _)
          exact popped.frame rfl

theorem processISCLoop_evolves (respects : env.Respects p reset) (now : Tick)
    (fuel : Nat) (remaining : List ISCDeferredRequest) (s : CreditScheduler) :
    Evolves p reset s (s.processISCLoop p env now fuel remaining) := by
  induction fuel generalizing remaining s with
  | zero => exact .single (.frame rfl)
  | succ fuel ih =>
      unfold processISCLoop
      split
      · exact .single (.frame rfl)
      · rename_i req rest _
        have popped : Evolves p reset s
            ({ s with deferredISCRequests := rest }.getOrCreateUser p req.uid) :=
          (ReflTransGen.single (.frame rfl)).tail (.create _)
        simp only
        split
        · rename_i held
          refine ReflTransGen.trans ?_ (ih _ _)
          refine ReflTransGen.trans ?_ (respects.iscCallback _ _ _)
          exact (popped.tail (.charge _ _ _ _ held)).tail (.serve _)
        · exact ReflTransGen.trans popped (ih _ _)

theorem tryDispatchHost_evolves (respects : env.Respects p reset) (now : Tick)
    (order : List UserID) (s : CreditScheduler) :
    Evolves p reset s (s.tryDispatchHost p env now order).2.2 := by
  induction order generalizing s with
  | nil => exact .refl
  | cons uid order ih =>
      unfold tryDispatchHost
      split
      · exact ih s
      · rename_i front _ _
        have tried : Evolves p reset s (s.tryDispatchWithCredit p front now).2 :=
          tryDispatchWithCredit_evolves front now s
        have popped := tried.frame (books_modify _ uid UserAccount.popQueue
          fun _ => rfl)
        simp only
        split
        · refine ReflTransGen.trans ?_ (dispatchReentrant_evolves respects _ _ _)
          refine ReflTransGen.tail ?_ (.serve _)
          exact popped.frame rfl
        · exact popped.trans (ih _)

theorem tryDispatchISC_evolves (now : Tick) (order : List UserID)
    (s : CreditScheduler) :
    Evolves p reset s (s.tryDispatchISC now order).2 := by
  induction order generalizing s with
  | nil => exact .refl
  | cons uid order ih =>
      unfold tryDispatchISC
      split
      · exact ih s
      · simp only
        split
        · rename_i held
          refine ReflTransGen.tail ?_ (.serve _)
          refine (ReflTransGen.single (.charge .queueISC .isc uid _ held)).tail (.frame ?_)
          exact (books_modify _ uid UserAccount.popQueueISC fun _ => rfl).trans rfl
        · refine ReflTransGen.trans (.single (.frame ?_)) (ih _)
          exact (books_modify _ uid UserAccount.popQueueISC fun _ => rfl).trans rfl

theorem dispatchRounds_evolves (respects : env.Respects p reset) (rounds : Nat)
    (now : Tick) (s : CreditScheduler) :
    Evolves p reset s (s.dispatchRounds p env rounds now).2 := by
  induction rounds generalizing now s with
  | zero => exact .refl
  | succ rounds ih =>
      have gates : Evolves p reset s
          (s.tryDispatchISC now (scanOrder s.lastChosenUidISC s.users)).2 :=
        tryDispatchISC_evolves now _ s
      unfold dispatchRounds
      simp only
      split
      · exact gates.trans (ih _ _)
      · have hosts := gates.trans (tryDispatchHost_evolves respects now (scanOrder
          (tryDispatchISC now (scanOrder s.lastChosenUidISC s.users) s).2.lastChosenUid
          (tryDispatchISC now (scanOrder s.lastChosenUidISC s.users) s).2.users) _)
        split
        · exact hosts.trans (ih _ _)
        · exact hosts

theorem refillLoop_evolves (now : Tick) (fuel : Nat) (s : CreditScheduler)
    (seen : .refillCheck now ∈ s.trace) :
    Evolves p reset s (s.refillLoop p now fuel) := by
  induction fuel generalizing s with
  | zero => exact .refl
  | succ fuel ih =>
      unfold refillLoop
      split
      · rename_i due
        refine ReflTransGen.head (.phase now due.1 due.2 seen) (ih _ ?_)
        obtain ⟨account, grants⟩ := s.refillGrants_eq p
        simp [refillPhase, grants, seen]
      · exact .refl

theorem refill_evolves (now : Tick) (s : CreditScheduler) :
    Evolves p reset s (s.refill p now) :=
  (ReflTransGen.single (.check now)).trans
    (refillLoop_evolves now _ _ List.mem_cons_self)

theorem serviceQueues_evolves (respects : env.Respects p reset) (now : Tick)
    (s : CreditScheduler) :
    Evolves p reset s (s.serviceQueues p env now).2 :=
  (((drainDeferred_evolves respects _ now s).trans
    (drainDeferredISC_evolves respects _ _ _)).trans
    (processISCLoop_evolves respects _ _ _ _)).trans
    (dispatchRounds_evolves respects _ _ _)

theorem tick_evolves (respects : env.Respects p reset) (now : Tick)
    (s : CreditScheduler) :
    Evolves p reset s (s.tick p env now).2 := by
  unfold tick
  split
  · exact .refl
  · have entered : Evolves p reset s { s with inTick := true } := .single (.frame rfl)
    exact Evolves.frame ((((entered.trans (iopsWindow_evolves now _)).trans
      (drainAdmin_evolves respects _ _ _)).trans (refill_evolves _ _)).trans
      (serviceQueues_evolves respects _ _)) rfl

theorem processEvent_evolves (respects : env.Respects p reset) (now : Tick)
    (s : CreditScheduler) :
    Evolves p reset s (s.processEvent p env now) :=
  Evolves.frame (tick_evolves respects now s) rfl

theorem processLoop_evolves (respects : env.Respects p reset) (uid : UserID)
    (iterations : Nat) (completionTick : Tick) (s : CreditScheduler) :
    Evolves p reset s (s.processLoop p env uid iterations completionTick).2 := by
  induction iterations generalizing completionTick s with
  | zero => exact .refl
  | succ iterations ih =>
      have ticked := tick_evolves respects completionTick s
      unfold processLoop
      simp only
      split
      · exact ticked.trans (ih _ _)
      · exact ticked

theorem processUntil_evolves (respects : env.Respects p reset) (getTick : Tick)
    (req : Request) (completionTick : Tick) (s : CreditScheduler) :
    Evolves p reset s (s.processUntil p env getTick req completionTick).2 :=
  (submitRequest_evolves getTick req s).trans (processLoop_evolves respects _ _ _ _)

theorem useCreditAs_evolves (site : ChargeSite) (cls : ChargeClass) (uid : UserID)
    (used : Nat) (s : CreditScheduler) :
    Evolves p reset s (s.useCreditAs p site cls uid used) := by
  refine (ReflTransGen.single (.create uid)).tail (.charge _ _ _ _ ?_)
  split_ifs <;> omega

end Functions

end SimpleSSD.HIL.CreditScheduler
