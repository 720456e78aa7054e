import SimpleSSD.HIL.Scheduler.FCFS
import SimpleSSD.HIL.Scheduler.Reentry

/-!
# Classes of consumption

Every charge of the two schedulers enters its pages under the host or the in-storage
class, except the direct charge of `useCredit`, which raises the total alone.
-/

namespace SimpleSSD.HIL

namespace CreditScheduler

open SimpleSSD.Foundation Relation

def Classified (s : CreditScheduler) : Prop :=
  ∀ uid, (s.account uid).totalConsumed =
    (s.account uid).consumedHost + (s.account uid).consumedISC

/-- The pages a call of `useCredit` takes: at most what the user holds. -/
def Op.takes (p : Params) (op : Op) (s : CreditScheduler) : Nat :=
  match op with
  | .useCredit uid used => min ((s.getOrCreateUser p uid).account uid).credit used
  | _ => 0

def UserAccount.consumption (acc : UserAccount) : Nat × Nat × Nat :=
  (acc.totalConsumed, acc.consumedHost, acc.consumedISC)

def Guard.classified : Guard := { Guard.none with direct := fun pages => pages = 0 }

section Classified

variable {p : Params} {env : Env} {s t : CreditScheduler}

theorem Classified.of_eq (classified : Classified s)
    (account : ∀ uid, (t.account uid).consumption = (s.account uid).consumption) :
    Classified t := by
  intro uid
  have same := account uid
  simp only [UserAccount.consumption, Prod.mk.injEq] at same
  rw [same.1, same.2.1, same.2.2]
  exact classified uid

theorem Classified.modify (classified : Classified s) (uid : UserID)
    (f : UserAccount → UserAccount) (same : ∀ acc, (f acc).consumption = acc.consumption) :
    Classified (s.modify uid f) :=
  classified.of_eq fun other => modify_field s uid other UserAccount.consumption same

theorem Classified.create (classified : Classified s) (uid : UserID) :
    Classified (s.getOrCreateUser p uid) := by
  intro other
  rcases getOrCreateUser_account p uid other s with same | ⟨-, -, fresh⟩
  · rw [same]
    exact classified other
  · rw [fresh]
    rfl

theorem Classified.charge (classified : Classified s) (site : ChargeSite) (cls : ChargeClass)
    (uid : UserID) (pages : Nat) (entered : cls = .totalOnly → pages = 0) :
    Classified (s.charge site cls uid pages) := by
  intro other
  change ((s.modify uid (·.pay cls pages)).account other).totalConsumed =
    ((s.modify uid (·.pay cls pages)).account other).consumedHost +
      ((s.modify uid (·.pay cls pages)).account other).consumedISC
  rw [modify_account]
  split
  next same =>
    have balance := classified uid
    cases cls with
    | host | isc =>
        simp only [UserAccount.pay, reduceCtorEq, if_true, if_false]
        omega
    | totalOnly =>
        simp only [UserAccount.pay, reduceCtorEq, if_false, entered rfl, Nat.add_zero]
        exact balance
  next => exact classified other

theorem Classified.chargeISC (classified : Classified s) (site : ChargeSite) (uid : UserID)
    (pages : Nat) : Classified (s.charge site .isc uid pages) :=
  classified.charge site .isc uid pages fun only => absurd only (by decide)

theorem ofOp_ne_totalOnly (op : OpType) : ChargeClass.ofOp op ≠ .totalOnly := by
  unfold ChargeClass.ofOp
  split <;> simp

theorem Submission.classified {item : Item} (entered : Submission item s t)
    (classified : Classified s) : Classified t := by
  cases entered with
  | enqueue req user known =>
      refine classified.modify _ _ fun acc => ?_
      unfold CreditScheduler.enqueue
      split <;> rfl
  | execute uid pages ctx known held =>
      exact classified.chargeISC .submitISCRequest uid pages
  | receive | postpone | wait => exact classified.of_eq fun _ => rfl

theorem Work.classified {guard : Guard}
    {before after : List ISCDeferredRequest × CreditScheduler}
    (step : Work p guard before after) (classified : Classified before.2) :
    Classified after.2 := by
  cases step with
  | create uid => exact classified.create uid
  | activate uid getTick known =>
      have activated := classified.modify uid (UserAccount.activate getTick) fun _ => rfl
      simp only [CreditScheduler.activate]
      split
      · exact classified
      · split
        · exact activated
        · exact activated.of_eq fun _ => rfl
  | @window _ s now may =>
      refine classified.of_eq fun uid => ?_
      simp only [iopsWindow]
      split
      · refine mapUsers_field s uid UserAccount.consumption fun acc => ?_
        unfold UserAccount.resetWindow
        split <;> rfl
      · rfl
  | @phase _ s =>
      refine classified.of_eq fun uid => ?_
      refine refillGrants_field p s uid UserAccount.consumption (fun acc => ?_) fun _ _ _ _ => rfl
      unfold UserAccount.age
      split_ifs <;> rfl
  | measure req => exact classified.modify _ (UserAccount.measureHost _) fun _ => rfl
  | @dispatch _ s dr rest head known held =>
      have popped : Classified { s with deferredQueue := rest } := classified.of_eq fun _ => rfl
      exact popped.charge .deferredQueue (.ofOp dr.req.op) dr.req.userID dr.pages fun only =>
        absurd only (ofOp_ne_totalOnly dr.req.op)
  | @resume _ s dc rest head known held =>
      have popped : Classified { s with deferredISC := rest } := classified.of_eq fun _ => rfl
      exact popped.chargeISC .deferredISC dc.uid dc.pages
  | @process _ s req rest head known held =>
      have popped : Classified { s with deferredISCRequests := rest } :=
        classified.of_eq fun _ => rfl
      exact popped.chargeISC .processISCRequests req.uid req.pagesNeeded
  | gate uid front rest head known held =>
      have paid := classified.chargeISC .queueISC uid front.pages
      exact (paid.modify uid UserAccount.popQueueISC fun _ => rfl).of_eq fun _ => rfl
  | deferISC uid front rest now head =>
      exact (classified.modify uid UserAccount.popQueueISC fun _ => rfl).of_eq fun _ => rfl
  | host uid front rest head held =>
      have paid := (classified.create (p := p) front.userID).charge .hostQueue
        (.ofOp front.op) front.userID front.pages fun only => absurd only (ofOp_ne_totalOnly _)
      exact (paid.modify uid UserAccount.popQueue fun _ => rfl).of_eq fun _ => rfl
  | deferHost uid front rest now head =>
      have created := classified.create (p := p) front.userID
      exact (created.modify uid UserAccount.popQueue fun _ => rfl).of_eq fun _ => rfl
  | _ => exact classified.of_eq fun _ => rfl

theorem Move.classified {before after : List ISCDeferredRequest × CreditScheduler}
    (move : Move p .classified before after) (classified : Classified before.2) :
    Classified after.2 := by
  cases move with
  | submit item may entered => exact entered.classified classified
  | work step => exact step.classified classified
  | direct site cls uid pages known held may =>
      refine classified.charge site cls uid pages fun only => ?_
      exact may.resolve_left fun isc => by rw [isc] at only; contradiction
  | @resetStat _ s getTick may =>
      intro uid
      have account : (s.resetStatValues getTick).account uid = if uid ∈ s.users then
          (s.account uid).resetStat getTick else s.account uid := rfl
      rw [account]
      split
      · rfl
      · exact classified uid

theorem Classified.carries (carries : Carries p .classified s t) (classified : Classified s) :
    Classified t := by
  have all : ∀ {before after}, Moves p .classified before after →
      Classified before.2 → Classified after.2 := by
    intro before after moves base
    induction moves with
    | refl => exact base
    | tail _ last ih => exact last.classified ih
  exact all (carries []) classified

theorem start_classified (p : Params) (uids : List UserID) (profile : UserID → Profile) :
    Classified (start p uids profile) := by
  refine start_induction Classified (fun _ => rfl) (fun s uid base => base.create uid) ?_
  exact fun s uid profile base => base.modify uid (UserAccount.configure profile) fun _ => rfl

theorem Op.takes_allows (env : Env) (op : Op) (u : CreditScheduler) (nothing : op.takes p u = 0) :
    Guard.classified.Allows p env op u := by
  refine ⟨Guard.ticks_of_free (fun _ _ => trivial) trivial p env op u, ?_⟩
  cases op with
  | submitISCRequest _ _ _ iscContext => cases iscContext <;> trivial
  | useCredit uid used => exact nothing
  | _ => trivial

theorem useCredit_unclassified (classified : Classified s) (uid : UserID) (used : Nat)
    (taken : (Op.useCredit uid used).takes p s ≠ 0) : ¬ Classified (s.useCredit p uid used) := by
  intro after
  have created := classified.create (p := p) uid uid
  have charged := after uid
  have amount : (if ((s.getOrCreateUser p uid).account uid).credit < used then
      ((s.getOrCreateUser p uid).account uid).credit else used) =
      (Op.useCredit uid used).takes p s := by
    simp only [Op.takes]
    split_ifs <;> omega
  simp only [useCredit, useCreditAs, amount, CreditScheduler.charge, emit_account,
    modify_account_self, UserAccount.pay, reduceCtorEq, if_false] at charged
  omega

end Classified

end CreditScheduler

/-! ## First come, first served -/

namespace FCFSScheduler

def recordPageConsumption (uid : UserID) (pages : Nat) (isISC : Bool) (s : FCFSScheduler) :
    FCFSScheduler :=
  (s.getOrCreateUser uid).modify uid fun acc =>
    { acc with
      totalConsumed := acc.totalConsumed + pages
      consumedHost := if isISC then acc.consumedHost else acc.consumedHost + pages
      consumedISC := if isISC then acc.consumedISC + pages else acc.consumedISC }

inductive Call where
  | submitRequest (req : Request)
  | submitRequestISC (uid : UserID) (req : Request)
  | tick (now : Tick)
  | processUntil (latency : Tick) (req : Request) (completionTick : Tick)
  | recordPageConsumption (uid : UserID) (pages : Nat) (isISC : Bool)
  | resetStatValues
  deriving DecidableEq, Repr

def Call.run (storage : Storage) (call : Call) (s : FCFSScheduler) : FCFSScheduler :=
  match call with
  | .submitRequest req => s.submitRequest req
  | .submitRequestISC uid req => s.submitRequestISC uid req
  | .tick now => s.tick storage now
  | .processUntil latency req completionTick =>
      (s.processUntil storage latency req completionTick).2
  | .recordPageConsumption uid pages isISC => s.recordPageConsumption uid pages isISC
  | .resetStatValues => s.resetStatValues

def Classified (s : FCFSScheduler) : Prop :=
  ∀ uid, (s.account uid).totalConsumed =
    (s.account uid).consumedHost + (s.account uid).consumedISC

section Classified

variable {storage : Storage} {s : FCFSScheduler}

theorem Classified.modify (classified : Classified s) (uid : UserID)
    (f : UserAccount → UserAccount)
    (kept : (f (s.account uid)).totalConsumed =
      (f (s.account uid)).consumedHost + (f (s.account uid)).consumedISC) :
    Classified (s.modify uid f) := by
  intro other
  rw [modify_account]
  split
  · exact kept
  · exact classified other

theorem Classified.create (classified : Classified s) (uid : UserID) :
    Classified (s.getOrCreateUser uid) := by
  intro other
  rcases getOrCreateUser_account s uid other with same | fresh
  · rw [same]
    exact classified other
  · rw [fresh]
    rfl

theorem Classified.statUsers (classified : Classified s) :
    Classified (statUsers.foldl (fun s uid => s.getOrCreateUser uid) s) :=
  List.foldlRecOn FCFSScheduler.statUsers _ classified fun _ base uid _ => base.create uid

theorem Classified.dispatchRequest (classified : Classified s) (req : Request) :
    Classified (s.dispatchRequest storage req) := by
  have recorded : Classified (s.recordPageConsumptionByOpType req.userID req.pages req.op) := by
    refine (classified.create req.userID).modify req.userID _ ?_
    have balance := classified.create req.userID req.userID
    simp only
    split <;> omega
  unfold FCFSScheduler.dispatchRequest dispatchICL
  split
  · exact recorded
  · exact recorded

theorem Classified.tryDispatchHost (classified : Classified s) (order : List UserID) :
    Classified (s.tryDispatchHost storage order).2 := by
  induction order with
  | nil => exact classified
  | cons uid order ih =>
      unfold FCFSScheduler.tryDispatchHost
      split
      · exact ih
      next req rest head =>
        have popped : Classified (s.modify uid popQueue) :=
          classified.modify uid popQueue (classified uid)
        exact Classified.dispatchRequest
          (s := { s.modify uid popQueue with lastChosenUid := uid }) popped req

theorem Classified.tryDispatchISC (classified : Classified s) (order : List UserID) :
    Classified (s.tryDispatchISC storage order).2 := by
  induction order with
  | nil => exact classified
  | cons uid order ih =>
      unfold FCFSScheduler.tryDispatchISC
      split
      · exact ih
      next req rest head =>
        have popped : Classified (s.modify uid popQueueISC) :=
          classified.modify uid popQueueISC (classified uid)
        exact Classified.dispatchRequest
          (s := { s.modify uid popQueueISC with lastChosenUidISC := uid }) popped req

theorem Classified.tick (classified : Classified s) (now : Tick) :
    Classified (s.tick storage now) := by
  have marked : Classified { s with
      currentTick := now
      lastReportTick :=
        if Foundation.sub64 now s.lastReportTick < reportIntervalTicks then s.lastReportTick
        else now } := classified
  exact (marked.tryDispatchHost _).tryDispatchISC _

theorem Classified.submitRequest (classified : Classified s) (req : Request) :
    Classified (s.submitRequest req) := by
  refine (classified.create req.userID).modify req.userID _ ?_
  exact classified.create req.userID req.userID

theorem Classified.submitRequestISC (classified : Classified s) (uid : UserID) (req : Request) :
    Classified (s.submitRequestISC uid req) := by
  refine (classified.create uid).modify uid _ ?_
  exact classified.create uid uid

theorem Classified.recordPageConsumption (classified : Classified s) (uid : UserID)
    (pages : Nat) (isISC : Bool) : Classified (s.recordPageConsumption uid pages isISC) := by
  have balance := classified.create uid uid
  refine (classified.create uid).modify uid _ ?_
  cases isISC
  · simp only [Bool.false_eq_true, if_false]
    omega
  · simp only [if_true]
    omega

theorem Classified.run (classified : Classified s) (call : Call) :
    Classified (call.run storage s) := by
  cases call with
  | submitRequest req => exact classified.submitRequest req
  | submitRequestISC uid req => exact classified.submitRequestISC uid req
  | tick now => exact classified.tick now
  | processUntil latency req completionTick =>
      exact (classified.submitRequest req).tick completionTick
  | recordPageConsumption uid pages isISC =>
      exact classified.recordPageConsumption uid pages isISC
  | resetStatValues => exact Classified.statUsers classified

theorem construct_classified : Classified construct := by
  intro uid
  rw [construct_account]
  rfl

end Classified

end FCFSScheduler

/-! ## Runs of both -/

namespace CreditScheduler

section Runs

variable {p : Params} {uids : List UserID} {profile : UserID → Profile} {s : CreditScheduler}

/-- A run in which no call of `useCredit`, nested ones included, takes pages. -/
abbrev NoDirectRun (p : Params) : CreditScheduler → CreditScheduler → Prop :=
  RunsBy p fun _ op u => op.takes p u = 0

theorem consumption_classified (run : NoDirectRun p (start p uids profile) s) :
    s.Classified ∧
      (∀ (env : Env) (op : Op), env.Makes p (fun _ op u => op.takes p u = 0) →
        ((op.run p env s).Classified ↔ op.takes p s = 0)) ∧
      ∀ (storage : Storage) (calls : List FCFSScheduler.Call),
        (calls.foldl (fun u call => call.run storage u) FCFSScheduler.construct).Classified := by
  have classified : s.Classified :=
    Classified.carries (run.carries Op.takes_allows) (start_classified p uids profile)
  refine ⟨classified, fun env op makes => ⟨fun after => ?_, fun nothing => ?_⟩, ?_⟩
  · by_contra taken
    cases op with
    | useCredit uid used => exact useCredit_unclassified classified uid used taken after
    | _ => exact taken rfl
  · refine Classified.carries (p := p) ?_ classified
    exact op.run_carries (makes.movesBy Op.takes_allows) s (op.takes_allows env s nothing)
  · intro storage calls
    exact List.foldlRecOn calls _ FCFSScheduler.construct_classified
      fun _ base call _ => base.run call

end Runs

def oneCharged : CreditScheduler :=
  (Op.useCredit 1 1).run .small .idle ((Op.tick 2000).run .small .idle
    ((Op.ensureActiveUser 0 1).run .small .idle (start .small [1] fun _ => .standard)))

/-- A read and a gate are dispatched, and a page is taken by `useCreditISC`. -/
def bothCharged : CreditScheduler :=
  (Op.useCreditISC 1 1).run .small .idle ((Op.tick 2000).run .small .idle
    ((Op.submitRequest 0 (.ofPages .creditOnly 1 1)).run .small .idle
      ((Op.submitRequest 0 (.ofPages .read 1 2)).run .small .idle
        (start .small [1] fun _ => .standard))))

theorem consumption_classified_small :
    bothCharged.Classified ∧ (bothCharged.account 1).consumedHost = 2 ∧
      (bothCharged.account 1).consumedISC = 2 :=
  have quiet := Env.idle_quiet
  have run : NoDirectRun .small (start .small [1] fun _ => .standard) bothCharged :=
    .quiet quiet (.quiet quiet (.quiet quiet (.quiet quiet (.refl _) (.submitRequest _ _) rfl)
      (.submitRequest _ _) rfl) (.tick 2000) rfl) (.useCreditISC 1 1) rfl
  ⟨(consumption_classified run).1, by decide +kernel⟩

theorem useCredit_unbalances :
    Runs .small false (start .small [1] fun _ => .standard) oneCharged ∧
      (oneCharged.account 1).totalConsumed = 1 ∧ (oneCharged.account 1).consumedHost = 0 ∧
      (oneCharged.account 1).consumedISC = 0 := by
  have quiet := Env.idle_quiet
  refine ⟨?_, by decide +kernel⟩
  exact .quiet quiet (.quiet quiet (.quiet quiet (.refl _) (.ensureActiveUser 0 1) nofun)
    (.tick 2000) nofun) (.useCredit 1 1) nofun

end CreditScheduler

end SimpleSSD.HIL
