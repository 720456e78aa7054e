import SimpleSSD.HIL.Scheduler.Base
import SimpleSSD.HIL.Scheduler.Refill

/-!
# The credit scheduler

The functions of `hil/scheduler/credit_scheduler.cc`.  The internal cache
layer and the resume callbacks are parameters that may change the scheduler,
since `tick` clears `inTick` around them; the state they are given is the one
they would find.  `getTick` of the simulator is an argument of the functions
that read it.
-/

namespace SimpleSSD.HIL

namespace CreditScheduler

open SimpleSSD.Foundation

/-- The code the scheduler calls out to.  `fuel` bounds what callbacks may add
to a queue while it is being drained to the end. -/
structure Env where
  icl : Request → Tick → CreditScheduler → Tick × CreditScheduler
  resume : DeferredCustom → Tick → CreditScheduler → CreditScheduler
  iscCallback : Nat → Tick → CreditScheduler → CreditScheduler
  fuel : Nat

structure Env.Quiet (env : Env) : Prop where
  icl : ∀ req now s, (env.icl req now s).2 = s
  resume : ∀ dc now s, env.resume dc now s = s
  iscCallback : ∀ ctx now s, env.iscCallback ctx now s = s

/-- An internal cache layer that answers from the request, the tick and the
history, and callbacks that do nothing to the scheduler. -/
def Env.passive (answer : Request → Tick → List Event → Tick) : Env where
  icl req now s := (answer req now s.trace, s)
  resume _ _ s := s
  iscCallback _ _ s := s
  fuel := 0

theorem Env.passive_quiet (answer : Request → Tick → List Event → Tick) :
    (Env.passive answer).Quiet :=
  ⟨fun _ _ _ => rfl, fun _ _ _ => rfl, fun _ _ _ => rfl⟩

/-! ## Construction -/

def empty (p : Params) : CreditScheduler where
  adminQueue := []
  users := []
  account := fun _ => p.newAccount
  lastChosenUid := 0
  lastChosenUidISC := 0
  inTick := false
  timerStarted := false
  refillEvent := none
  lastGlobalRefillTick := 0
  deferredQueue := []
  deferredISC := []
  deferredISCRequests := []
  lastStatTick := none
  fault := false
  trace := []

variable (p : Params) (env : Env)

def statUsers : List UserID := [1001, 1002, 1003]

def construct : CreditScheduler :=
  statUsers.foldl (fun s uid => s.getOrCreateUser p uid) (empty p)

/-! ## Submission -/

def UserAccount.activate (getTick : Tick) (acc : UserAccount) : UserAccount :=
  { acc with
    isActive := true
    credit := 0
    idlePeriods := 0
    lastRefillTick := getTick }

def startTimer (getTick : Tick) (s : CreditScheduler) : CreditScheduler :=
  { s with
    lastGlobalRefillTick := getTick + p.periodTicks
    refillEvent := some (getTick + p.periodTicks)
    timerStarted := true
    trace := .timerStart getTick :: s.trace }

/-- First use of a user after construction or a statistics reset; the first
user of all starts the timer. -/
def activate (getTick : Tick) (uid : UserID) (s : CreditScheduler) :
    CreditScheduler :=
  if (s.account uid).isActive then s
  else
    let s := s.modify uid (UserAccount.activate getTick)
    if s.timerStarted then s else s.startTimer p getTick

def ensureActiveUser (getTick : Tick) (uid : UserID) (s : CreditScheduler) :
    CreditScheduler :=
  (s.getOrCreateUser p uid).activate p getTick uid

/-- Gates go to the front of the in-storage queue, host requests to the back
of the host queue. -/
def enqueue (req : Request) (acc : UserAccount) : UserAccount :=
  if req.op = .creditOnly ∨ req.op = .iscResult then
    { acc with
      pendingGates :=
        if req.op = .creditOnly then acc.pendingGates + 1 else acc.pendingGates
      queueISC := req :: acc.queueISC }
  else { acc with queue := acc.queue ++ [req] }

def submitRequest (getTick : Tick) (req : Request) (s : CreditScheduler) :
    CreditScheduler :=
  if req.userID = 0 then { s with adminQueue := s.adminQueue ++ [req] }
  else
    ((s.getOrCreateUser p req.userID).modify req.userID (enqueue req)).activate p
      getTick req.userID

def submitISCDeferred (getTick : Tick) (uid : UserID) (pages ctx : Nat)
    (cb : Bool) (s : CreditScheduler) : CreditScheduler :=
  { s with deferredISC := s.deferredISC ++ [⟨uid, pages, getTick, ctx, cb⟩] }

def predictISCLatency (pages : Nat) (s : CreditScheduler) : Tick :=
  (pages + 100 - 1) / 100 * 10000000 +
    s.deferredISCRequests.length * 10000000 / 2

def submitISCRequest (getTick : Tick) (uid : UserID) (pages : Nat)
    (iscContext : Option Nat) (s : CreditScheduler) : Bool × CreditScheduler :=
  match iscContext with
  | none => (false, s)
  | some ctx =>
      let s := s.ensureActiveUser p getTick uid
      if pages ≤ (s.account uid).credit then
        let s := (s.charge .submitISCRequest .isc uid pages).emit
          (.serve (.isc uid pages ctx))
        (true, env.iscCallback ctx getTick s)
      else
        (true, { s with
          deferredISCRequests := s.deferredISCRequests ++
            [⟨uid, pages, ctx, getTick, s.predictISCLatency pages⟩] })

/-! ## Dispatch -/

def dispatchICL (req : Request) (now : Tick) (s : CreditScheduler) :
    Tick × CreditScheduler :=
  if req.op.isHost then
    let done := env.icl req now s
    let s := (done.2.emit (.icl req now done.1)).getOrCreateUser p req.userID
    (done.1, s.modify req.userID fun acc =>
      { acc with
        winHostPages := acc.winHostPages + req.pages
        winHostIOs := acc.winHostIOs + 1 })
  else (now, s)

/-- `inTick` is cleared around the call. -/
def dispatchReentrant (req : Request) (now : Tick) (s : CreditScheduler) :
    Tick × CreditScheduler :=
  let done := dispatchICL p env req now { s with inTick := false }
  (done.1, { done.2 with inTick := true })

def tryDispatchWithCredit (req : Request) (now : Tick) (s : CreditScheduler) :
    Bool × CreditScheduler :=
  let s := s.getOrCreateUser p req.userID
  if (s.account req.userID).credit < req.pages then
    (false, { s with deferredQueue := s.deferredQueue ++ [⟨req, req.pages, now⟩] })
  else (true, s.charge .hostQueue (.ofOp req.op) req.userID req.pages)

def UserAccount.resetWindow (acc : UserAccount) : UserAccount :=
  if acc.isActive && acc.isSLO then { acc with winHostPages := 0, winHostIOs := 0 }
  else acc

def iopsWindow (now : Tick) (s : CreditScheduler) : CreditScheduler :=
  let lastStatTick := s.lastStatTick.getD now
  if p.ticksPerSec ≤ sub64 now lastStatTick then
    { s.mapUsers UserAccount.resetWindow with lastStatTick := some now }
  else { s with lastStatTick := some lastStatTick }

def drainAdmin : Nat → Tick → CreditScheduler → Tick × CreditScheduler
  | 0, now, s => (now, s)
  | fuel + 1, now, s =>
      match s.adminQueue with
      | [] => (now, s)
      | req :: rest =>
          let s := { s with adminQueue := rest }.emit (.serve (.request req))
          let done := dispatchICL p env req now s
          drainAdmin fuel done.1 done.2

/-- One pass over the entries the deferred queue held at its start. -/
def drainDeferred : Nat → Tick → CreditScheduler → Tick × CreditScheduler
  | 0, now, s => (now, s)
  | n + 1, now, s =>
      match s.deferredQueue with
      | [] => (now, { s with fault := true })
      | dr :: rest =>
          let s := { s with deferredQueue := rest }.getOrCreateUser p dr.req.userID
          if dr.pages ≤ (s.account dr.req.userID).credit then
            let s := (s.charge .deferredQueue (.ofOp dr.req.op) dr.req.userID
              dr.pages).emit (.serve (.request dr.req))
            let done := dispatchReentrant p env dr.req now s
            drainDeferred n done.1 done.2
          else
            drainDeferred n now { s with deferredQueue := s.deferredQueue ++ [dr] }

def resumeReentrant (dc : DeferredCustom) (now : Tick) (s : CreditScheduler) :
    CreditScheduler :=
  if dc.resume then
    { env.resume dc now { s with inTick := false } with inTick := true }
  else s

def drainDeferredISC (now : Tick) : Nat → CreditScheduler → CreditScheduler
  | 0, s => s
  | n + 1, s =>
      match s.deferredISC with
      | [] => { s with fault := true }
      | dc :: rest =>
          let s := { s with deferredISC := rest }.getOrCreateUser p dc.uid
          if dc.pages ≤ (s.account dc.uid).credit then
            let s := (s.charge .deferredISC .isc dc.uid dc.pages).emit
              (.serve (.custom dc))
            drainDeferredISC now n (resumeReentrant env dc now s)
          else
            drainDeferredISC now n { s with deferredISC := s.deferredISC ++ [dc] }

/-- The loop of `processISCRequests`; `remaining` is its local queue, which
replaces the emptied member at the end. -/
def processISCLoop (now : Tick) :
    Nat → List ISCDeferredRequest → CreditScheduler → CreditScheduler
  | 0, remaining, s =>
      { s with deferredISCRequests := s.deferredISCRequests ++ remaining }
  | fuel + 1, remaining, s =>
      match s.deferredISCRequests with
      | [] => { s with deferredISCRequests := remaining }
      | req :: rest =>
          let s := { s with deferredISCRequests := rest }.getOrCreateUser p req.uid
          if req.pagesNeeded ≤ (s.account req.uid).credit then
            let s := (s.charge .processISCRequests .isc req.uid
              req.pagesNeeded).emit (.serve (.isc req.uid req.pagesNeeded req.iscContext))
            let executionTick := req.submitTick + sub64 now req.submitTick
            processISCLoop now fuel remaining
              (env.iscCallback req.iscContext executionTick s)
          else processISCLoop now fuel (remaining ++ [req]) s

def processISCRequests (now : Tick) (s : CreditScheduler) : CreditScheduler :=
  processISCLoop p env now (s.deferredISCRequests.length + 1 + env.fuel) [] s

/-! ## Round robin -/

def UserAccount.popQueue (acc : UserAccount) : UserAccount :=
  { acc with queue := acc.queue.tail }

def UserAccount.popQueueISC (acc : UserAccount) : UserAccount :=
  { acc with queueISC := acc.queueISC.tail }

/-- Dispatch one host request; users that cannot pay have their head moved to
the deferred queue on the way. -/
def tryDispatchHost (now : Tick) :
    List UserID → CreditScheduler → Bool × Tick × CreditScheduler
  | [], s => (false, now, s)
  | uid :: rest, s =>
      match (s.account uid).queue with
      | [] => tryDispatchHost now rest s
      | front :: _ =>
          let tried := tryDispatchWithCredit p front now s
          let s := tried.2.modify uid UserAccount.popQueue
          if tried.1 then
            let s := { s with lastChosenUid := uid }.emit (.serve (.request front))
            (true, dispatchReentrant p env front now s)
          else tryDispatchHost now rest s

def tryDispatchISC (now : Tick) :
    List UserID → CreditScheduler → Bool × CreditScheduler
  | [], s => (false, s)
  | uid :: rest, s =>
      match (s.account uid).queueISC with
      | [] => tryDispatchISC now rest s
      | front :: _ =>
          if front.pages ≤ (s.account uid).credit then
            let s := s.charge .queueISC .isc uid front.pages
            (true, ({ s with lastChosenUidISC := uid }.modify uid
              UserAccount.popQueueISC).emit (.serve (.request front)))
          else
            let s := { s with
              deferredQueue := s.deferredQueue ++
                [(⟨front, front.pages, now⟩ : DeferredRequest)] }
            tryDispatchISC now rest (s.modify uid UserAccount.popQueueISC)

def maxDispatchPerTick : Nat := 4096

def dispatchRounds : Nat → Tick → CreditScheduler → Tick × CreditScheduler
  | 0, now, s => (now, s)
  | rounds + 1, now, s =>
      let isc := tryDispatchISC now (scanOrder s.lastChosenUidISC s.users) s
      if isc.1 then dispatchRounds rounds now isc.2
      else
        let host := tryDispatchHost p env now
          (scanOrder isc.2.lastChosenUid isc.2.users) isc.2
        if host.1 then dispatchRounds rounds host.2.1 host.2.2 else host.2

/-! ## The periodic event -/

def serviceQueues (now : Tick) (s : CreditScheduler) : Tick × CreditScheduler :=
  let deferred := drainDeferred p env s.deferredQueue.length now s
  let s := drainDeferredISC p env deferred.1 deferred.2.deferredISC.length deferred.2
  let s := processISCRequests p env deferred.1 s
  dispatchRounds p env maxDispatchPerTick deferred.1 s

def tick (now : Tick) (s : CreditScheduler) : Tick × CreditScheduler :=
  if s.inTick then (now, s)
  else
    let s := iopsWindow p now { s with inTick := true }
    let admin := drainAdmin p env (s.adminQueue.length + env.fuel) now s
    let done := serviceQueues p env admin.1 (refill p admin.1 admin.2)
    (done.1, { done.2 with inTick := false })

def processEvent (now : Tick) (s : CreditScheduler) : CreditScheduler :=
  let s := (tick p env now s).2
  { s with refillEvent := some s.lastGlobalRefillTick }

/-- The exit test of `processUntil`. -/
def hasPending (uid : UserID) (s : CreditScheduler) : Bool :=
  (decide (uid ∈ s.users) &&
      (!(s.account uid).queue.isEmpty || !(s.account uid).queueISC.isEmpty)) ||
    !s.deferredQueue.isEmpty || !s.deferredISC.isEmpty

def processLoop (uid : UserID) : Nat → Tick → CreditScheduler → Tick × CreditScheduler
  | 0, completionTick, s => (completionTick, s)
  | iterations + 1, completionTick, s =>
      let done := tick p env completionTick s
      if done.2.hasPending uid then
        processLoop uid iterations (done.1 + p.periodTicks / 10) done.2
      else done

def maxIterations : Nat := 1000000

def processUntil (getTick : Tick) (req : Request) (completionTick : Tick)
    (s : CreditScheduler) : Tick × CreditScheduler :=
  processLoop p env req.userID maxIterations completionTick
    (s.submitRequest p getTick req)

/-! ## Queries, direct charges and the statistics reset -/

def pendingForUser (uid : UserID) (s : CreditScheduler) : Bool :=
  decide (uid ∈ s.users) && (s.account uid).pendingGates != 0

def checkCredit (uid : UserID) (need : Nat) (s : CreditScheduler) : Bool :=
  decide (uid ∉ s.users) || decide (need ≤ (s.account uid).credit) ||
    ((s.account uid).credit == 0 && decide (0 < (s.account uid).creditCap) &&
      (s.account uid).totalConsumed == 0)

def useCreditAs (site : ChargeSite) (cls : ChargeClass) (uid : UserID)
    (used : Nat) (s : CreditScheduler) : CreditScheduler :=
  let s := s.getOrCreateUser p uid
  let take := if (s.account uid).credit < used then (s.account uid).credit else used
  s.charge site cls uid take

def useCredit (uid : UserID) (used : Nat) : CreditScheduler → CreditScheduler :=
  useCreditAs p .useCredit .totalOnly uid used

def useCreditISC (uid : UserID) (used : Nat) : CreditScheduler → CreditScheduler :=
  useCreditAs p .useCreditISC .isc uid used

def UserAccount.resetStat (getTick : Tick) (acc : UserAccount) : UserAccount :=
  { acc with
    credit := 0
    carry := 0
    totalConsumed := 0
    consumedHost := 0
    consumedISC := 0
    isActive := false
    lastRefillTick := getTick
    pendingGates := 0
    queueISC := [] }

def resetStatValues (getTick : Tick) (s : CreditScheduler) : CreditScheduler :=
  { s.mapUsers (UserAccount.resetStat getTick) with
    adminQueue := []
    lastChosenUid := 0
    lastGlobalRefillTick := 0 }

/-! ## What an activation keeps -/

section Activation

variable {p : Params} {s : CreditScheduler}

theorem activate_users (getTick : Tick) (uid : UserID) :
    (s.activate p getTick uid).users = s.users := by
  unfold CreditScheduler.activate
  split
  · rfl
  · dsimp only
    split <;> rfl

theorem activate_field {α : Type*} {getTick : Tick} {uid : UserID} (other : UserID)
    (field : UserAccount → α)
    (same : ∀ acc, field (UserAccount.activate getTick acc) = field acc) :
    field ((s.activate p getTick other).account uid) = field (s.account uid) := by
  unfold CreditScheduler.activate
  split
  · rfl
  · dsimp only
    split
    · exact modify_field s other uid field same
    · exact modify_field s other uid field same

theorem mem_ensureActiveUser (getTick : Tick) (uid : UserID) :
    uid ∈ (s.ensureActiveUser p getTick uid).users := by
  unfold ensureActiveUser
  rw [activate_users]
  exact mem_getOrCreateUser p uid s

end Activation

end CreditScheduler

end SimpleSSD.HIL
