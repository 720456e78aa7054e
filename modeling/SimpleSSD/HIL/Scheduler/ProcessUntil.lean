import SimpleSSD.HIL.Scheduler.FCFS
import SimpleSSD.HIL.Scheduler.Run

/-!
# Completion times handed back to HIL

`processUntil` of either scheduler returns the tick at which HIL completes the
request.  The credit scheduler passes the tick to the cache layer by reference,
the first-come first-served scheduler by value.
-/

namespace SimpleSSD.HIL

namespace CreditScheduler

/-! ## The credit scheduler -/

def Event.completion : Event → Option Completion
  | .icl req beginAt finishedAt => some ⟨req, beginAt, finishedAt⟩
  | _ => none

def completions (s : CreditScheduler) : List Completion :=
  s.trace.filterMap Event.completion

/-- Callbacks of deferred in-storage work that hand nothing to the storage by
themselves. -/
structure Callbacks where
  resume : DeferredCustom → Tick → CreditScheduler → CreditScheduler
  iscCallback : Nat → Tick → CreditScheduler → CreditScheduler
  fuel : Nat
  resume_completions : ∀ dc now s, (resume dc now s).completions = s.completions
  iscCallback_completions :
    ∀ ctx now s, (iscCallback ctx now s).completions = s.completions

def Callbacks.env (callbacks : Callbacks) (storage : Storage) : Env where
  icl req now s := (storage.answer req now s.completions, s)
  resume := callbacks.resume
  iscCallback := callbacks.iscCallback
  fuel := callbacks.fuel

/-- Time has moved on, and what has been handed to the storage meanwhile was
finished by the new time. -/
def Advances (now : Tick) (s : CreditScheduler) (now' : Tick) (s' : CreditScheduler) :
    Prop :=
  now ≤ now' ∧ ∃ new, s'.completions = new ++ s.completions ∧
    ∀ done ∈ new, done.finishedAt ≤ now'

section Advances

variable {now now' now'' : Tick} {s s' s'' : CreditScheduler}

theorem Advances.still (h : s'.completions = s.completions) : Advances now s now s' :=
  ⟨le_rfl, [], h, by simp⟩

theorem Advances.trans (first : Advances now s now' s') (second : Advances now' s' now'' s'') :
    Advances now s now'' s'' := by
  obtain ⟨le₁, new₁, eq₁, done₁⟩ := first
  obtain ⟨le₂, new₂, eq₂, done₂⟩ := second
  refine ⟨le₁.trans le₂, new₂ ++ new₁, by rw [eq₂, eq₁, List.append_assoc], ?_⟩
  intro done hmem
  rcases List.mem_append.1 hmem with h | h
  · exact done₂ done h
  · exact (done₁ done h).trans le₂

theorem Advances.wait (first : Advances now s now' s') (le : now' ≤ now'') :
    Advances now s now'' s' := by
  obtain ⟨le₁, new, eq, done⟩ := first
  exact ⟨le₁.trans le, new, eq, fun d hmem => (done d hmem).trans le⟩

theorem Advances.of_still (h : s'.completions = s.completions)
    (rest : Advances now s' now' s'') : Advances now s now' s'' :=
  (Advances.still h).trans rest

end Advances

section Functions

variable {p : Params} {storage : Storage} {callbacks : Callbacks} {s : CreditScheduler}

@[simp] theorem completions_modify (uid : UserID) (f : UserAccount → UserAccount) :
    (s.modify uid f).completions = s.completions := rfl

@[simp] theorem completions_getOrCreateUser (uid : UserID) :
    (s.getOrCreateUser p uid).completions = s.completions := by
  unfold getOrCreateUser
  split <;> rfl

@[simp] theorem completions_charge (site : ChargeSite) (cls : ChargeClass) (uid : UserID)
    (pages : Nat) : (s.charge site cls uid pages).completions = s.completions := rfl

@[simp] theorem completions_serve (item : Item) :
    (s.emit (.serve item)).completions = s.completions := rfl

theorem completions_activate (getTick : Tick) (uid : UserID) :
    (s.activate p getTick uid).completions = s.completions := by
  unfold activate
  split
  · rfl
  · simp only
    split <;> rfl

theorem completions_submitRequest (getTick : Tick) (req : Request) :
    (s.submitRequest p getTick req).completions = s.completions := by
  unfold submitRequest
  split
  · rfl
  · rw [completions_activate, completions_modify, completions_getOrCreateUser]

theorem dispatchICL_advances (req : Request) (now : Tick) :
    Advances now s (s.dispatchICL p (callbacks.env storage) req now).1
      (s.dispatchICL p (callbacks.env storage) req now).2 := by
  unfold dispatchICL
  split
  · refine ⟨storage.later _ _ _, [⟨req, now, storage.answer req now s.completions⟩], ?_, ?_⟩
    · rw [completions_modify, completions_getOrCreateUser]
      rfl
    · intro done hmem
      rw [List.mem_singleton.1 hmem]
      exact le_rfl
  · exact .still rfl

theorem dispatchReentrant_advances (req : Request) (now : Tick) :
    Advances now s (s.dispatchReentrant p (callbacks.env storage) req now).1
      (s.dispatchReentrant p (callbacks.env storage) req now).2 :=
  dispatchICL_advances (s := { s with inTick := false }) req now

theorem drainAdmin_advances (fuel : Nat) (now : Tick) :
    Advances now s (s.drainAdmin p (callbacks.env storage) fuel now).1
      (s.drainAdmin p (callbacks.env storage) fuel now).2 := by
  induction fuel generalizing now s with
  | zero => exact .still rfl
  | succ fuel ih =>
      unfold drainAdmin
      split
      · exact .still rfl
      · refine Advances.trans ?_ (ih _)
        exact .of_still rfl (dispatchICL_advances _ _)

theorem drainDeferred_advances (n : Nat) (now : Tick) :
    Advances now s (s.drainDeferred p (callbacks.env storage) n now).1
      (s.drainDeferred p (callbacks.env storage) n now).2 := by
  induction n generalizing now s with
  | zero => exact .still rfl
  | succ n ih =>
      unfold drainDeferred
      split
      · exact .still rfl
      · simp only
        split
        · refine Advances.trans ?_ (ih _)
          refine Advances.of_still ?_ (dispatchReentrant_advances _ _)
          rw [completions_serve, completions_charge, completions_getOrCreateUser]
          rfl
        · refine Advances.of_still ?_ (ih _)
          exact completions_getOrCreateUser _

theorem completions_resumeReentrant (dc : DeferredCustom) (now : Tick) :
    (s.resumeReentrant (callbacks.env storage) dc now).completions = s.completions := by
  unfold resumeReentrant
  split
  · exact callbacks.resume_completions dc now { s with inTick := false }
  · rfl

theorem completions_drainDeferredISC (now : Tick) (n : Nat) :
    (s.drainDeferredISC p (callbacks.env storage) now n).completions = s.completions := by
  induction n generalizing s with
  | zero => rfl
  | succ n ih =>
      unfold drainDeferredISC
      split
      · rfl
      · simp only
        split
        · rw [ih, completions_resumeReentrant, completions_serve, completions_charge,
            completions_getOrCreateUser]
          rfl
        · rw [ih]
          exact completions_getOrCreateUser _

theorem completions_processISCLoop (now : Tick) (fuel : Nat)
    (remaining : List ISCDeferredRequest) :
    (s.processISCLoop p (callbacks.env storage) now fuel remaining).completions =
      s.completions := by
  induction fuel generalizing remaining s with
  | zero => rfl
  | succ fuel ih =>
      unfold processISCLoop
      split
      · rfl
      · simp only
        split
        · rw [ih]
          refine (callbacks.iscCallback_completions _ _ _).trans ?_
          rw [completions_serve, completions_charge, completions_getOrCreateUser]
          rfl
        · rw [ih, completions_getOrCreateUser]
          rfl

theorem completions_tryDispatchWithCredit (req : Request) (now : Tick) :
    (s.tryDispatchWithCredit p req now).2.completions = s.completions := by
  unfold tryDispatchWithCredit
  simp only
  split
  · exact completions_getOrCreateUser _
  · rw [completions_charge, completions_getOrCreateUser]

theorem tryDispatchHost_advances (now : Tick) (order : List UserID) :
    Advances now s (s.tryDispatchHost p (callbacks.env storage) now order).2.1
      (s.tryDispatchHost p (callbacks.env storage) now order).2.2 := by
  induction order generalizing s with
  | nil => exact .still rfl
  | cons uid order ih =>
      unfold tryDispatchHost
      split
      · exact ih
      · simp only
        split
        · exact .of_still (completions_tryDispatchWithCredit _ _)
            (dispatchReentrant_advances _ _)
        · exact .of_still (completions_tryDispatchWithCredit _ _) ih

theorem completions_tryDispatchISC (now : Tick) (order : List UserID) :
    (s.tryDispatchISC now order).2.completions = s.completions := by
  induction order generalizing s with
  | nil => rfl
  | cons uid order ih =>
      unfold tryDispatchISC
      split
      · exact ih
      · simp only
        split
        · rfl
        · rw [ih]
          rfl

theorem dispatchRounds_advances (rounds : Nat) (now : Tick) :
    Advances now s (s.dispatchRounds p (callbacks.env storage) rounds now).1
      (s.dispatchRounds p (callbacks.env storage) rounds now).2 := by
  induction rounds generalizing now s with
  | zero => exact .still rfl
  | succ rounds ih =>
      unfold dispatchRounds
      simp only
      split
      · exact .of_still (completions_tryDispatchISC _ _) (ih _)
      · split
        · refine Advances.trans ?_ (ih _)
          exact .of_still (completions_tryDispatchISC _ _) (tryDispatchHost_advances _ _)
        · exact .of_still (completions_tryDispatchISC _ _) (tryDispatchHost_advances _ _)

theorem completions_refill (now : Tick) : (s.refill p now).completions = s.completions := by
  have looped : ∀ (fuel : Nat) (t : CreditScheduler),
      (t.refillLoop p now fuel).completions = t.completions := by
    intro fuel
    induction fuel with
    | zero => exact fun _ => rfl
    | succ fuel ih =>
        intro t
        unfold refillLoop
        split
        · rw [ih]
          rfl
        · rfl
  exact looped _ _

theorem completions_iopsWindow (now : Tick) :
    (s.iopsWindow p now).completions = s.completions := by
  unfold iopsWindow
  simp only
  split <;> rfl

theorem serviceQueues_advances (now : Tick) :
    Advances now s (s.serviceQueues p (callbacks.env storage) now).1
      (s.serviceQueues p (callbacks.env storage) now).2 := by
  unfold serviceQueues
  refine (drainDeferred_advances _ now).trans (.of_still ?_ (dispatchRounds_advances _ _))
  rw [processISCRequests, completions_processISCLoop, completions_drainDeferredISC]

theorem drain_and_service_advances (fuel : Nat) (now : Tick) :
    Advances now s
      (((s.drainAdmin p (callbacks.env storage) fuel now).2.refill p
        (s.drainAdmin p (callbacks.env storage) fuel now).1).serviceQueues p
        (callbacks.env storage) (s.drainAdmin p (callbacks.env storage) fuel now).1).1
      (((s.drainAdmin p (callbacks.env storage) fuel now).2.refill p
        (s.drainAdmin p (callbacks.env storage) fuel now).1).serviceQueues p
        (callbacks.env storage) (s.drainAdmin p (callbacks.env storage) fuel now).1).2 :=
  (drainAdmin_advances fuel now).trans
    (.of_still (completions_refill _) (serviceQueues_advances _))

theorem tick_advances (now : Tick) :
    Advances now s (s.tick p (callbacks.env storage) now).1
      (s.tick p (callbacks.env storage) now).2 := by
  unfold tick
  split
  · exact .still rfl
  · have entered : (({ s with inTick := true } : CreditScheduler).iopsWindow p
        now).completions = s.completions := completions_iopsWindow now
    exact (Advances.of_still entered (drain_and_service_advances _ now)).trans (.still rfl)

theorem processLoop_advances (uid : UserID) (iterations : Nat) (completionTick : Tick) :
    Advances completionTick s
      (s.processLoop p (callbacks.env storage) uid iterations completionTick).1
      (s.processLoop p (callbacks.env storage) uid iterations completionTick).2 := by
  induction iterations generalizing completionTick s with
  | zero => exact .still rfl
  | succ iterations ih =>
      have ticked : Advances completionTick s
          (s.tick p (callbacks.env storage) completionTick).1
          (s.tick p (callbacks.env storage) completionTick).2 := tick_advances _
      unfold processLoop
      simp only
      split
      · exact (ticked.wait (Nat.le_add_right _ _)).trans (ih _)
      · exact ticked

theorem processUntil_advances (getTick : Tick) (req : Request) (completionTick : Tick) :
    Advances completionTick s
      (s.processUntil p (callbacks.env storage) getTick req completionTick).1
      (s.processUntil p (callbacks.env storage) getTick req completionTick).2 :=
  .of_still (completions_submitRequest getTick req) (processLoop_advances _ _ _)

end Functions

end CreditScheduler

/-! ## The first-come first-served scheduler -/

namespace FCFSScheduler

def Unqueued (req : Request) (s : FCFSScheduler) : Prop :=
  ∀ uid, req ∉ (s.account uid).queue ∧ req ∉ (s.account uid).queueISC

def SelectsGiven (req : Request) (s : FCFSScheduler) : Prop :=
  (s.submitRequest req).nextHost = some req.userID ∧
    ((s.getOrCreateUser req.userID).account req.userID).queue = []

section

variable {storage : Storage} {s : FCFSScheduler} {req : Request}

theorem submitRequest_account (uid : UserID) :
    (s.submitRequest req).account uid = if uid = req.userID then
      { (s.getOrCreateUser req.userID).account req.userID with
        queue := ((s.getOrCreateUser req.userID).account req.userID).queue ++ [req],
        isActive := true }
    else (s.getOrCreateUser req.userID).account uid := by
  rw [submitRequest, modify_account]

theorem Unqueued.getOrCreateUser (fresh : Unqueued req s) (uid : UserID) :
    Unqueued req (s.getOrCreateUser uid) := by
  intro other
  rcases getOrCreateUser_account s uid other with same | new
  · rw [same]
    exact fresh other
  · rw [new]
    exact ⟨List.not_mem_nil, List.not_mem_nil⟩

theorem head_eq_given (fresh : Unqueued req s) {uid : UserID} {front : Request}
    {rest : List Request} (head : ((s.submitRequest req).account uid).queue = front :: rest) :
    front = req ↔ uid = req.userID ∧
      ((s.getOrCreateUser req.userID).account req.userID).queue = [] := by
  have entered := fresh.getOrCreateUser req.userID
  rw [submitRequest_account] at head
  constructor
  · rintro rfl
    split at head
    · rename_i heq
      refine ⟨heq, ?_⟩
      simp only at head
      cases old : ((s.getOrCreateUser front.userID).account front.userID).queue with
      | nil => rfl
      | cons first later =>
          rw [old, List.cons_append, List.cons.injEq] at head
          have := (entered front.userID).1
          rw [old, head.1] at this
          exact absurd List.mem_cons_self this
    · have := (entered uid).1
      rw [head] at this
      exact absurd List.mem_cons_self this
  · rintro ⟨rfl, empty⟩
    rw [if_pos rfl] at head
    simp only [empty, List.nil_append, List.cons.injEq] at head
    exact head.1.symm

theorem submitRequest_queueISC {front : Request} {uid : UserID}
    (h : front ∈ ((s.submitRequest req).account uid).queueISC) :
    front ∈ ((s.getOrCreateUser req.userID).account uid).queueISC := by
  rw [submitRequest_account] at h
  split at h
  · rename_i heq
    rw [heq]
    exact h
  · exact h

@[simp] theorem submitRequest_completions :
    (s.submitRequest req).completions = s.completions := by
  simp [submitRequest, modify]

/-- The request the host dispatch of the call takes is the given one exactly
when the round robin selects it. -/
theorem hostHead_eq_given (fresh : Unqueued req s) :
    (s.submitRequest req).hostHead = some req ↔ SelectsGiven req s := by
  unfold hostHead SelectsGiven
  cases picked : (s.submitRequest req).nextHost with
  | none => simp
  | some uid =>
      rw [Option.bind_some, Option.some.injEq]
      cases head : ((s.submitRequest req).account uid).queue with
      | nil =>
          have := List.find?_some picked
          simp [head] at this
      | cons front rest =>
          rw [List.head?_cons, Option.some.injEq]
          exact head_eq_given fresh head

/-- One call hands the given request to the storage exactly when the round robin
selects it, and with the tick of the call. -/
theorem processUntil_completions (storage : Storage) (latency completionTick : Tick)
    (fresh : Unqueued req s) :
    ∃ isc host, (s.processUntil storage latency req completionTick).2.completions =
        isc ++ (host ++ s.completions) ∧
      (∀ done ∈ isc, done.req ≠ req) ∧
      (SelectsGiven req s ∧ req.op.isHost = true → host =
        [⟨req, completionTick, storage.answer req completionTick s.completions⟩]) ∧
      (¬(SelectsGiven req s ∧ req.op.isHost = true) → ∀ done ∈ host, done.req ≠ req) := by
  set ready : FCFSScheduler := { s.submitRequest req with
    currentTick := completionTick
    lastReportTick :=
      if Foundation.sub64 completionTick (s.submitRequest req).lastReportTick <
        reportIntervalTicks then (s.submitRequest req).lastReportTick else completionTick }
  have entered := fresh.getOrCreateUser req.userID
  have same : ready.hostHead = (s.submitRequest req).hostHead := rfl
  have head : ready.hostHead = some req ↔ SelectsGiven req s := by
    rw [same]
    exact hostHead_eq_given fresh
  have before : ready.completions = s.completions := submitRequest_completions
  have tick : ready.currentTick = completionTick := rfl
  set after := (tryDispatchHost storage (scanOrder ready.lastChosenUid ready.users) ready).2
  have hosts : after.completions = hostCompletion storage ready ++ s.completions := by
    rw [tryDispatchHost_completions, before]
  obtain ⟨isc, iscDone, iscFrom⟩ := tryDispatchISC_completions storage after
    (scanOrder after.lastChosenUidISC after.users)
  refine ⟨isc, hostCompletion storage ready, ?_, ?_, ?_, ?_⟩
  · rw [← hosts]
    exact iscDone
  · intro done hmem heq
    obtain ⟨uid, hqueue⟩ := iscFrom done hmem
    obtain ⟨other, hqueue⟩ := tryDispatchHost_queueISC storage ready uid _ hqueue
    rw [heq] at hqueue
    exact (entered other).2 (submitRequest_queueISC hqueue)
  · rintro ⟨selected, host⟩
    rw [hostCompletion, head.2 selected]
    simp only [host, if_true, tick, before]
  · intro unselected done hmem heq
    unfold hostCompletion at hmem
    cases front : ready.hostHead with
    | none =>
        rw [front] at hmem
        exact absurd hmem List.not_mem_nil
    | some first =>
        rw [front] at hmem
        simp only at hmem
        split at hmem
        · rename_i host
          rw [List.mem_singleton.1 hmem] at heq
          simp only at heq
          subst heq
          exact unselected ⟨head.1 front, host⟩
        · exact absurd hmem List.not_mem_nil

end

end FCFSScheduler

/-! ## Either scheduler behind HIL -/

inductive Scheduler where
  | fcfs (latency : Tick) (s : FCFSScheduler)
  | credit (p : CreditScheduler.Params) (callbacks : CreditScheduler.Callbacks)
      (s : CreditScheduler)

namespace Scheduler

def completions : Scheduler → List Completion
  | .fcfs _ s => s.completions
  | .credit _ _ s => s.completions

def processUntil (storage : Storage) (getTick : Tick) (req : Request)
    (completionTick : Tick) : Scheduler → Tick × Scheduler
  | .fcfs latency s =>
      let done := s.processUntil storage latency req completionTick
      (done.1, .fcfs latency done.2)
  | .credit p callbacks s =>
      let done := s.processUntil p (callbacks.env storage) getTick req completionTick
      (done.1, .credit p callbacks done.2)

/-- HIL numbers its requests, so that a new one is in no queue. -/
def Unqueued (req : Request) : Scheduler → Prop
  | .fcfs _ s => s.Unqueued req
  | .credit _ _ _ => True

/-- If the call hands the given request to the storage, then the tick it
returns is not before the tick the storage answered. -/
def CompletesAfterStorage (storage : Storage) (getTick : Tick) (req : Request)
    (completionTick : Tick) (s : Scheduler) : Prop :=
  ∃ new, (s.processUntil storage getTick req completionTick).2.completions =
      new ++ s.completions ∧
    ∀ done ∈ new, done.req = req →
      done.finishedAt ≤ (s.processUntil storage getTick req completionTick).1

/-- When the first-come first-served scheduler selects the request of the call,
the storage takes no longer than the scheduling step. -/
def StorageWithinStep (storage : Storage) (req : Request) (completionTick : Tick) :
    Scheduler → Prop
  | .fcfs latency s => s.SelectsGiven req → req.op.isHost = true →
      storage.answer req completionTick s.completions ≤ completionTick + latency
  | .credit _ _ _ => True

theorem completesAfterStorage_iff (storage : Storage) (getTick : Tick) (req : Request)
    (completionTick : Tick) (s : Scheduler) (fresh : s.Unqueued req) :
    s.CompletesAfterStorage storage getTick req completionTick ↔
      s.StorageWithinStep storage req completionTick := by
  cases s with
  | credit p callbacks s =>
      obtain ⟨-, new, heq, finished⟩ :=
        CreditScheduler.processUntil_advances (p := p) (s := s) getTick req completionTick
      exact ⟨fun _ => trivial, fun _ => ⟨new, heq, fun done hmem _ => finished done hmem⟩⟩
  | fcfs latency s =>
      obtain ⟨isc, host, heq, hisc, given, other⟩ :=
        FCFSScheduler.processUntil_completions storage latency completionTick fresh
      have total : (s.processUntil storage latency req completionTick).2.completions =
          (isc ++ host) ++ s.completions := by rw [heq, List.append_assoc]
      constructor
      · rintro ⟨new, hnew, finished⟩ selected hhost
        obtain rfl : new = isc ++ host :=
          List.append_cancel_right (hnew.symm.trans total)
        rw [given ⟨selected, hhost⟩] at finished
        exact finished _ (List.mem_append_right _ List.mem_cons_self) rfl
      · intro within
        refine ⟨isc ++ host, total, fun done hmem hreq => ?_⟩
        rcases List.mem_append.1 hmem with h | h
        · exact absurd hreq (hisc done h)
        · by_cases selected : s.SelectsGiven req ∧ req.op.isHost = true
          · rw [given selected] at h
            rw [List.mem_singleton.1 h]
            exact within selected.1 selected.2
          · exact absurd hreq (other selected done h)

def slowStorage : Storage where
  answer _ now _ := now + 50000000
  later _ _ _ := Nat.le_add_right _ _

theorem construct_unqueued (latency : Tick) (req : Request) :
    (Scheduler.fcfs latency .construct).Unqueued req := by
  intro uid
  rw [FCFSScheduler.construct_account]
  exact ⟨List.not_mem_nil, List.not_mem_nil⟩

theorem completesAfterStorage_iff_fcfs :
    (Scheduler.fcfs 50000000 .construct).CompletesAfterStorage slowStorage 0
      (.ofPages .read 1001 1) 0 :=
  (completesAfterStorage_iff slowStorage 0 (.ofPages .read 1001 1) 0
    (.fcfs 50000000 .construct) (construct_unqueued _ _)).2 fun _ _ => by decide

/-- One read of one page by user 1001, on a fresh scheduler: HIL is told 935000
and the storage is done at 50000000. -/
theorem fcfs_completes_before_storage :
    ¬ ∀ (storage : Storage) (getTick : Tick) (req : Request) (completionTick : Tick)
      (s : Scheduler), req.op.isHost = true → s.Unqueued req →
        s.CompletesAfterStorage storage getTick req completionTick := by
  intro claim
  obtain ⟨new, heq, finished⟩ := claim slowStorage 0 (.ofPages .read 1001 1) 0
    (.fcfs 935000 .construct) rfl (construct_unqueued _ _)
  have handed : ((Scheduler.fcfs 935000 .construct).processUntil slowStorage 0
      (.ofPages .read 1001 1) 0).2.completions =
      [⟨.ofPages .read 1001 1, 0, 50000000⟩] := by decide +kernel
  have returned : ((Scheduler.fcfs 935000 .construct).processUntil slowStorage 0
      (.ofPages .read 1001 1) 0).1 = 935000 := rfl
  have before : (Scheduler.fcfs 935000 .construct).completions = [] := by decide +kernel
  rw [handed, before, List.append_nil] at heq
  have late := finished _ (heq ▸ List.mem_cons_self) rfl
  rw [returned] at late
  exact absurd late (by decide)

end Scheduler

end SimpleSSD.HIL
