import SimpleSSD.HIL.Scheduler.Calls
import SimpleSSD.HIL.Scheduler.Service

/-!
# Waiting for other users

`processUntil` ticks until nothing of its user is queued and both deferred queues
are empty, whosever the entries are.  A request that its user can pay is therefore
handed over without waiting exactly when the first tick defers nothing of the other
users, and its turn comes within the rounds of that tick.
-/

namespace SimpleSSD.HIL.CreditScheduler

open SimpleSSD.Foundation Relation

def beforeService (p : Params) (env : Env) (now : Tick) (s : CreditScheduler) :
    Tick × CreditScheduler :=
  let s := iopsWindow p now { s with inTick := true }
  let admin := drainAdmin p env (s.adminQueue.length + env.fuel) now s
  (admin.1, refill p admin.1 admin.2)

def waits (p : Params) (env : Env) (uid : UserID) : Nat → Tick → CreditScheduler → Nat
  | 0, _, _ => 0
  | iterations + 1, completionTick, s =>
      let done := tick p env completionTick s
      if done.2.hasPending uid then
        waits p env uid iterations (done.1 + p.periodTicks / 10) done.2 + 1
      else 0

def newEvents (s t : CreditScheduler) : List Event :=
  t.trace.take (t.trace.length - s.trace.length)

/-- `processUntil` serves the request in its first tick and inserts no waiting step. -/
def Immediate (p : Params) (env : Env) (getTick : Tick) (req : Request) (now : Tick)
    (s : CreditScheduler) : Prop :=
  let submitted := s.submitRequest p getTick req
  waits p env req.userID maxIterations now submitted = 0 ∧
    .serve (.request req) ∈ newEvents submitted (submitted.tick p env now).2

/-- A request that its user can pay, when nothing else of the user waits. -/
structure Covered (req : Request) (s : CreditScheduler) : Prop where
  user : req.userID ≠ 0
  queue : (s.account req.userID).queue = []
  queueISC : (s.account req.userID).queueISC = []
  deferredQueue : ∀ dr ∈ s.deferredQueue, dr.req.userID ≠ req.userID
  deferredISC : ∀ dc ∈ s.deferredISC, dc.uid ≠ req.userID
  deferredISCRequests : ∀ r ∈ s.deferredISCRequests, r.uid ≠ req.userID
  credit : req.pages ≤ (s.account req.userID).credit

/-- No other user is short of credit for what a tick comes to, and the request is among
what the round robin serves. -/
structure OthersPay (p : Params) (req : Request) (v : View) : Prop where
  deferred : ∀ uid, uid ≠ req.userID → owed v.deferredDebts uid ≤ v.credit uid
  queued : ∀ uid, uid ≠ req.userID →
    owed ((v.served p).1.map Request.debt) uid ≤ (v.queued p).credit uid
  reached : req ∈ (v.served p).1

section Tick

variable {p : Params} {env : Env} {s t : CreditScheduler} {req : Request}

theorem tick_eq (out : s.inTick = false) (now : Tick) :
    s.tick p env now =
      ((serviceQueues p env (beforeService p env now s).1 (beforeService p env now s).2).1,
        { (serviceQueues p env (beforeService p env now s).1
            (beforeService p env now s).2).2 with inTick := false }) := by
  unfold tick
  rw [out]
  rfl

theorem waits_eq_zero_iff (uid : UserID) (iterations : Nat) (now : Tick) :
    waits p env uid (iterations + 1) now s = 0 ↔
      (s.tick p env now).2.hasPending uid = false := by
  unfold waits
  simp only
  split
  next pending => simp [pending]
  next done => simpa using done

theorem hasPending_eq_false_iff (proper : Proper s) (uid : UserID) :
    s.hasPending uid = false ↔ s.view.queue uid = [] ∧ s.view.queueISC uid = [] ∧
      s.deferredQueue = [] ∧ s.deferredISC = [] := by
  by_cases known : uid ∈ s.users
  · simp [hasPending, known, view, and_assoc]
  · obtain ⟨queue, queueISC⟩ := proper.known uid known
    simp [hasPending, known, view, queue, queueISC]

theorem newEvents_eq {new : List Event} (h : t.trace = new ++ s.trace) :
    newEvents s t = new := by
  simp [newEvents, h]

/-! ## Before the queues are served -/

/-- Nothing but the users and their credit differs, and no credit has been taken. -/
structure Readied (s t : CreditScheduler) : Prop where
  queue : t.view.queue = s.view.queue
  queueISC : t.view.queueISC = s.view.queueISC
  deferredQueue : t.view.deferredQueue = s.view.deferredQueue
  deferredISC : t.view.deferredISC = s.view.deferredISC
  deferredISCRequests : t.view.deferredISCRequests = s.view.deferredISCRequests
  credit : ∀ uid, s.view.credit uid ≤ t.view.credit uid

theorem Readied.refl (s : CreditScheduler) : Readied s s :=
  ⟨rfl, rfl, rfl, rfl, rfl, fun _ => le_rfl⟩

theorem Readied.trans {u : CreditScheduler} (first : Readied s t) (second : Readied t u) :
    Readied s u :=
  ⟨second.queue.trans first.queue, second.queueISC.trans first.queueISC,
    second.deferredQueue.trans first.deferredQueue, second.deferredISC.trans first.deferredISC,
    second.deferredISCRequests.trans first.deferredISCRequests,
    fun uid => (first.credit uid).trans (second.credit uid)⟩

theorem Readied.of_view {users : List UserID} (h : t.view = { s.view with users := users }) :
    Readied s t :=
  ⟨(congrArg View.queue h :), (congrArg View.queueISC h :), (congrArg View.deferredQueue h :),
    (congrArg View.deferredISC h :), (congrArg View.deferredISCRequests h :),
    fun uid => (congrFun (congrArg View.credit h) uid).ge⟩

theorem Readied.drainAdmin (quiet : env.Quiet) (fuel : Nat) (now : Tick) (proper : Proper s) :
    Readied s (s.drainAdmin p env fuel now).2 := by
  induction fuel generalizing s now with
  | zero => exact .refl s
  | succ fuel ih =>
      unfold CreditScheduler.drainAdmin
      split
      · exact .refl s
      next req rest waiting =>
        set taken := { s with adminQueue := rest }.emit (.serve (.request req)) with htaken
        have properTaken : Proper taken :=
          proper.of_eq rfl (fun _ => rfl) (List.Subset.refl _)
        have sent : Readied taken (taken.dispatchICL p env req now).2 := by
          unfold dispatchICL
          split
          · simp only [quiet.icl]
            set answered := taken.emit (.icl req now (env.icl req now taken).1)
            have found := view_getOrCreateUser (p := p) (s := answered) properTaken.blank
              req.userID
            have window : ∀ t : CreditScheduler, (t.modify req.userID fun acc => { acc with
                winHostPages := acc.winHostPages + req.pages
                winHostIOs := acc.winHostIOs + 1 }).view = t.view := fun t =>
              view_modify req.userID _ (fun _ => rfl) (fun _ => rfl) fun _ => rfl
            exact .of_view ((window _).trans found)
          · exact .refl taken
        have properSent := properTaken.acts (dispatchICL_acts (p := p) quiet.actsOn req now taken)
        have handed : Readied s (taken.dispatchICL p env req now).2 :=
          ⟨sent.queue, sent.queueISC, sent.deferredQueue, sent.deferredISC,
            sent.deferredISCRequests, sent.credit⟩
        exact handed.trans (ih _ properSent)

theorem Readied.refill (now : Tick) : Readied s (s.refill p now) := by
  have phase : ∀ t : CreditScheduler, Readied t (t.refillPhase p) := by
    intro t
    obtain ⟨account, grants⟩ := t.refillGrants_eq p
    have kept := fun uid => phase_proper (p := p) t uid
    refine ⟨funext fun uid => (kept uid).1, funext fun uid => (kept uid).2.1, ?_, ?_, ?_,
      fun uid => ?_⟩
    · exact (congrArg (·.deferredQueue) grants :)
    · exact (congrArg (·.deferredISC) grants :)
    · exact (congrArg (·.deferredISCRequests) grants :)
    · exact (Nat.le_add_right _ _).trans_eq (refillGrants_credit p t uid).symm
  have loop : ∀ fuel (t : CreditScheduler), Readied t (t.refillLoop p now fuel) := by
    intro fuel
    induction fuel with
    | zero => exact Readied.refl
    | succ fuel ih =>
        intro t
        unfold refillLoop
        split
        · exact (phase t).trans (ih _)
        · exact .refl t
  have checked : Readied s (s.emit (.refillCheck now)) :=
    ⟨rfl, rfl, rfl, rfl, rfl, fun _ => le_rfl⟩
  exact checked.trans (loop (now + 1 - s.lastGlobalRefillTick) _)

theorem beforeService_readied (quiet : env.Quiet) (now : Tick) (proper : Proper s) :
    Readied s (beforeService p env now s).2 ∧ Acts p s (beforeService p env now s).2 := by
  have entered : Acts p s (iopsWindow p now { s with inTick := true }) :=
    (ReflTransGen.single (.inTick true s)).trans (iopsWindow_acts now _)
  have properEntered := proper.acts entered
  have window : Readied s (iopsWindow p now { s with inTick := true }) := by
    have view : (iopsWindow p now { s with inTick := true }).view = s.view :=
      view_iopsWindow (s := { s with inTick := true }) now
    exact .of_view view
  unfold beforeService
  refine ⟨(window.trans (.drainAdmin quiet _ now properEntered)).trans (.refill _), ?_⟩
  exact (entered.trans (drainAdmin_acts quiet.actsOn _ _ _)).trans (refill_acts _ _)

/-! ## The requests of one user -/

theorem View.turns_perm (n : Nat) {v : View} (owned : v.Owned) (uid : UserID) :
    ((v.turns n).1.filter (·.userID = uid) ++
      ((v.turns n).2.queueISC uid ++ (v.turns n).2.queue uid)).Perm
        (v.queueISC uid ++ v.queue uid) := by
  induction n generalizing v with
  | zero => exact List.Perm.refl _
  | succ n ih =>
      cases gate : turn v.users v.queueISC v.lastChosenUidISC with
      | some user =>
          obtain ⟨-, front, rest, waiting, -⟩ := turn_eq_some gate
          have head : (v.queueISC user).head? = some front := by
            rw [waiting]
            rfl
          have own : front.userID = user :=
            owned user front (List.mem_append_right _ (List.mem_of_head? head))
          have later := ih (v := { v with
            queueISC := popFront v.queueISC user
            lastChosenUidISC := user })
            (owned.of_subset (fun _ => List.Subset.refl _) (popFront_subset _ _))
          rw [View.turns_gate n gate head]
          by_cases same : uid = user
          · subst same
            rw [List.filter_cons_of_pos (by simpa using own), waiting]
            change List.Perm _ (popFront v.queueISC uid uid ++ v.queue uid) at later
            rw [popFront_self, waiting] at later
            exact later.cons front
          · rw [List.filter_cons_of_neg (by simpa [own] using Ne.symm same)]
            change List.Perm _ (popFront v.queueISC user uid ++ v.queue uid) at later
            rw [popFront_of_ne _ same] at later
            exact later
      | none =>
          cases host : turn v.users v.queue v.lastChosenUid with
          | some user =>
              obtain ⟨-, front, rest, waiting, -⟩ := turn_eq_some host
              have head : (v.queue user).head? = some front := by
                rw [waiting]
                rfl
              have own : front.userID = user :=
                owned user front (List.mem_append_left _ (List.mem_of_head? head))
              have later := ih (v := { v with
                queue := popFront v.queue user
                lastChosenUid := user })
                (owned.of_subset (popFront_subset _ _) fun _ => List.Subset.refl _)
              rw [View.turns_host n gate host head]
              by_cases same : uid = user
              · subst same
                rw [List.filter_cons_of_pos (by simpa using own), waiting]
                change List.Perm _ (v.queueISC uid ++ popFront v.queue uid uid) at later
                rw [popFront_self, waiting] at later
                exact (later.cons front).trans List.perm_middle.symm
              · rw [List.filter_cons_of_neg (by simpa [own] using Ne.symm same)]
                change List.Perm _ (v.queueISC uid ++ popFront v.queue user uid) at later
                rw [popFront_of_ne _ same] at later
                exact later
          | none =>
              rw [View.turns_idle n gate host]
              exact List.Perm.refl _

theorem owed_debts (requests : List Request) (uid : UserID) :
    owed (requests.map Request.debt) uid =
      ((requests.filter (·.userID = uid)).map Request.pages).sum := by
  induction requests with
  | nil => rfl
  | cons req requests ih =>
      rw [List.map_cons, owed_cons, ih]
      by_cases own : req.userID = uid
      · rw [List.filter_cons_of_pos (by simpa using own), List.map_cons, List.sum_cons]
        exact congrArg (· + _) (if_pos own)
      · rw [List.filter_cons_of_neg (by simpa using own)]
        simp [Request.debt, own]

/-- A view in which one request of its user waits, and nothing else of it. -/
structure View.Lone (req : Request) (v : View) : Prop where
  waiting : v.queueISC req.userID ++ v.queue req.userID = [req]
  deferredQueue : ∀ dr ∈ v.deferredQueue, dr.req.userID ≠ req.userID
  deferredISC : ∀ dc ∈ v.deferredISC, dc.uid ≠ req.userID
  deferredISCRequests : ∀ r ∈ v.deferredISCRequests, r.uid ≠ req.userID
  credit : req.pages ≤ v.credit req.userID

section Lone

variable {v : View}

theorem View.Lone.served_or_left (lone : v.Lone req) (owned : v.Owned) :
    ((v.served p).1.filter (·.userID = req.userID) = [req] ∧
      (v.served p).2.queueISC req.userID = [] ∧ (v.served p).2.queue req.userID = []) ∨
    ((v.served p).1.filter (·.userID = req.userID) = [] ∧
      (v.served p).2.queueISC req.userID ++ (v.served p).2.queue req.userID = [req]) := by
  have perm := View.turns_perm maxDispatchPerTick (v := v.queued p) owned req.userID
  have whole := List.perm_singleton.1 (perm.trans (List.Perm.of_eq lone.waiting))
  rcases List.append_eq_singleton_iff.1 whole with ⟨none, left⟩ | ⟨served, none⟩
  · exact .inr ⟨none, left⟩
  · exact .inl ⟨served, List.append_eq_nil_iff.1 none⟩

theorem View.Lone.mem_served (lone : v.Lone req) (owned : v.Owned) :
    req ∈ (v.served p).1 ↔
      (v.served p).2.queue req.userID = [] ∧ (v.served p).2.queueISC req.userID = [] := by
  have own : req ∈ (v.served p).1 ↔ req ∈ (v.served p).1.filter (·.userID = req.userID) := by
    simp
  rw [own]
  rcases lone.served_or_left (p := p) owned with ⟨served, gates, hosts⟩ | ⟨none, left⟩
  · simp [served, gates, hosts]
  · rw [none]
    refine ⟨fun hmem => absurd hmem List.not_mem_nil, fun ⟨hosts, gates⟩ => ?_⟩
    simp [hosts, gates] at left

theorem View.Lone.pays (lone : v.Lone req) (owned : v.Owned) :
    v.Pays p ∧ req ∈ (v.served p).1 ↔ OthersPay p req v := by
  have debts : ∀ debt ∈ v.deferredDebts, debt.1 ≠ req.userID := by
    intro debt hmem
    rcases List.mem_append.1 hmem with queue | custom
    · obtain ⟨dr, hdr, rfl⟩ := List.mem_map.1 queue
      exact lone.deferredQueue dr hdr
    · obtain ⟨dc, hdc, rfl⟩ := List.mem_map.1 custom
      exact lone.deferredISC dc hdc
  have requests : ∀ debt ∈ v.deferredISCRequests.map ISCDeferredRequest.debt,
      debt.1 ≠ req.userID := by
    intro debt hmem
    obtain ⟨r, hr, rfl⟩ := List.mem_map.1 hmem
    exact lone.deferredISCRequests r hr
  have credit : (v.queued p).credit req.userID = v.credit req.userID :=
    (settle_of_ne _ requests).trans (payAll_of_ne _ debts)
  have own : owed ((v.served p).1.map Request.debt) req.userID ≤ req.pages := by
    rw [owed_debts]
    rcases lone.served_or_left (p := p) owned with ⟨served, -⟩ | ⟨none, -⟩
    · simp [served]
    · simp [none]
  constructor
  · rintro ⟨⟨deferred, queued⟩, reached⟩
    exact ⟨fun uid _ => deferred uid, fun uid _ => queued uid, reached⟩
  · rintro ⟨deferred, queued, reached⟩
    refine ⟨⟨fun uid => ?_, fun uid => ?_⟩, reached⟩
    · by_cases same : uid = req.userID
      · rw [same, owed_of_ne debts]
        exact Nat.zero_le _
      · exact deferred uid same
    · by_cases same : uid = req.userID
      · rw [same, credit]
        exact own.trans lone.credit
      · exact queued uid same

end Lone

/-! ## Submission -/

theorem submitRequest_lone (proper : Proper s) (covered : Covered req s) (getTick : Tick) :
    (s.submitRequest p getTick req).view.Lone req := by
  have user := covered.user
  set found := s.getOrCreateUser p req.userID with hfound
  set queued := found.modify req.userID (enqueue req) with hqueued
  have submitted : s.submitRequest p getTick req = queued.activate p getTick req.userID := by
    unfold submitRequest
    rw [if_neg user]
  have view := view_getOrCreateUser (p := p) proper.blank req.userID
  have queue : (found.account req.userID).queue = [] :=
    (congrFun (congrArg View.queue view) req.userID).trans covered.queue
  have queueISC : (found.account req.userID).queueISC = [] :=
    (congrFun (congrArg View.queueISC view) req.userID).trans covered.queueISC
  have credit : (found.account req.userID).credit = (s.account req.userID).credit :=
    congrFun (congrArg View.credit view) req.userID
  have account : queued.account req.userID = enqueue req (found.account req.userID) := by
    rw [hqueued, modify_account, if_pos rfl]
  have deferred : ∀ t : CreditScheduler,
      (t.activate p getTick req.userID).deferredQueue = t.deferredQueue ∧
        (t.activate p getTick req.userID).deferredISC = t.deferredISC ∧
        (t.activate p getTick req.userID).deferredISCRequests = t.deferredISCRequests := by
    intro t
    unfold CreditScheduler.activate
    split
    · exact ⟨rfl, rfl, rfl⟩
    · simp only
      split <;> exact ⟨rfl, rfl, rfl⟩
  have deferredQueue : (queued.activate p getTick req.userID).deferredQueue = s.deferredQueue :=
    (deferred queued).1.trans (congrArg View.deferredQueue view)
  have deferredISC : (queued.activate p getTick req.userID).deferredISC = s.deferredISC :=
    (deferred queued).2.1.trans (congrArg View.deferredISC view)
  have deferredISCRequests : (queued.activate p getTick req.userID).deferredISCRequests =
      s.deferredISCRequests :=
    (deferred queued).2.2.trans (congrArg View.deferredISCRequests view)
  rw [submitted]
  refine ⟨?_, ?_, ?_, ?_, ?_⟩
  · change ((queued.activate p getTick req.userID).account req.userID).queueISC ++
      ((queued.activate p getTick req.userID).account req.userID).queue = [req]
    rw [activate_field req.userID (·.queueISC) fun _ => rfl,
      activate_field req.userID (·.queue) fun _ => rfl, account]
    unfold enqueue
    split <;> simp [queue, queueISC]
  · change ∀ dr ∈ (queued.activate p getTick req.userID).deferredQueue, _
    rw [deferredQueue]
    exact covered.deferredQueue
  · change ∀ dc ∈ (queued.activate p getTick req.userID).deferredISC, _
    rw [deferredISC]
    exact covered.deferredISC
  · change ∀ r ∈ (queued.activate p getTick req.userID).deferredISCRequests, _
    rw [deferredISCRequests]
    exact covered.deferredISCRequests
  · -- a user that becomes active starts with no credit, but had none before
    change req.pages ≤ ((queued.activate p getTick req.userID).account req.userID).credit
    have enough := covered.credit
    have properFound := proper.act (.create (p := p) req.userID)
    have same : (enqueue req (found.account req.userID)).credit =
        (found.account req.userID).credit ∧
        (enqueue req (found.account req.userID)).isActive =
          (found.account req.userID).isActive := by
      unfold enqueue
      split <;> exact ⟨rfl, rfl⟩
    unfold CreditScheduler.activate
    rw [account, same.2]
    split
    · rw [account, same.1, credit]
      exact enough
    next idle =>
      have none := properFound.inactive req.userID (by simpa using idle)
      rw [credit] at none
      rw [none] at enough
      exact enough.trans (Nat.zero_le _)

theorem Readied.lone (readied : Readied s t) (lone : s.view.Lone req) : t.view.Lone req where
  waiting := by
    rw [readied.queue, readied.queueISC]
    exact lone.waiting
  deferredQueue := readied.deferredQueue ▸ lone.deferredQueue
  deferredISC := readied.deferredISC ▸ lone.deferredISC
  deferredISCRequests := readied.deferredISCRequests ▸ lone.deferredISCRequests
  credit := lone.credit.trans (readied.credit _)

/-- A tick leaves nothing of the user and nothing deferred, and has served the request,
exactly when the others can pay what the tick comes to. -/
theorem tick_lone (quiet : env.Quiet) (proper : Proper s) (out : s.inTick = false)
    (lone : s.view.Lone req) (now : Tick) :
    ((s.tick p env now).2.hasPending req.userID = false ∧
      .serve (.request req) ∈ newEvents s (s.tick p env now).2) ↔
      OthersPay p req (beforeService p env now s).2.view := by
  obtain ⟨readied, acts⟩ := beforeService_readied (p := p) quiet now proper
  have properTick := proper.acts (tick_acts (p := p) quiet.actsOn now s)
  rw [hasPending_eq_false_iff properTick, tick_eq out]
  set ready := beforeService p env now s with hready
  have properReady := proper.acts acts
  have loneReady := readied.lone lone
  obtain ⟨pays, served⟩ := serviceQueues_pays (p := p) quiet properReady ready.1
  set done := serviceQueues p env ready.1 ready.2 with hdone
  rw [← loneReady.pays properReady.owner]
  constructor
  · rintro ⟨⟨queue, queueISC, emptyQueue, emptyISC⟩, -⟩
    have paid := pays.2 ⟨emptyQueue, emptyISC⟩
    obtain ⟨left, leftISC, -⟩ := served paid
    refine ⟨paid, (loneReady.mem_served properReady.owner).2 ⟨?_, ?_⟩⟩
    · rw [← left]
      exact queue
    · rw [← leftISC]
      exact queueISC
  · rintro ⟨paid, reached⟩
    obtain ⟨emptyQueue, emptyISC⟩ := pays.1 paid
    obtain ⟨left, leftISC, new, trace, events⟩ := served paid
    obtain ⟨queue, queueISC⟩ := (loneReady.mem_served properReady.owner).1 reached
    refine ⟨⟨?_, ?_, emptyQueue, emptyISC⟩, ?_⟩
    · exact (congrFun left _).trans queue
    · exact (congrFun leftISC _).trans queueISC
    · obtain ⟨earlier, before⟩ := acts.trace
      have whole : done.2.trace = (new ++ earlier) ++ s.trace := by
        rw [trace, ← before, List.append_assoc]
      rw [newEvents_eq (t := { done.2 with inTick := false }) whole]
      exact List.mem_append_left _ (events req reached)

end Tick

/-! ## Between the calls no tick is going on -/

section InTick

variable {p : Params} {s : CreditScheduler}

theorem Runs.inTick {reset : Bool} {t : CreditScheduler} (run : Runs p reset s t) :
    t.inTick = s.inTick := by
  induction run with
  | refl s => rfl
  | next env op _ _ _ _ _ earlier _ _ iscCallback =>
      exact (op.run_inTick iscCallback _).trans earlier

theorem start_inTick (p : Params) (uids : List UserID) (profile : UserID → Profile) :
    (start p uids profile).inTick = false := by
  refine start_induction (fun s => s.inTick = false) rfl (fun s uid out => ?_)
    fun s uid profile out => out
  exact (getOrCreateUser_inTick uid s).trans out

end InTick

section Immediate

variable {p : Params} {env : Env} {s : CreditScheduler} {req : Request}

theorem immediate_iff_othersPay {reset : Bool} {uids : List UserID} {profile : UserID → Profile}
    (run : Runs p reset (start p uids profile) s) (quiet : env.Quiet) (covered : Covered req s)
    (getTick now : Tick) :
    Immediate p env getTick req now s ↔
      OthersPay p req (beforeService p env now (s.submitRequest p getTick req)).2.view := by
  have proper := run.proper
  have out : (s.submitRequest p getTick req).inTick = false :=
    ((submitRequest_inTick getTick req s).trans run.inTick).trans (start_inTick p uids profile)
  have properSubmitted := proper.acts (submitRequest_acts (p := p) getTick req s)
  have lone := submitRequest_lone (p := p) proper covered getTick
  unfold Immediate
  rw [← tick_lone quiet properSubmitted out lone now]
  simp only [maxIterations, waits_eq_zero_iff]

/-- What waits for other users leaves a covered request alone, in two runs, exactly when
it can be paid in both. -/
theorem isolation_iff {s' : CreditScheduler} {uids : List UserID} {profile : UserID → Profile}
    (run : Runs p true (start p uids profile) s) (run' : Runs p true (start p uids profile) s')
    (quiet : env.Quiet) (covered : Covered req s) (covered' : Covered req s')
    (getTick now : Tick) :
    (Immediate p env getTick req now s ∧ Immediate p env getTick req now s' ∧
      waits p env req.userID maxIterations now (s.submitRequest p getTick req) =
        waits p env req.userID maxIterations now (s'.submitRequest p getTick req)) ↔
      OthersPay p req (beforeService p env now (s.submitRequest p getTick req)).2.view ∧
        OthersPay p req (beforeService p env now (s'.submitRequest p getTick req)).2.view := by
  rw [← immediate_iff_othersPay run quiet covered,
    ← immediate_iff_othersPay run' quiet covered']
  constructor
  · rintro ⟨first, second, -⟩
    exact ⟨first, second⟩
  · rintro ⟨first, second⟩
    exact ⟨first, second, first.1.trans second.1.symm⟩

end Immediate

def ownRead : Request := .ofPages .read 1001 2

def starvedRead : Request := .ofPages .read 1002 20

/-- Two users share a phase of twelve pages, and the other has asked for twenty. -/
def besideStarved : CreditScheduler :=
  (Op.tick 1000).run .small .idle ((Op.submitRequest 0 starvedRead).run .small .idle
    ((Op.ensureActiveUser 0 1001).run .small .idle (construct .small)))

def besideIdle : CreditScheduler :=
  (Op.tick 1000).run .small .idle ((Op.ensureActiveUser 0 1002).run .small .idle
    ((Op.ensureActiveUser 0 1001).run .small .idle (construct .small)))

theorem besideStarved_runs :
    Runs .small true (start .small [] fun _ => .standard) besideStarved :=
  (((Runs.refl _).quiet Env.idle_quiet _ (by simp)).quiet Env.idle_quiet _ (by simp)).quiet
    Env.idle_quiet _ (by simp)

theorem besideIdle_runs :
    Runs .small true (start .small [] fun _ => .standard) besideIdle :=
  (((Runs.refl _).quiet Env.idle_quiet _ (by simp)).quiet Env.idle_quiet _ (by simp)).quiet
    Env.idle_quiet _ (by simp)

theorem besideStarved_covered : Covered ownRead besideStarved := by
  constructor <;> decide +kernel

theorem besideIdle_covered : Covered ownRead besideIdle := by
  constructor <;> decide +kernel

theorem isolation_besideStarved :
    (Immediate .small .idle 1500 ownRead 1500 besideStarved ∧
      Immediate .small .idle 1500 ownRead 1500 besideIdle ∧
      waits .small .idle 1001 maxIterations 1500
          (besideStarved.submitRequest .small 1500 ownRead) =
        waits .small .idle 1001 maxIterations 1500
          (besideIdle.submitRequest .small 1500 ownRead)) ↔
      OthersPay .small ownRead (beforeService .small .idle 1500
        (besideStarved.submitRequest .small 1500 ownRead)).2.view ∧
      OthersPay .small ownRead (beforeService .small .idle 1500
        (besideIdle.submitRequest .small 1500 ownRead)).2.view :=
  isolation_iff besideStarved_runs besideIdle_runs Env.idle_quiet besideStarved_covered
    besideIdle_covered 1500 1500

/-- A user with enough credit waits when another user's request is starved, and does not
when that request is missing. -/
theorem starved_neighbour_delays :
    Runs .small true (start .small [] fun _ => .standard) besideStarved ∧
      Runs .small true (start .small [] fun _ => .standard) besideIdle ∧
      Covered ownRead besideStarved ∧ Covered ownRead besideIdle ∧
      ¬ Immediate .small .idle 1500 ownRead 1500 besideStarved ∧
      waits .small .idle 1001 maxIterations 1500
          (besideStarved.submitRequest .small 1500 ownRead) ≠
        waits .small .idle 1001 maxIterations 1500
          (besideIdle.submitRequest .small 1500 ownRead) := by
  have delayed : waits .small .idle 1001 maxIterations 1500
      (besideStarved.submitRequest .small 1500 ownRead) ≠ 0 := by
    rw [maxIterations, Ne, waits_eq_zero_iff]
    decide +kernel
  have immediate : waits .small .idle 1001 maxIterations 1500
      (besideIdle.submitRequest .small 1500 ownRead) = 0 := by
    rw [maxIterations, waits_eq_zero_iff]
    decide +kernel
  refine ⟨besideStarved_runs, besideIdle_runs, besideStarved_covered, besideIdle_covered,
    fun now => delayed now.1, ?_⟩
  rw [immediate]
  exact delayed

end SimpleSSD.HIL.CreditScheduler
