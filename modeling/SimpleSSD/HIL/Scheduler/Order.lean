import SimpleSSD.Foundation.Overtaking
import SimpleSSD.HIL.Scheduler.Service

/-!
# Order of dispatch

The requests of a user stand in line: first those of the deferred queue, then those
of its queue.  A request is dispatched ahead of an earlier one only when the user's
credit does not cover the earlier one, which is then passed by in the deferred queue.
-/

namespace SimpleSSD.HIL.CreditScheduler

open SimpleSSD.Foundation Relation

def ofUser (uid : UserID) (requests : List Request) : List Request :=
  requests.filter fun req => req.op.isHost && req.userID == uid

def Op.requests : Op → List Request
  | .submitRequest _ req | .processUntil _ req _ => [req]
  | _ => []

/-- In the order of submission; the latest call stands first. -/
def submissions (uid : UserID) : List Op → List Request
  | [] => []
  | op :: ops => submissions uid ops ++ ofUser uid op.requests

/-- The balance from which a request was paid when it was served; user 0 pays nothing. -/
def paidFrom (req : Request) : List Event → Option Nat
  | .serve _ :: .charge _ _ held _ _ :: _ => if req.userID = 0 then none else some held
  | _ => none

/-- The requests of a user handed to the internal cache layer, the latest first. -/
def dispatches (uid : UserID) : List Event → List (Request × Option Nat)
  | [] => []
  | .icl req _ _ :: older =>
      if req.userID = uid then (req, paidFrom req older) :: dispatches uid older
      else dispatches uid older
  | _ :: older => dispatches uid older

/-- The balance paid for the request but not for the one it leaves behind. -/
def Overtakes (dispatch : Request × Option Nat) (passed : Request) : Prop :=
  ∃ held, dispatch.2 = some held ∧ dispatch.1.pages ≤ held ∧ held < passed.pages

def line (uid : UserID) (s : CreditScheduler) : List Request :=
  ofUser uid (s.adminQueue ++ s.deferredQueue.map DeferredRequest.req ++ (s.account uid).queue)

/-- The user's requests leave its line in turn, but for those excused. -/
abbrev InOrder (arrivals : List Request) (uid : UserID) (s : CreditScheduler) : Prop :=
  InLine Overtakes arrivals (line uid s) (dispatches uid s.trace)

/-- Calls of public functions, the latest first, whose callees leave the scheduler
alone. -/
inductive Calls (p : Params) (s : CreditScheduler) : List Op → CreditScheduler → Prop
  | refl : Calls p s [] s
  | next {ops : List Op} {t : CreditScheduler} (env : Env) (op : Op)
      (earlier : Calls p s ops t) (quiet : env.Quiet) : Calls p s (op :: ops) (op.run p env t)

theorem mem_ofUser {uid : UserID} {requests : List Request} {req : Request} :
    req ∈ ofUser uid requests ↔ req ∈ requests ∧ req.op.isHost = true ∧ req.userID = uid := by
  simp [ofUser]

theorem ofUser_append (uid : UserID) (requests more : List Request) :
    ofUser uid (requests ++ more) = ofUser uid requests ++ ofUser uid more :=
  List.filter_append _ _

theorem ofUser_cons_of_mem {uid : UserID} {req : Request} (host : req.op.isHost = true)
    (own : req.userID = uid) (requests : List Request) :
    ofUser uid (req :: requests) = req :: ofUser uid requests :=
  List.filter_cons_of_pos (by simp [host, own])

theorem ofUser_cons_of_not {uid : UserID} {req : Request}
    (other : ¬ (req.op.isHost = true ∧ req.userID = uid)) (requests : List Request) :
    ofUser uid (req :: requests) = ofUser uid requests :=
  List.filter_cons_of_neg (by simpa using other)

theorem dispatches_cons {uid : UserID} {event : Event} {trace : List Event}
    (other : ∀ req beginAt finishedAt, event ≠ .icl req beginAt finishedAt) :
    dispatches uid (event :: trace) = dispatches uid trace := by
  cases event with
  | icl req beginAt finishedAt => exact absurd rfl (other req beginAt finishedAt)
  | _ => rfl

theorem paidFrom_admin {req : Request} (admin : req.userID = 0) (trace : List Event) :
    paidFrom req trace = none := by
  unfold paidFrom
  split
  · exact if_pos admin
  · rfl

theorem dispatches_admin (trace : List Event) :
    ∀ d ∈ dispatches 0 trace, d.2 = none := by
  induction trace with
  | nil => exact fun d hmem => absurd hmem List.not_mem_nil
  | cons event trace ih =>
      cases event with
      | icl req beginAt finishedAt =>
          unfold dispatches
          split
          next own => exact List.forall_mem_cons.2 ⟨paidFrom_admin own trace, ih⟩
          next => exact ih
      | _ => exact ih

/-! ## Which requests are where -/

/-- User 0 has its own queue, and the in-storage queues hold no host request. -/
structure Placed (s : CreditScheduler) : Prop extends Proper s where
  admin : ∀ req ∈ s.adminQueue, req.userID = 0
  zero : (s.account 0).queue = [] ∧ (s.account 0).queueISC = []
  gates : ∀ uid, ∀ req ∈ (s.account uid).queueISC, req.op.isHost = false
  user : ∀ dr ∈ s.deferredQueue, dr.req.userID ≠ 0

section Placed

variable {p : Params} {s s' : CreditScheduler}

def UserAccount.queues (acc : UserAccount) : List Request × List Request :=
  (acc.queue, acc.queueISC)

theorem Placed.of_eq (placed : Placed s) (proper : Proper s')
    (adminQueue : s'.adminQueue ⊆ s.adminQueue)
    (queues : ∀ uid, (s'.account uid).queues = (s.account uid).queues)
    (deferredQueue : s'.deferredQueue ⊆ s.deferredQueue) : Placed s' := by
  simp only [UserAccount.queues, Prod.mk.injEq] at queues
  refine ⟨proper, fun req hmem => placed.admin req (adminQueue hmem), ?_, fun uid => ?_,
    fun dr hmem => placed.user dr (deferredQueue hmem)⟩
  · rw [(queues 0).1, (queues 0).2]
    exact placed.zero
  · rw [(queues uid).2]
    exact placed.gates uid

theorem Placed.modify (placed : Placed s) {uid : UserID} {f : UserAccount → UserAccount}
    (proper : Proper (s.modify uid f))
    (zero : uid = 0 → (f (s.account uid)).queue = [] ∧ (f (s.account uid)).queueISC = [])
    (gates : ∀ req ∈ (f (s.account uid)).queueISC, req.op.isHost = false) :
    Placed (s.modify uid f) := by
  refine ⟨proper, placed.admin, ?_, fun other => ?_, placed.user⟩
  · rw [modify_account]
    split
    next same => exact zero same.symm
    next => exact placed.zero
  · rw [modify_account]
    split
    · exact gates
    · exact placed.gates other

theorem Placed.act (step : Act p s s') (placed : Placed s) : Placed s' := by
  have proper := placed.toProper.act step
  cases step with
  | create uid =>
      have queues : ∀ other, ((s.getOrCreateUser p uid).account other).queues =
          (s.account other).queues := by
        intro other
        have view := view_getOrCreateUser (p := p) placed.blank uid
        exact Prod.ext (congrFun (congrArg View.queue view) other)
          (congrFun (congrArg View.queueISC view) other)
      refine placed.of_eq proper ?_ queues ?_
      · unfold getOrCreateUser
        split <;> exact List.Subset.refl _
      · rw [getOrCreateUser_keeps_deferredQueue]
        exact List.Subset.refl _
  | receive req admin =>
      refine ⟨proper, fun r hmem => ?_, placed.zero, placed.gates, placed.user⟩
      rcases List.mem_append.1 hmem with old | new
      · exact placed.admin r old
      · rw [List.mem_singleton.1 new]
        exact admin
  | enqueue req user known =>
      refine placed.modify proper (fun admin => absurd admin user) ?_
      unfold enqueue
      split
      next gate =>
        refine List.forall_mem_cons.2 ⟨?_, placed.gates req.userID⟩
        rcases gate with op | op <;> rw [op] <;> rfl
      next => exact placed.gates req.userID
  | activate uid getTick known =>
      refine placed.of_eq proper ?_ (fun other => ?_) ?_
      · unfold CreditScheduler.activate
        split
        · exact List.Subset.refl _
        · simp only
          split <;> exact List.Subset.refl _
      · exact activate_field uid UserAccount.queues fun _ => rfl
      · unfold CreditScheduler.activate
        split
        · exact List.Subset.refl _
        · simp only
          split <;> exact List.Subset.refl _
  | charge site cls uid pages known held =>
      refine placed.of_eq proper (List.Subset.refl _) (fun other => ?_) (List.Subset.refl _)
      exact modify_field s uid other UserAccount.queues fun _ => rfl
  | takeAdmin =>
      exact placed.of_eq proper (List.tail_subset _) (fun _ => rfl) (List.Subset.refl _)
  | take uid =>
      refine placed.modify proper (fun same => ?_) (placed.gates uid)
      subst same
      exact placed.zero.imp_left fun none => by simp [UserAccount.popQueue, none]
  | takeISC uid =>
      refine placed.modify proper (fun same => ?_) fun req hmem =>
        placed.gates uid req (List.mem_of_mem_tail hmem)
      subst same
      exact placed.zero.imp_right fun none => by simp [UserAccount.popQueueISC, none]
  | defer uid req now waits =>
      refine ⟨proper, placed.admin, placed.zero, placed.gates, fun dr hmem => ?_⟩
      rcases List.mem_append.1 hmem with old | new
      · exact placed.user dr old
      · rw [List.mem_singleton.1 new]
        intro admin
        have own : req.userID = uid := placed.owner uid req waits
        obtain rfl : uid = 0 := own.symm.trans admin
        rw [placed.zero.1, placed.zero.2] at waits
        exact absurd waits List.not_mem_nil
  | shuffle queue old => exact placed.of_eq proper (List.Subset.refl _) (fun _ => rfl) old
  | measure account same =>
      refine placed.of_eq proper (List.Subset.refl _) (fun uid => ?_) (List.Subset.refl _)
      have kept : (account uid).unmeasured.queues = (s.account uid).unmeasured.queues :=
        congrArg UserAccount.queues (same uid)
      exact kept
  | phase =>
      obtain ⟨account, grants⟩ := s.refillGrants_eq p
      refine placed.of_eq proper ?_ (fun uid => ?_) ?_
      · exact (congrArg (·.adminQueue) grants :) ▸ List.Subset.refl _
      · obtain ⟨queue, queueISC, -⟩ := phase_proper (p := p) s uid
        exact Prod.ext queue queueISC
      · exact (congrArg (·.deferredQueue) grants :) ▸ List.Subset.refl _
  | resetStat getTick =>
      have account : ∀ uid, ((s.resetStatValues getTick).account uid) = if uid ∈ s.users then
          (s.account uid).resetStat getTick else s.account uid := fun _ => rfl
      refine ⟨proper, fun req hmem => absurd hmem List.not_mem_nil, ?_, fun uid => ?_,
        placed.user⟩
      · rw [account]
        split
        · exact ⟨placed.zero.1, rfl⟩
        · exact placed.zero
      · rw [account]
        split
        · exact fun req hmem => absurd hmem List.not_mem_nil
        · exact placed.gates uid
  | emit | resume | isc | mark =>
      exact placed.of_eq proper (List.Subset.refl _) (fun _ => rfl) (List.Subset.refl _)

theorem Placed.acts (acts : Acts p s s') (placed : Placed s) : Placed s' := by
  have kept : ∀ t t', Act p t t' → Placed t → Placed t' := fun _ _ => Placed.act
  exact invariant_of_steps kept acts placed

theorem start_placed (p : Params) (uids : List UserID) (profile : UserID → Profile) :
    Placed (start p uids profile) := by
  have fresh := start_fresh p uids profile
  refine ⟨start_proper p uids profile, ?_, ⟨fresh.queue 0, fresh.queueISC 0⟩, fun uid => ?_, ?_⟩
  · rw [fresh.adminQueue]
    exact fun req hmem => absurd hmem List.not_mem_nil
  · rw [fresh.queueISC]
    exact fun req hmem => absurd hmem List.not_mem_nil
  · rw [fresh.deferredQueue]
    exact fun dr hmem => absurd hmem List.not_mem_nil

end Placed

/-! ## What keeps the line -/

/-- Nothing of a user has moved but what has been dispatched. -/
structure Kept (uid : UserID) (new : List (Request × Option Nat)) (s t : CreditScheduler) :
    Prop where
  adminQueue : t.adminQueue = s.adminQueue
  deferredQueue : t.deferredQueue = s.deferredQueue
  queue : (t.account uid).queue = (s.account uid).queue
  dispatches : dispatches uid t.trace = new ++ dispatches uid s.trace

structure Spent (uid : UserID) (new : List (Request × Option Nat)) (s t : CreditScheduler) :
    Prop extends Kept uid new s t where
  credit : (t.account uid).credit ≤ (s.account uid).credit

section Kept

variable {p : Params} {env : Env} {uid : UserID} {s t : CreditScheduler}
  {new more : List (Request × Option Nat)}

theorem Kept.refl (uid : UserID) (s : CreditScheduler) : Kept uid [] s s := ⟨rfl, rfl, rfl, rfl⟩

theorem Kept.trans {u : CreditScheduler} (first : Kept uid new s t) (second : Kept uid more t u) :
    Kept uid (more ++ new) s u :=
  ⟨second.adminQueue.trans first.adminQueue, second.deferredQueue.trans first.deferredQueue,
    second.queue.trans first.queue, by
      rw [second.dispatches, first.dispatches, List.append_assoc]⟩

theorem Kept.line (kept : Kept uid new s t) : line uid t = line uid s := by
  unfold CreditScheduler.line
  rw [kept.adminQueue, kept.deferredQueue, kept.queue]

theorem Spent.refl (uid : UserID) (s : CreditScheduler) : Spent uid [] s s :=
  ⟨.refl uid s, le_rfl⟩

theorem Spent.trans {u : CreditScheduler} (first : Spent uid new s t)
    (second : Spent uid more t u) : Spent uid (more ++ new) s u :=
  ⟨first.toKept.trans second.toKept, second.credit.trans first.credit⟩

theorem Spent.frame (h : (t.adminQueue, t.deferredQueue, t.account, t.trace) =
    (s.adminQueue, s.deferredQueue, s.account, s.trace)) : Spent uid [] s t := by
  simp only [Prod.mk.injEq] at h
  obtain ⟨adminQueue, deferredQueue, account, trace⟩ := h
  exact ⟨⟨adminQueue, deferredQueue, by rw [account], by rw [trace]; rfl⟩, by rw [account]⟩

theorem Spent.modify (other : UserID) (f : UserAccount → UserAccount)
    (queue : ∀ acc, (f acc).queue = acc.queue) (credit : ∀ acc, (f acc).credit = acc.credit) :
    Spent uid [] s (s.modify other f) :=
  ⟨⟨rfl, rfl, modify_field s other uid (·.queue) queue, rfl⟩,
    (modify_field s other uid (·.credit) credit).le⟩

theorem Spent.create (placed : Placed s) (other : UserID) :
    Spent uid [] s (s.getOrCreateUser p other) := by
  have view := view_getOrCreateUser (p := p) placed.blank other
  refine ⟨⟨?_, ?_, ?_, ?_⟩, ?_⟩
  · unfold getOrCreateUser
    split <;> rfl
  · exact congrArg View.deferredQueue view
  · exact congrFun (congrArg View.queue view) uid
  · unfold getOrCreateUser
    split <;> rfl
  · exact (congrFun (congrArg View.credit view) uid).le

theorem Spent.charge (site : ChargeSite) (cls : ChargeClass) (other : UserID) {pages : Nat}
    (held : pages ≤ (s.account other).credit) :
    Spent uid [] s (s.charge site cls other pages) := by
  have view := view_charge site cls other held
  refine ⟨⟨rfl, rfl, congrFun (congrArg View.queue view) uid, rfl⟩, ?_⟩
  refine (congrFun (congrArg View.credit view) uid).trans_le ?_
  by_cases same : uid = other
  · rw [same]
    exact (pay_self (other, pages) _).trans_le (Nat.sub_le _ _)
  · exact (pay_of_ne (other, pages) _ same).le

theorem Spent.emit (event : Event)
    (other : ∀ req beginAt finishedAt, event ≠ .icl req beginAt finishedAt) :
    Spent uid [] s (s.emit event) :=
  ⟨⟨rfl, rfl, rfl, dispatches_cons other⟩, le_rfl⟩

theorem Spent.activate (other : UserID) (getTick : Tick) :
    Spent uid [] s (s.activate p getTick other) := by
  have queue : ((s.activate p getTick other).account uid).queue = (s.account uid).queue :=
    activate_field other (·.queue) fun _ => rfl
  have credit : ((s.modify other (UserAccount.activate getTick)).account uid).credit ≤
      (s.account uid).credit := by
    rw [modify_account]
    split
    · exact Nat.zero_le _
    · exact le_rfl
  unfold CreditScheduler.activate at queue ⊢
  split at queue
  next active =>
    rw [if_pos active]
    exact .refl uid s
  next idle =>
    rw [if_neg idle]
    simp only at queue ⊢
    split at queue
    next started =>
      rw [if_pos started]
      exact ⟨⟨rfl, rfl, queue, rfl⟩, credit⟩
    next stopped =>
      rw [if_neg stopped]
      exact ⟨⟨rfl, rfl, queue, rfl⟩, credit⟩

theorem dispatchICL_spent (uid : UserID) (quiet : env.Quiet) (placed : Placed s) (req : Request)
    (now : Tick) :
    Spent uid ((ofUser uid [req]).map (·, paidFrom req s.trace)) s
      (s.dispatchICL p env req now).2 := by
  unfold dispatchICL
  split
  next host =>
    simp only [quiet.icl]
    set answered := s.emit (.icl req now (env.icl req now s).1) with hanswered
    have recorded : Spent uid ((ofUser uid [req]).map (·, paidFrom req s.trace)) s
        answered := by
      refine ⟨⟨rfl, rfl, rfl, ?_⟩, le_rfl⟩
      rw [hanswered, emit_trace, dispatches]
      split
      next own => rw [ofUser_cons_of_mem host own]; rfl
      next other => rw [ofUser_cons_of_not fun h => other h.2]; rfl
    have placedAnswered : Placed answered := placed.act (.emit (p := p) _ nofun)
    have found : Spent uid [] answered (answered.getOrCreateUser p req.userID) :=
      .create placedAnswered req.userID
    have window : ∀ t : CreditScheduler, Spent uid [] t (t.modify req.userID fun acc => { acc with
        winHostPages := acc.winHostPages + req.pages
        winHostIOs := acc.winHostIOs + 1 }) := fun t =>
      .modify req.userID _ (fun _ => rfl) fun _ => rfl
    exact recorded.trans (found.trans (window _))
  next gate =>
    rw [ofUser_cons_of_not fun h => gate h.1]
    exact .refl uid s

theorem dispatchReentrant_spent (uid : UserID) (quiet : env.Quiet) (placed : Placed s)
    (req : Request) (now : Tick) :
    Spent uid ((ofUser uid [req]).map (·, paidFrom req s.trace)) s
      (s.dispatchReentrant p env req now).2 := by
  have opened : Placed { s with inTick := false } := placed.act (.inTick (p := p) false s)
  have sent := dispatchICL_spent uid (p := p) quiet opened req now
  exact ⟨⟨sent.adminQueue, sent.deferredQueue, sent.queue, sent.dispatches⟩, sent.credit⟩

theorem resumeReentrant_spent (quiet : env.Quiet) (dc : DeferredCustom) (now : Tick) :
    Spent uid [] s (s.resumeReentrant env dc now) := by
  unfold resumeReentrant
  split
  · rw [quiet.resume]
    exact .frame rfl
  · exact .refl uid s

theorem drainDeferredISC_spent (quiet : env.Quiet) (placed : Placed s) (now : Tick) (n : Nat) :
    Spent uid [] s (s.drainDeferredISC p env now n) := by
  induction n generalizing s with
  | zero => exact .refl uid s
  | succ n ih =>
      unfold drainDeferredISC
      split
      · exact .frame rfl
      next dc rest _ =>
        have popped := placed.act (.isc (p := p) rest s.deferredISCRequests)
        have taken : Spent uid [] s { s with deferredISC := rest } := .frame rfl
        set user := { s with deferredISC := rest }.getOrCreateUser p dc.uid with huser
        have found : Placed user := popped.act (.create (p := p) dc.uid)
        have known : dc.uid ∈ user.users := mem_getOrCreateUser p dc.uid _
        have looked : Spent uid [] s user := taken.trans (.create popped dc.uid)
        simp only
        split
        next held =>
          have paid := (found.act (.charge (p := p) .deferredISC .isc dc.uid dc.pages known
            held)).act (.resume (p := p) dc _ _ _ rfl (sub64_add_cancel held))
          have charged := (looked.trans (.charge .deferredISC .isc dc.uid held)).trans
            (.emit (.serve (.custom dc)) (by simp))
          have resumed := charged.trans (resumeReentrant_spent quiet dc now)
          have acts := resumeReentrant_acts (p := p) quiet.actsOn dc now
          exact resumed.trans (ih (paid.acts (acts _)))
        next =>
          have back := found.act (.isc (p := p) (user.deferredISC ++ [dc])
            user.deferredISCRequests)
          have again : Spent uid [] user { user with deferredISC := user.deferredISC ++ [dc] } :=
            .frame rfl
          exact looked.trans (again.trans (ih back))

theorem processISCLoop_spent (quiet : env.Quiet) (placed : Placed s) (now : Tick) (fuel : Nat)
    (remaining : List ISCDeferredRequest) :
    Spent uid [] s (s.processISCLoop p env now fuel remaining) := by
  induction fuel generalizing remaining s with
  | zero => exact .frame rfl
  | succ fuel ih =>
      unfold processISCLoop
      split
      · exact .frame rfl
      next req rest _ =>
        have popped := placed.act (.isc (p := p) s.deferredISC rest)
        have taken : Spent uid [] s { s with deferredISCRequests := rest } := .frame rfl
        set user := { s with deferredISCRequests := rest }.getOrCreateUser p req.uid with huser
        have found : Placed user := popped.act (.create (p := p) req.uid)
        have known : req.uid ∈ user.users := mem_getOrCreateUser p req.uid _
        have looked : Spent uid [] s user := taken.trans (.create popped req.uid)
        simp only
        split
        next held =>
          have paid := (found.act (.charge (p := p) .processISCRequests .isc req.uid
            req.pagesNeeded known held)).act
              (.emit (p := p) (.serve (.isc req.uid req.pagesNeeded req.iscContext)) nofun)
          have charged := (looked.trans (.charge .processISCRequests .isc req.uid held)).trans
            (.emit (.serve (.isc req.uid req.pagesNeeded req.iscContext)) (by simp))
          rw [quiet.iscCallback]
          exact charged.trans (ih paid remaining)
        next => exact looked.trans (ih found (remaining ++ [req]))

theorem refill_kept (now : Tick) : Kept uid [] s (s.refill p now) := by
  have phase : ∀ t : CreditScheduler, Kept uid [] t (t.refillPhase p) := by
    intro t
    obtain ⟨account, grants⟩ := t.refillGrants_eq p
    refine ⟨?_, ?_, (phase_proper (p := p) t uid).1, ?_⟩
    · exact (congrArg (·.adminQueue) grants :)
    · exact (congrArg (·.deferredQueue) grants :)
    · exact dispatches_cons (by simp)
  have loop : ∀ fuel (t : CreditScheduler), Kept uid [] t (t.refillLoop p now fuel) := by
    intro fuel
    induction fuel with
    | zero => exact Kept.refl uid
    | succ fuel ih =>
        intro t
        unfold refillLoop
        split
        · exact (phase t).trans (ih _)
        · exact .refl uid t
  have checked : Kept uid [] s (s.emit (.refillCheck now)) :=
    (Spent.emit _ (by simp)).toKept
  exact checked.trans (loop (now + 1 - s.lastGlobalRefillTick) _)

theorem iopsWindow_kept (now : Tick) : Kept uid [] s (s.iopsWindow p now) := by
  have view := view_iopsWindow (p := p) (s := s) now
  have rest : (s.iopsWindow p now).adminQueue = s.adminQueue ∧
      (s.iopsWindow p now).trace = s.trace := by
    unfold iopsWindow
    simp only
    split <;> exact ⟨rfl, rfl⟩
  exact ⟨rest.1, congrArg View.deferredQueue view, congrFun (congrArg View.queue view) uid,
    congrArg (CreditScheduler.dispatches uid) rest.2⟩

end Kept

/-! ## Leaving the line -/

section Leaving

variable {p : Params} {env : Env} {uid : UserID} {s t : CreditScheduler}
  {arrivals : List Request}

theorem inLine_serve (pre post : List Request) {req : Request}
    {departures : List (Request × Option Nat)} (nodup : arrivals.Nodup)
    (inLine : InLine Overtakes arrivals (ofUser uid (pre ++ req :: post)) departures)
    (paid : Option Nat)
    (short : req.userID = uid → ∀ x ∈ ofUser uid pre, Overtakes (req, paid) x) :
    InLine Overtakes arrivals (ofUser uid (pre ++ post))
      ((ofUser uid [req]).map (·, paid) ++ departures) := by
  rw [ofUser_append] at inLine ⊢
  by_cases own : req.op.isHost = true ∧ req.userID = uid
  · rw [ofUser_cons_of_mem own.1 own.2] at inLine ⊢
    exact inLine.depart nodup (short own.2)
  · rw [ofUser_cons_of_not own] at inLine ⊢
    exact inLine

theorem drainAdmin_inOrder (quiet : env.Quiet) (nodup : arrivals.Nodup) (fuel : Nat) (now : Tick)
    (placed : Placed s)
    (inOrder : InOrder arrivals uid s) :
    InOrder arrivals uid (s.drainAdmin p env fuel now).2 := by
  induction fuel generalizing s now with
  | zero => exact inOrder
  | succ fuel ih =>
      unfold drainAdmin
      split
      · exact inOrder
      next req rest waiting =>
        set taken := { s with adminQueue := rest }.emit (.serve (.request req)) with htaken
        have placedTaken : Placed taken := by
          have popped := placed.act (.takeAdmin (p := p))
          rw [waiting, List.tail_cons] at popped
          exact popped.act (.emit (p := p) _ nofun)
        have sent := dispatchICL_spent uid (p := p) quiet placedTaken req now
        have acts := dispatchICL_acts (p := p) quiet.actsOn req now taken
        refine ih _ (placedTaken.acts acts) ?_
        unfold InOrder line at inOrder
        unfold InOrder
        rw [sent.line, sent.dispatches]
        rw [waiting] at inOrder
        have served := inLine_serve [] (rest ++ s.deferredQueue.map DeferredRequest.req ++
          (s.account uid).queue) nodup inOrder (paidFrom req taken.trace)
            fun _ x hmem => absurd hmem List.not_mem_nil
        exact served

structure Serving (arrivals : List Request) (uid : UserID) (s : CreditScheduler) : Prop where
  placed : Placed s
  inOrder : InOrder arrivals uid s
  passed : ∀ dr ∈ s.deferredQueue, dr.req.userID = uid → (s.account uid).credit < dr.pages

theorem Serving.spent (serving : Serving arrivals uid s) (placed : Placed t)
    (spent : Spent uid [] s t) : Serving arrivals uid t := by
  refine ⟨placed, ?_, fun dr hmem own => ?_⟩
  · unfold InOrder
    rw [spent.line, spent.dispatches]
    exact serving.inOrder
  · rw [spent.deferredQueue] at hmem
    exact spent.credit.trans_lt (serving.passed dr hmem own)

theorem Serving.acts (serving : Serving arrivals uid s) (acts : Acts p s t)
    (spent : Spent uid [] s t) : Serving arrivals uid t :=
  serving.spent (serving.placed.acts acts) spent

theorem drainDeferred_serving (quiet : env.Quiet) (nodup : arrivals.Nodup)
    {todo : List DeferredRequest} (kept : List DeferredRequest) (now : Tick) (placed : Placed s)
    (waiting : s.deferredQueue = todo ++ kept)
    (inLine : InLine Overtakes arrivals (ofUser uid (s.adminQueue ++
      (kept ++ todo).map DeferredRequest.req ++ (s.account uid).queue)) (dispatches uid s.trace))
    (passed : ∀ dr ∈ kept, dr.req.userID = uid → (s.account uid).credit < dr.pages) :
    Serving arrivals uid (s.drainDeferred p env todo.length now).2 := by
  induction todo generalizing s kept now with
  | nil =>
      have waiting : s.deferredQueue = kept := waiting
      rw [List.append_nil, ← waiting] at inLine
      exact ⟨placed, inLine, waiting.symm ▸ passed⟩
  | cons dr todo ih =>
      have entry := placed.deferred dr (waiting ▸ List.mem_cons_self)
      have notAdmin := placed.user dr (waiting ▸ List.mem_cons_self)
      rw [List.length_cons, drainDeferred, waiting]
      simp only [List.cons_append]
      set popped : CreditScheduler := { s with deferredQueue := todo ++ kept } with hpopped
      have found : popped.getOrCreateUser p dr.req.userID = popped :=
        getOrCreateUser_of_mem entry.2
      have taken : Placed popped := by
        refine placed.act (.shuffle (p := p) (todo ++ kept) ?_)
        rw [waiting]
        exact List.subset_cons_self _ _
      rw [found]
      split
      next held =>
        set paid := (popped.charge .deferredQueue (.ofOp dr.req.op) dr.req.userID
          dr.pages).emit (.serve (.request dr.req)) with hpaid
        have placedPaid : Placed paid := (taken.act (.charge (p := p) (s := popped)
          .deferredQueue (.ofOp dr.req.op) dr.req.userID dr.pages entry.2 held)).act
            (.emit (p := p) _ (by simp))
        have charged : Spent uid [] popped paid :=
          (Spent.charge (s := popped) .deferredQueue (.ofOp dr.req.op) dr.req.userID held).trans
            (.emit (.serve (.request dr.req)) (by simp))
        have sent := charged.trans (dispatchReentrant_spent uid (p := p) quiet placedPaid
            dr.req now)
        have acts := dispatchReentrant_acts (p := p) quiet.actsOn dr.req now paid
        refine ih kept _ (placedPaid.acts acts) sent.deferredQueue ?_ fun other hmem own =>
          sent.credit.trans_lt (passed other hmem own)
        rw [sent.adminQueue, sent.queue, sent.dispatches, List.append_nil]
        have front : s.adminQueue ++ (kept ++ dr :: todo).map DeferredRequest.req ++
            (s.account uid).queue = (s.adminQueue ++ kept.map DeferredRequest.req) ++
              dr.req :: (todo.map DeferredRequest.req ++ (s.account uid).queue) := by simp
        have rest : s.adminQueue ++ (kept ++ todo).map DeferredRequest.req ++
            (s.account uid).queue = (s.adminQueue ++ kept.map DeferredRequest.req) ++
              (todo.map DeferredRequest.req ++ (s.account uid).queue) := by simp
        rw [front] at inLine
        change InLine _ _ (ofUser uid (s.adminQueue ++ (kept ++ todo).map DeferredRequest.req ++
          (s.account uid).queue)) _
        rw [rest]
        refine inLine_serve _ _ nodup inLine (paidFrom dr.req paid.trace) fun own x hmem => ?_
        obtain ⟨hmem, -, user⟩ := mem_ofUser.1 hmem
        rcases List.mem_append.1 hmem with admin | behind
        · exact absurd (own.trans (user.symm.trans (placed.admin x admin))) notAdmin
        · obtain ⟨other, hother, rfl⟩ := List.mem_map.1 behind
          have pages := (placed.deferred other (waiting ▸ List.mem_append_right _ hother)).1
          refine ⟨_, if_neg notAdmin, entry.1 ▸ held, ?_⟩
          change ((s.account dr.req.userID).credit) < other.req.pages
          rw [← pages, own]
          exact passed other hother user
      next held =>
        set back : CreditScheduler := { s with deferredQueue := todo ++ (kept ++ [dr]) }
        have placedBack : Placed back := by
          refine placed.act (.shuffle (p := p) (todo ++ (kept ++ [dr])) ?_)
          rw [waiting]
          intro other hmem
          simp only [List.mem_append, List.mem_cons] at hmem ⊢
          tauto
        have moved : (kept ++ [dr]) ++ todo = kept ++ dr :: todo := by simp
        have again : { popped with deferredQueue := popped.deferredQueue ++ [dr] } = back := by
          simp [hpopped, back]
        rw [again]
        refine ih (s := back) (kept ++ [dr]) now placedBack rfl ?_ ?_
        · rw [moved]
          exact inLine
        · intro other hmem own
          rcases List.mem_append.1 hmem with old | new
          · exact passed other old own
          · obtain rfl := List.mem_singleton.1 new
            rw [← own]
            exact not_le.1 held

theorem Placed.known_of_waiting (placed : Placed s) {user : UserID} {front : Request}
    (waits : front ∈ (s.account user).queue ++ (s.account user).queueISC) :
    user ∈ s.users := by
  by_contra absent
  obtain ⟨queue, queueISC⟩ := placed.known user absent
  rw [queue, queueISC] at waits
  exact List.not_mem_nil waits

theorem deferISC_serving (serving : Serving arrivals uid s) {user : UserID} {front : Request}
    (now : Tick) (waits : front ∈ (s.account user).queueISC)
    (short : ¬ front.pages ≤ (s.account user).credit) :
    Serving arrivals uid (deferISC user front now s) := by
  have waits' := List.mem_append_right (s.account user).queue waits
  have own := serving.placed.owner user front waits'
  have gate := serving.placed.gates user front waits
  set deferred : CreditScheduler := { s with
    deferredQueue := s.deferredQueue ++
      ([⟨front, front.pages, now⟩] : List DeferredRequest) } with hdeferred
  have placed : Placed deferred := serving.placed.act (.defer (p := .small) user front now waits')
  have passed : Serving arrivals uid deferred := by
    refine ⟨placed, ?_, fun dr hmem user' => ?_⟩
    · have same : line uid deferred = line uid s := by
        unfold line
        rw [hdeferred]
        simp [ofUser, gate]
      unfold InOrder
      rw [same]
      exact serving.inOrder
    · rcases List.mem_append.1 hmem with old | new
      · exact serving.passed dr old user'
      · obtain rfl := List.mem_singleton.1 new
        rw [← user', own]
        exact not_le.1 short
  exact passed.acts (p := .small) (.single (.takeISC user))
    (.modify user _ (fun _ => rfl) fun _ => rfl)

theorem tryDispatchISC_serving (now : Tick) (order : List UserID)
    (serving : Serving arrivals uid s) : Serving arrivals uid (s.tryDispatchISC now order).2 := by
  induction order generalizing s with
  | nil => exact serving
  | cons user order ih =>
      cases waiting : (s.account user).queueISC with
      | nil =>
          rw [tryDispatchISC, waiting]
          exact ih serving
      | cons front rest =>
          have waits : front ∈ (s.account user).queueISC := waiting ▸ List.mem_cons_self
          have known := serving.placed.known_of_waiting
            (List.mem_append_right (s.account user).queue waits)
          rw [tryDispatchISC_cons waiting]
          split
          next held =>
            have paid := serving.acts (p := .small)
              (.single (.charge .queueISC .isc user front.pages known held))
              (.charge .queueISC .isc user held)
            have chosen := paid.acts (p := .small) (.single (.mark s.lastChosenUid user s.inTick
              s.fault s.refillEvent s.lastStatTick)) (.frame rfl)
            have taken := chosen.acts (p := .small) (.single (.takeISC user))
              (.modify user _ (fun _ => rfl) fun _ => rfl)
            exact taken.acts (p := .small) (.single (.emit (.serve (.request front)) (by simp)))
              (.emit _ (by simp))
          next short => exact ih (deferISC_serving serving now waits short)

/-- A host request that its user cannot pay keeps its place at the end of those the
user has in the deferred queue. -/
theorem deferHost_serving (serving : Serving arrivals uid s) {user : UserID} {front : Request}
    {rest : List Request} (now : Tick) (waiting : (s.account user).queue = front :: rest)
    (short : ¬ front.pages ≤ ((s.getOrCreateUser p front.userID).account front.userID).credit) :
    Serving arrivals uid (deferHost p user front now s) := by
  have waits : front ∈ (s.account user).queue ++ (s.account user).queueISC := by simp [waiting]
  obtain rfl := serving.placed.owner user front waits
  have known := serving.placed.known_of_waiting waits
  have found : s.getOrCreateUser p front.userID = s := getOrCreateUser_of_mem known
  rw [found] at short
  unfold deferHost
  rw [found]
  set deferred : CreditScheduler := { s with
    deferredQueue := s.deferredQueue ++
      ([⟨front, front.pages, now⟩] : List DeferredRequest) } with hdeferred
  have placed : Placed (deferred.modify front.userID UserAccount.popQueue) :=
    (serving.placed.act (.defer (p := p) front.userID front now waits)).act
      (.take (p := p) front.userID)
  have credit : ((deferred.modify front.userID UserAccount.popQueue).account uid).credit =
      (s.account uid).credit := modify_field deferred front.userID uid (·.credit) fun _ => rfl
  refine ⟨placed, ?_, fun dr hmem own => ?_⟩
  · have same : line uid (deferred.modify front.userID UserAccount.popQueue) = line uid s := by
      unfold line
      rw [modify_account]
      by_cases own : uid = front.userID
      · rw [if_pos own, own]
        simp [hdeferred, UserAccount.popQueue, waiting]
      · rw [if_neg own]
        simp [hdeferred, ofUser, Ne.symm own]
    unfold InOrder
    rw [same]
    exact serving.inOrder
  · rw [credit]
    rcases List.mem_append.1 hmem with old | new
    · exact serving.passed dr old own
    · obtain rfl := List.mem_singleton.1 new
      rw [← own]
      exact not_le.1 short

/-- What the user has in the deferred queue is more than the balance that pays the
request at the head of its queue. -/
theorem sendHost_serving (quiet : env.Quiet) (nodup : arrivals.Nodup)
    (serving : Serving arrivals uid s) {user : UserID} {front : Request} {rest : List Request}
    (now : Tick) (waiting : (s.account user).queue = front :: rest)
    (held : front.pages ≤ ((s.getOrCreateUser p front.userID).account front.userID).credit) :
    Serving arrivals uid (dispatchReentrant p env front now (sendHost p user front s)).2 := by
  have waits : front ∈ (s.account user).queue ++ (s.account user).queueISC := by simp [waiting]
  obtain rfl := serving.placed.owner user front waits
  have known := serving.placed.known_of_waiting waits
  have notAdmin : front.userID ≠ 0 := by
    intro admin
    rw [admin, serving.placed.zero.1] at waiting
    contradiction
  have found : s.getOrCreateUser p front.userID = s := getOrCreateUser_of_mem known
  unfold sendHost
  rw [found] at held ⊢
  set paid := s.charge .hostQueue (.ofOp front.op) front.userID front.pages with hpaid
  set taken := paid.modify front.userID UserAccount.popQueue with htaken
  set sent := ({ taken with lastChosenUid := front.userID }).emit (.serve (.request front))
    with hsent
  have acts : Acts p s sent := (((ReflTransGen.single (.charge .hostQueue (.ofOp front.op)
    front.userID front.pages known held)).tail (.take front.userID)).tail
      (.mark front.userID _ _ _ _ _)).tail (.emit _ nofun)
  have placed := serving.placed.acts acts
  have charged : Spent uid [] s paid := .charge .hostQueue (.ofOp front.op) front.userID held
  have credit : (sent.account uid).credit ≤ (s.account uid).credit := by
    refine le_trans (le_of_eq ?_) charged.credit
    exact modify_field paid front.userID uid (f := UserAccount.popQueue) (·.credit) fun _ => rfl
  have handed := dispatchReentrant_spent uid (p := p) quiet placed front now
  have dispatched := dispatchReentrant_acts (p := p) quiet.actsOn front now sent
  refine ⟨placed.acts dispatched, ?_, fun dr hmem own => ?_⟩
  · unfold InOrder
    rw [handed.line, handed.dispatches]
    change InLine Overtakes arrivals (line uid sent) (_ ++ dispatches uid s.trace)
    have queue : (sent.account uid).queue = if uid = front.userID then rest else
        (s.account uid).queue := by
      change (taken.account uid).queue = _
      rw [htaken, modify_account]
      split
      next own =>
        rw [← own] at waiting
        have same : (paid.account uid).queue = (s.account uid).queue := charged.queue
        rw [← own]
        simp [UserAccount.popQueue, same, waiting]
      next => exact charged.queue
    have inOrder := serving.inOrder
    unfold InOrder line at inOrder
    unfold line
    rw [queue]
    by_cases own : uid = front.userID
    · rw [if_pos own]
      rw [show (s.account uid).queue = front :: rest from own ▸ waiting] at inOrder
      refine inLine_serve _ _ nodup inOrder (paidFrom front sent.trace) fun _ x hmem => ?_
      obtain ⟨hmem, -, user⟩ := mem_ofUser.1 hmem
      rcases List.mem_append.1 hmem with admin | behind
      · exact absurd (own.symm.trans (user.symm.trans (serving.placed.admin x admin))) notAdmin
      · obtain ⟨other, hother, rfl⟩ := List.mem_map.1 behind
        have pages := (serving.placed.deferred other hother).1
        refine ⟨_, if_neg notAdmin, held, ?_⟩
        rw [← pages, ← own]
        exact serving.passed other hother user
    · rw [if_neg own, ofUser_cons_of_not fun h => own h.2.symm]
      exact inOrder
  · rw [handed.deferredQueue] at hmem
    exact (handed.credit.trans credit).trans_lt (serving.passed dr hmem own)

theorem tryDispatchHost_serving (quiet : env.Quiet) (nodup : arrivals.Nodup) (now : Tick)
    (order : List UserID) (serving : Serving arrivals uid s) :
    Serving arrivals uid (s.tryDispatchHost p env now order).2.2 := by
  induction order generalizing s with
  | nil => exact serving
  | cons user order ih =>
      cases waiting : (s.account user).queue with
      | nil =>
          rw [tryDispatchHost, waiting]
          exact ih serving
      | cons front rest =>
          rw [tryDispatchHost_cons waiting]
          split
          next held => exact sendHost_serving quiet nodup serving now waiting held
          next short => exact ih (deferHost_serving serving now waiting short)

theorem dispatchRounds_serving (quiet : env.Quiet) (nodup : arrivals.Nodup) (rounds : Nat)
    (now : Tick) (serving : Serving arrivals uid s) :
    Serving arrivals uid (s.dispatchRounds p env rounds now).2 := by
  induction rounds generalizing s now with
  | zero => exact serving
  | succ rounds ih =>
      have gates := tryDispatchISC_serving now (scanOrder s.lastChosenUidISC s.users) serving
      unfold dispatchRounds
      simp only
      split
      · exact ih now gates
      · have hosts := tryDispatchHost_serving (p := p) quiet nodup now (scanOrder
          (tryDispatchISC now (scanOrder s.lastChosenUidISC s.users) s).2.lastChosenUid
          (tryDispatchISC now (scanOrder s.lastChosenUidISC s.users) s).2.users) gates
        split
        · exact ih _ hosts
        · exact hosts

end Leaving

/-! ## Calls -/

section Calls

variable {p : Params} {env : Env} {uid : UserID} {s t : CreditScheduler}
  {arrivals : List Request}

theorem Kept.inOrder (kept : Kept uid [] s t)
    (inOrder : InOrder arrivals uid s) :
    InOrder arrivals uid t := by
  unfold InOrder
  rw [kept.line, kept.dispatches]
  exact inOrder

theorem serviceQueues_inOrder (quiet : env.Quiet) (nodup : arrivals.Nodup) (now : Tick)
    (placed : Placed s)
    (inOrder : InOrder arrivals uid s) :
    InOrder arrivals uid (s.serviceQueues p env now).2 := by
  have deferred := drainDeferred_serving (p := p) quiet nodup [] now placed
    (List.append_nil _).symm inOrder fun _ hmem => absurd hmem List.not_mem_nil
  unfold serviceQueues
  set drained := s.drainDeferred p env s.deferredQueue.length now with hdrained
  have custom := deferred.acts
    (drainDeferredISC_acts (p := p) quiet.actsOn drained.1 drained.2.deferredISC.length drained.2)
    (drainDeferredISC_spent quiet deferred.placed drained.1 drained.2.deferredISC.length)
  set resumed := drainDeferredISC p env drained.1 drained.2.deferredISC.length drained.2
  set fuel := resumed.deferredISCRequests.length + 1 + env.fuel
  have requests := custom.acts (processISCLoop_acts (p := p) quiet.actsOn drained.1 fuel [] resumed)
    (processISCLoop_spent quiet custom.placed drained.1 fuel [])
  exact (dispatchRounds_serving quiet nodup maxDispatchPerTick drained.1 requests).inOrder

theorem tick_inOrder (quiet : env.Quiet) (nodup : arrivals.Nodup) (now : Tick)
    (placed : Placed s)
    (inOrder : InOrder arrivals uid s) :
    InOrder arrivals uid (s.tick p env now).2 := by
  unfold tick
  split
  · exact inOrder
  · simp only
    set window := iopsWindow p now { s with inTick := true } with hwindow
    have windowActs : Acts p s window :=
      (ReflTransGen.single (.inTick true s)).trans (iopsWindow_acts now _)
    have placedWindow := placed.acts windowActs
    have entered : Kept uid [] s { s with inTick := true } := ⟨rfl, rfl, rfl, rfl⟩
    have windowLine := (entered.trans (iopsWindow_kept (p := p) now)).inOrder inOrder
    set admin := drainAdmin p env (window.adminQueue.length + env.fuel) now window with hadmin
    have adminLine := drainAdmin_inOrder (p := p) quiet nodup
      (window.adminQueue.length + env.fuel) now placedWindow windowLine
    have adminActs := drainAdmin_acts (p := p) quiet.actsOn
      (window.adminQueue.length + env.fuel) now window
    have placedAdmin := placedWindow.acts adminActs
    have refilled := (refill_kept (p := p) admin.1).inOrder adminLine
    have placedRefilled := placedAdmin.acts (refill_acts (p := p) admin.1 admin.2)
    exact serviceQueues_inOrder quiet nodup admin.1 placedRefilled refilled

theorem processLoop_inOrder (quiet : env.Quiet) (nodup : arrivals.Nodup) (user : UserID)
    (iterations : Nat) (completionTick : Tick) (placed : Placed s)
    (inOrder : InOrder arrivals uid s) :
    InOrder arrivals uid (s.processLoop p env user iterations completionTick).2 := by
  induction iterations generalizing s completionTick with
  | zero => exact inOrder
  | succ iterations ih =>
      have ticked := tick_inOrder (p := p) quiet nodup completionTick placed inOrder
      have acts := tick_acts (p := p) quiet.actsOn completionTick s
      unfold processLoop
      simp only
      split
      · exact ih _ (placed.acts acts) ticked
      · exact ticked

theorem submitRequest_line (uid : UserID) (placed : Placed s) (getTick : Tick) (req : Request) :
    line uid (s.submitRequest p getTick req) = line uid s ++ ofUser uid [req] ∧
      dispatches uid (s.submitRequest p getTick req).trace = dispatches uid s.trace := by
  unfold submitRequest
  split
  next admin =>
    refine ⟨?_, rfl⟩
    unfold line
    by_cases zero : uid = 0
    · have deferred : ofUser uid (s.deferredQueue.map DeferredRequest.req) = [] := by
        refine List.filter_eq_nil_iff.2 fun r hmem => ?_
        obtain ⟨dr, hdr, rfl⟩ := List.mem_map.1 hmem
        have user := placed.user dr hdr
        simp [zero, user]
      have queue : (s.account uid).queue = [] := zero ▸ placed.zero.1
      simp only [ofUser_append, deferred, queue, List.append_nil]
    · have other : ofUser uid [req] = [] :=
        ofUser_cons_of_not (fun h => zero (h.2.symm.trans admin)) []
      rw [ofUser_append, ofUser_append, ofUser_append, other, ofUser_append, ofUser_append]
      simp only [List.append_nil]
  next user =>
    have found : Spent uid [] s (s.getOrCreateUser p req.userID) := .create placed req.userID
    set queued := (s.getOrCreateUser p req.userID).modify req.userID (enqueue req) with hqueued
    have active : Spent uid [] queued (queued.activate p getTick req.userID) :=
      .activate req.userID getTick
    rw [active.line, active.dispatches]
    refine ⟨?_, found.dispatches⟩
    have queue : ofUser uid (queued.account uid).queue =
        ofUser uid (s.account uid).queue ++ ofUser uid [req] := by
      rw [hqueued, modify_account]
      split
      next own =>
        have same : ((s.getOrCreateUser p req.userID).account req.userID).queue =
            (s.account uid).queue := own ▸ found.queue
        unfold enqueue
        split
        next gate =>
          have host : req.op.isHost = false := by
            rcases gate with op | op <;> rw [op] <;> rfl
          have none : ofUser uid [req] = [] := ofUser_cons_of_not (by simp [host]) []
          rw [none, List.append_nil]
          exact congrArg (ofUser uid) same
        next =>
          rw [← ofUser_append]
          exact congrArg (fun queue => ofUser uid (queue ++ [req])) same
      next other =>
        have none : ofUser uid [req] = [] := ofUser_cons_of_not (fun h => other h.2.symm) []
        rw [none, List.append_nil]
        exact congrArg (ofUser uid) found.queue
    unfold line
    rw [ofUser_append, queue, ofUser_append uid _ (s.account uid).queue, List.append_assoc]
    have others : (queued.adminQueue, queued.deferredQueue) = (s.adminQueue, s.deferredQueue) :=
      Prod.ext found.adminQueue found.deferredQueue
    simp only [Prod.mk.injEq] at others
    rw [others.1, others.2]

theorem submitRequest_inOrder (placed : Placed s) (getTick : Tick) (req : Request)
    (nodup : (arrivals ++ ofUser uid [req]).Nodup)
    (inOrder : InOrder arrivals uid s) :
    InOrder (arrivals ++ ofUser uid [req]) uid (s.submitRequest p getTick req) := by
  obtain ⟨line, dispatches⟩ := submitRequest_line uid (p := p) placed getTick req
  unfold InOrder
  rw [line, dispatches]
  by_cases own : req.op.isHost = true ∧ req.userID = uid
  · rw [ofUser_cons_of_mem own.1 own.2] at nodup ⊢
    refine inOrder.arrive fun old => ?_
    exact (List.disjoint_of_nodup_append nodup) old List.mem_cons_self
  · rw [ofUser_cons_of_not own]
    change InLine _ (_ ++ []) (_ ++ []) _
    rwa [List.append_nil, List.append_nil]

theorem ensureActiveUser_spent (placed : Placed s) (getTick : Tick) (user : UserID) :
    Spent uid [] s (s.ensureActiveUser p getTick user) :=
  (Spent.create placed user).trans (.activate user getTick)

theorem submitISCRequest_spent (quiet : env.Quiet) (placed : Placed s) (getTick : Tick)
    (user : UserID) (pages : Nat) (iscContext : Option Nat) :
    Spent uid [] s (s.submitISCRequest p env getTick user pages iscContext).2 := by
  unfold submitISCRequest
  cases iscContext with
  | none => exact .refl uid s
  | some ctx =>
      have ready : Spent uid [] s (s.ensureActiveUser p getTick user) :=
        ensureActiveUser_spent placed getTick user
      simp only
      split
      next held =>
        rw [quiet.iscCallback]
        exact (ready.trans (.charge .submitISCRequest .isc user held)).trans
          (.emit (.serve (.isc user pages ctx)) (by simp))
      next => exact ⟨⟨ready.adminQueue, ready.deferredQueue, ready.queue, ready.dispatches⟩,
        ready.credit⟩

theorem useCreditAs_spent (placed : Placed s) (site : ChargeSite) (cls : ChargeClass)
    (user : UserID) (used : Nat) : Spent uid [] s (s.useCreditAs p site cls user used) := by
  refine (Spent.create placed user).trans (.charge site cls user ?_)
  split_ifs <;> omega

theorem resetStatValues_inOrder (getTick : Tick)
    (inOrder : InOrder arrivals uid s) :
    InOrder arrivals uid (s.resetStatValues getTick) := by
  have queue : ((s.resetStatValues getTick).account uid).queue = (s.account uid).queue :=
    mapUsers_field s uid (f := UserAccount.resetStat getTick) (·.queue) fun _ => rfl
  refine inOrder.drop ?_
  unfold line ofUser
  rw [queue]
  refine List.Sublist.filter _ (List.Sublist.append ?_ (List.Sublist.refl _))
  exact List.sublist_append_right s.adminQueue _

theorem Op.run_inOrder (quiet : env.Quiet) (op : Op) (placed : Placed s)
    (nodup : (arrivals ++ ofUser uid op.requests).Nodup)
    (inOrder : InOrder arrivals uid s) :
    InOrder (arrivals ++ ofUser uid op.requests) uid (op.run p env s) := by
  have plain : op.requests = [] →
      InOrder arrivals uid (op.run p env s) →
      InOrder (arrivals ++ ofUser uid op.requests) uid (op.run p env s) := by
    intro none after
    rw [none]
    change InOrder (_ ++ []) _ _
    rwa [List.append_nil]
  have old : arrivals.Nodup := nodup.sublist (List.sublist_append_left _ _)
  cases op with
  | submitRequest getTick req => exact submitRequest_inOrder placed getTick req nodup inOrder
  | processUntil getTick req completionTick =>
      have submitted := submitRequest_inOrder (p := p) placed getTick req nodup inOrder
      have acts := submitRequest_acts (p := p) getTick req s
      exact processLoop_inOrder quiet nodup req.userID maxIterations completionTick
        (placed.acts acts) submitted
  | submitISCDeferred getTick user pages ctx cb =>
      exact plain rfl ((Spent.frame rfl).toKept.inOrder inOrder)
  | submitISCRequest getTick user pages iscContext =>
      exact plain rfl ((submitISCRequest_spent quiet placed getTick user pages
        iscContext).toKept.inOrder inOrder)
  | ensureActiveUser getTick user =>
      exact plain rfl ((ensureActiveUser_spent placed getTick user).toKept.inOrder inOrder)
  | tick now => exact plain rfl (tick_inOrder quiet old now placed inOrder)
  | processISCRequests now =>
      exact plain rfl ((processISCLoop_spent quiet placed now _ []).toKept.inOrder inOrder)
  | processEvent now => exact plain rfl (tick_inOrder quiet old now placed inOrder)
  | useCredit user used =>
      exact plain rfl ((useCreditAs_spent placed _ _ user used).toKept.inOrder inOrder)
  | useCreditISC user used =>
      exact plain rfl ((useCreditAs_spent placed _ _ user used).toKept.inOrder inOrder)
  | resetStatValues getTick => exact plain rfl (resetStatValues_inOrder getTick inOrder)

theorem Calls.placed {ops : List Op} (run : Calls p s ops t) (placed : Placed s) :
    Placed t := by
  induction run with
  | refl => exact placed
  | next env op _ quiet ih => exact ih.acts (op.run_acts (p := p) quiet.actsOn _)

theorem Calls.inOrder {uids : List UserID} {profile : UserID → Profile} {ops : List Op}
    (run : Calls p (start p uids profile) ops s) (nodup : (submissions uid ops).Nodup) :
    InOrder (submissions uid ops) uid s := by
  induction run with
  | refl =>
      have fresh := start_fresh p uids profile
      unfold InOrder line
      rw [fresh.adminQueue, fresh.deferredQueue, fresh.queue, fresh.trace]
      exact .nil
  | next env op earlier quiet ih =>
      have old := nodup.sublist (List.sublist_append_left _ (ofUser uid op.requests))
      exact op.run_inOrder quiet (earlier.placed (start_placed p uids profile)) nodup (ih old)

/-- What is dispatched of a user has been submitted, and two dispatches are in the order
of submission unless the later one was short of credit when it was overtaken by a
smaller one; no request of user 0 is overtaken. -/
theorem dispatched_in_order (p : Params) (uids : List UserID) (profile : UserID → Profile)
    (ops : List Op) (s : CreditScheduler) (run : Calls p (start p uids profile) ops s)
    (uid : UserID) (nodup : (submissions uid ops).Nodup) :
    (∀ d ∈ dispatches uid s.trace, d.1 ∈ submissions uid ops) ∧
    (dispatches uid s.trace).Pairwise (fun later earlier =>
      Before (submissions uid ops) later.1 earlier.1 →
        uid ≠ 0 ∧ Overtakes earlier later.1) ∧
    (dispatches uid s.trace).Pairwise (fun later earlier =>
      Before (submissions uid ops) later.1 earlier.1 → earlier.1.pages < later.1.pages) := by
  have inOrder := run.inOrder nodup
  refine ⟨inOrder.departed, ?_, ?_⟩
  · refine inOrder.inTurn.imp_of_mem fun _ hearlier excused before => ⟨?_, excused before⟩
    rintro rfl
    obtain ⟨held, paid, -⟩ := excused before
    rw [dispatches_admin s.trace _ hearlier] at paid
    contradiction
  · refine inOrder.inTurn.imp fun excused before => ?_
    obtain ⟨held, -, enough, short⟩ := excused before
    exact enough.trans_lt short

end Calls

def largeWrite : Request := .ofPages .write 1001 20

def smallRead : Request := .ofPages .read 1001 2

def overtakingOps : List Op :=
  [.tick 2000, .tick 1100, .submitRequest 1050 smallRead, .tick 1000, .submitRequest 0 largeWrite]

def overtaking : CreditScheduler := overtakingOps.foldr (Op.run .small .idle) (construct .small)

theorem overtaking_calls :
    Calls .small (start .small [] fun _ => .standard) overtakingOps overtaking :=
  .next _ _ (.next _ _ (.next _ _ (.next _ _ (.next _ _ .refl Env.idle_quiet) Env.idle_quiet)
    Env.idle_quiet) Env.idle_quiet) Env.idle_quiet

theorem overtaking_submissions : submissions 1001 overtakingOps = [largeWrite, smallRead] := by
  decide

theorem overtaking_dispatches :
    dispatches 1001 overtaking.trace = [(largeWrite, some 22), (smallRead, some 12)] := by
  decide +kernel

theorem dispatched_in_order_overtaking :
    (∀ d ∈ dispatches 1001 overtaking.trace, d.1 ∈ submissions 1001 overtakingOps) ∧
    (dispatches 1001 overtaking.trace).Pairwise (fun later earlier =>
      Before (submissions 1001 overtakingOps) later.1 earlier.1 →
        (1001 : UserID) ≠ 0 ∧ Overtakes earlier later.1) ∧
    (dispatches 1001 overtaking.trace).Pairwise (fun later earlier =>
      Before (submissions 1001 overtakingOps) later.1 earlier.1 →
        earlier.1.pages < later.1.pages) :=
  dispatched_in_order .small [] (fun _ => .standard) overtakingOps overtaking overtaking_calls
    1001 (by decide)

/-- The read reaches the cache layer before the write that was submitted before it. -/
theorem later_read_first :
    ¬ ∀ ops s, Calls .small (start .small [] fun _ => .standard) ops s →
      (submissions 1001 ops).Nodup → (dispatches 1001 s.trace).Pairwise fun later earlier =>
        ¬ Before (submissions 1001 ops) later.1 earlier.1 := by
  intro claim
  have inTurn := claim overtakingOps overtaking overtaking_calls (by decide)
  rw [overtaking_dispatches, overtaking_submissions] at inTurn
  have first := (List.pairwise_cons.1 inTurn).1 (smallRead, some 12) List.mem_cons_self
  exact first (List.Sublist.refl _)

end SimpleSSD.HIL.CreditScheduler
