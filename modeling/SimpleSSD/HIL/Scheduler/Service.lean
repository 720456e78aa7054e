import SimpleSSD.Foundation.Debt
import SimpleSSD.HIL.Scheduler.Act

/-!
# What a tick serves

The service passes of a tick on what waits and on the balances, when the code they
call leaves the scheduler alone: an entry of a deferred queue is served when it can
be paid, and the round robin serves in an order that the queues determine as long
as every request it comes to can be paid.
-/

namespace SimpleSSD.HIL.CreditScheduler

open SimpleSSD.Foundation

structure View where
  users : List UserID
  queue : UserID → List Request
  queueISC : UserID → List Request
  credit : UserID → Nat
  lastChosenUid : UserID
  lastChosenUidISC : UserID
  deferredQueue : List DeferredRequest
  deferredISC : List DeferredCustom
  deferredISCRequests : List ISCDeferredRequest

def view (s : CreditScheduler) : View where
  users := s.users
  queue uid := (s.account uid).queue
  queueISC uid := (s.account uid).queueISC
  credit uid := (s.account uid).credit
  lastChosenUid := s.lastChosenUid
  lastChosenUidISC := s.lastChosenUidISC
  deferredQueue := s.deferredQueue
  deferredISC := s.deferredISC
  deferredISCRequests := s.deferredISCRequests

def addUser (p : Params) (users : List UserID) (uid : UserID) : List UserID :=
  if uid ∈ users then users else p.emplaceOrder users uid

/-- Users that are not known have nothing waiting and no credit. -/
def View.Blank (v : View) : Prop :=
  ∀ uid, uid ∉ v.users → v.queue uid = [] ∧ v.queueISC uid = [] ∧ v.credit uid = 0

theorem mem_addUser {p : Params} {users : List UserID} {uid other : UserID} :
    other ∈ addUser p users uid ↔ other = uid ∨ other ∈ users := by
  unfold addUser
  split
  next known => exact ⟨.inr, fun h => h.elim (fun same => same ▸ known) id⟩
  next => exact (p.emplaceOrder_perm users uid).mem_iff.trans List.mem_cons

theorem View.Blank.add {p : Params} {v : View} (blank : v.Blank) {uid : UserID}
    {credit : UserID → Nat} (kept : ∀ other, other ≠ uid → credit other = v.credit other) :
    View.Blank { v with users := addUser p v.users uid, credit := credit } := by
  intro other absent
  have absent := not_or.1 fun h => absent (mem_addUser.2 h)
  obtain ⟨queue, queueISC, none⟩ := blank other absent.2
  exact ⟨queue, queueISC, (kept other absent.1).trans none⟩

theorem Proper.blank {s : CreditScheduler} (proper : Proper s) : s.view.Blank := by
  intro uid absent
  obtain ⟨queue, queueISC⟩ := proper.known uid absent
  refine ⟨queue, queueISC, proper.inactive uid ?_⟩
  exact Bool.eq_false_iff.2 fun active => absent (proper.active uid active)

section View

variable {p : Params} {env : Env} {s : CreditScheduler}

theorem view_modify (uid : UserID) (f : UserAccount → UserAccount)
    (queue : ∀ acc, (f acc).queue = acc.queue) (queueISC : ∀ acc, (f acc).queueISC = acc.queueISC)
    (credit : ∀ acc, (f acc).credit = acc.credit) : (s.modify uid f).view = s.view := by
  have queues := fun other => modify_field s uid other (·.queue) queue
  have queuesISC := fun other => modify_field s uid other (·.queueISC) queueISC
  have credits := fun other => modify_field s uid other (·.credit) credit
  simp only [view, queues, queuesISC, credits]
  rfl

theorem view_mapUsers (f : UserAccount → UserAccount)
    (queue : ∀ acc, (f acc).queue = acc.queue) (queueISC : ∀ acc, (f acc).queueISC = acc.queueISC)
    (credit : ∀ acc, (f acc).credit = acc.credit) : (s.mapUsers f).view = s.view := by
  have queues := fun uid => mapUsers_field s uid (·.queue) queue
  have queuesISC := fun uid => mapUsers_field s uid (·.queueISC) queueISC
  have credits := fun uid => mapUsers_field s uid (·.credit) credit
  simp only [view, queues, queuesISC, credits]
  rfl

theorem view_iopsWindow (now : Tick) : (s.iopsWindow p now).view = s.view := by
  unfold iopsWindow
  simp only
  split
  · have same : (s.mapUsers UserAccount.resetWindow).view = s.view := by
      refine view_mapUsers _ (fun acc => ?_) (fun acc => ?_) fun acc => ?_ <;>
      · unfold UserAccount.resetWindow
        split <;> rfl
    exact same
  · rfl

theorem view_getOrCreateUser (blank : s.view.Blank) (uid : UserID) :
    (s.getOrCreateUser p uid).view = { s.view with users := addUser p s.users uid } := by
  unfold getOrCreateUser addUser
  by_cases known : uid ∈ s.users
  · rw [if_pos known, if_pos known]
    rfl
  · rw [if_neg known, if_neg known]
    obtain ⟨queue, queueISC, credit⟩ := blank uid known
    have same : ∀ {α : Type} (field : UserAccount → α),
        field p.newAccount = field (s.account uid) → ∀ other,
          field (Function.update s.account uid p.newAccount other) =
            field (s.account other) := by
      intro α field fresh other
      by_cases h : other = uid
      · rw [h, Function.update_self, fresh]
      · rw [Function.update_of_ne h]
    simp only [view, View.mk.injEq, true_and, and_true]
    exact ⟨funext (same (·.queue) queue.symm), funext (same (·.queueISC) queueISC.symm),
      funext (same (·.credit) credit.symm)⟩

theorem view_charge (site : ChargeSite) (cls : ChargeClass) (uid : UserID) {pages : Nat}
    (held : pages ≤ (s.account uid).credit) :
    (s.charge site cls uid pages).view =
      { s.view with credit := pay s.view.credit (uid, pages) } := by
  have credit : (fun other => ((s.charge site cls uid pages).account other).credit) =
      pay s.view.credit (uid, pages) := by
    funext other
    unfold CreditScheduler.charge
    rw [emit_account, modify_account]
    by_cases h : other = uid
    · rw [if_pos h, h, pay_self]
      exact sub64_of_le held
    · rw [if_neg h, pay_of_ne _ _ h]
      rfl
  have queue := fun other => modify_field s uid other (f := (·.pay cls pages)) (·.queue)
    fun _ => rfl
  have queueISC := fun other => modify_field s uid other (f := (·.pay cls pages)) (·.queueISC)
    fun _ => rfl
  simp only [view, View.mk.injEq]
  exact ⟨rfl, funext queue, funext queueISC, credit, rfl, rfl, rfl, rfl, rfl⟩

theorem view_dispatchReentrant (quiet : env.Quiet) {req : Request} (known : req.userID ∈ s.users)
    (now : Tick) : (s.dispatchReentrant p env req now).2.view = s.view := by
  unfold dispatchReentrant dispatchICL
  split
  · simp only [quiet.icl]
    set answered : CreditScheduler := { s with inTick := false }.emit
      (.icl req now (env.icl req now { s with inTick := false }).1) with hanswered
    have found : answered.getOrCreateUser p req.userID = answered := getOrCreateUser_of_mem known
    have window : ∀ t : CreditScheduler, (t.modify req.userID fun acc => { acc with
        winHostPages := acc.winHostPages + req.pages
        winHostIOs := acc.winHostIOs + 1 }).view = t.view := fun t =>
      view_modify req.userID _ (fun _ => rfl) (fun _ => rfl) fun _ => rfl
    rw [found]
    exact window answered
  · rfl

end View

/-! ## The deferred queues -/

section Deferred

variable {p : Params} {env : Env} {s : CreditScheduler}

def DeferredRequest.debt (dr : DeferredRequest) : UserID × Nat := (dr.req.userID, dr.pages)

def DeferredCustom.debt (dc : DeferredCustom) : UserID × Nat := (dc.uid, dc.pages)

def ISCDeferredRequest.debt (req : ISCDeferredRequest) : UserID × Nat :=
  (req.uid, req.pagesNeeded)

theorem drainDeferred_view (quiet : env.Quiet) {todo : List DeferredRequest}
    (kept : List DeferredRequest) (waiting : s.deferredQueue = todo ++ kept)
    (known : ∀ dr ∈ todo, dr.req.userID ∈ s.users)
    (now : Tick) :
    (Affordable (todo.map DeferredRequest.debt) s.view.credit →
      (s.drainDeferred p env todo.length now).2.view = { s.view with
        deferredQueue := kept
        credit := payAll s.view.credit (todo.map DeferredRequest.debt) }) ∧
    ((s.drainDeferred p env todo.length now).2.deferredQueue = [] →
      kept = [] ∧ Affordable (todo.map DeferredRequest.debt) s.view.credit) := by
  induction todo generalizing s kept now with
  | nil =>
      have same : s.view = { s.view with deferredQueue := kept } := by
        rw [← show s.deferredQueue = kept from waiting]
        rfl
      exact ⟨fun _ => same, fun empty => ⟨waiting.symm.trans empty, affordable_nil _⟩⟩
  | cons dr todo ih =>
      have user := known dr List.mem_cons_self
      have others := fun d hmem => known d (List.mem_cons_of_mem dr hmem)
      have found : { s with deferredQueue := todo ++ kept }.getOrCreateUser p dr.req.userID =
          { s with deferredQueue := todo ++ kept } := getOrCreateUser_of_mem user
      rw [List.length_cons, drainDeferred, waiting, List.map_cons, affordable_cons]
      simp only [List.cons_append, found]
      split
      next held =>
        set paid := ({ s with deferredQueue := todo ++ kept }.charge .deferredQueue
          (.ofOp dr.req.op) dr.req.userID dr.pages).emit (.serve (.request dr.req)) with hpaid
        set sent := paid.dispatchReentrant p env dr.req now with hsent
        have view : sent.2.view = { s.view with
            deferredQueue := todo ++ kept
            credit := pay s.view.credit dr.debt } := by
          rw [hsent, view_dispatchReentrant quiet (s := paid) user]
          exact view_charge (s := { s with deferredQueue := todo ++ kept }) .deferredQueue
            (.ofOp dr.req.op) dr.req.userID held
        have users : sent.2.users = s.users := congrArg View.users view
        have rest := ih (s := sent.2) kept (congrArg View.deferredQueue view)
          (users ▸ others) sent.1
        rw [view] at rest
        refine ⟨fun ⟨_, all⟩ => rest.1 all, fun empty => ?_⟩
        obtain ⟨none, all⟩ := rest.2 empty
        exact ⟨none, held, all⟩
      next held =>
        have rest := ih (s := { s with deferredQueue := todo ++ (kept ++ [dr]) })
          (kept ++ [dr]) rfl others now
        rw [← List.append_assoc] at rest
        refine ⟨fun ⟨enough, _⟩ => absurd enough held, fun empty => ?_⟩
        exact absurd (rest.2 empty).1 (by simp)

theorem drainDeferredISC_view (quiet : env.Quiet) {todo : List DeferredCustom}
    (kept : List DeferredCustom) (waiting : s.deferredISC = todo ++ kept) (blank : s.view.Blank)
    (now : Tick) :
    (Affordable (todo.map DeferredCustom.debt) s.view.credit →
      (s.drainDeferredISC p env now todo.length).view = { s.view with
        users := (todo.map DeferredCustom.uid).foldl (addUser p) s.users
        deferredISC := kept
        credit := payAll s.view.credit (todo.map DeferredCustom.debt) }) ∧
    ((s.drainDeferredISC p env now todo.length).deferredISC = [] →
      kept = [] ∧ Affordable (todo.map DeferredCustom.debt) s.view.credit) ∧
    (s.drainDeferredISC p env now todo.length).deferredQueue = s.deferredQueue := by
  induction todo generalizing s kept with
  | nil =>
      have same : s.view = { s.view with deferredISC := kept } := by
        rw [← show s.deferredISC = kept from waiting]
        rfl
      exact ⟨fun _ => same, fun empty => ⟨waiting.symm.trans empty, affordable_nil _⟩, rfl⟩
  | cons dc todo ih =>
      set found := { s with deferredISC := todo ++ kept }.getOrCreateUser p dc.uid with hfound
      have view : found.view = { s.view with
          users := addUser p s.users dc.uid
          deferredISC := todo ++ kept } :=
        view_getOrCreateUser (s := { s with deferredISC := todo ++ kept }) blank dc.uid
      have credit : (found.account dc.uid).credit = s.view.credit dc.uid :=
        congrFun (congrArg View.credit view) dc.uid
      rw [List.length_cons, drainDeferredISC, waiting, List.map_cons, affordable_cons]
      simp only [List.cons_append]
      rw [← hfound, credit]
      split
      next held =>
        have held' : dc.pages ≤ (found.account dc.uid).credit := credit ▸ held
        set paid := (found.charge .deferredISC .isc dc.uid dc.pages).emit
          (.serve (.custom dc)) with hpaid
        have resumed : (paid.resumeReentrant env dc now).view = { s.view with
            users := addUser p s.users dc.uid
            deferredISC := todo ++ kept
            credit := pay s.view.credit dc.debt } := by
          have charged := view_charge (s := found) .deferredISC .isc dc.uid held'
          rw [view] at charged
          unfold resumeReentrant
          split
          · rw [quiet.resume]
            exact charged
          · exact charged
        have rest := ih (s := paid.resumeReentrant env dc now) kept
          (congrArg View.deferredISC resumed) (by
            rw [resumed]
            exact blank.add fun other ne => pay_of_ne _ _ ne)
        have users : (paid.resumeReentrant env dc now).users = addUser p s.users dc.uid :=
          congrArg View.users resumed
        have queue : (paid.resumeReentrant env dc now).deferredQueue = s.deferredQueue :=
          congrArg View.deferredQueue resumed
        rw [resumed, users, queue] at rest
        refine ⟨fun ⟨_, all⟩ => rest.1 all, fun empty => ?_, rest.2.2⟩
        obtain ⟨none, all⟩ := rest.2.1 empty
        exact ⟨none, held, all⟩
      next held =>
        have kept' : (found.deferredISC ++ [dc]) = todo ++ (kept ++ [dc]) := by
          rw [show found.deferredISC = todo ++ kept from congrArg View.deferredISC view,
            List.append_assoc]
        have rest := ih (s := { found with deferredISC := found.deferredISC ++ [dc] })
          (kept ++ [dc]) kept' (fun other absent => by
            have blank' : found.view.Blank := by
              rw [view]
              exact blank.add fun _ _ => rfl
            exact blank' other absent)
        refine ⟨fun ⟨enough, _⟩ => absurd enough held, fun empty => ?_, rest.2.2.trans ?_⟩
        · exact absurd (rest.2.1 empty).1 (by simp)
        · exact congrArg View.deferredQueue view

/-- The requests of the other in-storage queue are served as far as they can be paid. -/
theorem processISCLoop_view (quiet : env.Quiet) {todo : List ISCDeferredRequest}
    (waiting : s.deferredISCRequests = todo) (blank : s.view.Blank) (now : Tick)
    (fuel : Nat) (remaining : List ISCDeferredRequest) :
    ∃ left, (s.processISCLoop p env now (todo.length + 1 + fuel) remaining).view =
      { s.view with
        users := (todo.map ISCDeferredRequest.uid).foldl (addUser p) s.users
        credit := settle s.view.credit (todo.map ISCDeferredRequest.debt)
        deferredISCRequests := left } := by
  induction todo generalizing s remaining with
  | nil =>
      refine ⟨remaining, ?_⟩
      rw [List.length_nil, Nat.zero_add, Nat.add_comm, processISCLoop, waiting]
      rfl
  | cons req todo ih =>
      set found := { s with deferredISCRequests := todo }.getOrCreateUser p req.uid with hfound
      have view : found.view = { s.view with
          users := addUser p s.users req.uid
          deferredISCRequests := todo } :=
        view_getOrCreateUser (s := { s with deferredISCRequests := todo }) blank req.uid
      have credit : (found.account req.uid).credit = s.view.credit req.uid :=
        congrFun (congrArg View.credit view) req.uid
      have fuel_eq : (req :: todo).length + 1 + fuel = (todo.length + 1 + fuel) + 1 := by
        rw [List.length_cons]
        omega
      rw [fuel_eq, processISCLoop, waiting, List.map_cons, List.map_cons, List.foldl_cons]
      simp only
      rw [← hfound, credit]
      split
      next held =>
        have held' : req.pagesNeeded ≤ (found.account req.uid).credit := credit ▸ held
        set paid := (found.charge .processISCRequests .isc req.uid req.pagesNeeded).emit
          (.serve (.isc req.uid req.pagesNeeded req.iscContext)) with hpaid
        have charged : paid.view = { s.view with
            users := addUser p s.users req.uid
            deferredISCRequests := todo
            credit := pay s.view.credit req.debt } := by
          have charged := view_charge (s := found) .processISCRequests .isc req.uid held'
          rw [view] at charged
          exact charged
        rw [quiet.iscCallback]
        obtain ⟨left, rest⟩ := ih (s := paid) (congrArg View.deferredISCRequests charged) (by
          rw [charged]
          exact blank.add fun other ne => pay_of_ne _ _ ne) remaining
        have users : paid.users = addUser p s.users req.uid := congrArg View.users charged
        rw [charged, users] at rest
        refine ⟨left, rest.trans ?_⟩
        rw [settle_cons_of_le req.debt _ _ held]
      next held =>
        obtain ⟨left, rest⟩ := ih (s := found) (congrArg View.deferredISCRequests view) (by
          rw [view]
          exact blank.add fun _ _ => rfl) (remaining ++ [req])
        have users : found.users = addUser p s.users req.uid := congrArg View.users view
        rw [view, users] at rest
        refine ⟨left, rest.trans ?_⟩
        rw [settle_cons_of_not_le req.debt _ _ held]

end Deferred

/-! ## The round robin -/

/-- The user whose turn it is: the first in the scan that has a request. -/
def turn (users : List UserID) (queues : UserID → List Request) (last : UserID) :
    Option UserID :=
  (scanOrder last users).find? fun uid => !(queues uid).isEmpty

def popFront (queues : UserID → List Request) (uid : UserID) : UserID → List Request :=
  Function.update queues uid (queues uid).tail

theorem popFront_self (queues : UserID → List Request) (uid : UserID) :
    popFront queues uid uid = (queues uid).tail := by simp [popFront]

theorem popFront_of_ne (queues : UserID → List Request) {uid other : UserID} (h : other ≠ uid) :
    popFront queues uid other = queues other := by simp [popFront, h]

/-- What up to `n` rounds serve, and what they leave, as long as each request can be
paid: gates before host requests. -/
def View.turns : Nat → View → List Request × View
  | 0, v => ([], v)
  | n + 1, v =>
      match turn v.users v.queueISC v.lastChosenUidISC with
      | some uid =>
          let later := turns n { v with
            queueISC := popFront v.queueISC uid
            lastChosenUidISC := uid }
          ((v.queueISC uid).head?.toList ++ later.1, later.2)
      | none =>
          match turn v.users v.queue v.lastChosenUid with
          | some uid =>
              let later := turns n { v with
                queue := popFront v.queue uid
                lastChosenUid := uid }
              ((v.queue uid).head?.toList ++ later.1, later.2)
          | none => ([], v)

theorem View.turns_gate {v : View} {uid : UserID} {front : Request} (n : Nat)
    (gate : turn v.users v.queueISC v.lastChosenUidISC = some uid)
    (head : (v.queueISC uid).head? = some front) :
    v.turns (n + 1) =
      (front :: (View.turns n { v with
          queueISC := popFront v.queueISC uid
          lastChosenUidISC := uid }).1,
        (View.turns n { v with
          queueISC := popFront v.queueISC uid
          lastChosenUidISC := uid }).2) := by
  rw [View.turns, gate]
  simp only [head, Option.toList_some, List.singleton_append]

theorem View.turns_host {v : View} {uid : UserID} {front : Request} (n : Nat)
    (none : turn v.users v.queueISC v.lastChosenUidISC = none)
    (host : turn v.users v.queue v.lastChosenUid = some uid)
    (head : (v.queue uid).head? = some front) :
    v.turns (n + 1) =
      (front :: (View.turns n { v with
          queue := popFront v.queue uid
          lastChosenUid := uid }).1,
        (View.turns n { v with
          queue := popFront v.queue uid
          lastChosenUid := uid }).2) := by
  rw [View.turns, none]
  simp only [host, head, Option.toList_some, List.singleton_append]

theorem View.turns_idle {v : View} (n : Nat)
    (none : turn v.users v.queueISC v.lastChosenUidISC = none)
    (idle : turn v.users v.queue v.lastChosenUid = Option.none) : v.turns (n + 1) = ([], v) := by
  rw [View.turns, none]
  simp only [idle]

theorem View.turns_set (n : Nat) (v : View) (credit : UserID → Nat)
    (requests : List ISCDeferredRequest) :
    { v with credit := credit, deferredISCRequests := requests }.turns n =
      ((v.turns n).1,
        { (v.turns n).2 with credit := credit, deferredISCRequests := requests }) := by
  induction n generalizing v with
  | zero => rfl
  | succ n ih =>
      unfold View.turns
      simp only
      split
      next uid _ =>
        have later := ih { v with queueISC := popFront v.queueISC uid, lastChosenUidISC := uid }
        simp only at later
        rw [later]
      next =>
        split
        next uid _ =>
          have later := ih { v with queue := popFront v.queue uid, lastChosenUid := uid }
          simp only at later
          rw [later]
        next => rfl

theorem View.turns_kept (n : Nat) (v : View) : (v.turns n).2.credit = v.credit ∧
    (v.turns n).2.deferredISCRequests = v.deferredISCRequests := by
  have same : (v.turns n).2 = { (v.turns n).2 with
      credit := v.credit, deferredISCRequests := v.deferredISCRequests } :=
    congrArg Prod.snd (View.turns_set n v v.credit v.deferredISCRequests)
  exact ⟨(congrArg View.credit same :), (congrArg View.deferredISCRequests same :)⟩

theorem View.turns_credit (n : Nat) (v : View) (credit : UserID → Nat) :
    { v with credit := credit }.turns n =
      ((v.turns n).1, { (v.turns n).2 with credit := credit }) := by
  rw [View.turns_set n v credit v.deferredISCRequests]
  dsimp only
  rw [(View.turns_kept n v).2]

theorem View.turns_requests (n : Nat) (v : View) (requests : List ISCDeferredRequest) :
    { v with deferredISCRequests := requests }.turns n =
      ((v.turns n).1, { (v.turns n).2 with deferredISCRequests := requests }) := by
  rw [View.turns_set n v v.credit requests]
  dsimp only
  rw [(View.turns_kept n v).1]

theorem turn_eq_some {users : List UserID} {queues : UserID → List Request}
    {last uid : UserID} (h : turn users queues last = some uid) :
    uid ∈ users ∧ ∃ front rest, queues uid = front :: rest ∧
      ∃ before after, scanOrder last users = before ++ uid :: after ∧
        ∀ other ∈ before, queues other = [] := by
  obtain ⟨found, before, after, order, skipped⟩ := List.find?_eq_some_iff_append.1 h
  have hmem : uid ∈ scanOrder last users := by simp [order]
  refine ⟨(scanOrder_perm last users).mem_iff.1 hmem, ?_⟩
  cases queue : queues uid with
  | nil => simp [queue] at found
  | cons front rest =>
      refine ⟨front, rest, rfl, before, after, order, fun other hother => ?_⟩
      simpa using skipped other hother

theorem turn_eq_none {users : List UserID} {queues : UserID → List Request} {last : UserID}
    (h : turn users queues last = none) : ∀ uid ∈ scanOrder last users, queues uid = [] := by
  intro uid hmem
  simpa using List.find?_eq_none.1 h uid hmem

section Rounds

variable {p : Params} {env : Env} {s : CreditScheduler} {now : Tick}

theorem tryDispatchISC_skip {before : List UserID}
    (skipped : ∀ uid ∈ before, (s.account uid).queueISC = []) (order : List UserID) :
    s.tryDispatchISC now (before ++ order) = s.tryDispatchISC now order := by
  induction before with
  | nil => rfl
  | cons uid before ih =>
      rw [List.cons_append, tryDispatchISC, skipped uid List.mem_cons_self]
      exact ih fun other hmem => skipped other (List.mem_cons_of_mem uid hmem)

theorem tryDispatchHost_skip {before : List UserID}
    (skipped : ∀ uid ∈ before, (s.account uid).queue = []) (order : List UserID) :
    s.tryDispatchHost p env now (before ++ order) = s.tryDispatchHost p env now order := by
  induction before with
  | nil => rfl
  | cons uid before ih =>
      rw [List.cons_append, tryDispatchHost, skipped uid List.mem_cons_self]
      exact ih fun other hmem => skipped other (List.mem_cons_of_mem uid hmem)

theorem queues_modify (s : CreditScheduler) (uid : UserID) {f : UserAccount → UserAccount}
    (field : UserAccount → List Request) (pops : ∀ acc, field (f acc) = (field acc).tail) :
    (fun other => field ((s.modify uid f).account other)) =
      popFront (fun other => field (s.account other)) uid := by
  funext other
  rw [modify_account]
  by_cases h : other = uid
  · rw [if_pos h, h, popFront_self]
    exact pops _
  · rw [if_neg h, popFront_of_ne _ h]

theorem view_popQueue (uid : UserID) :
    (s.modify uid UserAccount.popQueue).view =
      { s.view with queue := popFront s.view.queue uid } := by
  have queue := queues_modify s uid (f := UserAccount.popQueue) (·.queue) fun _ => rfl
  have queueISC := fun other => modify_field s uid other (f := UserAccount.popQueue)
    (·.queueISC) fun _ => rfl
  have credit := fun other => modify_field s uid other (f := UserAccount.popQueue)
    (·.credit) fun _ => rfl
  simp only [view, View.mk.injEq]
  exact ⟨rfl, queue, funext queueISC, funext credit, rfl, rfl, rfl, rfl, rfl⟩

theorem view_popQueueISC (uid : UserID) :
    (s.modify uid UserAccount.popQueueISC).view =
      { s.view with queueISC := popFront s.view.queueISC uid } := by
  have queueISC := queues_modify s uid (f := UserAccount.popQueueISC) (·.queueISC) fun _ => rfl
  have queue := fun other => modify_field s uid other (f := UserAccount.popQueueISC)
    (·.queue) fun _ => rfl
  have credit := fun other => modify_field s uid other (f := UserAccount.popQueueISC)
    (·.credit) fun _ => rfl
  simp only [view, View.mk.injEq]
  exact ⟨rfl, funext queue, queueISC, funext credit, rfl, rfl, rfl, rfl, rfl⟩

def sendHost (p : Params) (uid : UserID) (front : Request) (s : CreditScheduler) :
    CreditScheduler :=
  { ((s.getOrCreateUser p front.userID).charge .hostQueue (.ofOp front.op) front.userID
      front.pages).modify uid UserAccount.popQueue with lastChosenUid := uid }.emit
    (.serve (.request front))

def deferHost (p : Params) (uid : UserID) (front : Request) (now : Tick) (s : CreditScheduler) :
    CreditScheduler :=
  { s.getOrCreateUser p front.userID with
    deferredQueue := (s.getOrCreateUser p front.userID).deferredQueue ++
      ([⟨front, front.pages, now⟩] : List DeferredRequest) }.modify uid UserAccount.popQueue

theorem tryDispatchHost_cons {uid : UserID} {front : Request} {rest : List Request}
    (waiting : (s.account uid).queue = front :: rest) (order : List UserID) :
    s.tryDispatchHost p env now (uid :: order) =
      if front.pages ≤ ((s.getOrCreateUser p front.userID).account front.userID).credit then
        (true, dispatchReentrant p env front now (sendHost p uid front s))
      else tryDispatchHost p env now order (deferHost p uid front now s) := by
  rw [tryDispatchHost, waiting]
  unfold tryDispatchWithCredit
  by_cases held : front.pages ≤
      ((s.getOrCreateUser p front.userID).account front.userID).credit
  · simp only [if_neg (not_lt.2 held), if_pos held]
    rfl
  · simp only [if_pos (not_le.1 held), if_neg held, Bool.false_eq_true, if_false]
    rfl

def sendISC (uid : UserID) (front : Request) (s : CreditScheduler) : CreditScheduler :=
  ({ s.charge .queueISC .isc uid front.pages with lastChosenUidISC := uid }.modify uid
    UserAccount.popQueueISC).emit (.serve (.request front))

def deferISC (uid : UserID) (front : Request) (now : Tick) (s : CreditScheduler) :
    CreditScheduler :=
  { s with
    deferredQueue := s.deferredQueue ++
      ([⟨front, front.pages, now⟩] : List DeferredRequest) }.modify uid UserAccount.popQueueISC

theorem tryDispatchISC_cons {uid : UserID} {front : Request} {rest : List Request}
    (waiting : (s.account uid).queueISC = front :: rest) (order : List UserID) :
    s.tryDispatchISC now (uid :: order) =
      if front.pages ≤ (s.account uid).credit then (true, sendISC uid front s)
      else tryDispatchISC now order (deferISC uid front now s) := by
  rw [tryDispatchISC, waiting]
  rfl

theorem tryDispatchISC_deferredQueue (now : Tick) (order : List UserID)
    (s : CreditScheduler) : s.deferredQueue <+: (s.tryDispatchISC now order).2.deferredQueue := by
  induction order generalizing s with
  | nil => exact List.prefix_rfl
  | cons uid order ih =>
      cases waiting : (s.account uid).queueISC with
      | nil =>
          rw [tryDispatchISC, waiting]
          exact ih s
      | cons front rest =>
          rw [tryDispatchISC_cons waiting]
          split
          · exact List.prefix_rfl
          · exact (List.prefix_append _ _).trans (ih (deferISC uid front now s))

theorem dispatchReentrant_deferredQueue (quiet : env.Quiet) (req : Request) :
    (s.dispatchReentrant p env req now).2.deferredQueue = s.deferredQueue := by
  unfold dispatchReentrant dispatchICL
  split
  · simp only [quiet.icl]
    exact getOrCreateUser_keeps_deferredQueue _ _
  · rfl

theorem tryDispatchHost_deferredQueue (quiet : env.Quiet) (now : Tick) (order : List UserID)
    (s : CreditScheduler) :
    s.deferredQueue <+: (s.tryDispatchHost p env now order).2.2.deferredQueue := by
  induction order generalizing s with
  | nil => exact List.prefix_rfl
  | cons uid order ih =>
      cases waiting : (s.account uid).queue with
      | nil =>
          rw [tryDispatchHost, waiting]
          exact ih s
      | cons front rest =>
          have created := getOrCreateUser_keeps_deferredQueue (p := p) front.userID s
          rw [tryDispatchHost_cons waiting]
          split
          · have sent : (sendHost p uid front s).deferredQueue = s.deferredQueue := created
            rw [dispatchReentrant_deferredQueue quiet, sent]
          · refine List.IsPrefix.trans ?_ (ih (deferHost p uid front now s))
            unfold deferHost
            rw [created]
            exact List.prefix_append _ _

theorem dispatchRounds_deferredQueue (quiet : env.Quiet) (rounds : Nat) (now : Tick)
    (s : CreditScheduler) :
    s.deferredQueue <+: (s.dispatchRounds p env rounds now).2.deferredQueue := by
  induction rounds generalizing s now with
  | zero => exact List.prefix_rfl
  | succ rounds ih =>
      have gates := tryDispatchISC_deferredQueue now (scanOrder s.lastChosenUidISC s.users) s
      unfold dispatchRounds
      simp only
      split
      · exact gates.trans (ih _ _)
      · have hosts := gates.trans (tryDispatchHost_deferredQueue (p := p) quiet now
          (scanOrder (tryDispatchISC now (scanOrder s.lastChosenUidISC s.users) s).2.lastChosenUid
            (tryDispatchISC now (scanOrder s.lastChosenUidISC s.users) s).2.users) _)
        split
        · exact hosts.trans (ih _ _)
        · exact hosts

theorem dispatchRounds_hosts {rounds : Nat}
    (gates : s.tryDispatchISC now (scanOrder s.lastChosenUidISC s.users) = (false, s)) :
    s.dispatchRounds p env (rounds + 1) now =
      let host := s.tryDispatchHost p env now (scanOrder s.lastChosenUid s.users)
      if host.1 then dispatchRounds p env rounds host.2.1 host.2.2 else host.2 := by
  rw [dispatchRounds, gates]
  simp only [Bool.false_eq_true, if_false]

theorem tryDispatchISC_idle (now : Tick) {order : List UserID}
    (skipped : ∀ uid ∈ order, (s.account uid).queueISC = []) :
    s.tryDispatchISC now order = (false, s) := by
  rw [← List.append_nil order, tryDispatchISC_skip skipped]
  rfl

theorem tryDispatchHost_idle (now : Tick) {order : List UserID}
    (skipped : ∀ uid ∈ order, (s.account uid).queue = []) :
    s.tryDispatchHost p env now order = (false, now, s) := by
  rw [← List.append_nil order, tryDispatchHost_skip skipped]
  rfl

theorem tryDispatchISC_turn (now : Tick) {uid : UserID} (h : turn s.users s.view.queueISC
    s.lastChosenUidISC = some uid) :
    ∃ front, (s.view.queueISC uid).head? = some front ∧
      (front.pages ≤ s.view.credit uid →
        (s.tryDispatchISC now (scanOrder s.lastChosenUidISC s.users)).1 = true ∧
        (s.tryDispatchISC now (scanOrder s.lastChosenUidISC s.users)).2.view = { s.view with
          queueISC := popFront s.view.queueISC uid
          lastChosenUidISC := uid
          credit := pay s.view.credit (uid, front.pages) } ∧
        ∃ new, (s.tryDispatchISC now (scanOrder s.lastChosenUidISC s.users)).2.trace =
          new ++ s.trace ∧ .serve (.request front) ∈ new) ∧
      (¬ front.pages ≤ s.view.credit uid →
        (s.tryDispatchISC now (scanOrder s.lastChosenUidISC s.users)).2.deferredQueue ≠ []) := by
  obtain ⟨-, front, rest, waiting, before, after, order, skipped⟩ := turn_eq_some h
  refine ⟨front, by rw [waiting]; rfl, ?_⟩
  rw [order, tryDispatchISC_skip skipped, tryDispatchISC_cons waiting]
  refine ⟨fun (held : front.pages ≤ (s.account uid).credit) => ?_,
    fun (short : ¬ front.pages ≤ (s.account uid).credit) => ?_⟩
  · rw [if_pos held]
    have charged := view_charge (s := s) .queueISC .isc uid held
    refine ⟨rfl, ?_, [_, _], rfl, List.mem_cons_self⟩
    have popped := view_popQueueISC (s := { s.charge .queueISC .isc uid front.pages with
      lastChosenUidISC := uid }) uid
    have chosen : view { s.charge .queueISC .isc uid front.pages with lastChosenUidISC := uid } =
        { (s.charge .queueISC .isc uid front.pages).view with lastChosenUidISC := uid } := rfl
    rw [chosen, charged] at popped
    exact popped
  · rw [if_neg short]
    have kept := tryDispatchISC_deferredQueue now after (deferISC uid front now s)
    exact List.ne_nil_of_mem (kept.subset (List.mem_append_right _ List.mem_cons_self))

theorem getOrCreateUser_trace (uid : UserID) (s : CreditScheduler) :
    (s.getOrCreateUser p uid).trace = s.trace := by
  unfold getOrCreateUser
  split <;> rfl

theorem dispatchReentrant_trace (quiet : env.Quiet) (req : Request) (now : Tick)
    (s : CreditScheduler) :
    s.trace <:+ (s.dispatchReentrant p env req now).2.trace := by
  unfold dispatchReentrant dispatchICL
  split
  · simp only [quiet.icl]
    simp only [modify_trace, getOrCreateUser_trace, emit_trace]
    exact List.suffix_cons _ _
  · exact List.suffix_rfl

theorem tryDispatchHost_turn (quiet : env.Quiet) (now : Tick)
    (owner : ∀ uid, ∀ req ∈ s.view.queue uid, req.userID = uid) {uid : UserID}
    (h : turn s.users s.view.queue s.lastChosenUid = some uid) :
    ∃ front, (s.view.queue uid).head? = some front ∧
      (front.pages ≤ s.view.credit uid →
        (s.tryDispatchHost p env now (scanOrder s.lastChosenUid s.users)).1 = true ∧
        (s.tryDispatchHost p env now (scanOrder s.lastChosenUid s.users)).2.2.view =
          { s.view with
            queue := popFront s.view.queue uid
            lastChosenUid := uid
            credit := pay s.view.credit (uid, front.pages) } ∧
        ∃ new, (s.tryDispatchHost p env now (scanOrder s.lastChosenUid s.users)).2.2.trace =
          new ++ s.trace ∧ .serve (.request front) ∈ new) ∧
      (¬ front.pages ≤ s.view.credit uid →
        (s.tryDispatchHost p env now
          (scanOrder s.lastChosenUid s.users)).2.2.deferredQueue ≠ []) := by
  obtain ⟨known, front, rest, waiting, before, after, order, skipped⟩ := turn_eq_some h
  refine ⟨front, by rw [waiting]; rfl, ?_⟩
  have own : front.userID = uid := owner uid front (by rw [waiting]; exact List.mem_cons_self)
  have found : s.getOrCreateUser p uid = s := getOrCreateUser_of_mem known
  rw [order, tryDispatchHost_skip skipped, tryDispatchHost_cons waiting, own, found]
  refine ⟨fun (held : front.pages ≤ (s.account uid).credit) => ?_,
    fun (short : ¬ front.pages ≤ (s.account uid).credit) => ?_⟩
  · rw [if_pos held]
    have sent : sendHost p uid front s = { (s.charge .hostQueue (.ofOp front.op) uid
        front.pages).modify uid UserAccount.popQueue with lastChosenUid := uid }.emit
          (.serve (.request front)) := by
      unfold sendHost
      rw [own, found]
    have view : (sendHost p uid front s).view = { s.view with
        queue := popFront s.view.queue uid
        lastChosenUid := uid
        credit := pay s.view.credit (uid, front.pages) } := by
      have popped := view_popQueue (s := s.charge .hostQueue (.ofOp front.op) uid front.pages) uid
      rw [view_charge _ _ _ held] at popped
      rw [sent]
      exact congrArg (fun v : View => { v with lastChosenUid := uid }) popped
    have user : front.userID ∈ (sendHost p uid front s).users := by
      rw [sent, own]
      exact known
    obtain ⟨answer, later⟩ := dispatchReentrant_trace (p := p) quiet front now
      (sendHost p uid front s)
    refine ⟨rfl, (view_dispatchReentrant quiet user now).trans view,
      answer ++ [.serve (.request front), .charge .hostQueue uid (s.account uid).credit
        front.pages (sub64 (s.account uid).credit front.pages)], ?_, by simp⟩
    rw [← later, sent, List.append_assoc]
    rfl
  · rw [if_neg short]
    have kept := tryDispatchHost_deferredQueue (p := p) quiet now after
      (deferHost p uid front now s)
    have deferred : (⟨front, front.pages, now⟩ : DeferredRequest) ∈
        (deferHost p uid front now s).deferredQueue :=
      List.mem_append_right _ List.mem_cons_self
    exact List.ne_nil_of_mem (kept.subset deferred)

def Request.debt (req : Request) : UserID × Nat := (req.userID, req.pages)

/-- What `t` has made of `s`: it has served the given requests and left the given view if
all of them can be paid, and has deferred one otherwise. -/
structure Serves (s t : CreditScheduler) (turns : List Request × View) : Prop where
  view : Affordable (turns.1.map Request.debt) s.view.credit →
    t.view = { turns.2 with credit := payAll s.view.credit (turns.1.map Request.debt) }
  trace : Affordable (turns.1.map Request.debt) s.view.credit →
    ∃ new, t.trace = new ++ s.trace ∧ ∀ req ∈ turns.1, .serve (.request req) ∈ new
  affordable : t.deferredQueue = [] → Affordable (turns.1.map Request.debt) s.view.credit

theorem Serves.cons {s' t : CreditScheduler} {v : View} {front : Request} {rounds : Nat}
    (view : s'.view = { v with credit := pay s.view.credit (Request.debt front) })
    (held : front.pages ≤ s.view.credit front.userID)
    (traced : ∃ new, s'.trace = new ++ s.trace ∧ .serve (.request front) ∈ new)
    (later : Serves s' t (s'.view.turns rounds)) :
    Serves s t (front :: (v.turns rounds).1, (v.turns rounds).2) := by
  rw [view, View.turns_credit] at later
  have credit : s'.view.credit = pay s.view.credit (Request.debt front) :=
    congrArg View.credit view
  refine ⟨fun all => ?_, fun all => ?_, fun empty => ?_⟩
  · have rest := ((affordable_cons _ _ _).1 all).2
    rw [← credit] at rest
    refine (later.view rest).trans ?_
    rw [credit]
    rfl
  · have rest := ((affordable_cons _ _ _).1 all).2
    rw [← credit] at rest
    obtain ⟨new, trace, served⟩ := later.trace rest
    obtain ⟨first, before, here⟩ := traced
    refine ⟨new ++ first, by rw [trace, before, List.append_assoc], fun req hmem => ?_⟩
    rcases List.mem_cons.1 hmem with rfl | old
    · exact List.mem_append_right _ here
    · exact List.mem_append_left _ (served req old)
  · have rest := later.affordable empty
    rw [credit] at rest
    exact (affordable_cons _ _ _).2 ⟨held, rest⟩

theorem Serves.short {t : CreditScheduler} {v : View} {front : Request} {later : List Request}
    (short : ¬ front.pages ≤ s.view.credit front.userID) (deferred : t.deferredQueue ≠ []) :
    Serves s t (front :: later, v) where
  view all := absurd ((affordable_cons _ _ _).1 all).1 short
  trace all := absurd ((affordable_cons _ _ _).1 all).1 short
  affordable empty := absurd empty deferred

def View.Owned (v : View) : Prop :=
  ∀ uid, ∀ req ∈ v.queue uid ++ v.queueISC uid, req.userID = uid

theorem popFront_subset (queues : UserID → List Request) (uid other : UserID) :
    popFront queues uid other ⊆ queues other := by
  by_cases h : other = uid
  · rw [h, popFront_self]
    exact List.tail_subset _
  · rw [popFront_of_ne _ h]
    exact List.Subset.refl _

theorem View.Owned.of_subset {v w : View} (owned : v.Owned)
    (queue : ∀ uid, w.queue uid ⊆ v.queue uid)
    (queueISC : ∀ uid, w.queueISC uid ⊆ v.queueISC uid) : w.Owned := by
  intro uid req hmem
  refine owned uid req ?_
  rcases List.mem_append.1 hmem with host | gate
  · exact List.mem_append_left _ (queue uid host)
  · exact List.mem_append_right _ (queueISC uid gate)

theorem dispatchRounds_serves (quiet : env.Quiet) (rounds : Nat) (now : Tick)
    (s : CreditScheduler) (owned : s.view.Owned) :
    Serves s (s.dispatchRounds p env rounds now).2 (s.view.turns rounds) := by
  induction rounds generalizing s now with
  | zero =>
      exact ⟨fun _ => rfl, fun _ => ⟨[], rfl, fun req hmem => absurd hmem List.not_mem_nil⟩,
        fun _ => affordable_nil _⟩
  | succ rounds ih =>
      cases gate : turn s.users s.view.queueISC s.lastChosenUidISC with
      | some uid =>
          obtain ⟨front, head, served, deferred⟩ := tryDispatchISC_turn now gate
          obtain rfl : front.userID = uid :=
            owned uid front (List.mem_append_right _ (List.mem_of_head? head))
          rw [View.turns_gate rounds gate head]
          unfold dispatchRounds
          by_cases held : front.pages ≤ s.view.credit front.userID
          · obtain ⟨dispatched, view, traced⟩ := served held
            simp only [dispatched, if_true]
            refine .cons view held traced (ih now _ ?_)
            rw [view]
            exact owned.of_subset (fun _ => List.Subset.refl _) (popFront_subset _ _)
          · refine .short held fun empty => deferred held ?_
            simp only at empty
            split at empty
            · exact List.prefix_nil.1 (empty ▸ dispatchRounds_deferredQueue quiet rounds now _)
            · have hosts := tryDispatchHost_deferredQueue (p := p) quiet now
                (scanOrder (tryDispatchISC now (scanOrder s.lastChosenUidISC s.users)
                  s).2.lastChosenUid (tryDispatchISC now (scanOrder s.lastChosenUidISC
                    s.users) s).2.users)
                (tryDispatchISC now (scanOrder s.lastChosenUidISC s.users) s).2
              split at empty
              · exact List.prefix_nil.1 (empty ▸ hosts.trans
                  (dispatchRounds_deferredQueue quiet rounds _ _))
              · exact List.prefix_nil.1 (empty ▸ hosts)
      | none =>
          have gates := tryDispatchISC_idle now (turn_eq_none gate)
          rw [dispatchRounds_hosts gates]
          simp only
          cases host : turn s.users s.view.queue s.lastChosenUid with
          | some uid =>
              obtain ⟨front, head, served, deferred⟩ := tryDispatchHost_turn (p := p)
                quiet now (fun uid req hmem => owned uid req
                  (List.mem_append_left _ hmem)) host
              obtain rfl : front.userID = uid :=
                owned uid front (List.mem_append_left _ (List.mem_of_head? head))
              rw [View.turns_host rounds gate host head]
              by_cases held : front.pages ≤ s.view.credit front.userID
              · obtain ⟨dispatched, view, traced⟩ := served held
                simp only [dispatched, if_true]
                refine .cons view held traced (ih _ _ ?_)
                rw [view]
                exact owned.of_subset (popFront_subset _ _) fun _ => List.Subset.refl _
              · refine .short held fun empty => deferred held ?_
                split at empty
                · exact List.prefix_nil.1 (empty ▸ dispatchRounds_deferredQueue quiet rounds _ _)
                · exact empty
          | none =>
              rw [View.turns_idle rounds gate host,
                tryDispatchHost_idle now (turn_eq_none host)]
              exact ⟨fun _ => rfl, fun _ => ⟨[], rfl, fun req hmem => absurd hmem
                List.not_mem_nil⟩, fun _ => affordable_nil _⟩

end Rounds

/-! ## All passes -/

section Passes

variable {p : Params} {env : Env} {s : CreditScheduler}

def View.deferredDebts (v : View) : List (UserID × Nat) :=
  v.deferredQueue.map DeferredRequest.debt ++ v.deferredISC.map DeferredCustom.debt

def View.queued (p : Params) (v : View) : View :=
  { v with
    users := (v.deferredISCRequests.map ISCDeferredRequest.uid).foldl (addUser p)
      ((v.deferredISC.map DeferredCustom.uid).foldl (addUser p) v.users)
    credit := settle (payAll v.credit v.deferredDebts)
      (v.deferredISCRequests.map ISCDeferredRequest.debt)
    deferredQueue := []
    deferredISC := []
    deferredISCRequests := [] }

/-- The requests the round robin serves in one tick, and what it leaves. -/
def View.served (p : Params) (v : View) : List Request × View :=
  (v.queued p).turns maxDispatchPerTick

/-- Nothing that the passes of a tick come to is short of credit. -/
def View.Pays (p : Params) (v : View) : Prop :=
  Affordable v.deferredDebts v.credit ∧
    Affordable ((v.served p).1.map Request.debt) (v.queued p).credit

theorem Env.Quiet.actsOn (quiet : env.Quiet) : env.ActsOn p where
  icl req now s := by
    rw [quiet.icl]
  resume dc now s := by
    rw [quiet.resume]
  iscCallback ctx now s := by
    rw [quiet.iscCallback]

theorem Proper.acts {t : CreditScheduler} (acts : Acts p s t) (proper : Proper s) : Proper t := by
  have kept : ∀ t t', Act p t t' → Proper t → Proper t' := fun _ _ => Proper.act
  exact invariant_of_steps kept acts proper

theorem Act.trace {s t : CreditScheduler} (act : Act p s t) : s.trace <:+ t.trace := by
  cases act with
  | create uid => exact (getOrCreateUser_trace uid s).symm ▸ List.suffix_rfl
  | activate uid getTick known =>
      unfold CreditScheduler.activate
      split
      · exact List.suffix_rfl
      · simp only
        split
        · exact List.suffix_rfl
        · exact List.suffix_cons _ _
  | charge | emit | resume | phase => exact List.suffix_cons _ _
  | _ => exact List.suffix_rfl

theorem Acts.trace {s t : CreditScheduler} (acts : Acts p s t) : s.trace <:+ t.trace := by
  induction acts with
  | refl => exact List.suffix_rfl
  | tail _ act ih => exact ih.trans act.trace

theorem View.turns_keeps (n : Nat) (v : View) :
    (v.turns n).2.deferredQueue = v.deferredQueue ∧
      (v.turns n).2.deferredISC = v.deferredISC := by
  induction n generalizing v with
  | zero => exact ⟨rfl, rfl⟩
  | succ n ih =>
      unfold View.turns
      simp only
      split
      · exact ih _
      · split
        · exact ih _
        · exact ⟨rfl, rfl⟩

/-- After the passes no entry is deferred exactly when all they come to can be paid;
then the round robin has taken its turns. -/
theorem serviceQueues_pays (quiet : env.Quiet) (proper : Proper s) (now : Tick) :
    (s.view.Pays p ↔ (s.serviceQueues p env now).2.deferredQueue = [] ∧
      (s.serviceQueues p env now).2.deferredISC = []) ∧
    (s.view.Pays p →
      (s.serviceQueues p env now).2.view.queue = (s.view.served p).2.queue ∧
      (s.serviceQueues p env now).2.view.queueISC = (s.view.served p).2.queueISC ∧
      ∃ new, (s.serviceQueues p env now).2.trace = new ++ s.trace ∧
        ∀ req ∈ (s.view.served p).1, .serve (.request req) ∈ new) := by
  have actsOn : env.ActsOn p := quiet.actsOn
  unfold serviceQueues
  set deferred := s.drainDeferred p env s.deferredQueue.length now with hdeferred
  set custom := drainDeferredISC p env deferred.1 deferred.2.deferredISC.length deferred.2
    with hcustom
  set gates := processISCRequests p env deferred.1 custom with hgates
  set rounds := (dispatchRounds p env maxDispatchPerTick deferred.1 gates).2 with hrounds
  have deferredActs : Acts p s deferred.2 := drainDeferred_acts actsOn _ _ _
  have customActs : Acts p deferred.2 custom := drainDeferredISC_acts actsOn _ _ _
  have gatesActs : Acts p custom gates := processISCLoop_acts actsOn _ _ _ _
  have properDeferred := proper.acts deferredActs
  have properCustom := properDeferred.acts customActs
  have properGates := properCustom.acts gatesActs
  obtain ⟨paysDeferred, emptyDeferred⟩ := drainDeferred_view (p := p) (s := s) quiet
    [] (List.append_nil _).symm (fun dr hmem => (proper.deferred dr hmem).2) now
  obtain ⟨paysCustom, emptyCustom, queueCustom⟩ := drainDeferredISC_view (p := p)
    (s := deferred.2) quiet [] (List.append_nil _).symm properDeferred.blank deferred.1
  obtain ⟨left, viewGates⟩ := processISCLoop_view (p := p) (s := custom) quiet rfl
    properCustom.blank deferred.1 env.fuel []
  have serves := dispatchRounds_serves (p := p) quiet maxDispatchPerTick deferred.1 gates
    properGates.owner
  have viewGates : gates.view = { custom.view with
      users := (custom.deferredISCRequests.map ISCDeferredRequest.uid).foldl (addUser p)
        custom.users
      credit := settle custom.view.credit
        (custom.deferredISCRequests.map ISCDeferredRequest.debt)
      deferredISCRequests := left } := viewGates
  -- with the deferred debts paid the round robin starts from `queued`
  have start : Affordable (s.deferredQueue.map DeferredRequest.debt) s.view.credit →
      Affordable (deferred.2.deferredISC.map DeferredCustom.debt) deferred.2.view.credit →
      Affordable s.view.deferredDebts s.view.credit ∧
        gates.view = { s.view.queued p with deferredISCRequests := left } := by
    intro first second
    have view := paysDeferred first
    have same : deferred.2.deferredISC = s.deferredISC := congrArg View.deferredISC view
    have viewCustom := paysCustom second
    have credit : deferred.2.view.credit = payAll s.view.credit
        (s.deferredQueue.map DeferredRequest.debt) := congrArg View.credit view
    rw [same, credit] at second
    refine ⟨(affordable_append _ _ _).2 ⟨first, second⟩, ?_⟩
    have paid : payAll s.view.credit s.view.deferredDebts = payAll (payAll s.view.credit
        (s.deferredQueue.map DeferredRequest.debt))
          (s.deferredISC.map DeferredCustom.debt) := List.foldl_append
    have users : custom.users = (s.deferredISC.map DeferredCustom.uid).foldl (addUser p)
        s.users := by
      refine (congrArg View.users viewCustom).trans ?_
      change (deferred.2.deferredISC.map DeferredCustom.uid).foldl (addUser p)
        deferred.2.users = _
      rw [same, show deferred.2.users = s.users from congrArg View.users view]
    have requests : custom.deferredISCRequests = s.deferredISCRequests :=
      (congrArg View.deferredISCRequests viewCustom).trans
        (congrArg View.deferredISCRequests view)
    rw [viewGates, users, requests, viewCustom, view, same]
    unfold View.queued
    rw [paid]
    rfl
  have roundsPay : gates.view = { s.view.queued p with deferredISCRequests := left } →
      (Affordable ((gates.view.turns maxDispatchPerTick).1.map Request.debt) gates.view.credit ↔
        Affordable ((s.view.served p).1.map Request.debt) (s.view.queued p).credit) := by
    intro view
    rw [view, View.turns_requests]
    exact Iff.rfl
  have pays : s.view.Pays p → gates.view = { s.view.queued p with deferredISCRequests := left } ∧
      Affordable ((gates.view.turns maxDispatchPerTick).1.map Request.debt)
        gates.view.credit := by
    rintro ⟨debts, turns⟩
    obtain ⟨first, second⟩ := (affordable_append _ _ _).1 debts
    have view := paysDeferred first
    have same : deferred.2.deferredISC = s.deferredISC := congrArg View.deferredISC view
    have credit : deferred.2.view.credit = payAll s.view.credit
        (s.deferredQueue.map DeferredRequest.debt) := congrArg View.credit view
    have viewQueued := (start first (by rw [same, credit]; exact second)).2
    exact ⟨viewQueued, (roundsPay viewQueued).2 turns⟩
  refine ⟨⟨fun all => ?_, fun ⟨emptyQueue, emptyISC⟩ => ?_⟩, fun all => ?_⟩
  · obtain ⟨viewQueued, turns⟩ := pays all
    have view := serves.view turns
    rw [viewQueued, View.turns_requests] at view
    obtain ⟨queue, isc⟩ := View.turns_keeps maxDispatchPerTick (s.view.queued p)
    exact ⟨(congrArg View.deferredQueue view).trans queue,
      (congrArg View.deferredISC view).trans isc⟩
  · have turns := serves.affordable emptyQueue
    have view := serves.view turns
    obtain ⟨queue, isc⟩ := View.turns_keeps maxDispatchPerTick gates.view
    have gatesQueue : gates.deferredQueue = [] :=
      (queue.symm.trans (congrArg View.deferredQueue view).symm).trans emptyQueue
    have gatesISC : gates.deferredISC = [] :=
      (isc.symm.trans (congrArg View.deferredISC view).symm).trans emptyISC
    have customISC : custom.deferredISC = [] :=
      (congrArg View.deferredISC viewGates).symm.trans gatesISC
    have customQueue : custom.deferredQueue = [] :=
      (congrArg View.deferredQueue viewGates).symm.trans gatesQueue
    have first := (emptyDeferred (queueCustom.symm.trans customQueue)).2
    obtain ⟨debts, viewQueued⟩ := start first (emptyCustom customISC).2
    exact ⟨debts, (roundsPay viewQueued).1 turns⟩
  · obtain ⟨viewQueued, turns⟩ := pays all
    have view := serves.view turns
    obtain ⟨new, trace, served⟩ := serves.trace turns
    rw [viewQueued, View.turns_requests] at view served
    obtain ⟨earlier, before⟩ := Acts.trace ((deferredActs.trans customActs).trans gatesActs)
    refine ⟨(congrArg View.queue view :), (congrArg View.queueISC view :), new ++ earlier, ?_,
      fun req hmem => List.mem_append_left _ (served req hmem)⟩
    rw [trace, ← before, List.append_assoc]

end Passes

end SimpleSSD.HIL.CreditScheduler
