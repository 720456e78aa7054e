import SimpleSSD.HIL.Scheduler.Calls
import SimpleSSD.HIL.Scheduler.Holdings

/-!
# Moves of one item

What a public call does, cut into moves that each handle one item as a whole: hand it
in, defer it, put it back, or charge and serve it.  A move acts on the scheduler and on
the local queues of the `processISCRequests` calls that have not returned, the latest
of them last.  What every move keeps is kept between any two calls, however they nest.
-/

namespace SimpleSSD.HIL.CreditScheduler

open SimpleSSD.Foundation Relation

/-- What the public calls of a run may do: which items they may hand in, how many pages
`useCredit` may take, from which states the statistics may be reset, at which ticks and
with which last window the window may be looked at, and whether a drain loop may find its
queue empty. -/
structure Guard where
  submit : Item → Prop
  direct : Nat → Prop
  reset : CreditScheduler → Prop
  window : Tick → Option Tick → Prop
  fault : Prop

def Guard.none : Guard where
  submit _ := True
  direct _ := True
  reset _ := True
  window _ _ := True
  fault := True

def UserAccount.measureHost (pages : Nat) (acc : UserAccount) : UserAccount :=
  { acc with
    winHostPages := acc.winHostPages + pages
    winHostIOs := acc.winHostIOs + 1 }

/-- One item enters the scheduler; `execute` is the in-storage request that is paid at
once. -/
inductive Submission : Item → CreditScheduler → CreditScheduler → Prop
  | receive {s} (req : Request) (admin : req.userID = 0) :
      Submission (.request req) s { s with adminQueue := s.adminQueue ++ [req] }
  | enqueue {s} (req : Request) (user : req.userID ≠ 0) (known : req.userID ∈ s.users) :
      Submission (.request req) s (s.modify req.userID (enqueue req))
  | postpone {s} (dc : DeferredCustom) :
      Submission (.custom dc) s { s with deferredISC := s.deferredISC ++ [dc] }
  | wait {s} (req : ISCDeferredRequest) :
      Submission req.item s { s with deferredISCRequests := s.deferredISCRequests ++ [req] }
  | execute {s} (uid : UserID) (pages ctx : Nat) (known : uid ∈ s.users)
      (held : pages ≤ (s.account uid).credit) :
      Submission (.isc uid pages ctx) s
        ((s.charge .submitISCRequest .isc uid pages).emit (.serve (.isc uid pages ctx)))

/-- What the scheduler does with the items it has; the list is the queue of requests
that the running `processISCRequests` calls hold. -/
inductive Work (p : Params) (guard : Guard) :
    List ISCDeferredRequest × CreditScheduler → List ISCDeferredRequest × CreditScheduler → Prop
  | create {hand s} (uid : UserID) : Work p guard (hand, s) (hand, s.getOrCreateUser p uid)
  | activate {hand s} (uid : UserID) (getTick : Tick) (known : uid ∈ s.users) :
      Work p guard (hand, s) (hand, s.activate p getTick uid)
  | window {hand s} (now : Tick) (may : guard.window now s.lastStatTick) :
      Work p guard (hand, s) (hand, s.iopsWindow p now)
  | check {hand s} (now : Tick) : Work p guard (hand, s) (hand, s.emit (.refillCheck now))
  | phase {hand s} : Work p guard (hand, s) (hand, s.refillPhase p)
  | answer {hand s} (req : Request) (beginAt finishedAt : Tick) :
      Work p guard (hand, s) (hand, s.emit (.icl req beginAt finishedAt))
  | measure {hand s} (req : Request) :
      Work p guard (hand, s) (hand, s.modify req.userID (UserAccount.measureHost req.pages))
  | mark {hand s} (inTick : Bool) (event : Option Tick) :
      Work p guard (hand, s) (hand, { s with inTick := inTick, refillEvent := event })
  | fail {hand s} (may : guard.fault) : Work p guard (hand, s) (hand, { s with fault := true })
  | serveAdmin {hand s} (req : Request) (rest : List Request)
      (head : s.adminQueue = req :: rest) :
      Work p guard (hand, s) (hand, { s with adminQueue := rest }.emit (.serve (.request req)))
  | dispatch {hand s} (dr : DeferredRequest) (rest : List DeferredRequest)
      (head : s.deferredQueue = dr :: rest) (known : dr.req.userID ∈ s.users)
      (held : dr.pages ≤ (s.account dr.req.userID).credit) :
      Work p guard (hand, s) (hand, ({ s with deferredQueue := rest }.charge .deferredQueue
        (.ofOp dr.req.op) dr.req.userID dr.pages).emit (.serve (.request dr.req)))
  | requeue {hand s} (dr : DeferredRequest) (rest : List DeferredRequest)
      (head : s.deferredQueue = dr :: rest) :
      Work p guard (hand, s) (hand, { s with deferredQueue := rest ++ [dr] })
  | resume {hand s} (dc : DeferredCustom) (rest : List DeferredCustom)
      (head : s.deferredISC = dc :: rest) (known : dc.uid ∈ s.users)
      (held : dc.pages ≤ (s.account dc.uid).credit) :
      Work p guard (hand, s) (hand, ({ s with deferredISC := rest }.charge .deferredISC .isc
        dc.uid dc.pages).emit (.serve (.custom dc)))
  | requeueISC {hand s} (dc : DeferredCustom) (rest : List DeferredCustom)
      (head : s.deferredISC = dc :: rest) :
      Work p guard (hand, s) (hand, { s with deferredISC := rest ++ [dc] })
  | take {hand s} (req : ISCDeferredRequest) (rest : List ISCDeferredRequest)
      (head : s.deferredISCRequests = req :: rest) :
      Work p guard (hand, s) (hand ++ [req], { s with deferredISCRequests := rest })
  | process {hand s} (req : ISCDeferredRequest) (rest : List ISCDeferredRequest)
      (head : s.deferredISCRequests = req :: rest) (known : req.uid ∈ s.users)
      (held : req.pagesNeeded ≤ (s.account req.uid).credit) :
      Work p guard (hand, s) (hand, ({ s with deferredISCRequests := rest }.charge
        .processISCRequests .isc req.uid req.pagesNeeded).emit (.serve req.item))
  | putBack {hand s} (remaining : List ISCDeferredRequest) :
      Work p guard (hand ++ remaining, s)
        (hand, { s with deferredISCRequests := s.deferredISCRequests ++ remaining })
  | gate {hand s} (uid : UserID) (front : Request) (rest : List Request)
      (head : (s.account uid).queueISC = front :: rest) (known : uid ∈ s.users)
      (held : front.pages ≤ (s.account uid).credit) :
      Work p guard (hand, s) (hand, ({ s.charge .queueISC .isc uid front.pages with
        lastChosenUidISC := uid }.modify uid UserAccount.popQueueISC).emit
        (.serve (.request front)))
  | deferISC {hand s} (uid : UserID) (front : Request) (rest : List Request) (now : Tick)
      (head : (s.account uid).queueISC = front :: rest) :
      Work p guard (hand, s) (hand, { s with deferredQueue := s.deferredQueue ++
        [(⟨front, front.pages, now⟩ : DeferredRequest)] }.modify uid UserAccount.popQueueISC)
  | host {hand s} (uid : UserID) (front : Request) (rest : List Request)
      (head : (s.account uid).queue = front :: rest)
      (held : front.pages ≤ ((s.getOrCreateUser p front.userID).account front.userID).credit) :
      Work p guard (hand, s) (hand, { ((s.getOrCreateUser p front.userID).charge .hostQueue
        (.ofOp front.op) front.userID front.pages).modify uid UserAccount.popQueue with
        lastChosenUid := uid }.emit (.serve (.request front)))
  | deferHost {hand s} (uid : UserID) (front : Request) (rest : List Request) (now : Tick)
      (head : (s.account uid).queue = front :: rest) :
      Work p guard (hand, s) (hand, { s.getOrCreateUser p front.userID with
        deferredQueue := (s.getOrCreateUser p front.userID).deferredQueue ++
          [(⟨front, front.pages, now⟩ : DeferredRequest)] }.modify uid UserAccount.popQueue)

inductive Move (p : Params) (guard : Guard) :
    List ISCDeferredRequest × CreditScheduler → List ISCDeferredRequest × CreditScheduler → Prop
  | submit {hand s t} (item : Item) (may : guard.submit item) (entered : Submission item s t) :
      Move p guard (hand, s) (hand, t)
  | work {before after} (step : Work p guard before after) : Move p guard before after
  | direct {hand s} (site : ChargeSite) (cls : ChargeClass) (uid : UserID) (pages : Nat)
      (known : uid ∈ s.users) (held : pages ≤ (s.account uid).credit)
      (may : cls = .isc ∨ guard.direct pages) :
      Move p guard (hand, s) (hand, s.charge site cls uid pages)
  | resetStat {hand s} (getTick : Tick) (may : guard.reset s) :
      Move p guard (hand, s) (hand, s.resetStatValues getTick)

abbrev Moves (p : Params) (guard : Guard) := ReflTransGen (Move p guard)

/-- From `s` to `t` by moves that leave what is held below them alone. -/
def Carries (p : Params) (guard : Guard) (s t : CreditScheduler) : Prop :=
  ∀ hand, Moves p guard (hand, s) (hand, t)

section Carries

variable {p : Params} {guard : Guard} {s t u : CreditScheduler}

theorem Carries.refl (s : CreditScheduler) : Carries p guard s s := fun _ => .refl

theorem Carries.trans (first : Carries p guard s t) (later : Carries p guard t u) :
    Carries p guard s u :=
  fun hand => (first hand).trans (later hand)

theorem Carries.work (step : ∀ hand, Work p guard (hand, s) (hand, t)) :
    Carries p guard s t :=
  fun hand => .single (.work (step hand))

theorem Carries.then (earlier : Carries p guard s t)
    (step : ∀ hand, Work p guard (hand, t) (hand, u)) : Carries p guard s u :=
  earlier.trans (.work step)

end Carries

structure Env.MovesBy (env : Env) (p : Params) (guard : Guard) : Prop where
  icl : ∀ req now s, Carries p guard s (env.icl req now s).2
  resume : ∀ dc now s, Carries p guard s (env.resume dc now s)
  iscCallback : ∀ ctx now s, Carries p guard s (env.iscCallback ctx now s)

def Guard.Ticks (guard : Guard) (p : Params) (env : Env) (now : Tick) (s : CreditScheduler) :
    Prop :=
  s.inTick = false → guard.window now s.lastStatTick ∧ (guard.fault ∨ s.TickKept p env now)

theorem Guard.ticks_of_free {guard : Guard} (window : ∀ now last, guard.window now last)
    (fault : guard.fault) (p : Params) (env : Env) (op : Op) (s : CreditScheduler) :
    op.EachTick p env (guard.Ticks p env) s :=
  .of_forall p env (fun now u _ => ⟨window now u.lastStatTick, .inl fault⟩) op s

def Guard.Allows (guard : Guard) (p : Params) (env : Env) (op : Op) (s : CreditScheduler) :
    Prop :=
  op.EachTick p env (guard.Ticks p env) s ∧
    match op with
    | .submitRequest _ req => guard.submit (.request req)
    | .submitISCDeferred getTick uid pages ctx cb =>
        guard.submit (.custom ⟨uid, pages, getTick, ctx, cb⟩)
    | .submitISCRequest _ uid pages (some ctx) => guard.submit (.isc uid pages ctx)
    | .processUntil _ req _ => guard.submit (.request req)
    | .useCredit uid used =>
        guard.direct (min ((s.getOrCreateUser p uid).account uid).credit used)
    | .resetStatValues _ => guard.reset s
    | _ => True

/-! ## Functions -/

section Functions

variable {p : Params} {env : Env} {guard : Guard}

theorem activate_carries (getTick : Tick) (uid : UserID) (s : CreditScheduler)
    (known : uid ∈ s.users) : Carries p guard s (s.activate p getTick uid) :=
  .work fun _ => .activate uid getTick known

theorem getOrCreateUser_carries (uid : UserID) (s : CreditScheduler) :
    Carries p guard s (s.getOrCreateUser p uid) :=
  .work fun _ => .create uid

theorem submitRequest_carries (getTick : Tick) (req : Request) (s : CreditScheduler)
    (may : guard.submit (.request req)) :
    Carries p guard s (s.submitRequest p getTick req) := by
  unfold submitRequest
  split
  next admin => exact fun _ => .single (.submit _ may (.receive req admin))
  next user =>
    have known := mem_getOrCreateUser p req.userID s
    have entered : Carries p guard (s.getOrCreateUser p req.userID)
        ((s.getOrCreateUser p req.userID).modify req.userID (enqueue req)) :=
      fun _ => .single (.submit _ may (.enqueue req user known))
    exact ((getOrCreateUser_carries req.userID s).trans entered).trans
      (activate_carries getTick req.userID _ known)

theorem ensureActiveUser_carries (getTick : Tick) (uid : UserID) (s : CreditScheduler) :
    Carries p guard s (s.ensureActiveUser p getTick uid) :=
  (getOrCreateUser_carries uid s).trans
    (activate_carries getTick uid _ (mem_getOrCreateUser p uid s))

theorem submitISCRequest_carries (moves : env.MovesBy p guard) (getTick : Tick) (uid : UserID)
    (pages ctx : Nat) (s : CreditScheduler) (may : guard.submit (.isc uid pages ctx)) :
    Carries p guard s (s.submitISCRequest p env getTick uid pages (some ctx)).2 := by
  have ready : Carries p guard s (s.ensureActiveUser p getTick uid) :=
    ensureActiveUser_carries getTick uid s
  have known := mem_ensureActiveUser (p := p) (s := s) getTick uid
  unfold submitISCRequest
  simp only
  split
  next held =>
    refine (ready.trans fun _ => ?_).trans (moves.iscCallback _ _ _)
    exact .single (.submit _ may (.execute uid pages ctx known held))
  next =>
    refine ready.trans fun _ => .single (.submit _ ?_ (.wait _))
    exact may

theorem dispatchICL_carries (moves : env.MovesBy p guard) (req : Request) (now : Tick)
    (s : CreditScheduler) : Carries p guard s (s.dispatchICL p env req now).2 := by
  unfold dispatchICL
  split
  · have answered := (moves.icl req now s).then fun _ => .answer req now (env.icl req now s).1
    exact (answered.then fun _ => .create req.userID).then fun _ => .measure req
  · exact .refl s

theorem mark_carries (inTick : Bool) (s : CreditScheduler) :
    Carries p guard s { s with inTick := inTick } :=
  .work fun _ => .mark inTick s.refillEvent

theorem dispatchReentrant_carries (moves : env.MovesBy p guard) (req : Request) (now : Tick)
    (s : CreditScheduler) : Carries p guard s (s.dispatchReentrant p env req now).2 :=
  ((mark_carries false s).trans (dispatchICL_carries moves req now _)).trans
    (mark_carries true _)

theorem resumeReentrant_carries (moves : env.MovesBy p guard) (dc : DeferredCustom)
    (now : Tick) (s : CreditScheduler) : Carries p guard s (s.resumeReentrant env dc now) := by
  unfold resumeReentrant
  split
  · exact ((mark_carries false s).trans (moves.resume dc now _)).trans (mark_carries true _)
  · exact .refl s

theorem drainAdmin_carries (moves : env.MovesBy p guard) (fuel : Nat) (now : Tick)
    (s : CreditScheduler) : Carries p guard s (s.drainAdmin p env fuel now).2 := by
  induction fuel generalizing now s with
  | zero => exact .refl s
  | succ fuel ih =>
      unfold drainAdmin
      split
      · exact .refl s
      next req rest head =>
        refine Carries.trans ?_ (ih _ _)
        refine Carries.trans ?_ (dispatchICL_carries moves _ _ _)
        exact .work fun _ => .serveAdmin req rest head

theorem drainDeferred_carries (moves : env.MovesBy p guard) (n : Nat) (now : Tick)
    (s : CreditScheduler)
    (kept : guard.fault ∨ (0 < n → s.deferredQueue ≠ []) ∧ DeferredKept p env n now s) :
    Carries p guard s (s.drainDeferred p env n now).2 := by
  induction n generalizing now s with
  | zero => exact .refl s
  | succ n ih =>
      unfold DeferredKept deferredReturns at kept
      unfold drainDeferred
      split
      next head =>
          refine .work fun _ => .fail ?_
          exact kept.resolve_right fun some => some.1 (Nat.succ_pos n) head
      next dr rest head =>
          simp only [head] at kept
          simp only
          have found : Carries p guard s (s.getOrCreateUser p dr.req.userID) :=
            getOrCreateUser_carries _ s
          have waiting : (s.getOrCreateUser p dr.req.userID).deferredQueue = dr :: rest := by
            rw [getOrCreateUser_keeps_deferredQueue, head]
          rw [getOrCreateUser_deferredQueue] at kept ⊢
          split at kept
          next held =>
            rw [if_pos held]
            have known := mem_getOrCreateUser p dr.req.userID s
            have served := found.then fun _ => .dispatch dr rest waiting known held
            refine (served.trans (dispatchReentrant_carries moves _ _ _)).trans (ih _ _ ?_)
            refine kept.imp_right fun some => ?_
            have all := List.forall_mem_cons.1 some.2
            exact ⟨all.1, all.2⟩
          next poor =>
            rw [if_neg poor]
            refine (found.then fun _ => .requeue dr rest waiting).trans (ih _ _ ?_)
            exact kept.imp_right fun some => ⟨fun _ => List.concat_ne_nil _ _, some.2⟩

theorem getOrCreateUser_deferredISC (uid : UserID) (s : CreditScheduler)
    (queue : List DeferredCustom) :
    { s with deferredISC := queue }.getOrCreateUser p uid =
      { s.getOrCreateUser p uid with deferredISC := queue } := by
  by_cases known : uid ∈ s.users
  · simp [getOrCreateUser, known]
  · simp [getOrCreateUser, known]

theorem getOrCreateUser_keeps_deferredISC (uid : UserID) (s : CreditScheduler) :
    (s.getOrCreateUser p uid).deferredISC = s.deferredISC := by
  unfold getOrCreateUser
  split <;> rfl

theorem drainDeferredISC_carries (moves : env.MovesBy p guard) (now : Tick) (n : Nat)
    (s : CreditScheduler)
    (kept : guard.fault ∨ (0 < n → s.deferredISC ≠ []) ∧ DeferredISCKept p env now n s) :
    Carries p guard s (s.drainDeferredISC p env now n) := by
  induction n generalizing s with
  | zero => exact .refl s
  | succ n ih =>
      unfold DeferredISCKept deferredISCReturns at kept
      unfold drainDeferredISC
      split
      next head =>
          refine .work fun _ => .fail ?_
          exact kept.resolve_right fun some => some.1 (Nat.succ_pos n) head
      next dc rest head =>
          simp only [head] at kept
          simp only
          have found : Carries p guard s (s.getOrCreateUser p dc.uid) :=
            getOrCreateUser_carries _ s
          have waiting : (s.getOrCreateUser p dc.uid).deferredISC = dc :: rest := by
            rw [getOrCreateUser_keeps_deferredISC, head]
          rw [getOrCreateUser_deferredISC] at kept ⊢
          split at kept
          next held =>
            rw [if_pos held]
            have known := mem_getOrCreateUser p dc.uid s
            have served := found.then fun _ => .resume dc rest waiting known held
            refine (served.trans (resumeReentrant_carries moves _ _ _)).trans (ih _ ?_)
            refine kept.imp_right fun some => ?_
            have all := List.forall_mem_cons.1 some.2
            exact ⟨all.1, all.2⟩
          next poor =>
            rw [if_neg poor]
            refine (found.then fun _ => .requeueISC dc rest waiting).trans (ih _ ?_)
            exact kept.imp_right fun some => ⟨fun _ => List.concat_ne_nil _ _, some.2⟩

theorem getOrCreateUser_deferredISCRequests (uid : UserID) (s : CreditScheduler)
    (queue : List ISCDeferredRequest) :
    { s with deferredISCRequests := queue }.getOrCreateUser p uid =
      { s.getOrCreateUser p uid with deferredISCRequests := queue } := by
  by_cases known : uid ∈ s.users
  · simp [getOrCreateUser, known]
  · simp [getOrCreateUser, known]

theorem getOrCreateUser_keeps_deferredISCRequests (uid : UserID) (s : CreditScheduler) :
    (s.getOrCreateUser p uid).deferredISCRequests = s.deferredISCRequests := by
  unfold getOrCreateUser
  split <;> rfl

theorem processISCLoop_moves (moves : env.MovesBy p guard) (now : Tick) (fuel : Nat)
    (hand remaining : List ISCDeferredRequest) (s : CreditScheduler) :
    Moves p guard (hand ++ remaining, s) (hand, s.processISCLoop p env now fuel remaining) := by
  induction fuel generalizing remaining s with
  | zero => exact .single (.work (.putBack remaining))
  | succ fuel ih =>
      unfold processISCLoop
      cases head : s.deferredISCRequests with
      | nil =>
          have back : Move p guard (hand ++ remaining, s)
              (hand, { s with deferredISCRequests := s.deferredISCRequests ++ remaining }) :=
            .work (.putBack remaining)
          rw [head, List.nil_append] at back
          exact .single back
      | cons req rest =>
          simp only
          have found : Moves p guard (hand ++ remaining, s)
              (hand ++ remaining, s.getOrCreateUser p req.uid) :=
            getOrCreateUser_carries req.uid s _
          have waiting : (s.getOrCreateUser p req.uid).deferredISCRequests = req :: rest := by
            rw [getOrCreateUser_keeps_deferredISCRequests, head]
          rw [getOrCreateUser_deferredISCRequests]
          split
          next held =>
            have known := mem_getOrCreateUser p req.uid s
            refine ReflTransGen.trans ?_ (ih _ _)
            refine ReflTransGen.trans ?_ (moves.iscCallback _ _ _ _)
            exact found.tail (.work (.process req rest waiting known held))
          next =>
            refine ReflTransGen.trans ?_ (ih _ _)
            have taken : Move p guard (hand ++ remaining, s.getOrCreateUser p req.uid)
                ((hand ++ remaining) ++ [req], _) := .work (.take req rest waiting)
            rw [List.append_assoc] at taken
            exact found.tail taken

theorem processISCLoop_carries (moves : env.MovesBy p guard) (now : Tick) (fuel : Nat)
    (s : CreditScheduler) : Carries p guard s (s.processISCLoop p env now fuel []) := by
  intro hand
  have all := processISCLoop_moves moves now fuel hand [] s
  rwa [List.append_nil] at all

theorem tryDispatchHost_carries (moves : env.MovesBy p guard) (now : Tick)
    (order : List UserID) (s : CreditScheduler) :
    Carries p guard s (s.tryDispatchHost p env now order).2.2 := by
  induction order generalizing s with
  | nil => exact .refl s
  | cons uid order ih =>
      unfold tryDispatchHost
      split
      · exact ih s
      next front rest head =>
        unfold tryDispatchWithCredit
        simp only
        split
        next poor =>
          refine Carries.trans ?_ (ih _)
          exact .work fun _ => .deferHost uid front rest now head
        next rich =>
          refine Carries.trans ?_ (dispatchReentrant_carries moves _ _ _)
          exact .work fun _ => .host uid front rest head (not_lt.1 rich)

theorem tryDispatchISC_carries (now : Tick) (order : List UserID) (s : CreditScheduler)
    (known : order ⊆ s.users) : Carries p guard s (s.tryDispatchISC now order).2 := by
  induction order generalizing s with
  | nil => exact .refl s
  | cons uid order ih =>
      have later : order ⊆ s.users := fun _ hmem => known (List.mem_cons_of_mem _ hmem)
      unfold tryDispatchISC
      split
      · exact ih s later
      next front rest head =>
        simp only
        split
        next held =>
          exact .work fun _ => .gate uid front rest head (known List.mem_cons_self) held
        next =>
          refine Carries.trans ?_ (ih _ later)
          exact .work fun _ => .deferISC uid front rest now head

theorem dispatchRounds_carries (moves : env.MovesBy p guard) (rounds : Nat) (now : Tick)
    (s : CreditScheduler) : Carries p guard s (s.dispatchRounds p env rounds now).2 := by
  induction rounds generalizing now s with
  | zero => exact .refl s
  | succ rounds ih =>
      have gates : Carries p guard s
          (s.tryDispatchISC now (scanOrder s.lastChosenUidISC s.users)).2 :=
        tryDispatchISC_carries now _ s (scanOrder_perm _ _).subset
      unfold dispatchRounds
      simp only
      split
      · exact gates.trans (ih _ _)
      · have hosts := gates.trans (tryDispatchHost_carries moves now (scanOrder
          (tryDispatchISC now (scanOrder s.lastChosenUidISC s.users) s).2.lastChosenUid
          (tryDispatchISC now (scanOrder s.lastChosenUidISC s.users) s).2.users) _)
        split
        · exact hosts.trans (ih _ _)
        · exact hosts

theorem refillLoop_carries (now : Tick) (fuel : Nat) (s : CreditScheduler) :
    Carries p guard s (s.refillLoop p now fuel) := by
  induction fuel generalizing s with
  | zero => exact .refl s
  | succ fuel ih =>
      unfold refillLoop
      split
      · have granted : Carries p guard s (s.refillPhase p) := .work fun _ => .phase
        exact granted.trans (ih _)
      · exact .refl s

theorem refill_carries (now : Tick) (s : CreditScheduler) :
    Carries p guard s (s.refill p now) := by
  have checked : Carries p guard s (s.emit (.refillCheck now)) := .work fun _ => .check now
  exact checked.trans (refillLoop_carries now _ _)

theorem drainStart_carries (moves : env.MovesBy p guard) (now : Tick) (s : CreditScheduler)
    (may : guard.window now s.lastStatTick) : Carries p guard s (s.drainStart p env now).2 :=
  (((mark_carries true s).then fun _ => .window now may).trans
    (drainAdmin_carries moves _ _ _)).trans (refill_carries _ _)

theorem serviceQueues_carries (moves : env.MovesBy p guard) (now : Tick)
    (s : CreditScheduler) (kept : guard.fault ∨ s.DrainsKept p env now) :
    Carries p guard s (s.serviceQueues p env now).2 := by
  have deferred := drainDeferred_carries moves s.deferredQueue.length now s
    (kept.imp_right fun some => ⟨List.ne_nil_of_length_pos, some.1⟩)
  have custom := drainDeferredISC_carries moves _ _ _
    (kept.imp_right fun some => ⟨List.ne_nil_of_length_pos, some.2⟩)
  exact ((deferred.trans custom).trans (processISCLoop_carries moves _ _ _)).trans
    (dispatchRounds_carries moves _ _ _)

theorem tick_carries (moves : env.MovesBy p guard) (now : Tick) (s : CreditScheduler)
    (may : guard.Ticks p env now s) : Carries p guard s (s.tick p env now).2 := by
  unfold tick
  split
  · exact .refl s
  next outermost =>
    have idle : s.inTick = false := by simpa using outermost
    obtain ⟨window, kept⟩ := may idle
    have started := drainStart_carries moves now s window
    have served := serviceQueues_carries moves _ _ (kept.imp_right fun tick => tick idle)
    exact (started.trans served).trans (mark_carries false _)

theorem processLoop_carries (moves : env.MovesBy p guard) (uid : UserID) (iterations : Nat)
    (completionTick : Tick) (s : CreditScheduler)
    (each : LoopEach p env (guard.Ticks p env) uid iterations completionTick s) :
    Carries p guard s (s.processLoop p env uid iterations completionTick).2 := by
  induction iterations generalizing completionTick s with
  | zero => exact .refl s
  | succ iterations ih =>
      have ticked := tick_carries moves completionTick s each.1
      unfold processLoop
      simp only
      split
      next pending => exact ticked.trans (ih _ _ (each.2 pending))
      next => exact ticked

theorem useCreditAs_carries (site : ChargeSite) (cls : ChargeClass) (uid : UserID)
    (used : Nat) (s : CreditScheduler)
    (may : cls = .isc ∨
      guard.direct (min ((s.getOrCreateUser p uid).account uid).credit used)) :
    Carries p guard s (s.useCreditAs p site cls uid used) := by
  have known := mem_getOrCreateUser p uid s
  have taken : (if ((s.getOrCreateUser p uid).account uid).credit < used then
      ((s.getOrCreateUser p uid).account uid).credit else used) =
      min ((s.getOrCreateUser p uid).account uid).credit used := by
    split_ifs <;> omega
  refine (getOrCreateUser_carries uid s).trans fun hand => .single ?_
  unfold useCreditAs
  simp only [taken]
  exact .direct site cls uid _ known (min_le_left _ _) may

theorem Op.run_carries (moves : env.MovesBy p guard) (op : Op) (s : CreditScheduler)
    (allowed : guard.Allows p env op s) : Carries p guard s (op.run p env s) := by
  obtain ⟨each, may⟩ := allowed
  cases op with
  | submitRequest getTick req => exact submitRequest_carries getTick req s may
  | submitISCDeferred getTick uid pages ctx cb =>
      exact fun _ => .single (.submit _ may (.postpone _))
  | submitISCRequest getTick uid pages iscContext =>
      cases iscContext with
      | none => exact .refl s
      | some ctx => exact submitISCRequest_carries moves getTick uid pages ctx s may
  | ensureActiveUser getTick uid => exact ensureActiveUser_carries getTick uid s
  | tick now => exact tick_carries moves now s each
  | processISCRequests now => exact processISCLoop_carries moves now _ s
  | processEvent now =>
      exact (tick_carries moves now s each).then fun _ =>
        .mark _ (some (s.tick p env now).2.lastGlobalRefillTick)
  | processUntil getTick req completionTick =>
      exact (submitRequest_carries getTick req s may).trans
        (processLoop_carries moves _ _ _ _ each)
  | useCredit uid used => exact useCreditAs_carries _ _ uid used s (.inr may)
  | useCreditISC uid used => exact useCreditAs_carries _ _ uid used s (.inl rfl)
  | resetStatValues getTick => exact fun _ => .single (.resetStat getTick may)

theorem RunsBy.carries {ok : Env → Op → CreditScheduler → Prop} {s t : CreditScheduler}
    (run : RunsBy p ok s t) (allows : ∀ env op u, ok env op u → guard.Allows p env op u) :
    Carries p guard s t := by
  induction run with
  | refl s => exact .refl s
  | next env op _ allowed _ _ _ earlier icl resume iscCallback =>
      exact earlier.trans (op.run_carries ⟨icl, resume, iscCallback⟩ _ (allows _ _ _ allowed))

theorem Env.Makes.movesBy {ok : Env → Op → CreditScheduler → Prop} (makes : env.Makes p ok)
    (allows : ∀ env op u, ok env op u → guard.Allows p env op u) : env.MovesBy p guard :=
  ⟨fun req now u => (makes.icl req now u).carries allows,
    fun dc now u => (makes.resume dc now u).carries allows,
    fun ctx now u => (makes.iscCallback ctx now u).carries allows⟩

end Functions

/-! ## Moves are made of acts -/

section Acts

variable {p : Params} {guard : Guard}

theorem Submission.acts {item : Item} {s t : CreditScheduler} (entered : Submission item s t) :
    Acts p s t := by
  cases entered with
  | receive req admin => exact .single (.receive req admin)
  | enqueue req user known => exact .single (.enqueue req user known)
  | postpone dc => exact .single (.isc _ s.deferredISCRequests)
  | wait req => exact .single (.isc s.deferredISC _)
  | execute uid pages ctx known held =>
      exact (ReflTransGen.single (.charge _ _ uid pages known held)).tail (.emit _ nofun)

theorem Work.acts {before after : List ISCDeferredRequest × CreditScheduler}
    (step : Work p guard before after) : Acts p before.2 after.2 := by
  cases step with
  | create uid => exact .single (.create uid)
  | activate uid getTick known => exact .single (.activate uid getTick known)
  | window now may => exact iopsWindow_acts now _
  | check | answer => exact .single (.emit _ nofun)
  | phase => exact .single .phase
  | @measure _ s req =>
      refine .single (.measure _ fun uid => ?_)
      exact modify_field s req.userID uid (f := UserAccount.measureHost req.pages)
        UserAccount.unmeasured fun _ => rfl
  | @mark _ s inTick event =>
      exact .single (.mark s.lastChosenUid s.lastChosenUidISC inTick s.fault event s.lastStatTick)
  | @fail _ s => exact .single (.fault s)
  | @serveAdmin _ s req rest head =>
      have taken : Act p s { s with adminQueue := s.adminQueue.tail } := .takeAdmin
      rw [head] at taken
      exact (ReflTransGen.single taken).tail (.emit _ nofun)
  | @dispatch _ s dr rest head known held =>
      have tail : rest ⊆ s.deferredQueue := head ▸ List.subset_cons_self dr rest
      have taken : Act p s { s with deferredQueue := rest } := .shuffle rest tail
      exact ((ReflTransGen.single taken).tail (.charge _ _ _ _ known held)).tail (.emit _ nofun)
  | @requeue _ s dr rest head =>
      refine .single (.shuffle _ fun entry hmem => ?_)
      rw [head]
      simpa [or_comm] using hmem
  | @resume _ s dc rest head known held =>
      have taken : Act p s { s with deferredISC := rest } := .isc rest s.deferredISCRequests
      exact ((ReflTransGen.single taken).tail (.charge _ _ _ _ known held)).tail
        (.resume dc _ _ _ rfl (sub64_add_cancel held))
  | @requeueISC _ s => exact .single (.isc _ s.deferredISCRequests)
  | @take _ s => exact .single (.isc s.deferredISC _)
  | @process _ s req rest head known held =>
      have taken : Act p s { s with deferredISCRequests := rest } := .isc s.deferredISC rest
      exact ((ReflTransGen.single taken).tail (.charge _ _ _ _ known held)).tail (.emit _ nofun)
  | @putBack _ s => exact .single (.isc s.deferredISC _)
  | @gate _ s uid front rest head known held =>
      have paid : Acts p s (s.charge .queueISC .isc uid front.pages) :=
        .single (.charge _ _ uid _ known held)
      exact ((paid.tail (.mark _ uid _ _ _ _)).tail (.takeISC uid)).tail (.emit _ nofun)
  | deferISC uid front rest now head =>
      exact (ReflTransGen.single (.defer uid front now (by simp [head]))).tail (.takeISC uid)
  | @host _ s uid front rest head held =>
      have known := mem_getOrCreateUser p front.userID s
      have created : Acts p s (s.getOrCreateUser p front.userID) := .single (.create _)
      exact (((created.tail (.charge _ _ _ _ known held)).tail (.take uid)).tail
        (.mark uid _ _ _ _ _)).tail (.emit _ nofun)
  | deferHost uid front rest now head =>
      exact (defer_acts uid front now _ (by simp [head])).tail (.take uid)

theorem Move.acts {before after : List ISCDeferredRequest × CreditScheduler}
    (move : Move p guard before after) : Acts p before.2 after.2 := by
  cases move with
  | submit item may entered => exact entered.acts
  | work step => exact step.acts
  | direct site cls uid pages known held may => exact .single (.charge _ _ _ _ known held)
  | resetStat getTick may => exact .single (.resetStat getTick)

theorem Move.proper {before after : List ISCDeferredRequest × CreditScheduler}
    (move : Move p guard before after) (proper : Proper before.2) : Proper after.2 := by
  have kept : ∀ t t', Act p t t' → Proper t → Proper t' := fun _ _ => Proper.act
  exact invariant_of_steps kept move.acts proper

theorem Moves.proper {before after : List ISCDeferredRequest × CreditScheduler}
    (moves : Moves p guard before after) (proper : Proper before.2) : Proper after.2 := by
  induction moves with
  | refl => exact proper
  | tail _ last ih => exact last.proper ih

end Acts

end SimpleSSD.HIL.CreditScheduler
