import SimpleSSD.HIL.Scheduler.Phase
import SimpleSSD.HIL.Scheduler.Run

/-!
# Elementary acts

What the functions of the scheduler can do to its queues and accounts, one act for
each kind of assignment.  An invariant of the queues is proved for each act, and
then holds after any function and in every reachable state, callbacks included.
-/

namespace SimpleSSD.HIL.CreditScheduler

open SimpleSSD.Foundation Relation

def UserAccount.unmeasured (acc : UserAccount) : UserAccount :=
  { acc with winHostPages := 0, winHostIOs := 0 }

inductive Act (p : Params) : CreditScheduler → CreditScheduler → Prop
  | create {s} (uid : UserID) : Act p s (s.getOrCreateUser p uid)
  | receive {s} (req : Request) (admin : req.userID = 0) :
      Act p s { s with adminQueue := s.adminQueue ++ [req] }
  | enqueue {s} (req : Request) (user : req.userID ≠ 0) (known : req.userID ∈ s.users) :
      Act p s (s.modify req.userID (enqueue req))
  | activate {s} (uid : UserID) (getTick : Tick) (known : uid ∈ s.users) :
      Act p s (s.activate p getTick uid)
  | charge {s} (site : ChargeSite) (cls : ChargeClass) (uid : UserID) (pages : Nat)
      (known : uid ∈ s.users) (held : pages ≤ (s.account uid).credit) :
      Act p s (s.charge site cls uid pages)
  | emit {s} (event : Event) (plain : ∀ dc, event ≠ .serve (.custom dc)) :
      Act p s (s.emit event)
  | resume {s} (dc : DeferredCustom) (held left : Nat) (earlier : List Event)
      (paid : s.trace = .charge .deferredISC dc.uid held dc.pages left :: earlier)
      (rest : left + dc.pages = held) : Act p s (s.emit (.serve (.custom dc)))
  | takeAdmin {s} : Act p s { s with adminQueue := s.adminQueue.tail }
  | take {s} (uid : UserID) : Act p s (s.modify uid UserAccount.popQueue)
  | takeISC {s} (uid : UserID) : Act p s (s.modify uid UserAccount.popQueueISC)
  | defer {s} (uid : UserID) (req : Request) (now : Tick)
      (waits : req ∈ (s.account uid).queue ++ (s.account uid).queueISC) :
      Act p s { s with deferredQueue := s.deferredQueue ++ [⟨req, req.pages, now⟩] }
  | shuffle {s} (queue : List DeferredRequest) (old : queue ⊆ s.deferredQueue) :
      Act p s { s with deferredQueue := queue }
  | isc {s} (custom : List DeferredCustom) (requests : List ISCDeferredRequest) :
      Act p s { s with deferredISC := custom, deferredISCRequests := requests }
  | measure {s} (account : UserID → UserAccount)
      (same : ∀ uid, (account uid).unmeasured = (s.account uid).unmeasured) :
      Act p s { s with account := account }
  | mark {s} (last lastISC : UserID) (inTick fault : Bool) (event stat : Option Tick) :
      Act p s { s with
        lastChosenUid := last
        lastChosenUidISC := lastISC
        inTick := inTick
        fault := fault
        refillEvent := event
        lastStatTick := stat }
  | phase {s} : Act p s (s.refillPhase p)
  | resetStat {s} (getTick : Tick) : Act p s (s.resetStatValues getTick)

abbrev Acts (p : Params) : CreditScheduler → CreditScheduler → Prop := ReflTransGen (Act p)

structure Env.ActsOn (env : Env) (p : Params) : Prop where
  icl : ∀ req now s, Acts p s (env.icl req now s).2
  resume : ∀ dc now s, Acts p s (env.resume dc now s)
  iscCallback : ∀ ctx now s, Acts p s (env.iscCallback ctx now s)

section Functions

variable {p : Params} {env : Env}

theorem Act.inTick (value : Bool) (s : CreditScheduler) : Act p s { s with inTick := value } :=
  .mark s.lastChosenUid s.lastChosenUidISC value s.fault s.refillEvent s.lastStatTick

theorem Act.fault (s : CreditScheduler) : Act p s { s with fault := true } :=
  .mark s.lastChosenUid s.lastChosenUidISC s.inTick true s.refillEvent s.lastStatTick

theorem submitRequest_acts (getTick : Tick) (req : Request) (s : CreditScheduler) :
    Acts p s (s.submitRequest p getTick req) := by
  unfold submitRequest
  split
  next admin => exact .single (.receive req admin)
  next user =>
    have known := mem_getOrCreateUser p req.userID s
    exact ((ReflTransGen.single (.create req.userID)).tail (.enqueue req user known)).tail
      (.activate req.userID getTick known)

theorem ensureActiveUser_acts (getTick : Tick) (uid : UserID) (s : CreditScheduler) :
    Acts p s (s.ensureActiveUser p getTick uid) :=
  (ReflTransGen.single (.create uid)).tail
    (.activate uid getTick (mem_getOrCreateUser p uid s))

theorem submitISCRequest_acts (on : env.ActsOn p) (getTick : Tick) (uid : UserID)
    (pages : Nat) (iscContext : Option Nat) (s : CreditScheduler) :
    Acts p s (s.submitISCRequest p env getTick uid pages iscContext).2 := by
  unfold submitISCRequest
  cases iscContext with
  | none => exact .refl
  | some ctx =>
      have ready : Acts p s (s.ensureActiveUser p getTick uid) :=
        ensureActiveUser_acts getTick uid s
      have known := mem_ensureActiveUser (p := p) (s := s) getTick uid
      simp only
      split
      next held =>
        refine ReflTransGen.trans ?_ (on.iscCallback _ _ _)
        exact (ready.tail (.charge _ _ _ _ known held)).tail (.emit _ nofun)
      next => exact ready.tail (.isc _ _)

theorem dispatchICL_acts (on : env.ActsOn p) (req : Request) (now : Tick)
    (s : CreditScheduler) : Acts p s (s.dispatchICL p env req now).2 := by
  unfold dispatchICL
  split
  · have answered : Act p (env.icl req now s).2
        ((env.icl req now s).2.emit (.icl req now (env.icl req now s).1)) := .emit _ nofun
    refine ReflTransGen.tail (((on.icl req now s).tail answered).tail (.create req.userID))
      (.measure _ fun uid => ?_)
    refine modify_field _ req.userID uid (f := fun acc => { acc with
      winHostPages := acc.winHostPages + req.pages
      winHostIOs := acc.winHostIOs + 1 }) UserAccount.unmeasured fun _ => rfl
  · exact .refl

theorem dispatchReentrant_acts (on : env.ActsOn p) (req : Request) (now : Tick)
    (s : CreditScheduler) : Acts p s (s.dispatchReentrant p env req now).2 :=
  ((ReflTransGen.single (.inTick false s)).trans (dispatchICL_acts on req now _)).tail
    (.inTick true _)

theorem iopsWindow_acts (now : Tick) (s : CreditScheduler) :
    Acts p s (s.iopsWindow p now) := by
  have stamp : ∀ (t : CreditScheduler) (tick : Tick),
      Act p t { t with lastStatTick := some tick } := fun t tick =>
    .mark t.lastChosenUid t.lastChosenUidISC t.inTick t.fault t.refillEvent (some tick)
  unfold iopsWindow
  simp only
  split
  · refine (ReflTransGen.single (.measure _ fun uid => ?_)).tail (stamp _ now)
    refine mapUsers_field s uid UserAccount.unmeasured fun acc => ?_
    unfold UserAccount.resetWindow
    split <;> rfl
  · exact .single (stamp s _)

theorem drainAdmin_acts (on : env.ActsOn p) (fuel : Nat) (now : Tick)
    (s : CreditScheduler) : Acts p s (s.drainAdmin p env fuel now).2 := by
  induction fuel generalizing now s with
  | zero => exact .refl
  | succ fuel ih =>
      unfold drainAdmin
      split
      · exact .refl
      next req rest waiting =>
        have taken : Act p s { s with adminQueue := rest } := by
          have act : Act p s { s with adminQueue := s.adminQueue.tail } := .takeAdmin
          rwa [waiting] at act
        refine ReflTransGen.trans ?_ (ih _ _)
        refine ReflTransGen.trans ?_ (dispatchICL_acts on _ _ _)
        exact (ReflTransGen.single taken).tail (.emit _ nofun)

theorem popDeferred_acts (s : CreditScheduler) (queue : List DeferredRequest)
    (old : queue ⊆ s.deferredQueue) (uid : UserID) :
    Acts p s ({ s with deferredQueue := queue }.getOrCreateUser p uid) :=
  (ReflTransGen.single (.shuffle queue old)).tail (.create uid)

theorem getOrCreateUser_deferredQueue (uid : UserID) (s : CreditScheduler)
    (queue : List DeferredRequest) :
    { s with deferredQueue := queue }.getOrCreateUser p uid =
      { s.getOrCreateUser p uid with deferredQueue := queue } := by
  by_cases known : uid ∈ s.users
  · simp [getOrCreateUser, known]
  · simp [getOrCreateUser, known]

theorem getOrCreateUser_keeps_deferredQueue (uid : UserID) (s : CreditScheduler) :
    (s.getOrCreateUser p uid).deferredQueue = s.deferredQueue := by
  unfold getOrCreateUser
  split <;> rfl

theorem drainDeferred_acts (on : env.ActsOn p) (n : Nat) (now : Tick)
    (s : CreditScheduler) : Acts p s (s.drainDeferred p env n now).2 := by
  induction n generalizing now s with
  | zero => exact .refl
  | succ n ih =>
      unfold drainDeferred
      split
      · exact .single (.fault s)
      next dr rest waiting =>
        have tail : rest ⊆ s.deferredQueue := waiting ▸ List.subset_cons_self dr rest
        simp only
        split
        next held =>
          refine ReflTransGen.trans ?_ (ih _ _)
          refine ReflTransGen.trans ?_ (dispatchReentrant_acts on _ _ _)
          have known := mem_getOrCreateUser p dr.req.userID { s with deferredQueue := rest }
          exact ((popDeferred_acts s rest tail _).tail (.charge _ _ _ _ known held)).tail
            (.emit _ nofun)
        next =>
          refine ReflTransGen.trans ?_ (ih _ _)
          rw [getOrCreateUser_deferredQueue]
          change Acts p s { s.getOrCreateUser p dr.req.userID with
            deferredQueue := rest ++ [dr] }
          refine (ReflTransGen.single (.create dr.req.userID)).tail (.shuffle _ ?_)
          rw [getOrCreateUser_keeps_deferredQueue, waiting]
          intro entry hmem
          simpa [or_comm] using hmem

theorem resumeReentrant_acts (on : env.ActsOn p) (dc : DeferredCustom) (now : Tick)
    (s : CreditScheduler) : Acts p s (s.resumeReentrant env dc now) := by
  unfold resumeReentrant
  split
  · exact ((ReflTransGen.single (.inTick false s)).trans (on.resume dc now _)).tail
      (.inTick true _)
  · exact .refl

theorem drainDeferredISC_acts (on : env.ActsOn p) (now : Tick) (n : Nat)
    (s : CreditScheduler) : Acts p s (s.drainDeferredISC p env now n) := by
  induction n generalizing s with
  | zero => exact .refl
  | succ n ih =>
      unfold drainDeferredISC
      split
      · exact .single (.fault s)
      next dc rest _ =>
        have popped : Acts p s ({ s with deferredISC := rest }.getOrCreateUser p dc.uid) :=
          (ReflTransGen.single (.isc rest s.deferredISCRequests)).tail (.create _)
        simp only
        split
        next held =>
          refine ReflTransGen.trans ?_ (ih _)
          refine ReflTransGen.trans ?_ (resumeReentrant_acts on _ _ _)
          have known := mem_getOrCreateUser p dc.uid { s with deferredISC := rest }
          exact (popped.tail (.charge _ _ _ _ known held)).tail
            (.resume dc _ _ _ rfl (sub64_add_cancel held))
        next =>
          refine ReflTransGen.trans ?_ (ih _)
          exact popped.tail (.isc _ _)

theorem processISCLoop_acts (on : env.ActsOn p) (now : Tick) (fuel : Nat)
    (remaining : List ISCDeferredRequest) (s : CreditScheduler) :
    Acts p s (s.processISCLoop p env now fuel remaining) := by
  induction fuel generalizing remaining s with
  | zero => exact .single (.isc s.deferredISC _)
  | succ fuel ih =>
      unfold processISCLoop
      split
      · exact .single (.isc s.deferredISC _)
      next req rest _ =>
        have popped : Acts p s
            ({ s with deferredISCRequests := rest }.getOrCreateUser p req.uid) :=
          (ReflTransGen.single (.isc s.deferredISC rest)).tail (.create _)
        simp only
        split
        next held =>
          refine ReflTransGen.trans ?_ (ih _ _)
          refine ReflTransGen.trans ?_ (on.iscCallback _ _ _)
          have known := mem_getOrCreateUser p req.uid { s with deferredISCRequests := rest }
          exact (popped.tail (.charge _ _ _ _ known held)).tail (.emit _ nofun)
        next => exact popped.trans (ih _ _)

theorem defer_acts (uid : UserID) (req : Request) (now : Tick) (s : CreditScheduler)
    (waits : req ∈ (s.account uid).queue ++ (s.account uid).queueISC) :
    Acts p s { s.getOrCreateUser p req.userID with
      deferredQueue := (s.getOrCreateUser p req.userID).deferredQueue ++
        [⟨req, req.pages, now⟩] } := by
  rw [getOrCreateUser_keeps_deferredQueue, ← getOrCreateUser_deferredQueue]
  exact (ReflTransGen.single (.defer uid req now waits)).tail (.create req.userID)

theorem tryDispatchHost_acts (on : env.ActsOn p) (now : Tick) (order : List UserID)
    (s : CreditScheduler) : Acts p s (s.tryDispatchHost p env now order).2.2 := by
  induction order generalizing s with
  | nil => exact .refl
  | cons uid order ih =>
      unfold tryDispatchHost
      split
      · exact ih s
      next front rest waiting =>
        have created : Acts p s (s.getOrCreateUser p front.userID) := .single (.create _)
        have known := mem_getOrCreateUser p front.userID s
        unfold tryDispatchWithCredit
        simp only
        split
        next held =>
          refine ReflTransGen.trans ?_ (ih _)
          exact (defer_acts uid front now s (by simp [waiting])).tail (.take uid)
        next held =>
          refine ReflTransGen.trans ?_ (dispatchReentrant_acts on _ _ _)
          refine ReflTransGen.tail ?_ (.emit _ nofun)
          exact ((created.tail (.charge _ _ _ _ known (not_lt.1 held))).tail
            (.take uid)).tail (.mark uid _ _ _ _ _)

theorem tryDispatchISC_acts (now : Tick) (order : List UserID) (s : CreditScheduler)
    (known : order ⊆ s.users) : Acts p s (s.tryDispatchISC now order).2 := by
  induction order generalizing s with
  | nil => exact .refl
  | cons uid order ih =>
      have later : order ⊆ s.users := fun _ hmem => known (List.mem_cons_of_mem _ hmem)
      unfold tryDispatchISC
      split
      · exact ih s later
      next front rest waiting =>
        simp only
        split
        next held =>
          have paid : Acts p s (s.charge .queueISC .isc uid front.pages) :=
            .single (.charge _ _ _ _ (known List.mem_cons_self) held)
          exact ((paid.tail (.mark _ uid _ _ _ _)).tail (.takeISC uid)).tail (.emit _ nofun)
        next =>
          refine ReflTransGen.trans ?_ (ih _ later)
          exact (ReflTransGen.single (.defer uid front now (by simp [waiting]))).tail
            (.takeISC uid)

theorem dispatchRounds_acts (on : env.ActsOn p) (rounds : Nat) (now : Tick)
    (s : CreditScheduler) : Acts p s (s.dispatchRounds p env rounds now).2 := by
  induction rounds generalizing now s with
  | zero => exact .refl
  | succ rounds ih =>
      have gates : Acts p s (s.tryDispatchISC now (scanOrder s.lastChosenUidISC s.users)).2 :=
        tryDispatchISC_acts now _ s (scanOrder_perm _ _).subset
      unfold dispatchRounds
      simp only
      split
      · exact gates.trans (ih _ _)
      · have hosts := gates.trans (tryDispatchHost_acts on now (scanOrder
          (tryDispatchISC now (scanOrder s.lastChosenUidISC s.users) s).2.lastChosenUid
          (tryDispatchISC now (scanOrder s.lastChosenUidISC s.users) s).2.users) _)
        split
        · exact hosts.trans (ih _ _)
        · exact hosts

theorem refillLoop_acts (now : Tick) (fuel : Nat) (s : CreditScheduler) :
    Acts p s (s.refillLoop p now fuel) := by
  induction fuel generalizing s with
  | zero => exact .refl
  | succ fuel ih =>
      unfold refillLoop
      split
      · exact .head .phase (ih _)
      · exact .refl

theorem refill_acts (now : Tick) (s : CreditScheduler) : Acts p s (s.refill p now) :=
  (ReflTransGen.single (.emit _ nofun)).trans (refillLoop_acts now _ _)

theorem serviceQueues_acts (on : env.ActsOn p) (now : Tick) (s : CreditScheduler) :
    Acts p s (s.serviceQueues p env now).2 :=
  (((drainDeferred_acts on _ now s).trans (drainDeferredISC_acts on _ _ _)).trans
    (processISCLoop_acts on _ _ _ _)).trans (dispatchRounds_acts on _ _ _)

theorem tick_acts (on : env.ActsOn p) (now : Tick) (s : CreditScheduler) :
    Acts p s (s.tick p env now).2 := by
  unfold tick
  split
  · exact .refl
  · exact (((((ReflTransGen.single (.inTick true s)).trans (iopsWindow_acts now _)).trans
      (drainAdmin_acts on _ _ _)).trans (refill_acts _ _)).trans
      (serviceQueues_acts on _ _)).tail (.inTick false _)

theorem processLoop_acts (on : env.ActsOn p) (uid : UserID) (iterations : Nat)
    (completionTick : Tick) (s : CreditScheduler) :
    Acts p s (s.processLoop p env uid iterations completionTick).2 := by
  induction iterations generalizing completionTick s with
  | zero => exact .refl
  | succ iterations ih =>
      have ticked := tick_acts on completionTick s
      unfold processLoop
      simp only
      split
      · exact ticked.trans (ih _ _)
      · exact ticked

theorem useCreditAs_acts (site : ChargeSite) (cls : ChargeClass) (uid : UserID)
    (used : Nat) (s : CreditScheduler) : Acts p s (s.useCreditAs p site cls uid used) := by
  have known := mem_getOrCreateUser p uid s
  refine (ReflTransGen.single (.create uid)).tail (.charge _ _ _ _ known ?_)
  split_ifs <;> omega

theorem Op.run_acts (on : env.ActsOn p) (op : Op) (s : CreditScheduler) :
    Acts p s (op.run p env s) := by
  cases op with
  | submitRequest getTick req => exact submitRequest_acts getTick req s
  | submitISCDeferred getTick uid pages ctx cb => exact .single (.isc _ s.deferredISCRequests)
  | submitISCRequest getTick uid pages iscContext =>
      exact submitISCRequest_acts on getTick uid pages iscContext s
  | ensureActiveUser getTick uid => exact ensureActiveUser_acts getTick uid s
  | tick now => exact tick_acts on now s
  | processISCRequests now => exact processISCLoop_acts on now _ _ s
  | processEvent now =>
      have stamp : ∀ t : CreditScheduler,
          Act p t { t with refillEvent := some t.lastGlobalRefillTick } := fun t =>
        .mark t.lastChosenUid t.lastChosenUidISC t.inTick t.fault
          (some t.lastGlobalRefillTick) t.lastStatTick
      exact (tick_acts on now s).tail (stamp _)
  | processUntil getTick req completionTick =>
      exact (submitRequest_acts getTick req s).trans (processLoop_acts on _ _ _ _)
  | useCredit uid used => exact useCreditAs_acts _ _ uid used s
  | useCreditISC uid used => exact useCreditAs_acts _ _ uid used s
  | resetStatValues getTick => exact .single (.resetStat getTick)

end Functions

theorem Runs.acts {p : Params} {reset : Bool} {s t : CreditScheduler}
    (run : Runs p reset s t) : Acts p s t := by
  induction run with
  | refl s => exact .refl
  | next env op _ allowed _ _ _ earlier icl resume iscCallback =>
      exact earlier.trans (op.run_acts ⟨icl, resume, iscCallback⟩ _)

/-! ## Accounts and queues in every reachable state -/

/-- A request waits with its own user, and no credit is held by a user that is not
active or not known. -/
structure Proper (s : CreditScheduler) : Prop where
  owner : ∀ uid, ∀ req ∈ (s.account uid).queue ++ (s.account uid).queueISC, req.userID = uid
  deferred : ∀ dr ∈ s.deferredQueue, dr.pages = dr.req.pages ∧ dr.req.userID ∈ s.users
  known : ∀ uid, uid ∉ s.users → (s.account uid).queue = [] ∧ (s.account uid).queueISC = []
  inactive : ∀ uid, (s.account uid).isActive = false → (s.account uid).credit = 0
  active : ∀ uid, (s.account uid).isActive = true → uid ∈ s.users

section Proper

variable {p : Params} {s s' : CreditScheduler}

def UserAccount.proper (acc : UserAccount) : List Request × List Request × Bool × Nat :=
  (acc.queue, acc.queueISC, acc.isActive, acc.credit)

theorem Proper.of_eq (proper : Proper s) (users : s'.users = s.users)
    (account : ∀ uid, (s'.account uid).proper = (s.account uid).proper)
    (deferred : s'.deferredQueue ⊆ s.deferredQueue) : Proper s' := by
  simp only [UserAccount.proper, Prod.mk.injEq] at account
  refine ⟨fun uid => ?_, fun dr hmem => ?_, fun uid => ?_, fun uid => ?_, fun uid => ?_⟩
  · rw [(account uid).1, (account uid).2.1]
    exact proper.owner uid
  · rw [users]
    exact proper.deferred dr (deferred hmem)
  · rw [users, (account uid).1, (account uid).2.1]
    exact proper.known uid
  · rw [(account uid).2.2.1, (account uid).2.2.2]
    exact proper.inactive uid
  · rw [users, (account uid).2.2.1]
    exact proper.active uid

theorem Proper.modify (proper : Proper s) (uid : UserID) (f : UserAccount → UserAccount)
    (owner : ∀ req ∈ (f (s.account uid)).queue ++ (f (s.account uid)).queueISC,
      req.userID = uid)
    (known : uid ∉ s.users → (f (s.account uid)).queue = [] ∧ (f (s.account uid)).queueISC = [])
    (inactive : (f (s.account uid)).isActive = false → (f (s.account uid)).credit = 0)
    (active : (f (s.account uid)).isActive = true → uid ∈ s.users) :
    Proper (s.modify uid f) := by
  refine ⟨fun other => ?_, proper.deferred, fun other => ?_, fun other => ?_, fun other => ?_⟩ <;>
    · rw [modify_account]
      split
      next same =>
        subst same
        assumption
      next =>
        first
        | exact proper.owner other
        | exact proper.known other
        | exact proper.inactive other
        | exact proper.active other

theorem mem_users_getOrCreateUser (uid other : UserID) :
    other ∈ (s.getOrCreateUser p uid).users ↔ other = uid ∨ other ∈ s.users := by
  unfold getOrCreateUser
  split
  next known => exact ⟨.inr, fun h => h.elim (fun same => same ▸ known) id⟩
  next => exact (p.emplaceOrder_perm s.users uid).mem_iff.trans List.mem_cons

theorem phase_proper (s : CreditScheduler) (uid : UserID) :
    ((s.refillPhase p).account uid).queue = (s.account uid).queue ∧
      ((s.refillPhase p).account uid).queueISC = (s.account uid).queueISC ∧
      ((s.refillPhase p).account uid).isActive = (s.account uid).isActive ∧
      ((s.account uid).isActive = false →
        ((s.refillPhase p).account uid).credit = (s.account uid).credit) := by
  have age : ∀ acc : UserAccount, acc.age.queue = acc.queue ∧ acc.age.queueISC = acc.queueISC := by
    intro acc
    unfold UserAccount.age
    split_ifs <;> exact ⟨rfl, rfl⟩
  refine ⟨?_, ?_, ?_, fun idle => ?_⟩
  · exact refillGrants_field p s uid (·.queue) (fun acc => (age acc).1) fun _ _ _ _ => rfl
  · exact refillGrants_field p s uid (·.queueISC) (fun acc => (age acc).2) fun _ _ _ _ => rfl
  · exact refillGrants_field p s uid (·.isActive) (fun acc => acc.age_isActive)
      fun _ _ _ _ => rfl
  · have none : ∀ slo, uid ∉ activeUsers slo s := fun slo hmem => by
      have := ((mem_activeUsers s).1 hmem).2.1
      rw [idle] at this
      contradiction
    have credit := refillGrants_credit p s uid
    unfold phaseGrant at credit
    simp only [none, if_false, Nat.add_zero] at credit
    exact credit

theorem Proper.act (step : Act p s s') (proper : Proper s) : Proper s' := by
  cases step with
  | create uid =>
      have mem := fun other => mem_users_getOrCreateUser (p := p) (s := s) uid other
      refine ⟨fun other => ?_, fun dr hmem => ?_, fun other absent => ?_, fun other => ?_,
        fun other => ?_⟩
      · rcases getOrCreateUser_account p uid other s with same | ⟨-, -, fresh⟩
        · rw [same]
          exact proper.owner other
        · rw [fresh]
          exact fun req hmem => absurd hmem List.not_mem_nil
      · rw [getOrCreateUser_keeps_deferredQueue] at hmem
        exact (proper.deferred dr hmem).imp_right fun known => (mem _).2 (.inr known)
      · rcases getOrCreateUser_account p uid other s with same | ⟨-, -, fresh⟩
        · rw [same]
          exact proper.known other fun known => absent ((mem other).2 (.inr known))
        · rw [fresh]
          exact ⟨rfl, rfl⟩
      · rcases getOrCreateUser_account p uid other s with same | ⟨-, -, fresh⟩
        · rw [same]
          exact proper.inactive other
        · rw [fresh]
          exact fun _ => rfl
      · rcases getOrCreateUser_account p uid other s with same | ⟨rfl, -, -⟩
        · rw [same]
          exact fun active => (mem other).2 (.inr (proper.active other active))
        · exact fun _ => (mem other).2 (.inl rfl)
  | receive req admin => exact proper.of_eq rfl (fun _ => rfl) (List.Subset.refl _)
  | enqueue req user known =>
      refine proper.modify _ _ (fun r hmem => ?_) (fun absent => absurd known absent) ?_ ?_
      · have own := proper.owner req.userID r
        unfold CreditScheduler.enqueue at hmem
        split at hmem
        · simp only [List.mem_append, List.mem_cons] at hmem own
          rcases hmem with hq | rfl | hq
          · exact own (.inl hq)
          · rfl
          · exact own (.inr hq)
        · simp only [List.mem_append, List.mem_singleton] at hmem own
          rcases hmem with (hq | rfl) | hq
          · exact own (.inl hq)
          · rfl
          · exact own (.inr hq)
      · unfold CreditScheduler.enqueue
        split <;> exact proper.inactive req.userID
      · unfold CreditScheduler.enqueue
        split <;> exact proper.active req.userID
  | activate uid getTick known =>
      unfold CreditScheduler.activate
      split
      · exact proper
      · have activated : Proper (s.modify uid (UserAccount.activate getTick)) :=
          proper.modify uid _ (proper.owner uid) (proper.known uid) (fun h => absurd h (by simp
            [UserAccount.activate])) fun _ => known
        simp only
        split
        · exact activated
        · exact activated.of_eq rfl (fun _ => rfl) (List.Subset.refl _)
  | charge site cls uid pages known held =>
      refine (proper.modify uid _ (proper.owner uid) (proper.known uid) (fun idle => ?_)
        (proper.active uid)).of_eq rfl (fun _ => rfl) (List.Subset.refl _)
      have empty := proper.inactive uid idle
      have left := sub64_le held
      simp only [UserAccount.pay]
      omega
  | emit | resume => exact proper.of_eq rfl (fun _ => rfl) (List.Subset.refl _)
  | takeAdmin => exact proper.of_eq rfl (fun _ => rfl) (List.Subset.refl _)
  | take uid =>
      refine proper.modify uid _ (fun req hmem => proper.owner uid req ?_) (fun absent => ?_)
        (proper.inactive uid) (proper.active uid)
      · exact (List.mem_append.1 hmem).elim
          (fun h => List.mem_append_left _ (List.mem_of_mem_tail h))
          fun h => List.mem_append_right _ h
      · exact (proper.known uid absent).imp_left fun none => by simp [UserAccount.popQueue, none]
  | takeISC uid =>
      refine proper.modify uid _ (fun req hmem => proper.owner uid req ?_) (fun absent => ?_)
        (proper.inactive uid) (proper.active uid)
      · exact (List.mem_append.1 hmem).elim (fun h => List.mem_append_left _ h)
          fun h => List.mem_append_right _ (List.mem_of_mem_tail h)
      · exact (proper.known uid absent).imp_right fun none => by
          simp [UserAccount.popQueueISC, none]
  | defer uid req now waits =>
      refine ⟨proper.owner, fun dr hmem => ?_, proper.known, proper.inactive, proper.active⟩
      rcases List.mem_append.1 hmem with old | new
      · exact proper.deferred dr old
      · rw [List.mem_singleton.1 new]
        refine ⟨rfl, ?_⟩
        rw [proper.owner uid req waits]
        refine by_contra fun absent => ?_
        rw [(proper.known uid absent).1, (proper.known uid absent).2] at waits
        exact List.not_mem_nil waits
  | shuffle queue old => exact proper.of_eq rfl (fun _ => rfl) old
  | isc custom requests => exact proper.of_eq rfl (fun _ => rfl) (List.Subset.refl _)
  | measure account same =>
      refine proper.of_eq rfl (fun uid => ?_) (List.Subset.refl _)
      have kept : (account uid).unmeasured.proper = (s.account uid).unmeasured.proper :=
        congrArg UserAccount.proper (same uid)
      exact kept
  | mark last lastISC inTick fault event stat =>
      exact proper.of_eq rfl (fun _ => rfl) (List.Subset.refl _)
  | phase =>
      have users : (s.refillPhase p).users = s.users := refillGrants_users p s
      have deferred : (s.refillPhase p).deferredQueue = s.deferredQueue := by
        obtain ⟨account, grants⟩ := s.refillGrants_eq p
        exact congrArg (·.deferredQueue) grants
      refine ⟨fun uid => ?_, fun dr => ?_, fun uid => ?_, fun uid => ?_, fun uid => ?_⟩
      · obtain ⟨queue, queueISC, -, -⟩ := phase_proper (p := p) s uid
        rw [queue, queueISC]
        exact proper.owner uid
      · rw [deferred, users]
        exact proper.deferred dr
      · obtain ⟨queue, queueISC, -, -⟩ := phase_proper (p := p) s uid
        rw [users, queue, queueISC]
        exact proper.known uid
      · obtain ⟨-, -, active, credit⟩ := phase_proper (p := p) s uid
        rw [active]
        exact fun idle => (credit idle).trans (proper.inactive uid idle)
      · rw [users, (phase_proper (p := p) s uid).2.2.1]
        exact proper.active uid
  | resetStat getTick =>
      have account : ∀ uid, ((s.resetStatValues getTick).account uid) = if uid ∈ s.users then
          (s.account uid).resetStat getTick else s.account uid := fun _ => rfl
      refine ⟨fun uid => ?_, proper.deferred, fun uid absent => ?_, fun uid => ?_, fun uid => ?_⟩
      all_goals rw [account]
      · split
        · intro req hmem
          rw [UserAccount.resetStat, List.append_nil] at hmem
          exact proper.owner uid req (List.mem_append_left _ hmem)
        · exact proper.owner uid
      · have absent : uid ∉ s.users := absent
        rw [if_neg absent]
        exact proper.known uid absent
      · split
        · exact fun _ => rfl
        · exact proper.inactive uid
      · split
        next known => exact fun _ => known
        · exact proper.active uid

theorem start_proper (p : Params) (uids : List UserID) (profile : UserID → Profile) :
    Proper (start p uids profile) := by
  have empty : Proper (empty p) := ⟨fun _ _ hmem => absurd hmem List.not_mem_nil,
    fun _ hmem => absurd hmem List.not_mem_nil, fun _ _ => ⟨rfl, rfl⟩, fun _ _ => rfl,
    fun _ active => absurd active Bool.false_ne_true⟩
  refine start_induction Proper empty (fun s uid proper => proper.act (.create uid)) ?_
  exact fun s uid profile proper => proper.modify uid _ (proper.owner uid) (proper.known uid)
    (proper.inactive uid) (proper.active uid)

theorem Runs.proper {reset : Bool} {uids : List UserID} {profile : UserID → Profile}
    (run : Runs p reset (start p uids profile) s) : Proper s := by
  have kept : ∀ t t', Act p t t' → Proper t → Proper t' := fun _ _ => Proper.act
  exact invariant_of_steps kept run.acts (start_proper p uids profile)

end Proper

end SimpleSSD.HIL.CreditScheduler
