import SimpleSSD.HIL.Scheduler.Holdings
import SimpleSSD.HIL.Scheduler.Phase
import SimpleSSD.HIL.Scheduler.Run

/-!
# Conservation of requests

When the callbacks do not call back into the scheduler, every function moves
items between containers or serves them against payment, and loses none.
-/

namespace SimpleSSD.HIL.CreditScheduler

open SimpleSSD.Foundation

section Functions

variable {p : Params} {env : Env} {submitted hand : Multiset Item} {s : CreditScheduler}

/-! ## Submission -/

theorem activate_conserved (getTick : Tick) (uid : UserID)
    (inv : Conserved submitted hand s) :
    Conserved submitted hand (s.activate p getTick uid) := by
  unfold activate
  split
  · exact inv
  · have activated : Conserved submitted hand (s.modify uid (UserAccount.activate getTick)) :=
      inv.frame (holdings_modify s uid _ fun _ => rfl)
    simp only
    split
    · exact activated
    · exact (activated.emit (.timerStart getTick) rfl rfl).frame rfl

theorem ensureActiveUser_conserved (getTick : Tick) (uid : UserID)
    (inv : Conserved submitted hand s) :
    Conserved submitted hand (s.ensureActiveUser p getTick uid) :=
  activate_conserved getTick uid (inv.getOrCreateUser uid)

theorem submitRequest_conserved (getTick : Tick) {req : Request}
    (inv : Conserved submitted ({.request req} + hand) s) :
    Conserved submitted hand (s.submitRequest p getTick req) := by
  unfold submitRequest
  split
  · rename_i admin
    exact inv.putAdmin admin
  · rename_i user
    refine activate_conserved getTick req.userID ?_
    exact (inv.getOrCreateUser req.userID).putQueue (mem_getOrCreateUser p _ s) user

theorem submitISCDeferred_conserved (getTick : Tick) (uid : UserID) (pages ctx : Nat)
    (cb : Bool)
    (inv : Conserved submitted ({.custom ⟨uid, pages, getTick, ctx, cb⟩} + hand) s) :
    Conserved submitted hand (s.submitISCDeferred getTick uid pages ctx cb) := by
  refine inv.moveISC _ s.deferredISCRequests ?_
  simp only [List.map_append, ← Multiset.coe_add, List.map_cons, List.map_nil,
    Multiset.coe_singleton]
  abel

theorem submitISCRequest_conserved (quiet : env.Quiet) (getTick : Tick) (uid : UserID)
    (pages ctx : Nat) (inv : Conserved submitted ({.isc uid pages ctx} + hand) s) :
    Conserved submitted hand
      (s.submitISCRequest p env getTick uid pages (some ctx)).2 := by
  have ready := ensureActiveUser_conserved (p := p) getTick uid inv
  have user := mem_ensureActiveUser (p := p) (s := s) getTick uid
  unfold submitISCRequest
  simp only
  split
  · rename_i held
    rw [quiet.iscCallback]
    exact ready.servePaid .submitISCRequest .isc rfl user held
  · refine ready.moveISC _ _ ?_
    simp only [List.map_append, ← Multiset.coe_add, List.map_cons, List.map_nil,
      Multiset.coe_singleton, ISCDeferredRequest.item]
    abel

/-! ## Dispatch -/

theorem dispatchICL_conserved (quiet : env.Quiet) (req : Request) (now : Tick)
    (inv : Conserved submitted hand s) :
    Conserved submitted hand (s.dispatchICL p env req now).2 := by
  unfold dispatchICL
  split
  · have answered : Conserved submitted hand
        (s.emit (.icl req now (env.icl req now s).1)) := inv.emit _ rfl rfl
    simp only [quiet.icl]
    exact (answered.getOrCreateUser req.userID).frame
      (holdings_modify _ _ _ fun _ => rfl)
  · exact inv

theorem dispatchReentrant_conserved (quiet : env.Quiet) (req : Request) (now : Tick)
    (inv : Conserved submitted hand s) :
    Conserved submitted hand (s.dispatchReentrant p env req now).2 :=
  have opened : Conserved submitted hand { s with inTick := false } := inv.frame rfl
  (dispatchICL_conserved quiet req now opened).frame rfl

theorem drainAdmin_conserved (quiet : env.Quiet) (fuel : Nat) (now : Tick)
    (inv : Conserved submitted hand s) :
    Conserved submitted hand (s.drainAdmin p env fuel now).2 := by
  induction fuel generalizing now s with
  | zero => exact inv
  | succ fuel ih =>
      unfold drainAdmin
      split
      · exact inv
      · rename_i req rest head
        have uid : req.userID = 0 := inv.admin req (head ▸ List.mem_cons_self)
        exact ih _ (dispatchICL_conserved quiet _ _ ((inv.takeAdmin head).serveAdmin uid))

theorem drainDeferred_conserved (quiet : env.Quiet) (n : Nat) (now : Tick)
    (inv : Conserved submitted hand s) :
    Conserved submitted hand (s.drainDeferred p env n now).2 := by
  induction n generalizing now s with
  | zero => exact inv
  | succ n ih =>
      unfold drainDeferred
      split
      · exact inv.frame rfl
      · rename_i dr rest head
        have sound := inv.deferred dr (head ▸ List.mem_cons_self)
        have taken := (inv.takeDeferred head).getOrCreateUser (p := p) dr.req.userID
        simp only
        split
        · rename_i held
          refine ih _ (dispatchReentrant_conserved quiet _ _ ?_)
          rw [sound.1] at held ⊢
          refine taken.servePaid .deferredQueue _ ?_ (mem_getOrCreateUser p _ _) held
          simpa [DeferredRequest.item, Item.isAdmin] using sound.2
        · exact ih _ (taken.putDeferred sound)

theorem resumeReentrant_conserved (quiet : env.Quiet) (dc : DeferredCustom) (now : Tick)
    (inv : Conserved submitted hand s) :
    Conserved submitted hand (s.resumeReentrant env dc now) := by
  unfold resumeReentrant
  split
  · rw [quiet.resume]
    exact inv.frame rfl
  · exact inv

theorem drainDeferredISC_conserved (quiet : env.Quiet) (now : Tick) (n : Nat)
    (inv : Conserved submitted hand s) :
    Conserved submitted hand (s.drainDeferredISC p env now n) := by
  induction n generalizing s with
  | zero => exact inv
  | succ n ih =>
      unfold drainDeferredISC
      split
      · exact inv.frame rfl
      · rename_i dc rest head
        have taken : Conserved submitted ({.custom dc} + hand)
            { s with deferredISC := rest } := by
          refine inv.moveISC rest s.deferredISCRequests ?_
          simp only [head, List.map_cons, ← Multiset.cons_coe, ← Multiset.singleton_add]
          abel
        have found := taken.getOrCreateUser (p := p) dc.uid
        simp only
        split
        · rename_i held
          refine ih (resumeReentrant_conserved quiet _ _ ?_)
          exact found.servePaid .deferredISC .isc rfl (mem_getOrCreateUser p _ _) held
        · refine ih (found.moveISC _ _ ?_)
          simp only [List.map_append, ← Multiset.coe_add, List.map_cons, List.map_nil,
            Multiset.coe_singleton]
          abel

theorem processISCLoop_conserved (quiet : env.Quiet) (now : Tick) (fuel : Nat)
    (remaining : List ISCDeferredRequest)
    (inv : Conserved submitted ((remaining.map ISCDeferredRequest.item) + hand) s) :
    Conserved submitted hand (s.processISCLoop p env now fuel remaining) := by
  induction fuel generalizing remaining s with
  | zero =>
      refine inv.moveISC s.deferredISC _ ?_
      simp only [List.map_append, ← Multiset.coe_add]
      abel
  | succ fuel ih =>
      unfold processISCLoop
      split
      · rename_i empty
        refine inv.moveISC s.deferredISC remaining ?_
        simp only [empty, List.map_nil, Multiset.coe_nil]
        abel
      · rename_i req rest head
        have taken : Conserved submitted
            ({req.item} + ((remaining.map ISCDeferredRequest.item) + hand))
            { s with deferredISCRequests := rest } := by
          refine inv.moveISC s.deferredISC rest ?_
          simp only [head, List.map_cons, ← Multiset.cons_coe, ← Multiset.singleton_add]
          abel
        have found := taken.getOrCreateUser (p := p) req.uid
        simp only
        split
        · rename_i held
          refine ih _ ?_
          rw [quiet.iscCallback]
          exact found.servePaid .processISCRequests .isc rfl (mem_getOrCreateUser p _ _) held
        · refine ih _ ?_
          have : ((remaining ++ [req]).map ISCDeferredRequest.item : Multiset Item) + hand =
              {req.item} + ((remaining.map ISCDeferredRequest.item) + hand) := by
            simp only [List.map_append, ← Multiset.coe_add, List.map_cons, List.map_nil,
              Multiset.coe_singleton]
            abel
          rw [this]
          exact found

/-! ## Round robin -/

theorem modify_charge (s : CreditScheduler) (site : ChargeSite) (cls : ChargeClass) (uid : UserID)
    (pages : Nat)
    (f : UserAccount → UserAccount) (credit : ∀ acc, (f acc).credit = acc.credit)
    (pay : ∀ acc, f (acc.pay cls pages) = (f acc).pay cls pages) :
    (s.charge site cls uid pages).modify uid f =
      (s.modify uid f).charge site cls uid pages := by
  simp [charge, modify, emit, credit, pay]

theorem mem_of_queue_ne_nil (inv : Conserved submitted hand s) {uid : UserID}
    {acc : List Request × List Request × Nat} (h : (s.account uid).holding = acc)
    (nonempty : acc.1 ≠ [] ∨ acc.2.1 ≠ []) : uid ∈ s.users := by
  by_contra absent
  rw [inv.absent uid absent] at h
  subst h
  simp at nonempty

theorem tryDispatchHost_conserved (quiet : env.Quiet) (now : Tick) (order : List UserID)
    (inv : Conserved submitted hand s) :
    Conserved submitted hand (s.tryDispatchHost p env now order).2.2 := by
  induction order generalizing s with
  | nil => exact inv
  | cons uid order ih =>
      unfold tryDispatchHost
      split
      · exact ih inv
      · rename_i front rest head
        have hmem : uid ∈ s.users :=
          mem_of_queue_ne_nil inv rfl (.inl (by simp [UserAccount.holding, head]))
        obtain ⟨owner, user⟩ := inv.owner uid front (by simp [head])
        have taken := inv.takeQueue hmem head
        subst owner
        have sound : (DeferredRequest.mk front front.pages now).pages = front.pages ∧
            front.userID ≠ 0 := ⟨rfl, user⟩
        have known : s.getOrCreateUser p front.userID = s := getOrCreateUser_of_mem hmem
        unfold tryDispatchWithCredit
        simp only [known]
        split
        · simp only [Bool.false_eq_true, if_false]
          exact ih (taken.putDeferred sound)
        · rename_i held
          simp only [if_true]
          refine dispatchReentrant_conserved quiet _ _ ?_
          have chosen : Conserved submitted ({.request front} + hand)
              { s.modify front.userID UserAccount.popQueue with
                lastChosenUid := front.userID } := taken.frame rfl
          rw [modify_charge _ _ _ _ _ UserAccount.popQueue (fun _ => rfl) fun _ => rfl]
          refine chosen.servePaid .hostQueue _ ?_ hmem ?_
          · simpa [Item.isAdmin] using user
          · change front.pages ≤
              ((s.modify front.userID UserAccount.popQueue).account front.userID).credit
            rw [modify_account_self]
            exact not_lt.1 held

theorem tryDispatchISC_conserved (now : Tick) (order : List UserID)
    (inv : Conserved submitted hand s) :
    Conserved submitted hand (s.tryDispatchISC now order).2 := by
  induction order generalizing s with
  | nil => exact inv
  | cons uid order ih =>
      unfold tryDispatchISC
      split
      · exact ih inv
      · rename_i front rest head
        have hmem : uid ∈ s.users :=
          mem_of_queue_ne_nil inv rfl (.inr (by simp [UserAccount.holding, head]))
        obtain ⟨owner, user⟩ := inv.owner uid front (by simp [head])
        have taken := inv.takeQueueISC hmem head
        subst owner
        have sound : (DeferredRequest.mk front front.pages now).pages = front.pages ∧
            front.userID ≠ 0 := ⟨rfl, user⟩
        simp only
        split
        · rename_i held
          have chosen : Conserved submitted ({.request front} + hand)
              { s.modify front.userID UserAccount.popQueueISC with
                lastChosenUidISC := front.userID } := taken.frame rfl
          have commuted : ({ s.charge .queueISC .isc front.userID front.pages with
                lastChosenUidISC := front.userID }.modify front.userID
                UserAccount.popQueueISC) =
              { s.modify front.userID UserAccount.popQueueISC with
                lastChosenUidISC := front.userID }.charge .queueISC .isc front.userID
                front.pages :=
            modify_charge { s with lastChosenUidISC := front.userID } .queueISC .isc
              front.userID front.pages UserAccount.popQueueISC (fun _ => rfl) fun _ => rfl
          rw [commuted]
          refine chosen.servePaid .queueISC .isc ?_ hmem ?_
          · simpa [Item.isAdmin] using user
          · change front.pages ≤
              ((s.modify front.userID UserAccount.popQueueISC).account front.userID).credit
            rw [modify_account_self]
            exact held
        · exact ih (taken.putDeferred sound)

theorem dispatchRounds_conserved (quiet : env.Quiet) (rounds : Nat) (now : Tick)
    (inv : Conserved submitted hand s) :
    Conserved submitted hand (s.dispatchRounds p env rounds now).2 := by
  induction rounds generalizing now s with
  | zero => exact inv
  | succ rounds ih =>
      have gates := tryDispatchISC_conserved now (scanOrder s.lastChosenUidISC s.users) inv
      unfold dispatchRounds
      simp only
      split
      · exact ih _ gates
      · have hosts := tryDispatchHost_conserved (p := p) quiet now (scanOrder
          (tryDispatchISC now (scanOrder s.lastChosenUidISC s.users) s).2.lastChosenUid
          (tryDispatchISC now (scanOrder s.lastChosenUidISC s.users) s).2.users) gates
        split
        · exact ih _ hosts
        · exact hosts

/-! ## The periodic event -/

theorem refillPhase_conserved (inv : Conserved submitted hand s) :
    Conserved submitted hand (s.refillPhase p) := by
  obtain ⟨account, grants⟩ := s.refillGrants_eq p
  have granted : Conserved submitted hand (s.refillGrants p) := by
    refine inv.frame ?_
    have same : ∀ uid, ((s.refillGrants p).account uid).holding =
        (s.account uid).holding := fun uid =>
      refillGrants_field p s uid (·.holding)
        (fun acc => by unfold UserAccount.age; split_ifs <;> rfl) fun _ _ _ _ => rfl
    rw [grants] at same ⊢
    simp only [holdings] at same ⊢
    simp only [same]
  have noted := granted.emit (.refill s.lastGlobalRefillTick
    (grantedBetween true s (s.refillGrants p)) (grantedBetween false s (s.refillGrants p))
    s.beCarry (s.refillGrants p).beCarry) rfl rfl
  refine noted.frame ?_
  simp [refillPhase, grants, holdings, emit]

theorem refill_conserved (now : Tick) (inv : Conserved submitted hand s) :
    Conserved submitted hand (s.refill p now) := by
  have looped : ∀ (fuel : Nat) {t : CreditScheduler}, Conserved submitted hand t →
      Conserved submitted hand (t.refillLoop p now fuel) := by
    intro fuel
    induction fuel with
    | zero => exact id
    | succ fuel ih =>
        intro t inv
        unfold refillLoop
        split
        · exact ih (refillPhase_conserved inv)
        · exact inv
  exact looped _ (inv.emit (.refillCheck now) rfl rfl)

theorem iopsWindow_conserved (now : Tick) (inv : Conserved submitted hand s) :
    Conserved submitted hand (s.iopsWindow p now) := by
  unfold iopsWindow
  simp only
  split
  · refine inv.frame (holdings_mapUsers s _ fun acc => ?_)
    unfold UserAccount.resetWindow
    split <;> rfl
  · exact inv.frame rfl

theorem processISCRequests_conserved (quiet : env.Quiet) (now : Tick)
    (inv : Conserved submitted hand s) :
    Conserved submitted hand (s.processISCRequests p env now) :=
  processISCLoop_conserved quiet now _ [] (by simpa using inv)

theorem tick_conserved (quiet : env.Quiet) (now : Tick) (inv : Conserved submitted hand s) :
    Conserved submitted hand (s.tick p env now).2 := by
  unfold tick
  split
  · exact inv
  · have entered : Conserved submitted hand { s with inTick := true } := inv.frame rfl
    refine Conserved.frame (dispatchRounds_conserved quiet _ _ ?_) rfl
    refine processISCRequests_conserved quiet _ ?_
    refine drainDeferredISC_conserved quiet _ _ ?_
    refine drainDeferred_conserved quiet _ _ ?_
    refine refill_conserved _ ?_
    exact drainAdmin_conserved quiet _ _ (iopsWindow_conserved now entered)

theorem processLoop_conserved (quiet : env.Quiet) (uid : UserID) (iterations : Nat)
    (completionTick : Tick) (inv : Conserved submitted hand s) :
    Conserved submitted hand (s.processLoop p env uid iterations completionTick).2 := by
  induction iterations generalizing completionTick s with
  | zero => exact inv
  | succ iterations ih =>
      have ticked := tick_conserved (p := p) quiet completionTick inv
      unfold processLoop
      simp only
      split
      · exact ih _ ticked
      · exact ticked

end Functions

/-! ## Runs -/

def Op.submits : Op → List Item
  | .submitRequest _ req | .processUntil _ req _ => [.request req]
  | .submitISCDeferred getTick uid pages ctx cb => [.custom ⟨uid, pages, getTick, ctx, cb⟩]
  | .submitISCRequest _ uid pages (some ctx) => [.isc uid pages ctx]
  | _ => []

/-- Everything but the direct charges and the statistics reset. -/
def Op.isFlow : Op → Bool
  | .useCredit _ _ | .useCreditISC _ _ | .resetStatValues _ => false
  | _ => true

def submitted (ops : List Op) : List Item := ops.flatMap Op.submits

/-- Runs without a statistics reset whose callbacks leave the scheduler alone;
the latest call stands first. -/
inductive QuietRuns (p : Params) (s : CreditScheduler) :
    List Op → CreditScheduler → Prop
  | refl : QuietRuns p s [] s
  | next {ops : List Op} {t : CreditScheduler} (env : Env) (op : Op)
      (earlier : QuietRuns p s ops t) (quiet : env.Quiet) (flow : op.isFlow = true) :
      QuietRuns p s (op :: ops) (op.run p env t)

variable {p : Params} {s : CreditScheduler}

theorem Conserved.receive {sub hand : Multiset Item} (inv : Conserved sub hand s)
    (items : Multiset Item) : Conserved (items + sub) (items + hand) s :=
  { inv with
    balance := by
      rw [← inv.balance]
      abel }

theorem Op.run_conserved {env : Env} (quiet : env.Quiet) (op : Op) (flow : op.isFlow = true)
    {sub : Multiset Item} (inv : Conserved sub 0 s) :
    Conserved (op.submits + sub) 0 (op.run p env s) := by
  have received := inv.receive op.submits
  cases op with
  | submitRequest getTick req => exact submitRequest_conserved getTick received
  | submitISCDeferred getTick uid pages ctx cb =>
      exact submitISCDeferred_conserved getTick uid pages ctx cb received
  | submitISCRequest getTick uid pages iscContext =>
      cases iscContext with
      | none => simpa [Op.submits, Op.run, CreditScheduler.submitISCRequest] using inv
      | some ctx => exact submitISCRequest_conserved quiet getTick uid pages ctx received
  | ensureActiveUser getTick uid => exact ensureActiveUser_conserved getTick uid received
  | tick now => exact tick_conserved quiet now received
  | processISCRequests now => exact processISCRequests_conserved quiet now received
  | processEvent now => exact (tick_conserved quiet now received).frame rfl
  | processUntil getTick req completionTick =>
      exact processLoop_conserved quiet _ _ _ (submitRequest_conserved getTick received)
  | useCredit uid used => contradiction
  | useCreditISC uid used => contradiction
  | resetStatValues getTick => contradiction

theorem start_nodup (p : Params) (uids : List UserID) (profile : UserID → Profile) :
    (start p uids profile).users.Nodup ∧ ∀ uid, uid ∉ (start p uids profile).users →
      ((start p uids profile).account uid).holding = ([], [], 0) := by
  have fresh := start_fresh p uids profile
  refine ⟨?_, fun uid _ => by
    simp [UserAccount.holding, fresh.queue, fresh.queueISC, fresh.totalConsumed]⟩
  refine start_induction (fun s => s.users.Nodup) List.nodup_nil ?_ ?_
  · intro s uid nodup
    unfold getOrCreateUser
    split
    · exact nodup
    · rename_i absent
      exact (p.emplaceOrder_perm s.users uid).nodup_iff.2
        (List.nodup_cons.2 ⟨absent, nodup⟩)
  · exact fun s uid profile nodup => nodup

theorem start_conserved (p : Params) (uids : List UserID) (profile : UserID → Profile) :
    Conserved 0 0 (start p uids profile) := by
  have fresh := start_fresh p uids profile
  obtain ⟨nodup, absent⟩ := start_nodup p uids profile
  refine ⟨nodup, absent, ?_, fun uid => ?_, ?_, ?_, ?_, fun uid => ?_⟩
  · simp [fresh.adminQueue]
  · simp [fresh.queue, fresh.queueISC]
  · simp [fresh.deferredQueue]
  · simp [waiting, UserAccount.items, served, fresh.adminQueue, fresh.queue, fresh.queueISC,
      fresh.deferredQueue, fresh.deferredISC, fresh.deferredISCRequests, fresh.trace]
  · rw [fresh.trace]
    exact .nil
  · simp [fresh.totalConsumed, fresh.trace, consumed, charges]

theorem QuietRuns.conserved {uids : List UserID} {profile : UserID → Profile}
    {ops : List Op} (run : QuietRuns p (start p uids profile) ops s) :
    Conserved (submitted ops) 0 s := by
  induction run with
  | refl => exact start_conserved p uids profile
  | next env op _ quiet flow ih =>
      have stepped := Op.run_conserved (p := p) quiet op flow ih
      simpa [submitted, ← Multiset.coe_add] using stepped

/-- Every submitted item waits in exactly one container, that of its user where
there are several, or has been served, once; and the charges made are those of
the served items of other users than 0, each of its pages and each in the step
in which the item was served. -/
theorem requests_conserved (p : Params) (uids : List UserID) (profile : UserID → Profile)
    (ops : List Op) (s : CreditScheduler)
    (run : QuietRuns p (start p uids profile) ops s) :
    s.waiting + served s.trace = submitted ops ∧
    s.users.Nodup ∧
    (∀ req ∈ s.adminQueue, req.userID = 0) ∧
    (∀ uid, ∀ req ∈ (s.account uid).queue ++ (s.account uid).queueISC, req.userID = uid) ∧
    PaidInStep s.trace ∧
    charges s.trace = ((served s.trace).filter fun item => !item.isAdmin).map
      (fun item => (item.uid, item.pages)) ∧
    (∀ uid, (s.account uid).totalConsumed = consumed uid s.trace) := by
  have inv := run.conserved
  exact ⟨by simpa using inv.balance, inv.nodup, inv.admin,
    fun uid req hmem => (inv.owner uid req hmem).1, inv.paid, inv.paid.charges_eq,
    inv.consumed⟩

def deferredOps : List Op := [.tick 1500, .tick 10, .submitRequest 0 (.ofPages .read 1001 2)]

def deferredRead : CreditScheduler :=
  deferredOps.foldr (Op.run .small .idle) (construct .small)

theorem deferredRead_run :
    QuietRuns .small (start .small [] fun _ => .standard) deferredOps deferredRead :=
  .next _ _ (.next _ _ (.next _ _ .refl Env.idle_quiet rfl) Env.idle_quiet rfl)
    Env.idle_quiet rfl

theorem requests_conserved_deferredRead :
    charges deferredRead.trace = [(1001, 2)] ∧
      deferredRead.waiting + served deferredRead.trace =
        (submitted deferredOps : Multiset Item) :=
  ⟨by decide +kernel, (requests_conserved .small [] (fun _ => .standard) deferredOps _
    deferredRead_run).1⟩

end SimpleSSD.HIL.CreditScheduler
