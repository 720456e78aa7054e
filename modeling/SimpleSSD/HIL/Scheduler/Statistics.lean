import SimpleSSD.HIL.Scheduler.Phase
import SimpleSSD.HIL.Scheduler.Run

/-!
# What the statistics do not decide

Some fields of an account are written and never read by a function that serves
requests.  Two schedulers that differ in these alone are alike, and every public
function keeps them alike: the same requests are charged and served.
-/

namespace SimpleSSD.HIL.CreditScheduler

/-- The account without the fields that no service depends on. -/
def UserAccount.service (acc : UserAccount) : UserAccount :=
  { acc with consumedHost := 0, consumedISC := 0, lastRefillTick := 0, pendingGates := 0 }

def serviceState (s : CreditScheduler) : CreditScheduler :=
  { s with account := fun uid => (s.account uid).service }

def Alike (s s' : CreditScheduler) : Prop := s.serviceState = s'.serviceState

structure Env.IgnoresStatistics (env : Env) : Prop where
  icl : ∀ req now s s', Alike s s' →
    (env.icl req now s).1 = (env.icl req now s').1 ∧
      Alike (env.icl req now s).2 (env.icl req now s').2
  resume : ∀ dc now s s', Alike s s' → Alike (env.resume dc now s) (env.resume dc now s')
  iscCallback : ∀ ctx now s s', Alike s s' →
    Alike (env.iscCallback ctx now s) (env.iscCallback ctx now s')

variable {p : Params} {env : Env} {s s' : CreditScheduler}

/-! ## One field at a time -/

namespace Alike

theorem eq (h : Alike s s') : s.serviceState = s'.serviceState := h

theorem member {α : Type*} (h : Alike s s') (f : CreditScheduler → α)
    (reads : ∀ t, f t.serviceState = f t) : f s = f s' := by
  rw [← reads s, ← reads s', h.eq]

theorem account (h : Alike s s') (uid : UserID) :
    (s.account uid).service = (s'.account uid).service :=
  h.member (fun t => (t.account uid).service) fun _ => rfl

theorem field {α : Type*} (h : Alike s s') (uid : UserID) (f : UserAccount → α)
    (reads : ∀ acc, f acc.service = f acc) :
    f (s.account uid) = f (s'.account uid) := by
  rw [← reads (s.account uid), ← reads (s'.account uid), h.account]

theorem credit (h : Alike s s') (uid : UserID) :
    (s.account uid).credit = (s'.account uid).credit := h.field uid (·.credit) fun _ => rfl
theorem isActive (h : Alike s s') (uid : UserID) :
    (s.account uid).isActive = (s'.account uid).isActive :=
  h.field uid (·.isActive) fun _ => rfl
theorem queue (h : Alike s s') (uid : UserID) :
    (s.account uid).queue = (s'.account uid).queue := h.field uid (·.queue) fun _ => rfl
theorem queueISC (h : Alike s s') (uid : UserID) :
    (s.account uid).queueISC = (s'.account uid).queueISC :=
  h.field uid (·.queueISC) fun _ => rfl
theorem users (h : Alike s s') : s.users = s'.users := h.member (·.users) fun _ => rfl
theorem adminQueue (h : Alike s s') : s.adminQueue = s'.adminQueue :=
  h.member (·.adminQueue) fun _ => rfl
theorem lastChosenUid (h : Alike s s') : s.lastChosenUid = s'.lastChosenUid :=
  h.member (·.lastChosenUid) fun _ => rfl
theorem lastChosenUidISC (h : Alike s s') : s.lastChosenUidISC = s'.lastChosenUidISC :=
  h.member (·.lastChosenUidISC) fun _ => rfl
theorem inTick (h : Alike s s') : s.inTick = s'.inTick :=
  h.member (·.inTick) fun _ => rfl
theorem timerStarted (h : Alike s s') : s.timerStarted = s'.timerStarted :=
  h.member (·.timerStarted) fun _ => rfl
theorem nextPhase (h : Alike s s') : s.lastGlobalRefillTick = s'.lastGlobalRefillTick :=
  h.member (·.lastGlobalRefillTick) fun _ => rfl
theorem deferredQueue (h : Alike s s') : s.deferredQueue = s'.deferredQueue :=
  h.member (·.deferredQueue) fun _ => rfl
theorem deferredISC (h : Alike s s') : s.deferredISC = s'.deferredISC :=
  h.member (·.deferredISC) fun _ => rfl
theorem deferredISCRequests (h : Alike s s') :
    s.deferredISCRequests = s'.deferredISCRequests :=
  h.member (·.deferredISCRequests) fun _ => rfl
theorem lastStatTick (h : Alike s s') : s.lastStatTick = s'.lastStatTick :=
  h.member (·.lastStatTick) fun _ => rfl
theorem trace (h : Alike s s') : s.trace = s'.trace := h.member (·.trace) fun _ => rfl

theorem refl (s : CreditScheduler) : Alike s s := rfl

theorem update (h : Alike s s') (f : CreditScheduler → CreditScheduler)
    (commutes : ∀ t, (f t).serviceState = f t.serviceState) :
    Alike (f s) (f s') := by
  unfold Alike
  rw [commutes, commutes, h.eq]

theorem withAccounts (h : Alike s s') {account account' : UserID → UserAccount}
    (alike : ∀ uid, (account uid).service = (account' uid).service) :
    Alike { s with account := account } { s' with account := account' } := by
  change { s.serviceState with account := fun uid => (account uid).service } =
    { s'.serviceState with account := fun uid => (account' uid).service }
  rw [h.eq, funext alike]

theorem emit (h : Alike s s') (event : Event) : Alike (s.emit event) (s'.emit event) :=
  h.update (·.emit event) fun _ => rfl

theorem modify (h : Alike s s') (uid : UserID) {f g : UserAccount → UserAccount}
    (alike : (f (s.account uid)).service = (g (s'.account uid)).service) :
    Alike (s.modify uid f) (s'.modify uid g) := by
  refine h.withAccounts fun other => ?_
  change ((s.modify uid f).account other).service = ((s'.modify uid g).account other).service
  rw [modify_account, modify_account]
  split
  · exact alike
  · exact h.account other

theorem modifyBy (h : Alike s s') (uid : UserID) {f : UserAccount → UserAccount}
    (respects : ∀ acc, (f acc.service).service = (f acc).service) :
    Alike (s.modify uid f) (s'.modify uid f) := by
  refine h.modify uid ?_
  rw [← respects (s.account uid), ← respects (s'.account uid), h.account]

theorem mapUsers (h : Alike s s') {f : UserAccount → UserAccount}
    (respects : ∀ acc, (f acc.service).service = (f acc).service) :
    Alike (s.mapUsers f) (s'.mapUsers f) := by
  refine h.withAccounts fun uid => ?_
  rw [h.users]
  split
  · rw [← respects (s.account uid), ← respects (s'.account uid), h.account]
  · exact h.account uid

theorem getOrCreateUser (h : Alike s s') (uid : UserID) :
    Alike (s.getOrCreateUser p uid) (s'.getOrCreateUser p uid) := by
  unfold CreditScheduler.getOrCreateUser
  rw [h.users]
  split
  · exact h
  · have entered := h.update (fun t =>
      { t with users := p.emplaceOrder s'.users uid }) fun _ => rfl
    refine entered.withAccounts fun other => ?_
    by_cases same : other = uid
    · rw [same, Function.update_self, Function.update_self]
    · rw [Function.update_of_ne same, Function.update_of_ne same]
      exact h.account other

theorem charge (h : Alike s s') (site : ChargeSite) (cls : ChargeClass) (uid : UserID)
    (pages : Nat) : Alike (s.charge site cls uid pages) (s'.charge site cls uid pages) := by
  unfold CreditScheduler.charge
  rw [h.credit uid]
  exact (h.modifyBy uid fun _ => rfl).emit _

theorem activate (h : Alike s s') (getTick : Tick) (uid : UserID) :
    Alike (s.activate p getTick uid) (s'.activate p getTick uid) := by
  unfold CreditScheduler.activate
  rw [h.isActive uid]
  split
  · exact h
  · have active := h.modifyBy uid (f := UserAccount.activate getTick) fun _ => rfl
    simp only [active.timerStarted]
    split
    · exact active
    · exact active.update (·.startTimer p getTick) fun _ => rfl

theorem ensureActiveUser (h : Alike s s') (getTick : Tick) (uid : UserID) :
    Alike (s.ensureActiveUser p getTick uid) (s'.ensureActiveUser p getTick uid) :=
  (h.getOrCreateUser uid).activate getTick uid

theorem submitRequest (h : Alike s s') (getTick : Tick) (req : Request) :
    Alike (s.submitRequest p getTick req) (s'.submitRequest p getTick req) := by
  unfold CreditScheduler.submitRequest
  split
  · exact h.update (fun t => { t with adminQueue := t.adminQueue ++ [req] }) fun _ => rfl
  · refine ((h.getOrCreateUser req.userID).modifyBy req.userID fun acc => ?_).activate _ _
    unfold enqueue
    split
    · rfl
    · rfl

/-! ## The refill -/

theorem refillSLO (h : Alike s s') : Alike (s.refillSLO p) (s'.refillSLO p) := by
  unfold CreditScheduler.refillSLO
  rw [h.member (·.activeWeight true) fun _ => rfl]
  split
  · refine h.withAccounts fun uid => ?_
    rw [h.member (activeUsers true ·) fun _ => rfl]
    split
    · change { (s.account uid).service with
          credit := (s.account uid).credit + sloGrant p s uid
          carry := sloPendingCarry p s uid } =
        { (s'.account uid).service with
          credit := (s'.account uid).credit + sloGrant p s' uid
          carry := sloPendingCarry p s' uid }
      rw [h.account, h.credit uid, h.member (sloGrant p · uid) fun _ => rfl,
        h.member (sloPendingCarry p · uid) fun _ => rfl]
    · exact h.account uid
  · exact h

theorem refillBE (h : Alike s s') (spill : ℚ≥0) :
    Alike (s.refillBE spill) (s'.refillBE spill) := by
  unfold CreditScheduler.refillBE
  rw [h.member (·.activeWeight false) fun _ => rfl]
  split
  · refine h.withAccounts fun uid => ?_
    rw [h.member (activeUsers false ·) fun _ => rfl]
    split
    · change { (s.account uid).service with
          credit := (s.account uid).credit + beAdd spill s uid
          carry := beSum spill s uid - beAdd spill s uid } =
        { (s'.account uid).service with
          credit := (s'.account uid).credit + beAdd spill s' uid
          carry := beSum spill s' uid - beAdd spill s' uid }
      rw [h.account, h.credit uid, h.member (beAdd spill · uid) fun _ => rfl,
        h.member (beSum spill · uid) fun _ => rfl]
    · exact h.account uid
  · exact h

theorem refillGrants (h : Alike s s') : Alike (s.refillGrants p) (s'.refillGrants p) := by
  have aged : Alike (s.mapUsers UserAccount.age) (s'.mapUsers UserAccount.age) :=
    h.mapUsers fun acc => by
      unfold UserAccount.age UserAccount.service
      dsimp only
      split_ifs <;> rfl
  unfold CreditScheduler.refillGrants
  simp only [aged.member (spillToBE p ·) fun _ => rfl]
  exact aged.refillSLO.refillBE _

theorem grantedBetween {t t' : CreditScheduler} (h : Alike s s') (later : Alike t t')
    (slo : Bool) : s.grantedBetween slo t = s'.grantedBetween slo t' := by
  unfold CreditScheduler.grantedBetween
  rw [h.member (classUsers slo ·) fun _ => rfl]
  congr 1
  refine List.map_congr_left fun uid _ => ?_
  rw [h.credit uid, later.credit uid]

theorem carries (h : Alike s s') : s.beCarry = s'.beCarry := h.member beCarry fun _ => rfl

theorem refillPhase (h : Alike s s') : Alike (s.refillPhase p) (s'.refillPhase p) := by
  have grants : Alike (s.refillGrants p) (s'.refillGrants p) := h.refillGrants
  unfold CreditScheduler.refillPhase
  simp only [h.nextPhase, h.trace, h.grantedBetween grants, h.carries, grants.carries]
  exact grants.update (fun t => { t with
    lastGlobalRefillTick := s'.lastGlobalRefillTick + p.periodTicks
    trace := .refill s'.lastGlobalRefillTick (s'.grantedBetween true (s'.refillGrants p))
      (s'.grantedBetween false (s'.refillGrants p)) s'.beCarry (s'.refillGrants p).beCarry ::
      s'.trace }) fun _ => rfl

theorem refillLoop (h : Alike s s') (now : Tick) (fuel : Nat) :
    Alike (s.refillLoop p now fuel) (s'.refillLoop p now fuel) := by
  induction fuel generalizing s s' with
  | zero => exact h
  | succ fuel ih =>
      unfold CreditScheduler.refillLoop
      rw [h.timerStarted, h.nextPhase]
      split
      · exact ih h.refillPhase
      · exact h

theorem refill (h : Alike s s') (now : Tick) : Alike (s.refill p now) (s'.refill p now) := by
  unfold CreditScheduler.refill
  rw [h.nextPhase]
  exact (h.emit _).refillLoop now _

/-! ## Dispatch -/

abbrev Both (r r' : Tick × CreditScheduler) : Prop := r.1 = r'.1 ∧ Alike r.2 r'.2

section Dispatch

variable (ignores : env.IgnoresStatistics)

include ignores

theorem dispatchICL (h : Alike s s') (req : Request) (now : Tick) :
    Both (s.dispatchICL p env req now) (s'.dispatchICL p env req now) := by
  unfold CreditScheduler.dispatchICL
  split
  · obtain ⟨done, after⟩ := ignores.icl req now s s' h
    refine ⟨done, ?_⟩
    simp only [done]
    exact ((after.emit _).getOrCreateUser _).modifyBy _ fun _ => rfl
  · exact ⟨rfl, h⟩

theorem dispatchReentrant (h : Alike s s') (req : Request) (now : Tick) :
    Both (s.dispatchReentrant p env req now) (s'.dispatchReentrant p env req now) := by
  have opened : Alike { s with inTick := false } { s' with inTick := false } :=
    h.update (fun t => { t with inTick := false }) fun _ => rfl
  obtain ⟨done, after⟩ := opened.dispatchICL ignores (p := p) req now
  exact ⟨done, after.update (fun t => { t with inTick := true }) fun _ => rfl⟩

omit ignores in
theorem tryDispatchWithCredit (h : Alike s s') (req : Request) (now : Tick) :
    (s.tryDispatchWithCredit p req now).1 = (s'.tryDispatchWithCredit p req now).1 ∧
      Alike (s.tryDispatchWithCredit p req now).2 (s'.tryDispatchWithCredit p req now).2 := by
  have found := h.getOrCreateUser (p := p) req.userID
  unfold CreditScheduler.tryDispatchWithCredit
  simp only [found.credit req.userID]
  split
  · exact ⟨rfl, found.update (fun t =>
      { t with deferredQueue := t.deferredQueue ++ [⟨req, req.pages, now⟩] }) fun _ => rfl⟩
  · exact ⟨rfl, found.charge _ _ _ _⟩

omit ignores in
theorem iopsWindow (h : Alike s s') (now : Tick) :
    Alike (s.iopsWindow p now) (s'.iopsWindow p now) := by
  unfold CreditScheduler.iopsWindow
  simp only [h.lastStatTick]
  split
  · refine Alike.update ?_ (fun t => { t with lastStatTick := some now }) fun _ => rfl
    refine h.mapUsers fun acc => ?_
    unfold UserAccount.resetWindow UserAccount.service
    dsimp only
    split_ifs <;> rfl
  · exact h.update (fun t =>
      { t with lastStatTick := some (s'.lastStatTick.getD now) }) fun _ => rfl

theorem drainAdmin (h : Alike s s') (fuel : Nat) (now : Tick) :
    Both (s.drainAdmin p env fuel now) (s'.drainAdmin p env fuel now) := by
  induction fuel generalizing now s s' with
  | zero => exact ⟨rfl, h⟩
  | succ fuel ih =>
      unfold CreditScheduler.drainAdmin
      rw [h.adminQueue]
      split
      · exact ⟨rfl, h⟩
      next req rest _ =>
        have popped := (h.update (fun t => { t with adminQueue := rest }) fun _ => rfl).emit
          (.serve (.request req))
        obtain ⟨done, after⟩ := popped.dispatchICL ignores (p := p) req now
        simp only [done]
        exact ih after _

theorem drainDeferred (h : Alike s s') (n : Nat) (now : Tick) :
    Both (s.drainDeferred p env n now) (s'.drainDeferred p env n now) := by
  induction n generalizing now s s' with
  | zero => exact ⟨rfl, h⟩
  | succ n ih =>
      unfold CreditScheduler.drainDeferred
      rw [h.deferredQueue]
      split
      · exact ⟨rfl, h.update (fun t =>
          { t with deferredQueue := s'.deferredQueue, fault := true }) fun _ => rfl⟩
      next dr rest _ =>
        have popped := (h.update (fun t =>
          { t with deferredQueue := rest }) fun _ => rfl).getOrCreateUser (p := p) dr.req.userID
        simp only [popped.credit dr.req.userID]
        split
        · obtain ⟨done, after⟩ := ((popped.charge .deferredQueue (.ofOp dr.req.op)
            dr.req.userID dr.pages).emit (.serve (.request dr.req))).dispatchReentrant
              ignores (p := p) dr.req now
          simp only [done]
          exact ih after _
        · exact ih (popped.update (fun t =>
            { t with deferredQueue := t.deferredQueue ++ [dr] }) fun _ => rfl) _

theorem resumeReentrant (h : Alike s s') (dc : DeferredCustom) (now : Tick) :
    Alike (s.resumeReentrant env dc now) (s'.resumeReentrant env dc now) := by
  unfold CreditScheduler.resumeReentrant
  split
  · have opened := h.update (fun t => { t with inTick := false }) fun _ => rfl
    exact (ignores.resume dc now _ _ opened).update
      (fun t => { t with inTick := true }) fun _ => rfl
  · exact h

theorem drainDeferredISC (h : Alike s s') (now : Tick) (n : Nat) :
    Alike (s.drainDeferredISC p env now n) (s'.drainDeferredISC p env now n) := by
  induction n generalizing s s' with
  | zero => exact h
  | succ n ih =>
      unfold CreditScheduler.drainDeferredISC
      rw [h.deferredISC]
      split
      · exact h.update (fun t =>
          { t with deferredISC := s'.deferredISC, fault := true }) fun _ => rfl
      next dc rest _ =>
        have popped := (h.update (fun t =>
          { t with deferredISC := rest }) fun _ => rfl).getOrCreateUser (p := p) dc.uid
        simp only [popped.credit dc.uid]
        split
        · exact ih (((popped.charge _ _ _ _).emit _).resumeReentrant ignores _ _)
        · exact ih (popped.update (fun t =>
            { t with deferredISC := t.deferredISC ++ [dc] }) fun _ => rfl)

theorem processISCLoop (h : Alike s s') (now : Tick) (fuel : Nat)
    (remaining : List ISCDeferredRequest) :
    Alike (s.processISCLoop p env now fuel remaining)
      (s'.processISCLoop p env now fuel remaining) := by
  induction fuel generalizing remaining s s' with
  | zero => exact h.update (fun t =>
      { t with deferredISCRequests := t.deferredISCRequests ++ remaining }) fun _ => rfl
  | succ fuel ih =>
      unfold CreditScheduler.processISCLoop
      rw [h.deferredISCRequests]
      split
      · exact h.update (fun t => { t with deferredISCRequests := remaining }) fun _ => rfl
      next req rest _ =>
        have popped := (h.update (fun t =>
          { t with deferredISCRequests := rest }) fun _ => rfl).getOrCreateUser (p := p) req.uid
        simp only [popped.credit req.uid]
        split
        · exact ih (ignores.iscCallback _ _ _ _ ((popped.charge _ _ _ _).emit _)) _
        · exact ih popped _

theorem processISCRequests (h : Alike s s') (now : Tick) :
    Alike (s.processISCRequests p env now) (s'.processISCRequests p env now) := by
  unfold CreditScheduler.processISCRequests
  rw [h.deferredISCRequests]
  exact h.processISCLoop ignores now _ _

theorem tryDispatchHost (h : Alike s s') (now : Tick) (order : List UserID) :
    (s.tryDispatchHost p env now order).1 = (s'.tryDispatchHost p env now order).1 ∧
      Both (s.tryDispatchHost p env now order).2 (s'.tryDispatchHost p env now order).2 := by
  induction order generalizing s s' with
  | nil => exact ⟨rfl, rfl, h⟩
  | cons uid order ih =>
      unfold CreditScheduler.tryDispatchHost
      rw [h.queue uid]
      split
      · exact ih h
      next front _ _ =>
        obtain ⟨paid, tried⟩ := h.tryDispatchWithCredit (p := p) front now
        have popped := tried.modifyBy uid (f := UserAccount.popQueue) fun _ => rfl
        simp only [paid]
        split
        · have chosen := popped.update (fun t => { t with lastChosenUid := uid }) fun _ => rfl
          exact ⟨rfl, (chosen.emit (.serve (.request front))).dispatchReentrant ignores
            front now⟩
        · exact ih popped

omit ignores in
theorem tryDispatchISC (h : Alike s s') (now : Tick) (order : List UserID) :
    (s.tryDispatchISC now order).1 = (s'.tryDispatchISC now order).1 ∧
      Alike (s.tryDispatchISC now order).2 (s'.tryDispatchISC now order).2 := by
  induction order generalizing s s' with
  | nil => exact ⟨rfl, h⟩
  | cons uid order ih =>
      unfold CreditScheduler.tryDispatchISC
      rw [h.queueISC uid, h.credit uid]
      split
      · exact ih h
      next front _ _ =>
        simp only
        split
        · exact ⟨rfl, (((h.charge _ _ _ _).update (fun t =>
            { t with lastChosenUidISC := uid }) fun _ => rfl).modifyBy uid fun _ => rfl).emit _⟩
        · have deferred := h.update (fun t => { t with
            deferredQueue := t.deferredQueue ++ [⟨front, front.pages, now⟩] }) fun _ => rfl
          exact ih (deferred.modifyBy uid fun _ => rfl)

theorem dispatchRounds (h : Alike s s') (rounds : Nat) (now : Tick) :
    Both (s.dispatchRounds p env rounds now) (s'.dispatchRounds p env rounds now) := by
  induction rounds generalizing now s s' with
  | zero => exact ⟨rfl, h⟩
  | succ rounds ih =>
      unfold CreditScheduler.dispatchRounds
      rw [h.lastChosenUidISC, h.users]
      obtain ⟨gate, gates⟩ := h.tryDispatchISC now (scanOrder s'.lastChosenUidISC s'.users)
      generalize s.tryDispatchISC now (scanOrder s'.lastChosenUidISC s'.users) = isc
        at gate gates ⊢
      generalize s'.tryDispatchISC now (scanOrder s'.lastChosenUidISC s'.users) = isc'
        at gate gates ⊢
      simp only [gate]
      split
      · exact ih gates now
      · rw [gates.lastChosenUid, gates.users]
        obtain ⟨host, done, hosts⟩ := gates.tryDispatchHost ignores (p := p) now
          (scanOrder isc'.2.lastChosenUid isc'.2.users)
        simp only [host]
        split
        · simp only [done]
          exact ih hosts _
        · exact ⟨done, hosts⟩

theorem serviceQueues (h : Alike s s') (now : Tick) :
    Both (s.serviceQueues p env now) (s'.serviceQueues p env now) := by
  unfold CreditScheduler.serviceQueues
  simp only [h.deferredQueue]
  obtain ⟨done, deferred⟩ := h.drainDeferred ignores (p := p) s'.deferredQueue.length now
  simp only [done, deferred.deferredISC]
  exact ((deferred.drainDeferredISC ignores _ _).processISCRequests ignores _).dispatchRounds
    ignores _ _

theorem tick (h : Alike s s') (now : Tick) : Both (s.tick p env now) (s'.tick p env now) := by
  unfold CreditScheduler.tick
  rw [h.inTick]
  split
  · exact ⟨rfl, h⟩
  · have entered := h.update (fun t => { t with inTick := true }) fun _ => rfl
    have window := entered.iopsWindow (p := p) now
    generalize CreditScheduler.iopsWindow p now { s with inTick := true } = t at window ⊢
    generalize CreditScheduler.iopsWindow p now { s' with inTick := true } = t' at window ⊢
    obtain ⟨done, admin⟩ := window.drainAdmin ignores (p := p)
      (t'.adminQueue.length + env.fuel) now
    simp only [window.adminQueue, done]
    obtain ⟨last, served⟩ := (admin.refill (p := p) _).serviceQueues ignores (p := p) _
    exact ⟨last, served.update (fun t => { t with inTick := false }) fun _ => rfl⟩

theorem processEvent (h : Alike s s') (now : Tick) :
    Alike (s.processEvent p env now) (s'.processEvent p env now) := by
  obtain ⟨-, ticked⟩ := h.tick ignores (p := p) now
  exact ticked.update (fun t => { t with refillEvent := some t.lastGlobalRefillTick }) fun _ => rfl

theorem processLoop (h : Alike s s') (uid : UserID) (iterations : Nat) (completionTick : Tick) :
    Both (s.processLoop p env uid iterations completionTick)
      (s'.processLoop p env uid iterations completionTick) := by
  induction iterations generalizing completionTick s s' with
  | zero => exact ⟨rfl, h⟩
  | succ iterations ih =>
      obtain ⟨done, ticked⟩ := h.tick ignores (p := p) completionTick
      unfold CreditScheduler.processLoop
      simp only [ticked.member (hasPending uid ·) fun _ => rfl, done]
      split
      · exact ih ticked _
      · exact ⟨done, ticked⟩

theorem submitISCRequest (h : Alike s s') (getTick : Tick) (uid : UserID) (pages : Nat)
    (iscContext : Option Nat) :
    Alike (s.submitISCRequest p env getTick uid pages iscContext).2
      (s'.submitISCRequest p env getTick uid pages iscContext).2 := by
  cases iscContext with
  | none => exact h
  | some ctx =>
      have ready := h.ensureActiveUser (p := p) getTick uid
      unfold CreditScheduler.submitISCRequest
      simp only [ready.credit uid]
      split
      · exact ignores.iscCallback _ _ _ _ ((ready.charge _ _ _ _).emit _)
      · simp only [ready.member (predictISCLatency pages ·) fun _ => rfl]
        exact ready.update (fun t => { t with
          deferredISCRequests := t.deferredISCRequests ++ [⟨uid, pages, ctx, getTick,
            (s'.ensureActiveUser p getTick uid).predictISCLatency pages⟩] }) fun _ => rfl

omit ignores in
theorem useCreditAs (h : Alike s s') (site : ChargeSite) (cls : ChargeClass) (uid : UserID)
    (used : Nat) : Alike (s.useCreditAs p site cls uid used)
      (s'.useCreditAs p site cls uid used) := by
  have found := h.getOrCreateUser (p := p) uid
  unfold CreditScheduler.useCreditAs
  simp only [found.credit uid]
  exact found.charge _ _ _ _

omit ignores in
theorem resetStatValues (h : Alike s s') (getTick : Tick) :
    Alike (s.resetStatValues getTick) (s'.resetStatValues getTick) :=
  (h.mapUsers fun _ => rfl).update (fun t =>
    { t with adminQueue := [], lastChosenUid := 0, lastGlobalRefillTick := 0 }) fun _ => rfl

theorem run (h : Alike s s') (op : Op) : Alike (op.run p env s) (op.run p env s') := by
  cases op with
  | submitRequest getTick req => exact h.submitRequest getTick req
  | submitISCDeferred getTick uid pages ctx cb =>
      exact h.update (·.submitISCDeferred getTick uid pages ctx cb) fun _ => rfl
  | submitISCRequest getTick uid pages iscContext =>
      exact h.submitISCRequest ignores getTick uid pages iscContext
  | ensureActiveUser getTick uid => exact h.ensureActiveUser getTick uid
  | tick now => exact (h.tick ignores now).2
  | processISCRequests now => exact h.processISCRequests ignores now
  | processEvent now => exact h.processEvent ignores now
  | processUntil getTick req completionTick =>
      exact ((h.submitRequest getTick req).processLoop ignores _ _ completionTick).2
  | useCredit uid used => exact h.useCreditAs _ _ uid used
  | useCreditISC uid used => exact h.useCreditAs _ _ uid used
  | resetStatValues getTick => exact h.resetStatValues getTick

end Dispatch

end Alike

end SimpleSSD.HIL.CreditScheduler
