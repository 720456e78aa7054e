import SimpleSSD.HIL.Scheduler.Reentry
import SimpleSSD.HIL.Scheduler.Service

/-!
# What `pendingForUser` counts

`pendingGates` is raised for every gate that is handed in and lowered by nothing but the
statistics reset.  It counts the gates that wait together with those that have been
eaten, so `pendingForUser` answers for the gates that wait as long as none was eaten.
-/

namespace SimpleSSD.HIL.CreditScheduler

open SimpleSSD.Foundation Relation

def Item.isGateOf (uid : UserID) : Item → Bool
  | .request req => req.userID == uid && req.op == .creditOnly
  | _ => false

/-- The gates of `uid` that are in its in-storage queue or in the deferred queue. -/
def gatesWaiting (uid : UserID) (s : CreditScheduler) : Nat :=
  ((s.account uid).queueISC.map Item.request).countP (Item.isGateOf uid) +
    (s.deferredQueue.map DeferredRequest.item).countP (Item.isGateOf uid)

def gatesEaten (uid : UserID) (s : CreditScheduler) : Nat :=
  (served s.trace).countP (Item.isGateOf uid)

theorem Item.isGateOf_own (uid : UserID) :
    ∀ item : Item, item.isGateOf uid = true → item.uid = uid := by
  intro item gate
  cases item with
  | request req =>
      simp only [isGateOf, Bool.and_eq_true, beq_iff_eq] at gate
      exact gate.1
  | custom | isc => exact absurd gate Bool.false_ne_true

/-! ## Where gates can be -/

/-- Gates wait in no other place, and none belongs to the admin user. -/
structure GatesPlaced (s : CreditScheduler) : Prop where
  admin : ∀ req ∈ s.adminQueue, req.userID = 0
  host : ∀ uid, ∀ req ∈ (s.account uid).queue, req.op ≠ .creditOnly
  user : ∀ uid, ∀ req ∈ (s.account uid).queue ++ (s.account uid).queueISC, req.userID ≠ 0
  deferred : ∀ dr ∈ s.deferredQueue, dr.req.userID ≠ 0
  unknown : ∀ uid, uid ∉ s.users → (s.account uid).pendingGates = 0
  zero : (s.account 0).pendingGates = 0

section Placed

variable {p : Params} {s t : CreditScheduler}

def UserAccount.gates (acc : UserAccount) : List Request × List Request × Nat :=
  (acc.queue, acc.queueISC, acc.pendingGates)

theorem GatesPlaced.of_eq (placed : GatesPlaced s) (users : t.users = s.users)
    (admin : t.adminQueue ⊆ s.adminQueue)
    (account : ∀ uid, (t.account uid).gates = (s.account uid).gates)
    (deferred : t.deferredQueue ⊆ s.deferredQueue) : GatesPlaced t := by
  simp only [UserAccount.gates, Prod.mk.injEq] at account
  refine ⟨fun req hmem => placed.admin req (admin hmem), fun uid => ?_, fun uid => ?_,
    fun dr hmem => placed.deferred dr (deferred hmem), fun uid => ?_, ?_⟩
  · rw [(account uid).1]
    exact placed.host uid
  · rw [(account uid).1, (account uid).2.1]
    exact placed.user uid
  · rw [users, (account uid).2.2]
    exact placed.unknown uid
  · rw [(account 0).2.2]
    exact placed.zero

theorem GatesPlaced.modify (placed : GatesPlaced s) (uid : UserID)
    (f : UserAccount → UserAccount)
    (host : ∀ req ∈ (f (s.account uid)).queue, req.op ≠ .creditOnly)
    (user : ∀ req ∈ (f (s.account uid)).queue ++ (f (s.account uid)).queueISC, req.userID ≠ 0)
    (unknown : uid ∉ s.users → (f (s.account uid)).pendingGates = 0)
    (zero : uid = 0 → (f (s.account uid)).pendingGates = 0) : GatesPlaced (s.modify uid f) := by
  refine ⟨placed.admin, fun other => ?_, fun other => ?_, placed.deferred, fun other => ?_, ?_⟩
  · rw [modify_account]
    split
    · exact host
    · exact placed.host other
  · rw [modify_account]
    split
    · exact user
    · exact placed.user other
  · rw [modify_account]
    split
    next same => exact fun absent => unknown (same ▸ absent)
    next => exact placed.unknown other
  · rw [modify_account]
    split
    next same => exact zero same.symm
    next => exact placed.zero

theorem GatesPlaced.act (step : Act p s t) (placed : GatesPlaced s) : GatesPlaced t := by
  cases step with
  | create uid =>
      have fields : ∀ other, (s.getOrCreateUser p uid).account other = s.account other ∨
          (s.getOrCreateUser p uid).account other = p.newAccount := fun other =>
        (getOrCreateUser_account p uid other s).imp_right fun fresh => fresh.2.2
      have rest : (s.getOrCreateUser p uid).adminQueue = s.adminQueue := by
        unfold getOrCreateUser
        split <;> rfl
      refine ⟨rest ▸ placed.admin, fun other => ?_, fun other => ?_, ?_, fun other absent => ?_, ?_⟩
      · rcases fields other with same | fresh
        · rw [same]
          exact placed.host other
        · rw [fresh]
          exact fun req hmem => absurd hmem List.not_mem_nil
      · rcases fields other with same | fresh
        · rw [same]
          exact placed.user other
        · rw [fresh]
          exact fun req hmem => absurd hmem List.not_mem_nil
      · rw [getOrCreateUser_keeps_deferredQueue]
        exact placed.deferred
      · rcases fields other with same | fresh
        · rw [same]
          refine placed.unknown other fun known => absent ?_
          exact (mem_users_getOrCreateUser uid other).2 (.inr known)
        · rw [fresh]
          rfl
      · rcases fields 0 with same | fresh
        · rw [same]
          exact placed.zero
        · rw [fresh]
          rfl
  | receive req admin =>
      refine ⟨fun other hmem => ?_, placed.host, placed.user, placed.deferred, placed.unknown,
        placed.zero⟩
      rcases List.mem_append.1 hmem with old | new
      · exact placed.admin other old
      · rw [List.mem_singleton.1 new]
        exact admin
  | enqueue req user known =>
      refine placed.modify _ _ (fun other hmem => ?_) (fun other hmem => ?_)
        (fun absent => absurd known absent) fun zero => absurd zero user
      · unfold CreditScheduler.enqueue at hmem
        split at hmem
        · exact placed.host _ other hmem
        next host =>
          rcases List.mem_append.1 hmem with old | new
          · exact placed.host _ other old
          · rw [List.mem_singleton.1 new]
            exact fun gate => host (.inl gate)
      · have own := placed.user req.userID other
        unfold CreditScheduler.enqueue at hmem
        split at hmem
        · simp only [List.mem_append, List.mem_cons] at hmem own
          rcases hmem with hq | rfl | hq
          · exact own (.inl hq)
          · exact user
          · exact own (.inr hq)
        · simp only [List.mem_append, List.mem_singleton] at hmem own
          rcases hmem with (hq | rfl) | hq
          · exact own (.inl hq)
          · exact user
          · exact own (.inr hq)
  | activate uid getTick known =>
      unfold CreditScheduler.activate
      split
      · exact placed
      · have activated : GatesPlaced (s.modify uid (UserAccount.activate getTick)) :=
          placed.of_eq rfl (List.Subset.refl _)
            (fun other => modify_field s uid other UserAccount.gates fun _ => rfl)
            (List.Subset.refl _)
        simp only
        split
        · exact activated
        · exact activated.of_eq rfl (List.Subset.refl _) (fun _ => rfl) (List.Subset.refl _)
  | charge site cls uid pages known held =>
      have paid : GatesPlaced (s.modify uid (·.pay cls pages)) :=
        placed.of_eq rfl (List.Subset.refl _)
          (fun other => modify_field s uid other UserAccount.gates fun _ => rfl)
          (List.Subset.refl _)
      exact paid.of_eq rfl (List.Subset.refl _) (fun _ => rfl) (List.Subset.refl _)
  | takeAdmin =>
      exact placed.of_eq rfl (List.tail_subset _) (fun _ => rfl) (List.Subset.refl _)
  | take uid =>
      refine placed.modify uid _ (fun req hmem => placed.host uid req (List.mem_of_mem_tail hmem))
        (fun req hmem => placed.user uid req ?_) (placed.unknown uid) ?_
      · exact (List.mem_append.1 hmem).elim
          (fun h => List.mem_append_left _ (List.mem_of_mem_tail h))
          fun h => List.mem_append_right _ h
      · rintro rfl
        exact placed.zero
  | takeISC uid =>
      refine placed.modify uid _ (placed.host uid)
        (fun req hmem => placed.user uid req ?_) (placed.unknown uid) ?_
      · exact (List.mem_append.1 hmem).elim (fun h => List.mem_append_left _ h)
          fun h => List.mem_append_right _ (List.mem_of_mem_tail h)
      · rintro rfl
        exact placed.zero
  | defer uid req now waits =>
      refine ⟨placed.admin, placed.host, placed.user, fun dr hmem => ?_, placed.unknown,
        placed.zero⟩
      rcases List.mem_append.1 hmem with old | new
      · exact placed.deferred dr old
      · rw [List.mem_singleton.1 new]
        exact placed.user uid req waits
  | shuffle queue old =>
      exact placed.of_eq rfl (List.Subset.refl _) (fun _ => rfl) old
  | measure account same =>
      refine placed.of_eq rfl (List.Subset.refl _) (fun uid => ?_) (List.Subset.refl _)
      have kept : (account uid).unmeasured.gates = (s.account uid).unmeasured.gates :=
        congrArg UserAccount.gates (same uid)
      exact kept
  | phase =>
      obtain ⟨account, grants⟩ := s.refillGrants_eq p
      have age : ∀ acc : UserAccount, acc.age.gates = acc.gates := by
        intro acc
        unfold UserAccount.age
        split_ifs <;> rfl
      have same : ∀ uid, ((s.refillPhase p).account uid).gates = (s.account uid).gates :=
        fun uid => refillGrants_field p s uid UserAccount.gates age fun _ _ _ _ => rfl
      have rest : (s.refillPhase p).users = s.users ∧
          (s.refillPhase p).adminQueue = s.adminQueue ∧
          (s.refillPhase p).deferredQueue = s.deferredQueue := by
        simp only [refillPhase, grants]
        exact ⟨trivial, trivial, trivial⟩
      obtain ⟨users, admin, deferred⟩ := rest
      exact placed.of_eq users (List.Perm.of_eq admin).subset same (List.Perm.of_eq deferred).subset
  | resetStat getTick =>
      have account : ∀ uid, ((s.resetStatValues getTick).account uid) = if uid ∈ s.users then
          (s.account uid).resetStat getTick else s.account uid := fun _ => rfl
      refine ⟨fun req hmem => absurd hmem List.not_mem_nil, fun uid => ?_, fun uid => ?_,
        placed.deferred, fun uid => ?_, ?_⟩
      all_goals rw [account]
      · split <;> exact placed.host uid
      · split
        · intro req hmem
          rw [UserAccount.resetStat, List.append_nil] at hmem
          exact placed.user uid req (List.mem_append_left _ hmem)
        · exact placed.user uid
      · split
        · exact fun _ => rfl
        · exact placed.unknown uid
      · split
        · rfl
        · exact placed.zero
  | emit | resume | isc | mark =>
      exact placed.of_eq rfl (List.Subset.refl _) (fun _ => rfl) (List.Subset.refl _)

theorem GatesPlaced.acts (acts : Acts p s t) (placed : GatesPlaced s) : GatesPlaced t := by
  have kept : ∀ u u', Act p u u' → GatesPlaced u → GatesPlaced u' := fun _ _ => GatesPlaced.act
  exact invariant_of_steps kept acts placed

theorem start_gatesPlaced (p : Params) (uids : List UserID) (profile : UserID → Profile) :
    GatesPlaced (start p uids profile) := by
  have none : GatesPlaced (empty p) :=
    ⟨fun _ hmem => absurd hmem List.not_mem_nil, fun _ _ hmem => absurd hmem List.not_mem_nil,
      fun _ _ hmem => absurd hmem List.not_mem_nil, fun _ hmem => absurd hmem List.not_mem_nil,
      fun _ _ => rfl, rfl⟩
  refine start_induction GatesPlaced none (fun s uid placed => placed.act (.create uid)) ?_
  exact fun s uid profile placed => placed.of_eq rfl (List.Subset.refl _)
    (fun other => modify_field s uid other UserAccount.gates fun _ => rfl) (List.Subset.refl _)

end Placed

/-! ## The counter -/

section Counter

variable {p : Params} {guard : Guard} {uid : UserID} {s t : CreditScheduler}

theorem create_pendingGates (placed : GatesPlaced s) (other : UserID) :
    ((s.getOrCreateUser p other).account uid).pendingGates = (s.account uid).pendingGates := by
  rcases getOrCreateUser_account p other uid s with same | ⟨rfl, absent, fresh⟩
  · rw [same]
  · rw [fresh, placed.unknown uid absent]
    rfl

theorem modify_pendingGates (other : UserID) (f : UserAccount → UserAccount)
    (same : ∀ acc, (f acc).pendingGates = acc.pendingGates) :
    ((s.modify other f).account uid).pendingGates = (s.account uid).pendingGates :=
  modify_field s other uid (·.pendingGates) same

theorem charge_pendingGates (site : ChargeSite) (cls : ChargeClass) (other : UserID)
    (pages : Nat) : ((s.charge site cls other pages).account uid).pendingGates =
      (s.account uid).pendingGates := by
  refine modify_pendingGates other (·.pay cls pages) ?_
  exact fun _ => rfl

theorem Work.pendingGates
    {before after : List ISCDeferredRequest × CreditScheduler} (placed : GatesPlaced before.2)
    (step : Work p guard before after) :
    (after.2.account uid).pendingGates = (before.2.account uid).pendingGates := by
  cases step with
  | create other => exact create_pendingGates placed other
  | @activate _ s other getTick known =>
      simp only [CreditScheduler.activate]
      have activated : ((s.modify other (UserAccount.activate getTick)).account uid).pendingGates =
          (s.account uid).pendingGates :=
        modify_pendingGates other (UserAccount.activate getTick) fun _ => rfl
      split
      · rfl
      · split <;> exact activated
  | @window _ s now may =>
      simp only [iopsWindow]
      split
      · refine mapUsers_field s uid (·.pendingGates) fun acc => ?_
        unfold UserAccount.resetWindow
        split <;> rfl
      · rfl
  | @phase _ s =>
      refine refillGrants_field p s uid (·.pendingGates) (fun acc => ?_) fun _ _ _ _ => rfl
      unfold UserAccount.age
      split_ifs <;> rfl
  | measure req => exact modify_pendingGates req.userID (UserAccount.measureHost _) fun _ => rfl
  | dispatch dr rest head known held =>
      exact charge_pendingGates .deferredQueue (.ofOp dr.req.op) dr.req.userID dr.pages
  | resume dc rest head known held => exact charge_pendingGates .deferredISC .isc dc.uid dc.pages
  | process req rest head known held =>
      exact charge_pendingGates .processISCRequests .isc req.uid req.pagesNeeded
  | gate other front rest head known held =>
      exact (modify_pendingGates other UserAccount.popQueueISC fun _ => rfl).trans
        (charge_pendingGates .queueISC .isc other front.pages)
  | deferISC other front rest now head =>
      exact modify_pendingGates other UserAccount.popQueueISC fun _ => rfl
  | host other front rest head held =>
      exact ((modify_pendingGates other UserAccount.popQueue fun _ => rfl).trans
        (charge_pendingGates .hostQueue (.ofOp front.op) front.userID front.pages)).trans
        (create_pendingGates placed front.userID)
  | deferHost other front rest now head =>
      exact (modify_pendingGates other UserAccount.popQueue fun _ => rfl).trans
        (create_pendingGates placed front.userID)
  | _ => rfl

theorem Submission.pendingGates {item : Item} (user : uid ≠ 0) (entered : Submission item s t) :
    (t.account uid).pendingGates =
      (s.account uid).pendingGates + if item.isGateOf uid then 1 else 0 := by
  cases entered with
  | receive req admin =>
      have other : ¬ Item.isGateOf uid (.request req) = true := fun gate =>
        user ((Item.isGateOf_own uid _ gate).symm.trans admin)
      rw [if_neg other, Nat.add_zero]
  | enqueue req notAdmin known =>
      by_cases mine : uid = req.userID
      · subst mine
        rw [modify_account_self]
        unfold CreditScheduler.enqueue
        by_cases gate : req.op = .creditOnly
        · simp [gate, Item.isGateOf]
        · by_cases result : req.op = .iscResult
          · simp [result, Item.isGateOf]
          · simp [gate, result, Item.isGateOf]
      · have other : ¬ Item.isGateOf uid (.request req) = true := fun gate =>
          mine (Item.isGateOf_own uid _ gate).symm
        rw [if_neg other, modify_account_ne _ _ _ _ mine, Nat.add_zero]
  | postpone | wait => rfl
  | execute other pages ctx known held =>
      exact charge_pendingGates .submitISCRequest .isc other pages

/-- The tally of the gates of a user: those that wait and those that have been eaten. -/
theorem tally_gates (placed : GatesPlaced s) (user : uid ≠ 0)
    (hand : List ISCDeferredRequest) :
    s.tally uid (Item.isGateOf uid) hand = s.gatesWaiting uid + s.gatesEaten uid := by
  have admin : (s.adminQueue.map Item.request).countP (Item.isGateOf uid) = 0 := by
    rw [List.countP_eq_zero]
    intro item hmem gate
    obtain ⟨req, hreq, rfl⟩ := List.mem_map.1 hmem
    exact user ((Item.isGateOf_own uid _ gate).symm.trans (placed.admin req hreq))
  have host : ((s.account uid).queue.map Item.request).countP (Item.isGateOf uid) = 0 := by
    rw [List.countP_eq_zero]
    intro item hmem gate
    obtain ⟨req, hreq, rfl⟩ := List.mem_map.1 hmem
    simp only [Item.isGateOf, Bool.and_eq_true, beq_iff_eq] at gate
    exact placed.host uid req hreq gate.2
  have plain : ∀ l : List Item, (∀ item ∈ l, item.isGateOf uid = false) →
      l.countP (Item.isGateOf uid) = 0 := by
    intro l none
    rw [List.countP_eq_zero]
    intro item hmem
    rw [none item hmem]
    exact Bool.false_ne_true
  have custom := plain (s.deferredISC.map Item.custom) (by simp [Item.isGateOf])
  have requests := plain (s.deferredISCRequests.map ISCDeferredRequest.item)
    (by simp [ISCDeferredRequest.item, Item.isGateOf])
  have held := plain (hand.map ISCDeferredRequest.item)
    (by simp [ISCDeferredRequest.item, Item.isGateOf])
  simp only [tally, waitingItems, List.countP_append, admin, host, custom, requests, held,
    gatesWaiting, gatesEaten]
  omega

theorem resetStat_gates (getTick : Tick) (placed : GatesPlaced s) (proper : Proper s)
    (none : ∀ dr ∈ s.deferredQueue, dr.item.isGateOf uid = false) :
    (s.resetStatValues getTick).gatesWaiting uid = 0 ∧
      ((s.resetStatValues getTick).account uid).pendingGates = 0 := by
  have account : (s.resetStatValues getTick).account uid = if uid ∈ s.users then
      (s.account uid).resetStat getTick else s.account uid := rfl
  have deferred : (s.deferredQueue.map DeferredRequest.item).countP (Item.isGateOf uid) = 0 := by
    simpa [List.countP_eq_zero] using none
  have gates : ((s.resetStatValues getTick).account uid).queueISC = [] := by
    rw [account]
    split
    · rfl
    next absent => exact (proper.known uid absent).2
  refine ⟨?_, ?_⟩
  · rw [gatesWaiting, gates]
    exact (Nat.zero_add _).trans deferred
  · rw [account]
    split
    · rfl
    next absent => exact placed.unknown uid absent

/-- The statistics are not reset while a gate of `uid` is deferred. -/
def Guard.gates (uid : UserID) : Guard := { Guard.none with
  reset := fun s => ∀ dr ∈ s.deferredQueue, dr.item.isGateOf uid = false }

/-- The counter lies between the gates that wait and those together with the gates eaten
after the first `start`. -/
structure Counted (uid : UserID) (start : Nat) (s : CreditScheduler) : Prop where
  placed : GatesPlaced s
  proper : Proper s
  eaten : start ≤ s.gatesEaten uid
  low : s.gatesWaiting uid ≤ (s.account uid).pendingGates
  high : (s.account uid).pendingGates + start ≤ s.gatesWaiting uid + s.gatesEaten uid

theorem Move.gates {before after : List ISCDeferredRequest × CreditScheduler}
    (plain : ∀ getTick, after.2 = before.2.resetStatValues getTick → ¬ guard.reset before.2)
    (move : Move p guard before after) (user : uid ≠ 0)
    (placed : GatesPlaced before.2) (proper : Proper before.2) :
    after.2.gatesWaiting uid + after.2.gatesEaten uid + (before.2.account uid).pendingGates =
      before.2.gatesWaiting uid + before.2.gatesEaten uid +
        (after.2.account uid).pendingGates := by
  have placed' : GatesPlaced after.2 := placed.acts move.acts
  rw [← tally_gates placed user before.1, ← tally_gates placed' user after.1]
  cases move with
  | @submit hand s t item may entered =>
      change t.tally uid _ hand + (s.account uid).pendingGates =
        s.tally uid _ hand + (t.account uid).pendingGates
      rw [entered.tally (Item.isGateOf_own uid), entered.pendingGates user]
      omega
  | work step => rw [step.tally (Item.isGateOf_own uid) proper, step.pendingGates placed]
  | direct site cls other pages => rw [tally_charge, charge_pendingGates]
  | resetStat getTick may => exact absurd may (plain getTick rfl)

theorem gatesEaten_mono (acts : Acts p s t) : s.gatesEaten uid ≤ t.gatesEaten uid := by
  obtain ⟨later, trace⟩ := acts.trace
  simp only [gatesEaten, ← trace, served, List.filterMap_append, List.countP_append]
  omega

theorem Counted.move {start : Nat} {before after : List ISCDeferredRequest × CreditScheduler}
    (move : Move p (.gates uid) before after) (user : uid ≠ 0)
    (counted : Counted uid start before.2) : Counted uid start after.2 := by
  have mono : before.2.gatesEaten uid ≤ after.2.gatesEaten uid := gatesEaten_mono move.acts
  have low := counted.low
  have high := counted.high
  have eaten := counted.eaten
  refine ⟨counted.placed.acts move.acts, move.proper counted.proper, eaten.trans mono, ?_, ?_⟩
  all_goals
    by_cases reset : ∃ getTick, after.2 = before.2.resetStatValues getTick ∧
        (Guard.gates uid).reset before.2
    · obtain ⟨getTick, same, may⟩ := reset
      obtain ⟨waiting, pending⟩ := resetStat_gates getTick counted.placed counted.proper may
      rw [same] at mono ⊢
      omega
    · have law := move.gates (fun getTick same may => reset ⟨getTick, same, may⟩) user
        counted.placed counted.proper
      omega

theorem Counted.carries {start : Nat} (carries : Carries p (.gates uid) s t) (user : uid ≠ 0)
    (counted : Counted uid start s) : Counted uid start t := by
  have all : ∀ {before after}, Moves p (.gates uid) before after →
      Counted uid start before.2 → Counted uid start after.2 := by
    intro before after moves base
    induction moves with
    | refl => exact base
    | tail _ last ih => exact ih.move last user
  exact all (carries []) counted

end Counter

/-! ## Runs -/

section Runs

variable {p : Params} {uids : List UserID} {profile : UserID → Profile} {uid : UserID}
  {s t : CreditScheduler}

/-- No reset of the statistics is made while a gate of `uid` is deferred. -/
abbrev GateRun (p : Params) (uid : UserID) : CreditScheduler → CreditScheduler → Prop :=
  RunsBy p fun _ op u => op.isReset = true → ∀ dr ∈ u.deferredQueue, dr.item.isGateOf uid = false

inductive CountingStart (p : Params) (uids : List UserID) (profile : UserID → Profile)
    (uid : UserID) : CreditScheduler → Prop
  | start : CountingStart p uids profile uid (start p uids profile)
  | reset {s : CreditScheduler} (run : GateRun p uid (CreditScheduler.start p uids profile) s)
      (getTick : Tick) (clear : ∀ dr ∈ s.deferredQueue, dr.item.isGateOf uid = false) :
      CountingStart p uids profile uid (s.resetStatValues getTick)

theorem start_gates (p : Params) (uids : List UserID) (profile : UserID → Profile) :
    ((start p uids profile).account uid).pendingGates = 0 := by
  refine start_induction (fun s => (s.account uid).pendingGates = 0) rfl ?_ ?_
  · intro s other none
    rcases getOrCreateUser_account p other uid s with same | ⟨-, -, fresh⟩
    · rw [same]
      exact none
    · rw [fresh]
      rfl
  · intro s other profile none
    rw [← none]
    exact modify_pendingGates other (UserAccount.configure profile) fun _ => rfl

theorem CountingStart.settled (origin : CountingStart p uids profile uid t) :
    GatesPlaced t ∧ Proper t ∧ t.gatesWaiting uid = 0 ∧ (t.account uid).pendingGates = 0 := by
  cases origin with
  | start =>
      have fresh := start_fresh p uids profile
      refine ⟨start_gatesPlaced p uids profile, start_proper p uids profile, ?_,
        start_gates p uids profile⟩
      rw [gatesWaiting, fresh.queueISC, fresh.deferredQueue]
      rfl
  | @reset s run getTick clear =>
      have placed : GatesPlaced s := (start_gatesPlaced p uids profile).acts run.acts
      have proper : Proper s := run.runs.proper
      have act : Act p s (s.resetStatValues getTick) := .resetStat getTick
      exact ⟨placed.act act, proper.act act, resetStat_gates getTick placed proper clear⟩

theorem pendingForUser_eq_true (placed : GatesPlaced s) :
    s.pendingForUser uid = true ↔ 0 < (s.account uid).pendingGates := by
  simp only [pendingForUser, Bool.and_eq_true, decide_eq_true_eq, bne_iff_ne, ne_eq]
  constructor
  · exact fun pending => Nat.pos_of_ne_zero pending.2
  · intro pending
    refine ⟨by_contra fun absent => ?_, pending.ne'⟩
    rw [placed.unknown uid absent] at pending
    exact absurd pending (Nat.lt_irrefl 0)

theorem gatesWaiting_zero (placed : GatesPlaced s) : s.gatesWaiting 0 = 0 := by
  have none : ∀ req : Request, req.userID ≠ 0 → Item.isGateOf 0 (.request req) = false := by
    intro req user
    simp [Item.isGateOf, user]
  have gates : ((s.account 0).queueISC.map Item.request).countP (Item.isGateOf 0) = 0 := by
    rw [List.countP_eq_zero]
    intro item hmem
    obtain ⟨req, hreq, rfl⟩ := List.mem_map.1 hmem
    rw [none req (placed.user 0 req (List.mem_append_right _ hreq))]
    exact Bool.false_ne_true
  have deferred : (s.deferredQueue.map DeferredRequest.item).countP (Item.isGateOf 0) = 0 := by
    rw [List.countP_eq_zero]
    intro item hmem
    obtain ⟨dr, hdr, rfl⟩ := List.mem_map.1 hmem
    rw [DeferredRequest.item, none dr.req (placed.deferred dr hdr)]
    exact Bool.false_ne_true
  rw [gatesWaiting, gates, deferred]

theorem GateRun.allows (env : Env) (op : Op) (u : CreditScheduler)
    (clear : op.isReset = true → ∀ dr ∈ u.deferredQueue, dr.item.isGateOf uid = false) :
    (Guard.gates uid).Allows p env op u := by
  refine ⟨Guard.ticks_of_free (fun _ _ => trivial) trivial p env op u, ?_⟩
  cases op with
  | submitISCRequest _ _ _ iscContext => cases iscContext <;> trivial
  | resetStatValues => exact clear rfl
  | _ => trivial

/-- Without a reset, the counter is what waits and what was eaten since the start of the
counting. -/
theorem pendingGates_eq (user : uid ≠ 0) (origin : CountingStart p uids profile uid t)
    (run : RunsBy p (fun _ op _ => op.isReset = false) t s) :
    (s.account uid).pendingGates + t.gatesEaten uid = s.gatesWaiting uid + s.gatesEaten uid := by
  obtain ⟨placed, proper, waiting, pending⟩ := origin.settled
  have carries : Carries p { Guard.none with reset := fun _ => False } t s := by
    apply run.carries
    intro env op u plain
    refine ⟨Guard.ticks_of_free (fun _ _ => trivial) trivial p env op u, ?_⟩
    cases op with
    | submitISCRequest _ _ _ iscContext => cases iscContext <;> trivial
    | resetStatValues => exact absurd plain Bool.noConfusion
    | _ => trivial
  have all : ∀ {before after}, Moves p { Guard.none with reset := fun _ => False } before after →
      GatesPlaced before.2 → Proper before.2 →
      after.2.gatesWaiting uid + after.2.gatesEaten uid + (before.2.account uid).pendingGates =
        before.2.gatesWaiting uid + before.2.gatesEaten uid +
          (after.2.account uid).pendingGates ∧ GatesPlaced after.2 ∧ Proper after.2 := by
    intro before after moves placed proper
    induction moves with
    | refl => exact ⟨rfl, placed, proper⟩
    | tail _ last ih =>
        obtain ⟨law, placed, proper⟩ := ih
        have step := last.gates (fun _ _ => id) user placed proper
        exact ⟨by omega, placed.acts last.acts, last.proper proper⟩
  have law := (all (carries []) placed proper).1
  simp only at law
  omega

/-- A gate that waits is always reported.  The converse fails just when gates of the user
have been eaten and no other of them waits. -/
theorem pendingForUser_iff (origin : CountingStart p uids profile uid t)
    (run : GateRun p uid t s) :
    (0 < s.gatesWaiting uid → s.pendingForUser uid = true) ∧
      (s.gatesEaten uid = t.gatesEaten uid →
        (s.pendingForUser uid = true ↔ 0 < s.gatesWaiting uid)) ∧
      (RunsBy p (fun _ op _ => op.isReset = false) t s →
        ((s.pendingForUser uid = true ↔ 0 < s.gatesWaiting uid) ↔
          uid = 0 ∨ s.gatesEaten uid = t.gatesEaten uid ∨ 0 < s.gatesWaiting uid)) := by
  obtain ⟨placed, proper, waiting, pending⟩ := origin.settled
  have placed' : GatesPlaced s := placed.acts run.acts
  rw [pendingForUser_eq_true placed']
  by_cases user : uid = 0
  · subst user
    have none := gatesWaiting_zero placed'
    have zero := placed'.zero
    have agree : 0 < (s.account 0).pendingGates ↔ 0 < s.gatesWaiting 0 := by omega
    exact ⟨agree.2, fun _ => agree, fun _ => ⟨fun _ => .inl rfl, fun _ => agree⟩⟩
  · have base : Counted uid (t.gatesEaten uid) t :=
      ⟨placed, proper, le_rfl, by omega, by omega⟩
    have counted := base.carries (run.carries GateRun.allows) user
    have low := counted.low
    have high := counted.high
    refine ⟨by omega, by omega, fun plain => ?_⟩
    have law := pendingGates_eq user origin plain
    rw [or_iff_right user]
    constructor <;> intro <;> omega

end Runs

/-! ## A gate that is eaten and one that is forgotten -/

def gateRequest (uid : UserID) (length : Nat) : Request where
  reqID := 0
  reqSubID := 0
  offset := 0
  length := length
  range := ⟨0, 0⟩
  userID := uid
  prio := 0
  op := .creditOnly
  finishedAt := 0

def gateEaten : CreditScheduler :=
  (Op.tick 5).run .small .idle ((Op.submitRequest 0 (gateRequest 1 0)).run .small .idle
    (start .small [1] fun _ => .standard))

/-- A gate of one page that is deferred when the statistics are reset. -/
def gateForgotten : CreditScheduler :=
  (Op.resetStatValues 5).run .small .idle ((Op.tick 5).run .small .idle
    ((Op.submitRequest 0 (gateRequest 1 4096)).run .small .idle
      (start .small [1] fun _ => .standard)))

theorem pendingForUser_iff_small :
    0 < ((Op.submitRequest 0 (gateRequest 1 0)).run .small .idle
        (start .small [1] fun _ => .standard)).gatesWaiting 1 ∧
      ((Op.submitRequest 0 (gateRequest 1 0)).run .small .idle
        (start .small [1] fun _ => .standard)).pendingForUser 1 = true :=
  have run : GateRun .small 1 (start .small [1] fun _ => .standard)
      ((Op.submitRequest 0 (gateRequest 1 0)).run .small .idle
        (start .small [1] fun _ => .standard)) :=
    .quiet Env.idle_quiet (.refl _) (.submitRequest 0 (gateRequest 1 0)) nofun
  have waits := by decide +kernel
  ⟨waits, (pendingForUser_iff .start run).1 waits⟩

theorem pendingForUser_wrong :
    (Runs .small false (start .small [1] fun _ => .standard) gateEaten ∧
        gateEaten.pendingForUser 1 = true ∧ gateEaten.gatesWaiting 1 = 0) ∧
      Runs .small true (start .small [1] fun _ => .standard) gateForgotten ∧
        gateForgotten.pendingForUser 1 = false ∧ gateForgotten.gatesWaiting 1 = 1 := by
  have quiet := Env.idle_quiet
  refine ⟨⟨?_, by decide +kernel⟩, ?_, by decide +kernel⟩
  · exact .quiet quiet (.quiet quiet (.refl _) (.submitRequest 0 (gateRequest 1 0)) nofun)
      (.tick 5) nofun
  · exact .quiet quiet (.quiet quiet (.quiet quiet (.refl _)
      (.submitRequest 0 (gateRequest 1 4096)) nofun) (.tick 5) nofun)
          (.resetStatValues 5) fun _ => rfl

end SimpleSSD.HIL.CreditScheduler
