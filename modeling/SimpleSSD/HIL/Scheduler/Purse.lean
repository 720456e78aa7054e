import SimpleSSD.Foundation.Allowance
import SimpleSSD.HIL.Scheduler.Order
import SimpleSSD.HIL.Scheduler.Target

/-!
# One user's account during a tick

What the scheduler holds for one user, what waits for it and what of it has been
dispatched.  A tick takes pages from the credit exactly as it serves what waits,
and its phases add the user's share.
-/

namespace SimpleSSD.HIL.CreditScheduler

open SimpleSSD.Foundation Relation

/-! ## Accounts as the source creates them -/

structure Standard (p : Params) (s : CreditScheduler) : Prop extends Placed s where
  cap : ∀ uid, (s.account uid).creditCap = p.creditCap
  capped : ∀ uid, (s.account uid).credit ≤ p.creditCap
  isSLO : ∀ uid, (s.account uid).isSLO = false
  weight : ∀ uid, (s.account uid).weight = 1
  carry : ∀ uid, uid ∉ s.users → (s.account uid).carry = 0
  timer : ∀ uid, (s.account uid).isActive = true → s.timerStarted = true
  nodup : s.users.Nodup

section Standard

variable {p : Params} {s s' : CreditScheduler}

def UserAccount.standing (acc : UserAccount) : Nat × Bool × Nat × ℚ≥0 × Bool :=
  (acc.creditCap, acc.isSLO, acc.weight, acc.carry, acc.isActive)

theorem Standard.of_eq (standard : Standard p s) (placed : Placed s') (users : s'.users = s.users)
    (timer : s'.timerStarted = s.timerStarted)
    (standing : ∀ uid, (s'.account uid).standing = (s.account uid).standing)
    (credit : ∀ uid, (s'.account uid).credit ≤ (s.account uid).credit) : Standard p s' := by
  simp only [UserAccount.standing, Prod.mk.injEq] at standing
  refine ⟨placed, fun uid => ?_, fun uid => (credit uid).trans (standard.capped uid),
    fun uid => ?_, fun uid => ?_, fun uid absent => ?_, fun uid active => ?_,
    users ▸ standard.nodup⟩
  · rw [(standing uid).1]
    exact standard.cap uid
  · rw [(standing uid).2.1]
    exact standard.isSLO uid
  · rw [(standing uid).2.2.1]
    exact standard.weight uid
  · rw [(standing uid).2.2.2.1]
    exact standard.carry uid (users ▸ absent)
  · rw [timer]
    rw [(standing uid).2.2.2.2] at active
    exact standard.timer uid active

theorem Standard.modify (standard : Standard p s) (uid : UserID) {f : UserAccount → UserAccount}
    (placed : Placed (s.modify uid f)) (standing : ∀ acc, (f acc).standing = acc.standing)
    (credit : (f (s.account uid)).credit ≤ (s.account uid).credit) :
    Standard p (s.modify uid f) := by
  refine standard.of_eq placed rfl rfl
    (fun other => modify_field s uid other UserAccount.standing standing) fun other => ?_
  rw [modify_account]
  split
  next same => exact same ▸ credit
  next => exact le_rfl

theorem phase_credit_le {uid : UserID}
    (capped : (s.account uid).credit ≤ (s.account uid).creditCap) :
    ((s.refillPhase p).account uid).credit ≤ (s.account uid).creditCap := by
  rw [phase_account, refillGrants_credit, ← UserAccount.credit_add_headroom _ capped]
  exact Nat.add_le_add_left (phaseGrant_le_headroom p s uid) _

theorem activate_started (timer : ∀ uid, (s.account uid).isActive = true → s.timerStarted = true)
    (getTick : Tick) (uid : UserID) : (s.activate p getTick uid).timerStarted = true := by
  unfold CreditScheduler.activate
  split
  next active => exact timer uid active
  next =>
    simp only
    split
    · assumption
    · rfl

theorem nodup_getOrCreateUser (nodup : s.users.Nodup) (uid : UserID) :
    (s.getOrCreateUser p uid).users.Nodup := by
  unfold getOrCreateUser
  split
  · exact nodup
  next new => exact (p.emplaceOrder_perm s.users uid).nodup_iff.2 (nodup.cons new)

theorem Standard.act (step : Act p s s') (standard : Standard p s) : Standard p s' := by
  have placed := standard.toPlaced.act step
  cases step with
  | create uid =>
      have fresh : ∀ other, (s.getOrCreateUser p uid).account other = s.account other ∨
          (s.getOrCreateUser p uid).account other = p.newAccount := fun other =>
        (getOrCreateUser_account p uid other s).imp_right fun new => new.2.2
      refine ⟨placed, fun other => ?_, fun other => ?_, fun other => ?_, fun other => ?_,
        fun other absent => ?_, fun other active => ?_,
        nodup_getOrCreateUser standard.nodup uid⟩
      all_goals rcases fresh other with same | new
      · rw [same]
        exact standard.cap other
      · rw [new]
        rfl
      · rw [same]
        exact standard.capped other
      · rw [new]
        exact Nat.zero_le _
      · rw [same]
        exact standard.isSLO other
      · rw [new]
        rfl
      · rw [same]
        exact standard.weight other
      · rw [new]
        rfl
      · rw [same]
        exact standard.carry other fun known => absent ((mem_users_getOrCreateUser uid other).2
          (.inr known))
      · rw [new]
        rfl
      · rw [same] at active
        rw [show (s.getOrCreateUser p uid).timerStarted = s.timerStarted by
          unfold getOrCreateUser; split <;> rfl]
        exact standard.timer other active
      · rw [new] at active
        contradiction
  | enqueue req user known =>
      refine standard.modify req.userID placed (fun acc => ?_) ?_
      · unfold enqueue
        split <;> rfl
      · unfold enqueue
        split <;> exact le_rfl
  | activate uid getTick known =>
      have kept : ∀ other {α : Type} (field : UserAccount → α),
          (∀ acc, field (UserAccount.activate getTick acc) = field acc) →
            field ((s.activate p getTick uid).account other) = field (s.account other) :=
        fun _ _ field same => activate_field uid field same
      refine ⟨placed, fun other => ?_, fun other => ?_, fun other => ?_, fun other => ?_,
        fun other absent => ?_, fun _ _ => activate_started standard.timer getTick uid,
        (activate_users getTick uid).symm ▸ standard.nodup⟩
      · rw [kept other (·.creditCap) fun _ => rfl]
        exact standard.cap other
      · exact (activate_credit_le getTick uid).trans (standard.capped other)
      · rw [kept other (·.isSLO) fun _ => rfl]
        exact standard.isSLO other
      · rw [kept other (·.weight) fun _ => rfl]
        exact standard.weight other
      · rw [kept other (·.carry) fun _ => rfl]
        rw [activate_users] at absent
        exact standard.carry other absent
  | charge site cls uid pages known held =>
      refine standard.of_eq placed rfl rfl (fun other => modify_field s uid other
        (f := (·.pay cls pages)) UserAccount.standing fun _ => rfl) fun other => ?_
      exact (Spent.charge site cls uid held).credit
  | take uid => exact standard.modify uid placed (fun _ => rfl) le_rfl
  | takeISC uid => exact standard.modify uid placed (fun _ => rfl) le_rfl
  | measure account same =>
      have standing : ∀ uid, (account uid).standing = (s.account uid).standing := fun uid =>
        (congrArg UserAccount.standing (same uid) :)
      have credit : ∀ uid, (account uid).credit = (s.account uid).credit := fun uid =>
        (congrArg UserAccount.credit (same uid) :)
      exact standard.of_eq placed rfl rfl standing fun uid => (credit uid).le
  | phase =>
      refine ⟨placed, fun other => ?_, fun other => ?_, fun other => ?_, fun other => ?_,
        fun other absent => ?_, fun other active => ?_,
        (refillGrants_users p s).symm ▸ standard.nodup⟩
      · rw [phase_account, refillGrants_creditCap]
        exact standard.cap other
      · rw [← standard.cap other]
        exact phase_credit_le ((standard.capped other).trans_eq (standard.cap other).symm)
      · rw [phase_account, refillGrants_isSLO]
        exact standard.isSLO other
      · exact (refillGrants_field p s other (·.weight) (fun acc => acc.age_weight)
          fun _ _ _ _ => rfl).trans (standard.weight other)
      · have users : (s.refillPhase p).users = s.users := refillGrants_users p s
        rw [users] at absent
        have idle : other ∉ activeUsers false s := fun h => absent ((mem_activeUsers s).1 h).1
        have total := refillGrants_carry_of_not_slo p s other (standard.isSLO other)
        rw [standard.carry other absent, if_neg fun h => idle h.1, add_zero] at total
        exact (add_eq_zero.1 total).2
      · rw [(phase_proper (p := p) s other).2.2.1] at active
        obtain ⟨account, grants⟩ := s.refillGrants_eq p
        exact ((congrArg (·.timerStarted) grants :)).trans (standard.timer other active)
  | resetStat getTick =>
      have kept := fun other {α : Type} (field : UserAccount → α)
        (same : ∀ acc, field (acc.resetStat getTick) = field acc) =>
          mapUsers_field s other (f := UserAccount.resetStat getTick) field same
      have account : ∀ other, (s.resetStatValues getTick).account other =
          if other ∈ s.users then (s.account other).resetStat getTick else s.account other :=
        fun _ => rfl
      refine ⟨placed, fun other => ?_, fun other => ?_, fun other => ?_, fun other => ?_,
        fun other absent => ?_, fun other active => ?_, standard.nodup⟩
      · exact (kept other (·.creditCap) fun _ => rfl).trans (standard.cap other)
      · rw [account]
        split
        · exact Nat.zero_le _
        · exact standard.capped other
      · exact (kept other (·.isSLO) fun _ => rfl).trans (standard.isSLO other)
      · exact (kept other (·.weight) fun _ => rfl).trans (standard.weight other)
      · have absent : other ∉ s.users := absent
        rw [account, if_neg absent]
        exact standard.carry other absent
      · rw [account] at active
        split at active
        · contradiction
        · exact standard.timer other active
  | receive | emit | resume | takeAdmin | defer | shuffle | isc | mark =>
      exact standard.of_eq placed rfl rfl (fun _ => rfl) fun _ => le_rfl

theorem Standard.acts (acts : Acts p s s') (standard : Standard p s) : Standard p s' := by
  have kept : ∀ t t', Act p t t' → Standard p t → Standard p t' := fun _ _ => Standard.act
  exact invariant_of_steps kept acts standard

theorem construct_standard (p : Params) : Standard p (construct p) := by
  have placed : Placed (empty p) := by
    refine ⟨⟨fun _ _ h => ?_, fun _ h => ?_, fun _ _ => ⟨rfl, rfl⟩, fun _ _ => rfl,
      fun _ h => ?_⟩, fun _ h => ?_, ⟨rfl, rfl⟩, fun _ _ h => ?_, fun _ h => ?_⟩
    all_goals first | exact absurd h List.not_mem_nil | contradiction
  have fresh : Standard p (empty p) := by
    refine ⟨placed, fun _ => rfl, fun _ => Nat.zero_le _, fun _ => rfl, fun _ => rfl,
      fun _ _ => rfl, fun _ active => ?_, List.nodup_nil⟩
    contradiction
  exact List.foldlRecOn statUsers _ fresh fun s standard uid _ => standard.act (.create uid)

end Standard

/-! ## What concerns one user -/

/-- What waits for a user, what it holds and what of it has been dispatched, the latest
first; `next` is the tick of the next phase. -/
structure Purse where
  adminQueue : List Request
  queue : List Request
  queueISC : List Request
  deferredQueue : List DeferredRequest
  deferredISC : List DeferredCustom
  deferredISCRequests : List ISCDeferredRequest
  credit : Nat
  carry : ℚ≥0
  share : ℚ≥0
  active : Bool
  next : Tick
  sent : List Request

def purse (p : Params) (uid : UserID) (s : CreditScheduler) : Purse where
  adminQueue := s.adminQueue
  queue := (s.account uid).queue
  queueISC := (s.account uid).queueISC
  deferredQueue := s.deferredQueue
  deferredISC := s.deferredISC
  deferredISCRequests := s.deferredISCRequests
  credit := (s.account uid).credit
  carry := (s.account uid).carry
  share := weightShare p uid s
  active := (s.account uid).isActive
  next := s.lastGlobalRefillTick
  sent := (dispatches uid s.trace).map Prod.fst

/-- What one user owes; a debt above the cap is never paid. -/
def payable (cap : Nat) (uid : UserID) (debt : UserID × Nat) : Bool :=
  debt.1 == uid && decide (debt.2 ≤ cap)

def Purse.debts (w : Purse) : List (UserID × Nat) :=
  w.deferredQueue.map DeferredRequest.debt ++ w.deferredISC.map DeferredCustom.debt ++
    w.deferredISCRequests.map ISCDeferredRequest.debt ++
    (w.queueISC ++ w.queue).map Request.debt

def Purse.line (uid : UserID) (w : Purse) : List Request :=
  ofUser uid (w.adminQueue ++ w.deferredQueue.map DeferredRequest.req ++ w.queue)

def Purse.allowance (cap : Nat) (uid : UserID) (w : Purse) : Allowance where
  credit := w.credit
  carry := w.carry
  owed := ((w.debts.filter (payable cap uid)).map Prod.snd).sum
  debts := w.debts.countP (payable cap uid)

/-- What has left the line has been dispatched, and nobody but user 0 has been sent for
more than the cap. -/
def Purse.Moves (p : Params) (uid : UserID) (v w : Purse) : Prop :=
  ∃ sent, w.sent = sent ++ v.sent ∧ (sent ++ w.line uid).Perm (v.line uid) ∧
    ∀ req ∈ sent, req.userID = 0 ∨ req.pages ≤ p.creditCap

/-- From `v` to `w` debts have been paid. -/
structure Purse.Flows (p : Params) (uid : UserID) (v w : Purse) : Prop where
  pays : (v.allowance p.creditCap uid).Pays (w.allowance p.creditCap uid)
  share : w.share = v.share
  active : w.active = v.active
  next : w.next = v.next
  queue : w.queue.length ≤ v.queue.length
  queueISC : w.queueISC.length ≤ v.queueISC.length
  moves : v.Moves p uid w

section Flows

variable {p : Params} {uid : UserID} {u v w : Purse}

theorem Purse.Moves.refl (w : Purse) : Purse.Moves p uid w w := ⟨[], rfl, .refl _, by simp⟩

theorem Purse.Moves.trans (first : Purse.Moves p uid u v) (second : Purse.Moves p uid v w) :
    Purse.Moves p uid u w := by
  obtain ⟨sent, hsent, perm, paid⟩ := first
  obtain ⟨more, hmore, perm', paid'⟩ := second
  refine ⟨more ++ sent, ?_, ?_, fun req hmem => ?_⟩
  · rw [hmore, hsent, List.append_assoc]
  · have swapped : (more ++ sent ++ w.line uid).Perm (sent ++ (more ++ w.line uid)) := by
      rw [← List.append_assoc]
      exact List.perm_append_comm.append_right _
    exact swapped.trans ((perm'.append_left sent).trans perm)
  · rcases List.mem_append.1 hmem with h | h
    · exact paid' req h
    · exact paid req h

theorem Purse.Moves.mem (moves : Purse.Moves p uid v w) {req : Request}
    (hmem : req ∈ w.line uid) : req ∈ v.line uid := by
  obtain ⟨sent, -, perm, -⟩ := moves
  exact perm.subset (List.mem_append_right _ hmem)

theorem Purse.Flows.refl (w : Purse) : Purse.Flows p uid w w :=
  ⟨.refl _, rfl, rfl, rfl, le_rfl, le_rfl, .refl _⟩

theorem Purse.Flows.trans (first : Purse.Flows p uid u v) (second : Purse.Flows p uid v w) :
    Purse.Flows p uid u w :=
  ⟨first.pays.trans second.pays, second.share.trans first.share,
    second.active.trans first.active, second.next.trans first.next,
    second.queue.trans first.queue, second.queueISC.trans first.queueISC,
    first.moves.trans second.moves⟩

theorem Purse.Flows.still
    (debts : (w.debts.filter (payable p.creditCap uid)).Perm
      (v.debts.filter (payable p.creditCap uid)))
    (line : (w.line uid).Perm (v.line uid))
    (rest : (w.credit, w.carry, w.share, w.active, w.next, w.sent) =
      (v.credit, v.carry, v.share, v.active, v.next, v.sent))
    (queue : w.queue.length ≤ v.queue.length)
    (queueISC : w.queueISC.length ≤ v.queueISC.length) : Purse.Flows p uid v w := by
  simp only [Prod.mk.injEq] at rest
  obtain ⟨credit, carry, share, active, next, sent⟩ := rest
  have same : w.allowance p.creditCap uid = v.allowance p.creditCap uid := by
    unfold Purse.allowance
    rw [credit, carry, (debts.map Prod.snd).sum_eq, List.countP_eq_length_filter,
      List.countP_eq_length_filter, debts.length_eq]
  refine ⟨?_, share, active, next, queue, queueISC, [], by simp [sent], line, by simp⟩
  rw [same]
  exact .refl _

theorem Purse.Flows.pay (owner : UserID) (pages : Nat) (sent : List Request)
    (capped : v.credit ≤ p.creditCap) (debts : v.debts.Perm ((owner, pages) :: w.debts))
    (held : owner = uid → pages ≤ v.credit)
    (credit : w.credit = if owner = uid then v.credit - pages else v.credit)
    (rest : (w.carry, w.share, w.active, w.next) = (v.carry, v.share, v.active, v.next))
    (queue : w.queue.length ≤ v.queue.length) (queueISC : w.queueISC.length ≤ v.queueISC.length)
    (hsent : w.sent = sent ++ v.sent) (line : (sent ++ w.line uid).Perm (v.line uid))
    (paid : ∀ req ∈ sent, req.userID = uid ∧ owner = uid ∧ req.pages = pages) :
    Purse.Flows p uid v w := by
  simp only [Prod.mk.injEq] at rest
  obtain ⟨carry, share, active, next⟩ := rest
  have filtered := debts.filter (payable p.creditCap uid)
  have counted := debts.countP_eq (payable p.creditCap uid)
  refine ⟨?_, share, active, next, queue, queueISC, sent, hsent, line, fun req hmem => .inr ?_⟩
  · by_cases own : owner = uid
    · have enough := held own
      have due : payable p.creditCap uid (owner, pages) = true := by
        simp [payable, own, enough.trans capped]
      rw [List.filter_cons_of_pos due] at filtered
      rw [List.countP_cons_of_pos due] at counted
      rw [if_pos own] at credit
      refine .pay enough ?_ credit (congrArg NNRat.cast carry) counted
      exact (filtered.map Prod.snd).sum_eq
    · have other : ¬ payable p.creditCap uid (owner, pages) = true := by
        simp [payable, own]
      rw [List.filter_cons_of_neg other] at filtered
      rw [List.countP_cons_of_neg other] at counted
      rw [if_neg own] at credit
      have same : w.allowance p.creditCap uid = v.allowance p.creditCap uid := by
        unfold Purse.allowance
        rw [credit, carry, (filtered.map Prod.snd).sum_eq, counted]
      rw [same]
      exact .refl _
  · obtain ⟨-, own, size⟩ := paid req hmem
    rw [size]
    exact (held own).trans capped

end Flows

/-! ## Steps of the scheduler -/

section Steps

variable {p : Params} {env : Env} {uid : UserID} {s t : CreditScheduler}

def UserAccount.stable (acc : UserAccount) : ℚ≥0 × Nat × Bool × Bool :=
  (acc.carry, acc.weight, acc.isActive, acc.isSLO)

theorem activeWeight_modify (other : UserID) {f : UserAccount → UserAccount}
    (stable : ∀ acc, (f acc).stable = acc.stable) (slo : Bool) :
    (s.modify other f).activeWeight slo = s.activeWeight slo := by
  simp only [UserAccount.stable, Prod.mk.injEq] at stable
  have weight := fun user => modify_field s other user (·.weight) fun acc => (stable acc).2.1
  have active := fun user => modify_field s other user (·.isActive) fun acc => (stable acc).2.2.1
  have class_ := fun user => modify_field s other user (·.isSLO) fun acc => (stable acc).2.2.2
  simp only [activeWeight, modify_users, weight, active, class_]

theorem weightShare_modify (uid other : UserID) {f : UserAccount → UserAccount}
    (stable : ∀ acc, (f acc).stable = acc.stable) :
    weightShare p uid (s.modify other f) = weightShare p uid s := by
  have weight := modify_field s other uid (·.weight) fun acc => by
    have kept := stable acc
    simp only [UserAccount.stable, Prod.mk.injEq] at kept
    exact kept.2.1
  simp only [weightShare, activeWeight_modify other stable, weight]

theorem purse_modify_self {f : UserAccount → UserAccount}
    (stable : ∀ acc, (f acc).stable = acc.stable) :
    purse p uid (s.modify uid f) = { purse p uid s with
      queue := (f (s.account uid)).queue
      queueISC := (f (s.account uid)).queueISC
      credit := (f (s.account uid)).credit } := by
  have share := weightShare_modify (p := p) (s := s) uid uid stable
  have kept := stable (s.account uid)
  simp only [UserAccount.stable, Prod.mk.injEq] at kept
  simp only [purse, modify_account_self, share, kept]
  rfl

theorem purse_modify_ne {other : UserID} {f : UserAccount → UserAccount}
    (stable : ∀ acc, (f acc).stable = acc.stable) (ne : other ≠ uid) :
    purse p uid (s.modify other f) = purse p uid s := by
  have share := weightShare_modify (p := p) (s := s) uid other stable
  simp only [purse, modify_account_ne _ _ _ _ ne.symm, share]
  rfl

theorem activeWeight_getOrCreateUser (other : UserID) (slo : Bool) :
    (s.getOrCreateUser p other).activeWeight slo = s.activeWeight slo := by
  unfold getOrCreateUser
  split
  · rfl
  next new =>
    unfold activeWeight
    rw [((p.emplaceOrder_perm s.users other).map _).sum_eq, List.map_cons, List.sum_cons]
    have fresh : ¬ (p.newAccount.isActive = true ∧ p.newAccount.isSLO = slo) := fun h =>
      absurd h.1 (by simp [Params.newAccount])
    simp only [Function.update_self, if_neg fresh, Nat.zero_add]
    congr 1
    refine List.map_congr_left fun user hmem => ?_
    rw [Function.update_of_ne (ne_of_mem_of_not_mem hmem new)]

theorem purse_getOrCreateUser (standard : Standard p s) (other : UserID) :
    purse p uid (s.getOrCreateUser p other) = purse p uid s := by
  have view := view_getOrCreateUser (p := p) standard.blank other
  have created := standard.act (.create other)
  have weight : weightShare p uid (s.getOrCreateUser p other) = weightShare p uid s := by
    unfold weightShare
    rw [activeWeight_getOrCreateUser, standard.weight, created.weight]
  have account : ((s.getOrCreateUser p other).account uid).carry = (s.account uid).carry ∧
      ((s.getOrCreateUser p other).account uid).isActive = (s.account uid).isActive := by
    rcases getOrCreateUser_account p other uid s with same | ⟨rfl, absent, new⟩
    · rw [same]
      exact ⟨rfl, rfl⟩
    · rw [new, standard.carry uid absent]
      refine ⟨rfl, (Bool.eq_false_iff.2 fun active => ?_).symm⟩
      exact absent (standard.active uid active)
  have frame : (s.getOrCreateUser p other).adminQueue = s.adminQueue ∧
      (s.getOrCreateUser p other).lastGlobalRefillTick = s.lastGlobalRefillTick ∧
      (s.getOrCreateUser p other).trace = s.trace := by
    unfold getOrCreateUser
    split <;> exact ⟨rfl, rfl, rfl⟩
  simp only [purse, weight, account, frame, Purse.mk.injEq, true_and, and_true]
  exact ⟨congrFun (congrArg View.queue view) uid, congrFun (congrArg View.queueISC view) uid,
    congrArg View.deferredQueue view, congrArg View.deferredISC view,
    congrArg View.deferredISCRequests view, congrFun (congrArg View.credit view) uid⟩

theorem purse_emit {event : Event}
    (other : ∀ req beginAt finishedAt, event ≠ .icl req beginAt finishedAt) :
    purse p uid (s.emit event) = purse p uid s := by
  have sent : dispatches uid (s.emit event).trace = dispatches uid s.trace := dispatches_cons other
  simp only [purse, sent]
  rfl

theorem purse_charge (site : ChargeSite) (cls : ChargeClass) (other : UserID) {pages : Nat}
    (held : pages ≤ (s.account other).credit) :
    purse p uid (s.charge site cls other pages) = { purse p uid s with
      credit := if other = uid then (s.account uid).credit - pages
        else (s.account uid).credit } := by
  have emitted : purse p uid (s.charge site cls other pages) =
      purse p uid (s.modify other (·.pay cls pages)) := purse_emit (by simp)
  rw [emitted]
  by_cases own : other = uid
  · subst own
    rw [if_pos rfl, ← sub64_of_le held]
    exact purse_modify_self (f := (·.pay cls pages)) fun _ => rfl
  · rw [if_neg own]
    exact purse_modify_ne (f := (·.pay cls pages)) (fun _ => rfl) own

theorem purse_dispatchICL (uid : UserID) (quiet : env.Quiet) (standard : Standard p s)
    (req : Request) (now : Tick) :
    purse p uid (s.dispatchICL p env req now).2 = { purse p uid s with
      sent := ofUser uid [req] ++ (purse p uid s).sent } := by
  unfold dispatchICL
  split
  next host =>
    simp only [quiet.icl]
    set answered := s.emit (.icl req now (env.icl req now s).1) with hanswered
    have standardAnswered : Standard p answered := standard.act (.emit _ nofun)
    have recorded : purse p uid answered = { purse p uid s with
        sent := ofUser uid [req] ++ (purse p uid s).sent } := by
      have sent : (dispatches uid answered.trace).map Prod.fst =
          ofUser uid [req] ++ (dispatches uid s.trace).map Prod.fst := by
        rw [hanswered, emit_trace, dispatches]
        split
        next own => rw [ofUser_cons_of_mem host own]; rfl
        next other => rw [ofUser_cons_of_not fun h => other h.2]; rfl
      simp only [purse, sent]
      rfl
    rw [← recorded, ← purse_getOrCreateUser standardAnswered req.userID]
    by_cases own : req.userID = uid
    · subst own
      exact purse_modify_self fun _ => rfl
    · exact purse_modify_ne (fun _ => rfl) own
  next gate =>
    rw [ofUser_cons_of_not fun h => gate h.1]
    rfl

theorem purse_dispatchReentrant (uid : UserID) (quiet : env.Quiet) (standard : Standard p s)
    (req : Request) (now : Tick) :
    purse p uid (s.dispatchReentrant p env req now).2 = { purse p uid s with
      sent := ofUser uid [req] ++ (purse p uid s).sent } :=
  purse_dispatchICL uid quiet (standard.act (.inTick false s)) req now

theorem purse_iopsWindow (uid : UserID) (now : Tick) :
    purse p uid (s.iopsWindow p now) = purse p uid s := by
  have kept := fun other {α : Type} (field : UserAccount → α)
    (same : ∀ acc : UserAccount, field acc.resetWindow = field acc) =>
      mapUsers_field s other (f := UserAccount.resetWindow) field same
  have window : purse p uid (s.mapUsers UserAccount.resetWindow) = purse p uid s := by
    have weight := fun other => kept other (·.weight) fun acc => by
      unfold UserAccount.resetWindow
      split <;> rfl
    have active := fun other => kept other (·.isActive) fun acc => by
      unfold UserAccount.resetWindow
      split <;> rfl
    have class_ := fun other => kept other (·.isSLO) fun acc => by
      unfold UserAccount.resetWindow
      split <;> rfl
    have held := fun other => kept other
      (fun acc => (acc.queue, acc.queueISC, acc.credit, acc.carry)) fun acc => by
        unfold UserAccount.resetWindow
        split <;> rfl
    simp only [Prod.mk.injEq] at held
    simp only [purse, weightShare, activeWeight, mapUsers_users, weight, active, class_, held]
    rfl
  unfold iopsWindow
  simp only
  split
  · exact window
  · rfl

theorem line_take (uid : UserID) (req : Request) (before after : List Request) :
    (ofUser uid [req] ++ ofUser uid (before ++ after)).Perm
      (ofUser uid (before ++ req :: after)) := by
  rw [← ofUser_append]
  have middle : (before ++ req :: after).Perm (req :: (before ++ after)) := List.perm_middle
  exact middle.symm.filter _

theorem mem_ofUser_singleton {uid : UserID} {req other : Request}
    (hmem : other ∈ ofUser uid [req]) : other = req ∧ req.userID = uid := by
  obtain ⟨same, -, own⟩ := mem_ofUser.1 hmem
  rw [List.mem_singleton] at same
  exact ⟨same, same ▸ own⟩

theorem drainAdmin_flows (uid : UserID) (quiet : env.Quiet) (fuel : Nat) (now : Tick)
    (standard : Standard p s) :
    (purse p uid s).Flows p uid (purse p uid (s.drainAdmin p env fuel now).2) := by
  induction fuel generalizing s now with
  | zero => exact .refl _
  | succ fuel ih =>
      unfold drainAdmin
      split
      · exact .refl _
      next req rest waiting =>
        set taken := { s with adminQueue := rest }.emit (.serve (.request req)) with htaken
        have standardTaken : Standard p taken := by
          have popped := standard.act (.takeAdmin (p := p))
          rw [waiting, List.tail_cons] at popped
          exact popped.act (.emit (p := p) _ nofun)
        have admin := standard.admin req (waiting ▸ List.mem_cons_self)
        have acts := dispatchICL_acts (p := p) quiet.actsOn req now taken
        have purseTaken : purse p uid taken = { purse p uid s with adminQueue := rest } :=
          purse_emit (by simp)
        have sent := purse_dispatchICL (p := p) uid quiet standardTaken req now
        rw [purseTaken] at sent
        have step : (purse p uid s).Flows p uid
            (purse p uid (taken.dispatchICL p env req now).2) := by
          rw [sent]
          refine ⟨.refl _, rfl, rfl, rfl, le_rfl, le_rfl, ofUser uid [req], rfl, ?_,
            fun r hmem => ?_⟩
          · have front := line_take uid req [] (rest ++ s.deferredQueue.map DeferredRequest.req ++
              (s.account uid).queue)
            have line : (purse p uid s).line uid = ofUser uid (req :: (rest ++
                s.deferredQueue.map DeferredRequest.req ++ (s.account uid).queue)) := by
              unfold Purse.line purse
              rw [waiting]
              rfl
            rw [line]
            exact front
          · exact .inl ((mem_ofUser_singleton hmem).1 ▸ admin)
        exact step.trans (ih _ (standardTaken.acts acts))

theorem drainDeferred_flows (uid : UserID) (quiet : env.Quiet) (n : Nat) (now : Tick)
    (standard : Standard p s) :
    (purse p uid s).Flows p uid (purse p uid (s.drainDeferred p env n now).2) := by
  induction n generalizing s now with
  | zero => exact .refl _
  | succ n ih =>
      unfold drainDeferred
      split
      · exact .refl _
      next dr rest waiting =>
        have entry := standard.deferred dr (waiting ▸ List.mem_cons_self)
        set popped : CreditScheduler := { s with deferredQueue := rest } with hpopped
        have taken : Standard p popped := by
          refine standard.act (.shuffle rest ?_)
          rw [waiting]
          exact List.subset_cons_self _ _
        have found : popped.getOrCreateUser p dr.req.userID = popped :=
          getOrCreateUser_of_mem entry.2
        have debts : (purse p uid s).debts = dr.debt :: (purse p uid popped).debts := by
          simp [Purse.debts, purse, waiting, hpopped]
        simp only [found]
        split
        next held =>
          set paid := (popped.charge .deferredQueue (.ofOp dr.req.op) dr.req.userID
            dr.pages).emit (.serve (.request dr.req)) with hpaid
          have standardPaid : Standard p paid := (taken.act (.charge (s := popped)
            .deferredQueue (.ofOp dr.req.op) dr.req.userID dr.pages entry.2 held)).act
              (.emit (p := p) _ (by simp))
          have pursePaid : purse p uid paid = _ :=
            (purse_emit (by simp)).trans (purse_charge (s := popped) .deferredQueue
              (.ofOp dr.req.op) dr.req.userID held)
          have acts := dispatchReentrant_acts (p := p) quiet.actsOn dr.req now paid
          have sent := purse_dispatchReentrant (p := p) uid quiet standardPaid dr.req now
          rw [pursePaid] at sent
          have step : (purse p uid s).Flows p uid
              (purse p uid (paid.dispatchReentrant p env dr.req now).2) := by
            rw [sent]
            refine .pay dr.req.userID dr.pages (ofUser uid [dr.req]) (standard.capped uid)
              (List.Perm.of_eq debts) (fun own => own ▸ held) rfl rfl le_rfl le_rfl rfl ?_
              fun r hmem => ?_
            · have line := line_take uid dr.req s.adminQueue
                (rest.map DeferredRequest.req ++ (s.account uid).queue)
              simpa [Purse.line, purse, waiting] using line
            · obtain ⟨rfl, own⟩ := mem_ofUser_singleton hmem
              exact ⟨own, own, entry.1.symm⟩
          exact step.trans (ih _ (standardPaid.acts acts))
        next held =>
          set turned : CreditScheduler := { s with deferredQueue := rest ++ [dr] }
          have standardTurned : Standard p turned := by
            refine standard.act (.shuffle (rest ++ [dr]) ?_)
            rw [waiting]
            intro other hmem
            simpa [or_comm] using hmem
          have step : (purse p uid s).Flows p uid (purse p uid turned) := by
            refine .still (List.Perm.filter _ (List.perm_iff_count.2 fun debt => ?_))
              (List.Perm.filter _ (List.perm_iff_count.2 fun req => ?_)) rfl le_rfl le_rfl
            · simp only [Purse.debts, purse, waiting, turned, List.map_append, List.map_cons,
                List.map_nil, List.count_append, List.count_cons, List.count_nil]
              omega
            · simp only [purse, waiting, turned, List.map_append, List.map_cons, List.map_nil,
                List.count_append, List.count_cons, List.count_nil]
              omega
          exact step.trans (ih _ standardTurned)

theorem purse_resumeReentrant (quiet : env.Quiet) (dc : DeferredCustom) (now : Tick) :
    purse p uid (s.resumeReentrant env dc now) = purse p uid s := by
  unfold resumeReentrant
  split
  · rw [quiet.resume]
    rfl
  · rfl

theorem drainDeferredISC_flows (uid : UserID) (quiet : env.Quiet) (now : Tick) (n : Nat)
    (standard : Standard p s) :
    (purse p uid s).Flows p uid (purse p uid (s.drainDeferredISC p env now n)) := by
  induction n generalizing s with
  | zero => exact .refl _
  | succ n ih =>
      unfold drainDeferredISC
      split
      · exact .refl _
      next dc rest waiting =>
        set popped : CreditScheduler := { s with deferredISC := rest } with hpopped
        have taken : Standard p popped := standard.act (.isc rest s.deferredISCRequests)
        set user := popped.getOrCreateUser p dc.uid with huser
        have found : Standard p user := taken.act (.create dc.uid)
        have known : dc.uid ∈ user.users := mem_getOrCreateUser p dc.uid popped
        have purseUser : purse p uid user = { purse p uid s with deferredISC := rest } :=
          purse_getOrCreateUser taken dc.uid
        simp only
        split
        next held =>
          set paid := (user.charge .deferredISC .isc dc.uid dc.pages).emit
            (.serve (.custom dc)) with hpaid
          have standardPaid : Standard p paid := (found.act (.charge .deferredISC .isc dc.uid
            dc.pages known held)).act (.resume dc _ _ _ rfl (sub64_add_cancel held))
          have acts := resumeReentrant_acts (p := p) quiet.actsOn dc now paid
          have pursePaid : purse p uid paid = _ :=
            (purse_emit (by simp)).trans (purse_charge (s := user) .deferredISC .isc dc.uid held)
          have step : (purse p uid s).Flows p uid
              (purse p uid (paid.resumeReentrant env dc now)) := by
            have credit : (user.account uid).credit = (s.account uid).credit :=
              congrArg Purse.credit purseUser
            rw [purse_resumeReentrant quiet, pursePaid, purseUser, credit]
            refine .pay dc.uid dc.pages [] (standard.capped uid)
              (List.perm_iff_count.2 fun debt => ?_) (fun own => ?_) rfl rfl le_rfl
              le_rfl rfl (.refl _) (by simp)
            · simp only [Purse.debts, purse, waiting, List.map_append, List.map_cons,
                DeferredCustom.debt, List.count_append, List.count_cons]
              omega
            · rw [own, credit] at held
              exact held
          exact step.trans (ih (standardPaid.acts acts))
        next held =>
          set turned : CreditScheduler := { user with deferredISC := user.deferredISC ++ [dc] }
          have standardTurned : Standard p turned := found.act (.isc _ user.deferredISCRequests)
          have rest' : user.deferredISC = rest := congrArg Purse.deferredISC purseUser
          have purseTurned : purse p uid turned = { purse p uid s with
              deferredISC := rest ++ [dc] } := by
            have same : purse p uid turned = { purse p uid user with
              deferredISC := user.deferredISC ++ [dc] } := rfl
            rw [same, purseUser, rest']
          have step : (purse p uid s).Flows p uid (purse p uid turned) := by
            rw [purseTurned]
            refine .still (List.Perm.filter _ (List.perm_iff_count.2 fun debt => ?_)) (.refl _) rfl
              le_rfl le_rfl
            simp only [Purse.debts, purse, waiting, List.map_append, List.map_cons, List.map_nil,
              List.count_append, List.count_cons, List.count_nil]
            omega
          exact step.trans (ih standardTurned)

theorem processISCLoop_flows (uid : UserID) (quiet : env.Quiet) (now : Tick) (fuel : Nat)
    (remaining : List ISCDeferredRequest) (standard : Standard p s) :
    Purse.Flows p uid { purse p uid s with
      deferredISCRequests := s.deferredISCRequests ++ remaining }
      (purse p uid (s.processISCLoop p env now fuel remaining)) := by
  induction fuel generalizing remaining s with
  | zero => exact .refl _
  | succ fuel ih =>
      unfold processISCLoop
      split
      next waiting =>
        rw [waiting]
        exact .refl _
      next req rest waiting =>
        set popped : CreditScheduler := { s with deferredISCRequests := rest } with hpopped
        have taken : Standard p popped := standard.act (.isc s.deferredISC rest)
        set user := popped.getOrCreateUser p req.uid with huser
        have found : Standard p user := taken.act (.create req.uid)
        have known : req.uid ∈ user.users := mem_getOrCreateUser p req.uid popped
        have purseUser : purse p uid user = { purse p uid s with deferredISCRequests := rest } :=
          purse_getOrCreateUser taken req.uid
        have credit : (user.account uid).credit = (s.account uid).credit :=
          congrArg Purse.credit purseUser
        have rest' : user.deferredISCRequests = rest :=
          congrArg Purse.deferredISCRequests purseUser
        simp only
        split
        next held =>
          set paid := (user.charge .processISCRequests .isc req.uid req.pagesNeeded).emit
            (.serve (.isc req.uid req.pagesNeeded req.iscContext)) with hpaid
          have standardPaid : Standard p paid := (found.act (.charge .processISCRequests .isc
            req.uid req.pagesNeeded known held)).act (.emit _ nofun)
          have pursePaid : purse p uid paid = _ :=
            (purse_emit (by simp)).trans (purse_charge (s := user) .processISCRequests .isc
              req.uid held)
          have queue : paid.deferredISCRequests = rest := rest'
          rw [quiet.iscCallback]
          have more := ih remaining standardPaid
          rw [pursePaid, purseUser, credit, queue] at more
          refine Purse.Flows.trans ?_ more
          refine .pay req.uid req.pagesNeeded [] (standard.capped uid)
            (List.perm_iff_count.2 fun debt => ?_) (fun own => ?_) rfl rfl le_rfl
              le_rfl rfl (.refl _) (by simp)
          · simp only [Purse.debts, purse, waiting, List.map_append, List.map_cons,
              ISCDeferredRequest.debt, List.count_append, List.count_cons]
            omega
          · rw [own, credit] at held
            exact held
        next held =>
          have more := ih (remaining ++ [req]) found
          rw [purseUser, rest'] at more
          refine Purse.Flows.trans ?_ more
          refine .still (List.Perm.filter _ (List.perm_iff_count.2 fun debt => ?_)) (.refl _) rfl
            le_rfl le_rfl
          simp only [Purse.debts, purse, waiting, List.map_append, List.map_cons, List.map_nil,
            List.count_append, List.count_cons, List.count_nil]
          omega

theorem purse_popQueueISC (uid : UserID) (s : CreditScheduler) :
    purse p uid (s.modify uid UserAccount.popQueueISC) =
      { purse p uid s with queueISC := (s.account uid).queueISC.tail } :=
  purse_modify_self (f := UserAccount.popQueueISC) fun _ => rfl

theorem purse_popQueue (uid : UserID) (s : CreditScheduler) :
    purse p uid (s.modify uid UserAccount.popQueue) =
      { purse p uid s with queue := (s.account uid).queue.tail } :=
  purse_modify_self (f := UserAccount.popQueue) fun _ => rfl

theorem payable_of_ne {cap : Nat} {uid : UserID} {debt : UserID × Nat} (ne : debt.1 ≠ uid) :
    payable cap uid debt = false := by
  simp [payable, ne]

theorem sendISC_flows (uid : UserID) {user : UserID} {front : Request} {rest : List Request}
    (standard : Standard p s) (waiting : (s.account user).queueISC = front :: rest)
    (held : front.pages ≤ (s.account user).credit) :
    (purse p uid s).Flows p uid (purse p uid (sendISC user front s)) := by
  have own : front.userID = user := standard.owner user front (by simp [waiting])
  set charged := s.charge .queueISC .isc user front.pages with hcharged
  have pursePaid : purse p uid { charged with lastChosenUidISC := user } = _ :=
    purse_charge .queueISC .isc user held
  have emitted : purse p uid (sendISC user front s) = purse p uid
      ({ charged with lastChosenUidISC := user }.modify user UserAccount.popQueueISC) :=
    purse_emit (by simp)
  rw [emitted]
  by_cases same : user = uid
  · subst same
    have queue : (charged.account user).queueISC = front :: rest :=
      (modify_field s user user (f := (·.pay .isc front.pages)) (·.queueISC) fun _ => rfl).trans
        waiting
    rw [purse_popQueueISC, pursePaid]
    refine .pay user front.pages [] (standard.capped user)
      (List.perm_iff_count.2 fun debt => ?_) (fun _ => held) rfl rfl
      le_rfl (by simp [purse, queue, waiting]) rfl (.refl _) (by simp)
    simp only [Purse.debts, purse, waiting, queue, List.tail_cons, List.cons_append,
      List.map_append, List.map_cons, Request.debt, own, List.count_append, List.count_cons]
    omega
  · rw [purse_modify_ne (f := UserAccount.popQueueISC) (fun _ => rfl) same, pursePaid,
      if_neg same]
    exact .refl _

theorem deferISC_acts {user : UserID} {front : Request} (now : Tick)
    (waits : front ∈ (s.account user).queue ++ (s.account user).queueISC) :
    Acts p s (deferISC user front now s) :=
  (ReflTransGen.single (.defer user front now waits)).tail (.takeISC user)

theorem deferISC_flows (uid : UserID) {user : UserID} {front : Request}
    {rest : List Request} (now : Tick) (standard : Standard p s)
    (waiting : (s.account user).queueISC = front :: rest) :
    (purse p uid s).Flows p uid (purse p uid (deferISC user front now s)) := by
  have own : front.userID = user := standard.owner user front (by simp [waiting])
  have gate := standard.gates user front (waiting ▸ List.mem_cons_self)
  have skip : ∀ requests, ofUser uid (front :: requests) = ofUser uid requests :=
    ofUser_cons_of_not (by simp [gate])
  set deferred : CreditScheduler := { s with
    deferredQueue := s.deferredQueue ++ ([⟨front, front.pages, now⟩] : List DeferredRequest) }
    with hdeferred
  have line : ofUser uid (s.adminQueue ++ deferred.deferredQueue.map DeferredRequest.req ++
      (s.account uid).queue) = ofUser uid (s.adminQueue ++
        s.deferredQueue.map DeferredRequest.req ++ (s.account uid).queue) := by
    simp [hdeferred, ofUser_append, skip]
  unfold deferISC
  rw [← hdeferred]
  by_cases same : user = uid
  · subst same
    rw [purse_popQueueISC]
    refine .still (List.Perm.filter _ (List.perm_iff_count.2 fun debt => ?_)) (.of_eq line) rfl
      le_rfl (List.tail_sublist _).length_le
    simp only [Purse.debts, purse, hdeferred, waiting, List.tail_cons, List.cons_append,
      List.map_append, List.map_cons, List.map_nil, DeferredRequest.debt, Request.debt,
      List.count_append, List.count_cons, List.count_nil]
    omega
  · rw [purse_modify_ne (f := UserAccount.popQueueISC) (fun _ => rfl) same]
    refine .still (.of_eq ?_) (.of_eq line) rfl le_rfl le_rfl
    have other : payable p.creditCap uid (front.userID, front.pages) = false :=
      payable_of_ne (own ▸ same)
    simp [Purse.debts, purse, hdeferred, DeferredRequest.debt, List.filter_append, other]

theorem tryDispatchISC_flows (uid : UserID) (now : Tick) (order : List UserID)
    (standard : Standard p s) :
    (purse p uid s).Flows p uid (purse p uid (s.tryDispatchISC now order).2) := by
  induction order generalizing s with
  | nil => exact .refl _
  | cons user order ih =>
      cases waiting : (s.account user).queueISC with
      | nil =>
          rw [tryDispatchISC, waiting]
          exact ih standard
      | cons front rest =>
          have waits : front ∈ (s.account user).queue ++ (s.account user).queueISC := by
            simp [waiting]
          have known := standard.toPlaced.known_of_waiting waits
          rw [tryDispatchISC_cons waiting]
          split
          next held => exact sendISC_flows uid standard waiting held
          next short =>
            exact (deferISC_flows uid now standard waiting).trans
              (ih (standard.acts (deferISC_acts now waits)))

theorem sendHost_acts {user : UserID} {front : Request} (known : user ∈ s.users)
    (own : front.userID = user) (held : front.pages ≤ (s.account user).credit) :
    Acts p s (sendHost p user front s) := by
  subst own
  unfold sendHost
  rw [getOrCreateUser_of_mem known]
  exact (((ReflTransGen.single (.charge .hostQueue (.ofOp front.op) front.userID front.pages
    known held)).tail (.take front.userID)).tail (.mark front.userID _ _ _ _ _)).tail
      (.emit _ nofun)

theorem sendHost_flows (uid : UserID) (quiet : env.Quiet) {user : UserID} {front : Request}
    {rest : List Request} (now : Tick) (standard : Standard p s)
    (waiting : (s.account user).queue = front :: rest)
    (held : front.pages ≤ (s.account user).credit) :
    (purse p uid s).Flows p uid
      (purse p uid (dispatchReentrant p env front now (sendHost p user front s)).2) := by
  have waits : front ∈ (s.account user).queue ++ (s.account user).queueISC := by simp [waiting]
  obtain rfl := standard.owner user front waits
  have known := standard.toPlaced.known_of_waiting waits
  have standardSent := standard.acts (sendHost_acts known rfl held)
  rw [purse_dispatchReentrant uid quiet standardSent front now]
  set charged := s.charge .hostQueue (.ofOp front.op) front.userID front.pages with hcharged
  have pursePaid : purse p uid charged = _ :=
    purse_charge .hostQueue (.ofOp front.op) front.userID held
  have emitted : purse p uid (sendHost p front.userID front s) =
      purse p uid (charged.modify front.userID UserAccount.popQueue) := by
    unfold sendHost
    rw [getOrCreateUser_of_mem known]
    exact purse_emit (by simp)
  rw [emitted]
  by_cases same : front.userID = uid
  · subst same
    have queue : (charged.account front.userID).queue = front :: rest :=
      (modify_field s front.userID front.userID (f := (·.pay (.ofOp front.op) front.pages))
        (·.queue) fun _ => rfl).trans waiting
    rw [purse_popQueue, pursePaid]
    refine .pay front.userID front.pages (ofUser front.userID [front])
      (standard.capped front.userID) (List.perm_iff_count.2 fun debt => ?_) (fun _ => held) rfl
      rfl (by simp [purse, queue, waiting]) le_rfl rfl ?_ fun req hmem => ?_
    · simp only [Purse.debts, purse, waiting, queue, List.tail_cons, List.map_append,
        List.map_cons, Request.debt, List.count_append, List.count_cons]
      omega
    · have line := line_take front.userID front (s.adminQueue ++
        s.deferredQueue.map DeferredRequest.req) rest
      simpa [Purse.line, purse, waiting, queue] using line
    · rw [(mem_ofUser_singleton hmem).1]
      exact ⟨rfl, rfl, rfl⟩
  · rw [purse_modify_ne (f := UserAccount.popQueue) (fun _ => rfl) same, pursePaid, if_neg same,
      ofUser_cons_of_not fun h => same h.2]
    exact .refl _

theorem deferHost_acts {user : UserID} {front : Request} (now : Tick) (known : user ∈ s.users)
    (own : front.userID = user)
    (waits : front ∈ (s.account user).queue ++ (s.account user).queueISC) :
    Acts p s (deferHost p user front now s) := by
  subst own
  unfold deferHost
  rw [getOrCreateUser_of_mem known]
  exact (ReflTransGen.single (.defer front.userID front now waits)).tail (.take front.userID)

theorem deferHost_flows (uid : UserID) {user : UserID} {front : Request}
    {rest : List Request} (now : Tick) (standard : Standard p s)
    (waiting : (s.account user).queue = front :: rest) :
    (purse p uid s).Flows p uid (purse p uid (deferHost p user front now s)) := by
  have waits : front ∈ (s.account user).queue ++ (s.account user).queueISC := by simp [waiting]
  obtain rfl := standard.owner user front waits
  have known := standard.toPlaced.known_of_waiting waits
  unfold deferHost
  rw [getOrCreateUser_of_mem known]
  set deferred : CreditScheduler := { s with
    deferredQueue := s.deferredQueue ++ ([⟨front, front.pages, now⟩] : List DeferredRequest) }
    with hdeferred
  by_cases same : front.userID = uid
  · subst same
    rw [purse_popQueue]
    refine .still (List.Perm.filter _ (List.perm_iff_count.2 fun debt => ?_)) (.of_eq ?_) rfl
      (List.tail_sublist _).length_le le_rfl
    · simp only [Purse.debts, purse, hdeferred, waiting, List.tail_cons, List.map_append,
        List.map_cons, List.map_nil, DeferredRequest.debt, Request.debt, List.count_append,
        List.count_cons, List.count_nil]
      omega
    · simp [Purse.line, purse, hdeferred, waiting]
  · rw [purse_modify_ne (f := UserAccount.popQueue) (fun _ => rfl) same]
    have other : payable p.creditCap uid (front.userID, front.pages) = false :=
      payable_of_ne same
    have skip : ∀ requests, ofUser uid (front :: requests) = ofUser uid requests :=
      ofUser_cons_of_not fun h => same h.2
    refine .still (.of_eq ?_) (.of_eq ?_) rfl le_rfl le_rfl
    · simp [Purse.debts, purse, hdeferred, DeferredRequest.debt, List.filter_append, other]
    · simp [Purse.line, purse, hdeferred, ofUser_append, skip]

theorem tryDispatchHost_flows (uid : UserID) (quiet : env.Quiet) (now : Tick) (order : List UserID)
    (standard : Standard p s) :
    (purse p uid s).Flows p uid (purse p uid (s.tryDispatchHost p env now order).2.2) := by
  induction order generalizing s with
  | nil => exact .refl _
  | cons user order ih =>
      cases waiting : (s.account user).queue with
      | nil =>
          rw [tryDispatchHost, waiting]
          exact ih standard
      | cons front rest =>
          have waits : front ∈ (s.account user).queue ++ (s.account user).queueISC := by
            simp [waiting]
          have own := standard.owner user front waits
          have known := standard.toPlaced.known_of_waiting waits
          rw [tryDispatchHost_cons waiting, getOrCreateUser_of_mem (own.symm ▸ known)]
          split
          next held => exact sendHost_flows uid quiet now standard waiting (own ▸ held)
          next short =>
            exact (deferHost_flows uid now standard waiting).trans
              (ih (standard.acts (deferHost_acts now known own waits)))

theorem dispatchRounds_flows (uid : UserID) (quiet : env.Quiet) (rounds : Nat) (now : Tick)
    (standard : Standard p s) :
    (purse p uid s).Flows p uid (purse p uid (s.dispatchRounds p env rounds now).2) := by
  induction rounds generalizing s now with
  | zero => exact .refl _
  | succ rounds ih =>
      have order : scanOrder s.lastChosenUidISC s.users ⊆ s.users :=
        (scanOrder_perm _ _).subset
      have gates := tryDispatchISC_flows uid now (scanOrder s.lastChosenUidISC s.users)
        standard
      have gateActs := tryDispatchISC_acts (p := p) now _ s order
      unfold dispatchRounds
      generalize s.tryDispatchISC now (scanOrder s.lastChosenUidISC s.users) = isc at *
      have standardGates := standard.acts gateActs
      have hosts := tryDispatchHost_flows (p := p) uid quiet now
        (scanOrder isc.2.lastChosenUid isc.2.users) standardGates
      have hostActs := tryDispatchHost_acts (p := p) quiet.actsOn now
        (scanOrder isc.2.lastChosenUid isc.2.users) isc.2
      simp only
      split
      · exact gates.trans (ih now standardGates)
      · generalize isc.2.tryDispatchHost p env now
          (scanOrder isc.2.lastChosenUid isc.2.users) = host at *
        split
        · exact (gates.trans hosts).trans (ih _ (standardGates.acts hostActs))
        · exact gates.trans hosts

theorem serviceQueues_flows (uid : UserID) (quiet : env.Quiet) (now : Tick)
    (standard : Standard p s) :
    (purse p uid s).Flows p uid (purse p uid (s.serviceQueues p env now).2) := by
  have deferred := drainDeferred_flows (p := p) uid quiet s.deferredQueue.length now
    standard
  have deferredActs := drainDeferred_acts (p := p) quiet.actsOn s.deferredQueue.length now s
  unfold serviceQueues
  generalize s.drainDeferred p env s.deferredQueue.length now = drained at *
  have custom := drainDeferredISC_flows (p := p) uid quiet drained.1
    drained.2.deferredISC.length (standard.acts deferredActs)
  have customActs := drainDeferredISC_acts (p := p) quiet.actsOn drained.1
    drained.2.deferredISC.length drained.2
  simp only
  generalize drainDeferredISC p env drained.1 drained.2.deferredISC.length drained.2 =
    resumed at *
  have standardResumed := (standard.acts deferredActs).acts customActs
  have requests := processISCLoop_flows (p := p) uid quiet drained.1
    (resumed.deferredISCRequests.length + 1 + env.fuel) [] standardResumed
  have requestActs := processISCLoop_acts (p := p) quiet.actsOn drained.1
    (resumed.deferredISCRequests.length + 1 + env.fuel) [] resumed
  rw [List.append_nil] at requests
  have rounds := dispatchRounds_flows (p := p) uid quiet maxDispatchPerTick drained.1
    (standardResumed.acts requestActs)
  exact ((deferred.trans custom).trans requests).trans rounds

end Steps

/-! ## Refill phases -/

/-- The account after `n` phases, which have added the share if the user is active. -/
structure Purse.Refilled (p : Params) (uid : UserID) (n : Nat) (v w : Purse) : Prop where
  same : w = { v with credit := w.credit, carry := w.carry, next := w.next }
  next : w.next = v.next + n * p.periodTicks
  fills : v.active = true → Allowance.Fills p.creditCap v.share n (v.allowance p.creditCap uid)
    (w.allowance p.creditCap uid)

section Refill

variable {p : Params} {uid : UserID} {s : CreditScheduler} {u v w : Purse} {m n : Nat}

theorem Purse.Refilled.refl (w : Purse) : Purse.Refilled p uid 0 w w :=
  ⟨rfl, by simp, fun _ => .refl _⟩

theorem Purse.Refilled.trans (first : Purse.Refilled p uid m u v)
    (second : Purse.Refilled p uid n v w) : Purse.Refilled p uid (m + n) u w := by
  have share : v.share = u.share := (congrArg Purse.share first.same :)
  have active : v.active = u.active := (congrArg Purse.active first.same :)
  refine ⟨?_, ?_, fun on => ?_⟩
  · rw [second.same, first.same]
  · rw [second.next, first.next]
    ring
  · exact (first.fills on).trans (share ▸ second.fills (active ▸ on))

theorem Standard.bestEffort (standard : Standard p s) : BestEffort s :=
  fun uid _ => standard.isSLO uid

theorem refillPhase_refilled (uid : UserID) (standard : Standard p s) :
    (purse p uid s).Refilled p uid 1 (purse p uid (s.refillPhase p)) := by
  obtain ⟨account, grants⟩ := s.refillGrants_eq p
  obtain ⟨queue, queueISC, active, -⟩ := phase_proper (p := p) s uid
  have weight : ((s.refillPhase p).account uid).weight = (s.account uid).weight :=
    refillGrants_field p s uid (·.weight) (fun acc => acc.age_weight) fun _ _ _ _ => rfl
  have share : weightShare p uid (s.refillPhase p) = weightShare p uid s := by
    unfold weightShare
    rw [weight, refillPhase_activeWeight]
  have sent : dispatches uid (s.refillPhase p).trace = dispatches uid s.trace :=
    dispatches_cons (by simp)
  have same : purse p uid (s.refillPhase p) = { purse p uid s with
      credit := ((s.refillPhase p).account uid).credit
      carry := ((s.refillPhase p).account uid).carry
      next := s.lastGlobalRefillTick + p.periodTicks } := by
    simp only [purse, queue, queueISC, active, share, sent, Purse.mk.injEq, and_true, true_and]
    refine ⟨?_, ?_, ?_, ?_, rfl⟩
    · exact (congrArg (·.adminQueue) grants :)
    · exact (congrArg (·.deferredQueue) grants :)
    · exact (congrArg (·.deferredISC) grants :)
    · exact (congrArg (·.deferredISCRequests) grants :)
  refine ⟨same, ?_, fun on => ?_⟩
  · rw [same, Nat.one_mul]
    rfl
  · have be := standard.isSLO uid
    have user : uid ∈ activeUsers false s :=
      (mem_activeUsers s).2 ⟨standard.active uid on, on, be⟩
    have some : 0 < s.activeWeight false := by
      rw [activeWeight_eq]
      refine Nat.zero_lt_one.trans_le ((standard.weight uid).ge.trans (List.le_sum_of_mem ?_))
      exact List.mem_map_of_mem (f := fun uid => (s.account uid).weight) user
    have spill : 0 < spillToBE p (s.mapUsers UserAccount.age) := by
      rw [standard.bestEffort.spill]
      exact pagesPerPeriod_pos p
    have given : beShare p s uid = weightShare p uid s := by
      rw [beShare, if_pos ⟨user, spill, some⟩, standard.bestEffort.spill, weightShare]
    have taken := phaseGrant_of_share user spill some
    have credit : ((s.refillPhase p).account uid).credit =
        (s.account uid).credit + phaseGrant p s uid := refillGrants_credit p s uid
    have total := phase_credit_add_carry (p := p) be
    have room : (s.account uid).headroom = p.creditCap - (s.account uid).credit := by
      unfold UserAccount.headroom
      rw [standard.cap]
      split_ifs <;> omega
    rw [given] at taken total
    rw [room] at taken
    rw [credit, Nat.cast_add, add_assoc, add_assoc] at total
    have left := add_left_cancel total
    rw [same]
    refine .fill ?_ credit ?_ rfl rfl
    · rw [taken, ← NNRat.floor_coe]
      push_cast
      rfl
    · have cast := congrArg (NNRat.cast : ℚ≥0 → ℚ) left
      push_cast at cast
      exact cast

theorem refill_refilled (uid : UserID) (standard : Standard p s) (now : Tick) :
    ∃ n, (purse p uid s).Refilled p uid n (purse p uid (s.refill p now)) ∧
      (1 ≤ n → (s.refill p now).lastGlobalRefillTick ≤ now + p.periodTicks) := by
  have loop : ∀ fuel (t : CreditScheduler), Standard p t →
      ∃ n, (purse p uid t).Refilled p uid n (purse p uid (t.refillLoop p now fuel)) ∧
        (1 ≤ n → (t.refillLoop p now fuel).lastGlobalRefillTick ≤ now + p.periodTicks) := by
    intro fuel
    induction fuel with
    | zero => exact fun t _ => ⟨0, .refl _, fun h => absurd h (by decide)⟩
    | succ fuel ih =>
        intro t standard
        unfold refillLoop
        split
        next due =>
          obtain ⟨n, refilled, last⟩ := ih _ (standard.act .phase)
          refine ⟨1 + n, (refillPhase_refilled uid standard).trans refilled, fun _ => ?_⟩
          rcases Nat.eq_zero_or_pos n with rfl | more
          · have next := refilled.next
            rw [Nat.zero_mul, Nat.add_zero] at next
            refine (next : _ = t.lastGlobalRefillTick + p.periodTicks).trans_le ?_
            exact Nat.add_le_add_right due.2 _
          · exact last more
        next => exact ⟨0, .refl _, fun h => absurd h (by decide)⟩
  have checked : purse p uid (s.emit (.refillCheck now)) = purse p uid s := purse_emit (by simp)
  obtain ⟨n, refilled, last⟩ := loop (now + 1 - s.lastGlobalRefillTick) _
    (standard.act (.emit (.refillCheck now) (by simp)))
  rw [checked] at refilled
  exact ⟨n, refilled, last⟩

end Refill

end SimpleSSD.HIL.CreditScheduler
