import SimpleSSD.HIL.Scheduler.QueuesAhead

/-!
# Until the request is done

`processUntil` ticks for at most a million steps of a tenth of a period each.  Its
request is dispatched in them when the user comes to afford it: the queues ahead are
served in time, and so many periods pass that the shares pay for what the user has
waiting.  A request above the cap of the credit is never dispatched.
-/

namespace SimpleSSD.HIL.CreditScheduler

open SimpleSSD.Foundation Relation

/-! ## One tick -/

section Ticked

variable {p : Params} {env : Env} {uid : UserID} {s : CreditScheduler} {users : List UserID}

/-- A tick: the administration first, which brings it to a `moment` at which `n` phases
are due, and then the queues. -/
structure Ticked (p : Params) (uid : UserID) (users : List UserID) (now : Tick)
    (s : CreditScheduler) (done : Tick × CreditScheduler) (n : Nat) (moment : Tick)
    (ready filled : Purse) : Prop where
  admin : (purse p uid s).Flows p uid ready
  drained : uid = 0 → ready.line uid = []
  refilled : ready.Refilled p uid n filled
  served : filled.Flows p uid (purse p uid done.2)
  started : now ≤ moment
  finished : moment ≤ done.1
  caughtUp : (s.account uid).isActive = true → moment < filled.next
  last : 1 ≤ n → filled.next ≤ moment + p.periodTicks
  passed : Passed uid done.2
  shrinks : Shrinks s done.2
  rounds : Listed users s → (s.account uid).isActive = true →
    (done.2.account uid).queue ≠ [] →
    queuedIn users done.2 + maxDispatchPerTick ≤ queuedIn users s ∨
      (done.2.account uid).queue.length < (s.account uid).queue.length
  standard : Standard p done.2
  out : done.2.inTick = false

theorem drainAdmin_empties (quiet : env.Quiet) (fuel : Nat) (now : Tick)
    (standard : Standard p s) (enough : s.adminQueue.length ≤ fuel) :
    (s.drainAdmin p env fuel now).2.adminQueue = [] := by
  induction fuel generalizing s now with
  | zero => exact List.length_eq_zero_iff.1 (Nat.le_zero.1 enough)
  | succ fuel ih =>
      unfold drainAdmin
      split
      next none => exact none
      next req rest waiting =>
        set taken := { s with adminQueue := rest }.emit (.serve (.request req)) with htaken
        have standardTaken : Standard p taken := by
          have popped := standard.act (.takeAdmin (p := p))
          rw [waiting, List.tail_cons] at popped
          exact popped.act (.emit (p := p) _ nofun)
        have acts := dispatchICL_acts (p := p) quiet.actsOn req now taken
        have same : (taken.dispatchICL p env req now).2.adminQueue = rest :=
          congrArg Purse.adminQueue (purse_dispatchICL 0 quiet standardTaken req now)
        refine ih _ (standardTaken.acts acts) ?_
        rw [waiting, List.length_cons] at enough
        rw [same]
        exact Nat.le_of_succ_le_succ enough

theorem line_admin (placed : Placed s) (drained : s.adminQueue = []) : line 0 s = [] := by
  refine List.filter_eq_nil_iff.2 fun req hmem => ?_
  rw [drained, List.nil_append, placed.zero.1, List.append_nil] at hmem
  obtain ⟨dr, hdr, rfl⟩ := List.mem_map.1 hmem
  have user := placed.user dr hdr
  simp [user]

theorem tick_ticked (uid : UserID) (users : List UserID) (quiet : env.Quiet)
    (forward : env.Forward) (now : Tick) (standard : Standard p s) (out : s.inTick = false) :
    ∃ n moment ready filled,
      Ticked p uid users now s (s.tick p env now) n moment ready filled := by
  rw [tick_eq out]
  unfold beforeService
  simp only
  set window := iopsWindow p now { s with inTick := true } with hwindow
  have windowActs : Acts p s window :=
    (ReflTransGen.single (.inTick true s)).trans (iopsWindow_acts now _)
  have standardWindow := standard.acts windowActs
  have windowPurse : ∀ uid, purse p uid window = purse p uid s := fun uid =>
    purse_iopsWindow (s := { s with inTick := true }) uid now
  set fuel := window.adminQueue.length + env.fuel with hfuel
  have adminFlows := fun uid => drainAdmin_flows (p := p) uid quiet fuel now standardWindow
  have adminActs := drainAdmin_acts (p := p) quiet.actsOn fuel now window
  have adminLater := drainAdmin_forward (p := p) (s := window) forward fuel now
  have empties := drainAdmin_empties (p := p) quiet fuel now standardWindow
    (Nat.le_add_right _ _)
  generalize window.drainAdmin p env fuel now = admin at *
  have standardAdmin := standardWindow.acts adminActs
  have refills := fun uid => refill_refilled (p := p) uid standardAdmin admin.1
  have refillActs := refill_acts (p := p) admin.1 admin.2
  have caughtUp := refill_caughtUp p admin.1 admin.2
  generalize admin.2.refill p admin.1 = refilled at *
  have standardRefilled := standardAdmin.acts refillActs
  have serviceFlows := fun uid => serviceQueues_flows (p := p) uid quiet admin.1 standardRefilled
  have serviceActs := serviceQueues_acts (p := p) quiet.actsOn admin.1 refilled
  have serviceLater := serviceQueues_forward (p := p) (s := refilled) forward admin.1
  have passed := serviceQueues_passed (p := p) uid quiet admin.1 standardRefilled
  obtain ⟨n, grants, last⟩ := refills uid
  have shrinksRefilled : Shrinks s refilled := by
    intro other
    obtain ⟨m, grants', -⟩ := refills other
    have flows := adminFlows other
    rw [windowPurse] at flows
    have queue : (refilled.account other).queue = (admin.2.account other).queue :=
      (congrArg Purse.queue grants'.same :)
    have queueISC : (refilled.account other).queueISC = (admin.2.account other).queueISC :=
      (congrArg Purse.queueISC grants'.same :)
    rw [queue, queueISC]
    exact ⟨flows.queue, flows.queueISC⟩
  have activeRefilled : (s.account uid).isActive = true →
      (refilled.account uid).isActive = true := by
    intro active
    have flows := (adminFlows uid).active
    rw [windowPurse] at flows
    have same : (refilled.account uid).isActive = (admin.2.account uid).isActive :=
      (congrArg Purse.active grants.same :)
    exact same.trans ((flows :).trans active)
  refine ⟨n, admin.1, purse p uid admin.2, purse p uid refilled, ?_⟩
  constructor
  case admin => exact windowPurse uid ▸ adminFlows uid
  case drained =>
    rintro rfl
    exact line_admin standardAdmin.toPlaced empties
  case refilled => exact grants
  case served => exact serviceFlows uid
  case started => exact adminLater
  case finished => exact serviceLater
  case caughtUp => exact fun active => caughtUp (standardRefilled.timer uid (activeRefilled active))
  case last => exact last
  case passed => exact passed
  case shrinks => exact shrinksRefilled.trans (.of_flows serviceFlows)
  case rounds =>
    intro listed active waiting
    have step := serviceQueues_queued quiet admin.1 standardRefilled
      (shrinksRefilled.listed listed) (activeRefilled active) waiting
    have fewer := shrinksRefilled.le users
    have shorter := (shrinksRefilled uid).1
    rcases step with all | own
    · exact .inl (all.trans fewer)
    · exact .inr (own.trans_le shorter)
  case standard => exact (standardRefilled.acts serviceActs).act (.inTick false _)
  case out => rfl

end Ticked

/-! ## Enough for the request -/

def Params.pause (p : Params) : Tick := p.periodTicks / 10

def backlog (users : List UserID) (uid : UserID) (s : CreditScheduler) : Nat :=
  queuedIn users s + maxDispatchPerTick * (s.account uid).queue.length

/-- The credit covers what the user owes and the queues are served in the iterations
left, or `n` more shares cover it and the iterations last for the `n` phases, for one
more with each debt of the user and for one with each tick that the queues take. -/
def Purse.Affords (p : Params) (uid : UserID) (iterations : Nat) (now : Tick) (ahead : Nat)
    (w : Purse) : Prop :=
  ((w.allowance p.creditCap uid).owed ≤ w.credit ∧ ahead < maxDispatchPerTick * iterations) ∨
    ∃ n, (w.allowance p.creditCap uid).Funded w.share n ∧
      (ahead / maxDispatchPerTick + (w.allowance p.creditCap uid).debts + n) *
        (p.periodTicks + p.pause) + (w.next + p.pause - now) ≤ iterations * p.pause

section Affords

variable {p : Params} {env : Env} {s : CreditScheduler} {users : List UserID} {req : Request}

theorem mem_line (placed : Placed s) (user : req.userID ≠ 0)
    (waits : req ∈ line req.userID s) : (∃ dr ∈ s.deferredQueue, dr.req = req) ∨
      req ∈ (s.account req.userID).queue := by
  obtain ⟨hmem, -, -⟩ := mem_ofUser.1 waits
  rcases List.mem_append.1 hmem with front | queue
  · rcases List.mem_append.1 front with admin | deferred
    · exact absurd (placed.admin req admin) user
    · exact .inl (List.mem_map.1 deferred)
  · exact .inr queue

theorem owed_of_line (placed : Placed s) (user : req.userID ≠ 0)
    (capped : req.pages ≤ p.creditCap) (waits : req ∈ line req.userID s) :
    req.pages ≤ ((purse p req.userID s).allowance p.creditCap req.userID).owed ∧
      0 < ((purse p req.userID s).allowance p.creditCap req.userID).debts := by
  have debt : (req.userID, req.pages) ∈ (purse p req.userID s).debts := by
    rcases mem_line placed user waits with ⟨dr, hdr, rfl⟩ | queue
    · rw [← (placed.deferred dr hdr).1]
      have waits : dr.debt ∈ s.deferredQueue.map DeferredRequest.debt := List.mem_map_of_mem hdr
      simp only [Purse.debts, List.mem_append]
      exact .inl (.inl (.inl waits))
    · have waits : Request.debt req ∈ ((s.account req.userID).queueISC ++
          (s.account req.userID).queue).map Request.debt :=
        List.mem_map_of_mem (List.mem_append_right _ queue)
      exact List.mem_append_right _ waits
  have own : payable p.creditCap req.userID (req.userID, req.pages) = true := by
    simp [payable, capped]
  refine ⟨?_, List.countP_pos_iff.2 ⟨_, debt, own⟩⟩
  exact List.le_sum_of_mem (List.mem_map_of_mem (f := Prod.snd) (List.mem_filter.2 ⟨debt, own⟩))

/-- A request that is still in line after a tick is queued, or more than the credit. -/
theorem Passed.short (passed : Passed req.userID s) (placed : Placed s) (user : req.userID ≠ 0)
    (waits : req ∈ line req.userID s) :
    (s.account req.userID).queue ≠ [] ∨ (s.account req.userID).credit < req.pages := by
  rcases mem_line placed user waits with ⟨dr, hdr, rfl⟩ | queue
  · rw [← (placed.deferred dr hdr).1]
    exact .inr (passed dr hdr rfl)
  · exact .inl (List.ne_nil_of_mem queue)

variable {now moment : Tick} {done : Tick × CreditScheduler} {n iterations : Nat}
  {ready filled : Purse}

theorem Ticked.backlog_le (ticked : Ticked p req.userID users now s done n moment ready filled) :
    backlog users req.userID done.2 ≤ backlog users req.userID s := by
  have all := ticked.shrinks.le users
  have own := Nat.mul_le_mul_left maxDispatchPerTick (ticked.shrinks req.userID).1
  exact Nat.add_le_add all own

theorem Ticked.backlog_lt (ticked : Ticked p req.userID users now s done n moment ready filled)
    (listed : Listed users s) (active : (s.account req.userID).isActive = true)
    (queue : (done.2.account req.userID).queue ≠ []) :
    backlog users req.userID done.2 + maxDispatchPerTick ≤ backlog users req.userID s := by
  have all := ticked.shrinks.le users
  have own := Nat.mul_le_mul_left maxDispatchPerTick (ticked.shrinks req.userID).1
  unfold backlog
  rcases ticked.rounds listed active queue with fewer | shorter
  · omega
  · have step := Nat.mul_le_mul_left maxDispatchPerTick (Nat.succ_le_of_lt shorter)
    rw [Nat.mul_succ] at step
    omega

theorem lasts_of_idle {cost cost' next now moment later pause left : Nat} (steps : cost' ≤ cost)
    (started : now ≤ moment) (caughtUp : moment < next) (finished : moment ≤ later)
    (lasts : cost + (next + pause - now) ≤ left + pause) :
    cost' + (next + pause - (later + pause)) ≤ left := by
  omega

theorem lasts_of_phase {cost cost' period next next' now moment later pause left : Nat}
    (steps : cost' + (period + pause) ≤ cost) (last : next' ≤ moment + period)
    (finished : moment ≤ later) (lasts : cost + (next + pause - now) ≤ left + pause) :
    cost' + (next' + pause - (later + pause)) ≤ left := by
  omega

theorem Ticked.affords (ticked : Ticked p req.userID users now s done n moment ready filled)
    (listed : Listed users s) (active : (s.account req.userID).isActive = true)
    (user : req.userID ≠ 0) (capped : req.pages ≤ p.creditCap)
    (waits : req ∈ line req.userID done.2)
    (affords : (purse p req.userID s).Affords p req.userID (iterations + 1) now
      (backlog users req.userID s)) :
    (purse p req.userID done.2).Affords p req.userID iterations (done.1 + p.pause)
      (backlog users req.userID done.2) := by
  have activeReady : ready.active = true := ticked.admin.active.trans active
  have fills := ticked.refilled.fills activeReady
  have shareFilled : filled.share = ready.share := (congrArg Purse.share ticked.refilled.same :)
  have share : (purse p req.userID done.2).share = (purse p req.userID s).share :=
    (ticked.served.share.trans shareFilled).trans ticked.admin.share
  have placed := ticked.standard.toPlaced
  have due := owed_of_line (p := p) placed user capped waits
  have short := ticked.passed.short placed user waits
  have less := ticked.backlog_le
  rcases affords with ⟨covered, served⟩ | ⟨shares, funded, lasts⟩
  · have coveredDone := ticked.served.pays.covered (fills.covered
      (ticked.admin.pays.covered covered))
    rcases short with queue | short
    · have fewer := ticked.backlog_lt listed active queue
      rw [Nat.mul_succ] at served
      exact .inl ⟨coveredDone, by omega⟩
    · exact absurd (due.1.trans coveredDone) (not_le.2 short)
  · have fundedReady := ticked.admin.pays.funded funded
    rw [← ticked.admin.share] at fundedReady
    have positive : (0 : ℚ) ≤ ready.share := NNRat.coe_nonneg _
    have fundedDone := ticked.served.pays.funded (fills.funded positive fundedReady)
    rw [← shareFilled, ← ticked.served.share] at fundedDone
    refine .inr ⟨shares - n, fundedDone, ?_⟩
    have next : (purse p req.userID done.2).next = filled.next := ticked.served.next
    have debts := ticked.served.pays.debts.trans (fills.debts.trans_le ticked.admin.pays.debts)
    have quotient := Nat.div_le_div_right (c := maxDispatchPerTick) less
    rw [next]
    rw [Nat.succ_mul] at lasts
    rcases Nat.eq_zero_or_pos n with rfl | received
    · have filledNext := ticked.refilled.next
      have readyNext := ticked.admin.next
      rw [Nat.zero_mul, Nat.add_zero] at filledNext
      rw [filledNext, readyNext]
      have caughtUp : _ < (purse p req.userID s).next :=
        (ticked.caughtUp active).trans_eq (filledNext.trans readyNext)
      refine lasts_of_idle ?_ ticked.started caughtUp ticked.finished lasts
      exact Nat.mul_le_mul_right _ (by omega)
    · have last := ticked.last received
      have steps : (backlog users req.userID done.2 / maxDispatchPerTick +
          ((purse p req.userID done.2).allowance p.creditCap req.userID).debts + (shares - n)) + 1
            ≤ backlog users req.userID s / maxDispatchPerTick +
          ((purse p req.userID s).allowance p.creditCap req.userID).debts + shares := by
        rcases Nat.eq_zero_or_pos shares with rfl | wanted
        · rcases short with queue | short
          · have fewer := ticked.backlog_lt listed active queue
            have quotient : backlog users req.userID done.2 / maxDispatchPerTick + 1 ≤
                backlog users req.userID s / maxDispatchPerTick := by
              rw [← Nat.add_div_right _ (by decide)]
              exact Nat.div_le_div_right fewer
            omega
          · have enough := fundedReady.mono positive (Nat.zero_le n)
            have paid := fills.fewer ticked.served.pays received enough capped due.1 short
            have before := ticked.admin.pays.debts
            omega
        · omega
      have steps := Nat.mul_le_mul_right (p.periodTicks + p.pause) steps
      rw [Nat.succ_mul] at steps
      exact lasts_of_phase steps last ticked.finished lasts

end Affords

/-! ## The submission -/

/-- The user's account when the request has been queued.  A user that becomes active
holds no credit, and its share counts it among the active users. -/
def afterSubmission (p : Params) (getTick : Tick) (req : Request) (s : CreditScheduler) : Purse :=
  let own := purse p req.userID s
  { own with
    queue := own.queue ++ [req]
    share := if own.active then own.share
      else p.pagesPerPeriod * ((1 : Nat) / (s.activeWeight false + 1 : Nat))
    active := true
    next := if s.timerStarted then own.next else getTick + p.periodTicks }

section Submission

variable {p : Params} {s : CreditScheduler} {req : Request}

theorem enqueue_host (host : req.op.isHost = true) (acc : UserAccount) :
    enqueue req acc = { acc with queue := acc.queue ++ [req] } := by
  refine if_neg ?_
  rintro (gate | result)
  · rw [gate] at host
    contradiction
  · rw [result] at host
    contradiction

theorem activate_share (standard : Standard p s) {uid : UserID} (known : uid ∈ s.users)
    (idle : (s.account uid).isActive = false) (getTick : Tick) :
    weightShare p uid (s.modify uid (UserAccount.activate getTick)) =
      p.pagesPerPeriod * ((1 : Nat) / (s.activeWeight false + 1 : Nat)) := by
  have weight := fun other => (modify_field s uid other (f := UserAccount.activate getTick)
    (·.weight) fun _ => rfl).trans (standard.weight other)
  have class_ := fun other => (modify_field s uid other (f := UserAccount.activate getTick)
    (·.isSLO) fun _ => rfl).trans (standard.isSLO other)
  have one : (fun other => if ((s.modify uid (UserAccount.activate getTick)).account other).isActive
      then 1 else 0) =
      Function.update (fun other => if (s.account other).isActive then 1 else 0) uid 1 := by
    funext other
    by_cases same : other = uid
    · rw [same, modify_account_self, Function.update_self]
      rfl
    · rw [modify_account_ne _ _ _ _ same, Function.update_of_ne same]
  have total := sum_map_update standard.nodup known
    (fun other => if (s.account other).isActive then 1 else 0) 1
  unfold weightShare activeWeight
  simp only [weight, class_, standard.weight, standard.isSLO, and_true, modify_users, one]
  rw [← total, idle]
  rfl

theorem purse_submitRequest (standard : Standard p s) (host : req.op.isHost = true)
    (notAdmin : req.userID ≠ 0) (getTick : Tick) :
    purse p req.userID (s.submitRequest p getTick req) = afterSubmission p getTick req s := by
  have found : purse p req.userID (s.getOrCreateUser p req.userID) = purse p req.userID s :=
    purse_getOrCreateUser standard req.userID
  have created := standard.act (.create req.userID)
  have known := mem_getOrCreateUser p req.userID s
  unfold submitRequest
  rw [if_neg notAdmin]
  set user := s.getOrCreateUser p req.userID with huser
  have timer : user.timerStarted = s.timerStarted := by
    rw [huser]
    unfold getOrCreateUser
    split <;> rfl
  have stable : ∀ acc, (enqueue req acc).stable = acc.stable := fun acc => by
    rw [enqueue_host host]
    rfl
  set queued := user.modify req.userID (enqueue req) with hqueued
  have standardQueued : Standard p queued := created.act (.enqueue req notAdmin known)
  have queue : purse p req.userID queued = { purse p req.userID s with
      queue := (s.account req.userID).queue ++ [req] } := by
    rw [hqueued, purse_modify_self stable, enqueue_host host, found]
    have same := congrArg Purse.queue found
    have others := congrArg Purse.queueISC found
    have credit := congrArg Purse.credit found
    simp only [purse] at same others credit ⊢
    rw [same, others, credit]
  have active : (queued.account req.userID).isActive = (s.account req.userID).isActive :=
    (congrArg Purse.active queue :)
  unfold activate
  rw [active]
  split
  next on =>
    have started := standard.timer req.userID on
    rw [queue, afterSubmission]
    simp only [purse, on, started, if_true]
  next off =>
    have idle : (queued.account req.userID).isActive = false := by
      rw [active]
      simpa using off
    have share := activate_share standardQueued known idle getTick
    rw [activeWeight_modify req.userID stable, activeWeight_getOrCreateUser] at share
    have credit := standard.inactive req.userID (by simpa using off)
    have activated : purse p req.userID (queued.modify req.userID
        (UserAccount.activate getTick)) = { purse p req.userID queued with
          credit := 0
          share := p.pagesPerPeriod * ((1 : Nat) / (s.activeWeight false + 1 : Nat))
          active := true } := by
      simp only [purse, modify_account_self, share]
      rfl
    have starts : ∀ t : CreditScheduler, purse p req.userID (t.startTimer p getTick) =
        { purse p req.userID t with next := getTick + p.periodTicks } := fun _ => rfl
    have running : (queued.modify req.userID (UserAccount.activate getTick)).timerStarted =
        s.timerStarted := timer
    rw [queue] at activated
    simp only [running, afterSubmission]
    split
    next on =>
      rw [activated]
      simp only [purse, off, credit, Bool.false_eq_true, if_false]
    next stopped =>
      rw [starts, activated]
      simp only [purse, off, credit, Bool.false_eq_true, if_false]

theorem queued_getOrCreateUser (uid : UserID) :
    queuedIn (s.getOrCreateUser p uid).users (s.getOrCreateUser p uid) = queuedIn s.users s := by
  unfold getOrCreateUser
  split
  · rfl
  next new =>
    unfold queuedIn
    rw [((p.emplaceOrder_perm s.users uid).map _).sum_eq, List.map_cons, List.sum_cons]
    simp only [Function.update_self]
    have others : ∀ user ∈ s.users, (Function.update s.account uid p.newAccount user).queued =
        (s.account user).queued := fun user hmem => by
      rw [Function.update_of_ne (ne_of_mem_of_not_mem hmem new)]
    rw [List.map_congr_left others]
    exact Nat.zero_add _

theorem backlog_submitRequest (standard : Standard p s) (host : req.op.isHost = true)
    (notAdmin : req.userID ≠ 0) (getTick : Tick) :
    backlog (s.submitRequest p getTick req).users req.userID (s.submitRequest p getTick req) =
      backlog s.users req.userID s + 1 + maxDispatchPerTick := by
  have purses := purse_submitRequest standard host notAdmin getTick
  have queue : ((s.submitRequest p getTick req).account req.userID).queue =
      (s.account req.userID).queue ++ [req] := (congrArg Purse.queue purses :)
  have all : queuedIn (s.submitRequest p getTick req).users (s.submitRequest p getTick req) =
      queuedIn s.users s + 1 := by
    have created := standard.act (.create req.userID)
    have known := mem_getOrCreateUser p req.userID s
    have before := queued_getOrCreateUser (p := p) (s := s) req.userID
    unfold submitRequest
    rw [if_neg notAdmin, activate_users, modify_users]
    set user := s.getOrCreateUser p req.userID with huser
    have same : ∀ other, (((user.modify req.userID (enqueue req)).activate p getTick
        req.userID).account other).queued =
          ((user.modify req.userID (enqueue req)).account other).queued :=
      fun _ => activate_field req.userID UserAccount.queued fun _ => rfl
    have one : (fun other => ((user.modify req.userID (enqueue req)).account other).queued) =
        Function.update (fun other => (user.account other).queued) req.userID
          ((user.account req.userID).queued + 1) := by
      funext other
      by_cases own : other = req.userID
      · rw [own, modify_account_self, Function.update_self, enqueue_host host]
        simp only [UserAccount.queued, List.length_append, List.length_singleton]
        omega
      · rw [modify_account_ne _ _ _ _ own, Function.update_of_ne own]
    have total := sum_map_update created.nodup known (fun other => (user.account other).queued)
      ((user.account req.userID).queued + 1)
    have sum : queuedIn user.users user =
        (user.users.map fun other => (user.account other).queued).sum := rfl
    rw [← before]
    unfold queuedIn
    simp only [same, one]
    unfold queuedIn at sum
    omega
  unfold backlog
  rw [all, queue, List.length_append, List.length_singleton, Nat.mul_succ]
  omega

end Submission

/-! ## The call -/

section Call

variable {p : Params} {env : Env} {uid : UserID} {s : CreditScheduler} {users : List UserID}
  {req : Request}

def timesDispatched (req : Request) (s : CreditScheduler) : Nat :=
  ((dispatches req.userID s.trace).map Prod.fst).count req

theorem Purse.Refilled.moves {n : Nat} {v w : Purse} (refilled : Purse.Refilled p uid n v w) :
    Purse.Moves p uid v w := by
  rw [refilled.same]
  exact .refl v

theorem Ticked.moves {now moment : Tick} {done : Tick × CreditScheduler} {n : Nat}
    {ready filled : Purse} (ticked : Ticked p uid users now s done n moment ready filled) :
    (purse p uid s).Moves p uid (purse p uid done.2) :=
  (ticked.admin.moves.trans ticked.refilled.moves).trans ticked.served.moves

theorem processLoop_moves (uid user : UserID) (quiet : env.Quiet) (forward : env.Forward)
    (iterations : Nat) (now : Tick) (standard : Standard p s) (out : s.inTick = false) :
    (purse p uid s).Moves p uid (purse p uid (s.processLoop p env user iterations now).2) := by
  induction iterations generalizing s now with
  | zero => exact .refl _
  | succ iterations ih =>
      obtain ⟨n, moment, ready, filled, ticked⟩ :=
        tick_ticked (p := p) uid [] quiet forward now standard out
      unfold processLoop
      simp only
      split
      · exact ticked.moves.trans (ih _ ticked.standard ticked.out)
      · exact ticked.moves

theorem hasPending_of_line (standard : Standard p s) (notAdmin : req.userID ≠ 0)
    (waits : req ∈ line req.userID s) : s.hasPending req.userID = true := by
  by_contra idle
  obtain ⟨queue, -, deferred, -⟩ := (hasPending_eq_false_iff standard.toProper req.userID).1
    (by simpa using idle)
  have queue : (s.account req.userID).queue = [] := queue
  rcases mem_line standard.toPlaced notAdmin waits with ⟨dr, hdr, -⟩ | hmem
  · rw [deferred] at hdr
    exact List.not_mem_nil hdr
  · rw [queue] at hmem
    exact List.not_mem_nil hmem

theorem processLoop_leaves (quiet : env.Quiet) (forward : env.Forward) (notAdmin : req.userID ≠ 0)
    (capped : req.pages ≤ p.creditCap) (iterations : Nat) (now : Tick) (standard : Standard p s)
    (out : s.inTick = false) (listed : Listed users s)
    (active : (s.account req.userID).isActive = true)
    (affords : (purse p req.userID s).Affords p req.userID iterations now
      (backlog users req.userID s)) :
    req ∉ line req.userID (s.processLoop p env req.userID iterations now).2 := by
  induction iterations generalizing s now with
  | zero =>
      intro waits
      have due := owed_of_line (p := p) standard.toPlaced notAdmin capped waits
      rcases affords with ⟨-, served⟩ | ⟨n, -, lasts⟩
      · exact Nat.not_lt_zero _ served
      · have some := Nat.le_mul_of_pos_left (p.periodTicks + p.pause)
          (Nat.add_pos_left (Nat.add_pos_right (backlog users req.userID s / maxDispatchPerTick)
            due.2) n)
        rw [Nat.zero_mul] at lasts
        have none := some.trans (Nat.le_of_add_right_le lasts)
        exact absurd (Nat.le_of_add_right_le none) (Nat.not_le_of_lt p.periodTicks_pos)
  | succ iterations ih =>
      obtain ⟨n, moment, ready, filled, ticked⟩ :=
        tick_ticked (p := p) req.userID users quiet forward now standard out
      unfold processLoop
      simp only
      by_cases waits : req ∈ line req.userID (s.tick p env now).2
      · have still := hasPending_of_line ticked.standard notAdmin waits
        rw [if_pos still]
        have activeDone : ((s.tick p env now).2.account req.userID).isActive = true := by
          have filledActive : filled.active = ready.active :=
            (congrArg Purse.active ticked.refilled.same :)
          exact ((ticked.served.active.trans filledActive).trans ticked.admin.active).trans active
        exact ih _ ticked.standard ticked.out (ticked.shrinks.listed listed) activeDone
          (ticked.affords listed active notAdmin capped waits affords)
      · split
        · have moves := processLoop_moves (p := p) req.userID req.userID quiet forward iterations
            ((s.tick p env now).1 + p.periodTicks / 10) ticked.standard ticked.out
          exact fun later => waits (moves.mem later)
        · exact waits

theorem processLoop_admin (quiet : env.Quiet) (forward : env.Forward) (user : UserID)
    (iterations : Nat) (now : Tick) (standard : Standard p s) (out : s.inTick = false) :
    line 0 (s.processLoop p env user (iterations + 1) now).2 = [] := by
  obtain ⟨n, moment, ready, filled, ticked⟩ :=
    tick_ticked (p := p) 0 [] quiet forward now standard out
  have empty : line 0 (s.tick p env now).2 = [] := by
    have moves := ticked.refilled.moves.trans ticked.served.moves
    refine List.eq_nil_iff_forall_not_mem.2 fun req hmem => ?_
    have before := moves.mem hmem
    rw [ticked.drained rfl] at before
    exact List.not_mem_nil before
  unfold processLoop
  simp only
  split
  · have moves := processLoop_moves (p := p) 0 user quiet forward iterations
      ((s.tick p env now).1 + p.periodTicks / 10) ticked.standard ticked.out
    refine List.eq_nil_iff_forall_not_mem.2 fun req hmem => ?_
    have before : req ∈ line 0 (s.tick p env now).2 := moves.mem hmem
    rw [empty] at before
    exact List.not_mem_nil before
  · exact empty

/-- The request is that of the administration, or one below the cap that the user
affords in the iterations of the call. -/
def WillAfford (p : Params) (getTick : Tick) (req : Request) (now : Tick)
    (s : CreditScheduler) : Prop :=
  req.userID = 0 ∨ req.pages ≤ p.creditCap ∧ (afterSubmission p getTick req s).Affords p req.userID
    maxIterations now (backlog s.users req.userID s + 1 + maxDispatchPerTick)

theorem Purse.Moves.count {v w : Purse} (moves : Purse.Moves p uid v w) (req : Request) :
    w.sent.count req + (w.line uid).count req = v.sent.count req + (v.line uid).count req := by
  obtain ⟨sent, hsent, perm, -⟩ := moves
  have total := perm.count_eq req
  rw [List.count_append] at total
  rw [hsent, List.count_append]
  omega

theorem processUntil_moves (run : Runs p true (construct p) s) (quiet : env.Quiet)
    (forward : env.Forward) (getTick now : Tick) (req : Request) :
    Standard p (s.submitRequest p getTick req) ∧
      (s.submitRequest p getTick req).inTick = false ∧
      (purse p req.userID (s.submitRequest p getTick req)).Moves p req.userID
        (purse p req.userID (s.processUntil p env getTick req now).2) := by
  have standard := ((construct_standard p).acts run.acts).acts
    (submitRequest_acts (p := p) getTick req s)
  have out : (s.submitRequest p getTick req).inTick = false :=
    (submitRequest_inTick getTick req s).trans
      (run.inTick.trans (start_inTick p [] fun _ => .standard))
  exact ⟨standard, out, processLoop_moves req.userID req.userID quiet forward maxIterations now
    standard out⟩

theorem timesDispatched_submitRequest (run : Runs p true (construct p) s) (getTick : Tick)
    (req : Request) :
    timesDispatched req (s.submitRequest p getTick req) = timesDispatched req s := by
  have placed := ((construct_standard p).acts run.acts).toPlaced
  unfold timesDispatched
  rw [(submitRequest_line (p := p) req.userID placed getTick req).2]

theorem oversized_not_dispatched (run : Runs p true (construct p) s) (quiet : env.Quiet)
    (forward : env.Forward) (getTick now : Tick) (notAdmin : req.userID ≠ 0)
    (above : p.creditCap < req.pages) :
    timesDispatched req (s.processUntil p env getTick req now).2 = timesDispatched req s := by
  obtain ⟨-, -, later, hsent, -, paid⟩ := processUntil_moves run quiet forward getTick now req
  have none : later.count req = 0 := List.count_eq_zero.2 fun hmem =>
    (paid req hmem).elim notAdmin (not_le.2 above)
  have after : timesDispatched req (s.processUntil p env getTick req now).2 =
      (later ++ (purse p req.userID (s.submitRequest p getTick req)).sent).count req :=
    congrArg (List.count req) hsent
  rw [after, List.count_append, none, Nat.zero_add]
  exact timesDispatched_submitRequest run getTick req

/-- In every reachable state a request that the user will afford is dispatched exactly
once by the call, and one above the cap is not dispatched at all. -/
theorem dispatched_when_afforded (p : Params) (s : CreditScheduler)
    (run : Runs p true (construct p) s) (env : Env) (quiet : env.Quiet)
    (forward : env.Forward) (getTick : Tick) (req : Request) (now : Tick)
    (host : req.op.isHost = true) (new : req ∉ line req.userID s) :
    (WillAfford p getTick req now s →
      timesDispatched req (s.processUntil p env getTick req now).2 = timesDispatched req s + 1) ∧
    (req.userID ≠ 0 → p.creditCap < req.pages →
      timesDispatched req (s.processUntil p env getTick req now).2 = timesDispatched req s) := by
  refine ⟨fun affords => ?_, oversized_not_dispatched run quiet forward getTick now⟩
  obtain ⟨standard, out, moves⟩ := processUntil_moves run quiet forward getTick now req
  have before := (construct_standard p).acts run.acts
  have queued := (submitRequest_line (p := p) req.userID before.toPlaced getTick req).1
  rw [ofUser_cons_of_mem host rfl] at queued
  have inLine : (line req.userID (s.submitRequest p getTick req)).count req = 1 := by
    rw [queued, List.count_append, List.count_eq_zero.2 new, List.count_cons_self]
    rfl
  have total : timesDispatched req (s.processUntil p env getTick req now).2 +
      (line req.userID (s.processUntil p env getTick req now).2).count req =
        timesDispatched req (s.submitRequest p getTick req) +
          (line req.userID (s.submitRequest p getTick req)).count req := moves.count req
  have left : req ∉ line req.userID (s.processUntil p env getTick req now).2 := by
    by_cases admin : req.userID = 0
    · have drained := processLoop_admin (p := p) quiet forward req.userID 999999 now standard out
      have empty : line req.userID (s.processUntil p env getTick req now).2 = [] :=
        admin.symm ▸ drained
      rw [empty]
      exact List.not_mem_nil
    · obtain ⟨capped, affords⟩ := affords.resolve_left admin
      have listed : Listed (s.submitRequest p getTick req).users
          (s.submitRequest p getTick req) := fun uid absent => by
        obtain ⟨queue, queueISC⟩ := standard.known uid absent
        simp [UserAccount.queued, queue, queueISC]
      have purses := purse_submitRequest before host admin getTick
      refine processLoop_leaves quiet forward admin capped maxIterations now standard out listed
        (congrArg Purse.active purses) ?_
      rw [purses, backlog_submitRequest before host admin getTick]
      exact affords
  rw [List.count_eq_zero.2 left, inLine, timesDispatched_submitRequest run] at total
  exact total

end Call

theorem Env.idle_forward : Env.idle.Forward := fun _ _ _ => Nat.le_add_right _ 10

/-- A write of twenty pages is afforded by the shares of two phases, … -/
theorem dispatched_when_afforded_small :
    WillAfford .small 0 largeWrite 0 (construct .small) ∧
      timesDispatched largeWrite ((construct .small).processUntil .small .idle 0 largeWrite 0).2 =
        timesDispatched largeWrite (construct .small) + 1 := by
  have affords : WillAfford .small 0 largeWrite 0 (construct .small) :=
    .inr ⟨by decide +kernel, .inr ⟨2, by unfold Allowance.Funded; decide +kernel,
      by decide +kernel⟩⟩
  exact ⟨affords, (dispatched_when_afforded .small (construct .small) (.refl _) .idle
    Env.idle_quiet Env.idle_forward 0 largeWrite 0 rfl (by decide +kernel)).1 affords⟩

def hugeWrite : Request := .ofPages .write 1001 24001

/-- … and one above the cap is given up after a million ticks. -/
theorem huge_write_given_up :
    ¬ ∀ (p : Params) (s : CreditScheduler), Runs p true (construct p) s →
      ∀ env : Env, env.Quiet → env.Forward → ∀ (getTick : Tick) (req : Request) (now : Tick),
        req.op.isHost = true → req ∉ line req.userID s →
          timesDispatched req (s.processUntil p env getTick req now).2 =
            timesDispatched req s + 1 := by
  intro claim
  have once := claim .small (construct .small) (.refl _) .idle Env.idle_quiet Env.idle_forward 0
    hugeWrite 0 rfl (by decide +kernel)
  have never : timesDispatched hugeWrite _ = timesDispatched hugeWrite (construct .small) :=
    oversized_not_dispatched (.refl _) Env.idle_quiet Env.idle_forward 0 0 (by decide)
      (by decide +kernel)
  rw [never] at once
  exact absurd once (Nat.ne_of_lt (Nat.lt_succ_self _))

end SimpleSSD.HIL.CreditScheduler
