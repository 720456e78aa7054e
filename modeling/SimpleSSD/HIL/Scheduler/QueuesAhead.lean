import SimpleSSD.HIL.Scheduler.Purse
import SimpleSSD.HIL.Scheduler.Waiting

/-!
# The queues ahead

A call comes back no earlier than it was made, what it leaves deferred is more than the
credit, and each tick takes from the queues ahead of a request.
-/

namespace SimpleSSD.HIL.CreditScheduler

open SimpleSSD.Foundation Relation

/-- The internal cache layer answers no earlier than it is asked. -/
def Env.Forward (env : Env) : Prop := ∀ req now s, now ≤ (env.icl req now s).1

/-! ## The tick a call comes back with -/

section Forward

variable {p : Params} {env : Env} {s : CreditScheduler}

theorem dispatchICL_forward (forward : env.Forward) (req : Request) (now : Tick) :
    now ≤ (s.dispatchICL p env req now).1 := by
  unfold dispatchICL
  split
  · exact forward req now s
  · exact le_rfl

theorem dispatchReentrant_forward (forward : env.Forward) (req : Request) (now : Tick) :
    now ≤ (s.dispatchReentrant p env req now).1 :=
  dispatchICL_forward forward req now

theorem drainAdmin_forward (forward : env.Forward) (fuel : Nat) (now : Tick) :
    now ≤ (s.drainAdmin p env fuel now).1 := by
  induction fuel generalizing now s with
  | zero => exact le_rfl
  | succ fuel ih =>
      unfold drainAdmin
      split
      · exact le_rfl
      · exact (dispatchICL_forward forward _ _).trans (ih _)

theorem drainDeferred_forward (forward : env.Forward) (n : Nat) (now : Tick) :
    now ≤ (s.drainDeferred p env n now).1 := by
  induction n generalizing now s with
  | zero => exact le_rfl
  | succ n ih =>
      unfold drainDeferred
      split
      · exact le_rfl
      · simp only
        split
        · exact (dispatchReentrant_forward forward _ _).trans (ih _)
        · exact ih _

theorem tryDispatchHost_forward (forward : env.Forward) (now : Tick) (order : List UserID) :
    now ≤ (s.tryDispatchHost p env now order).2.1 := by
  induction order generalizing s with
  | nil => exact le_rfl
  | cons user order ih =>
      unfold tryDispatchHost
      split
      · exact ih
      · simp only
        split
        · exact dispatchReentrant_forward forward _ _
        · exact ih

theorem dispatchRounds_forward (forward : env.Forward) (rounds : Nat) (now : Tick) :
    now ≤ (s.dispatchRounds p env rounds now).1 := by
  induction rounds generalizing now s with
  | zero => exact le_rfl
  | succ rounds ih =>
      unfold dispatchRounds
      simp only
      split
      · exact ih _
      · split
        · exact (tryDispatchHost_forward forward _ _).trans (ih _)
        · exact tryDispatchHost_forward forward _ _

theorem serviceQueues_forward (forward : env.Forward) (now : Tick) :
    now ≤ (s.serviceQueues p env now).1 := by
  unfold serviceQueues
  exact (drainDeferred_forward forward _ _).trans (dispatchRounds_forward forward _ _)

end Forward

/-! ## What is deferred is more than the credit -/

section Passed

variable {p : Params} {env : Env} {uid : UserID} {s t : CreditScheduler}

def Passed (uid : UserID) (s : CreditScheduler) : Prop :=
  ∀ dr ∈ s.deferredQueue, dr.req.userID = uid → (s.account uid).credit < dr.pages

theorem Passed.spent {new : List (Request × Option Nat)} (passed : Passed uid s)
    (spent : Spent uid new s t) : Passed uid t := by
  intro dr hmem own
  rw [spent.deferredQueue] at hmem
  exact spent.credit.trans_lt (passed dr hmem own)

theorem Passed.defer (passed : Passed uid s) (front : Request) (now : Tick)
    (deferredQueue : t.deferredQueue = s.deferredQueue ++ [⟨front, front.pages, now⟩])
    (credit : (t.account uid).credit = (s.account uid).credit)
    (short : ¬ front.pages ≤ (s.account front.userID).credit) : Passed uid t := by
  intro dr hmem own
  rw [deferredQueue] at hmem
  rw [credit]
  rcases List.mem_append.1 hmem with old | new
  · exact passed dr old own
  · obtain rfl := List.mem_singleton.1 new
    rw [← own]
    exact not_le.1 short

theorem drainDeferred_passed (uid : UserID) (quiet : env.Quiet) {todo : List DeferredRequest}
    (kept : List DeferredRequest) (now : Tick) (placed : Placed s)
    (waiting : s.deferredQueue = todo ++ kept)
    (passed : ∀ dr ∈ kept, dr.req.userID = uid → (s.account uid).credit < dr.pages) :
    Passed uid (s.drainDeferred p env todo.length now).2 := by
  induction todo generalizing s kept now with
  | nil =>
      have waiting : s.deferredQueue = kept := waiting
      exact fun dr hmem => passed dr (waiting ▸ hmem)
  | cons dr todo ih =>
      have entry := placed.deferred dr (waiting ▸ List.mem_cons_self)
      rw [List.length_cons, drainDeferred, waiting]
      simp only [List.cons_append]
      set popped : CreditScheduler := { s with deferredQueue := todo ++ kept } with hpopped
      have found : popped.getOrCreateUser p dr.req.userID = popped :=
        getOrCreateUser_of_mem entry.2
      have taken : Placed popped := by
        refine placed.act (.shuffle (p := p) (todo ++ kept) ?_)
        rw [waiting]
        exact List.subset_cons_self _ _
      rw [found]
      split
      next held =>
        set paid := (popped.charge .deferredQueue (.ofOp dr.req.op) dr.req.userID
          dr.pages).emit (.serve (.request dr.req)) with hpaid
        have placedPaid : Placed paid := (taken.act (.charge (p := p) (s := popped)
          .deferredQueue (.ofOp dr.req.op) dr.req.userID dr.pages entry.2 held)).act
            (.emit (p := p) _ (by simp))
        have charged : Spent uid [] popped paid :=
          (Spent.charge (s := popped) .deferredQueue (.ofOp dr.req.op) dr.req.userID held).trans
            (.emit (.serve (.request dr.req)) (by simp))
        have sent := charged.trans
          (dispatchReentrant_spent uid (p := p) quiet placedPaid dr.req now)
        have acts := dispatchReentrant_acts (p := p) quiet.actsOn dr.req now paid
        exact ih kept _ (placedPaid.acts acts) sent.deferredQueue fun other hmem own =>
          sent.credit.trans_lt (passed other hmem own)
      next short =>
        set back : CreditScheduler := { s with deferredQueue := todo ++ (kept ++ [dr]) }
        have placedBack : Placed back := by
          refine placed.act (.shuffle (p := p) (todo ++ (kept ++ [dr])) ?_)
          rw [waiting]
          intro other hmem
          simp only [List.mem_append, List.mem_cons] at hmem ⊢
          tauto
        have again : { popped with deferredQueue := popped.deferredQueue ++ [dr] } = back := by
          simp [hpopped, back]
        rw [again]
        refine ih (s := back) (kept ++ [dr]) now placedBack rfl fun other hmem own => ?_
        rcases List.mem_append.1 hmem with old | new
        · exact passed other old own
        · obtain rfl := List.mem_singleton.1 new
          rw [← own]
          exact not_le.1 short

theorem tryDispatchISC_passed (now : Tick) (order : List UserID) (standard : Standard p s)
    (passed : Passed uid s) : Passed uid (s.tryDispatchISC now order).2 := by
  induction order generalizing s with
  | nil => exact passed
  | cons user order ih =>
      cases waiting : (s.account user).queueISC with
      | nil =>
          rw [tryDispatchISC, waiting]
          exact ih standard passed
      | cons front rest =>
          have waits : front ∈ (s.account user).queue ++ (s.account user).queueISC := by
            simp [waiting]
          have own := standard.owner user front waits
          rw [tryDispatchISC_cons waiting]
          split
          next held =>
            have flows := sendISC_flows uid standard waiting held
            exact fun dr hmem own => flows.pays.credit.trans_lt (passed dr hmem own)
          next short =>
            refine ih (standard.acts (deferISC_acts now waits))
              (passed.defer front now rfl ?_ (own.symm ▸ short))
            exact modify_field _ user uid (f := UserAccount.popQueueISC) (·.credit) fun _ => rfl

theorem tryDispatchHost_passed (quiet : env.Quiet) (now : Tick) (order : List UserID)
    (standard : Standard p s) (passed : Passed uid s) :
    Passed uid (s.tryDispatchHost p env now order).2.2 := by
  induction order generalizing s with
  | nil => exact passed
  | cons user order ih =>
      cases waiting : (s.account user).queue with
      | nil =>
          rw [tryDispatchHost, waiting]
          exact ih standard passed
      | cons front rest =>
          have waits : front ∈ (s.account user).queue ++ (s.account user).queueISC := by
            simp [waiting]
          obtain rfl := standard.owner user front waits
          have known := standard.toPlaced.known_of_waiting waits
          rw [tryDispatchHost_cons waiting, getOrCreateUser_of_mem known]
          split
          next held =>
            have acts := sendHost_acts (p := p) known rfl held
            have placed := standard.toPlaced.acts acts
            have flows := sendHost_flows uid quiet now standard waiting held
            have handed := dispatchReentrant_spent uid (p := p) quiet placed front now
            intro dr hmem own
            rw [handed.deferredQueue] at hmem
            have same : (sendHost p front.userID front s).deferredQueue = s.deferredQueue := by
              unfold sendHost
              rw [getOrCreateUser_of_mem known]
              rfl
            rw [same] at hmem
            exact flows.pays.credit.trans_lt (passed dr hmem own)
          next short =>
            refine ih (standard.acts (deferHost_acts now known rfl waits)) ?_
            unfold deferHost
            rw [getOrCreateUser_of_mem known]
            refine passed.defer front now rfl ?_ short
            exact modify_field _ front.userID uid (f := UserAccount.popQueue) (·.credit)
              fun _ => rfl

theorem dispatchRounds_passed (quiet : env.Quiet) (rounds : Nat) (now : Tick)
    (standard : Standard p s) (passed : Passed uid s) :
    Passed uid (s.dispatchRounds p env rounds now).2 := by
  induction rounds generalizing s now with
  | zero => exact passed
  | succ rounds ih =>
      have order : scanOrder s.lastChosenUidISC s.users ⊆ s.users :=
        (scanOrder_perm _ _).subset
      have gates := tryDispatchISC_passed now (scanOrder s.lastChosenUidISC s.users) standard
        passed
      have gateActs := tryDispatchISC_acts (p := p) now _ s order
      unfold dispatchRounds
      generalize s.tryDispatchISC now (scanOrder s.lastChosenUidISC s.users) = isc at *
      have standardGates := standard.acts gateActs
      have hosts := tryDispatchHost_passed (p := p) quiet now
        (scanOrder isc.2.lastChosenUid isc.2.users) standardGates gates
      have hostActs := tryDispatchHost_acts (p := p) quiet.actsOn now
        (scanOrder isc.2.lastChosenUid isc.2.users) isc.2
      simp only
      split
      · exact ih now standardGates gates
      · generalize isc.2.tryDispatchHost p env now
          (scanOrder isc.2.lastChosenUid isc.2.users) = host at *
        split
        · exact ih _ (standardGates.acts hostActs) hosts
        · exact hosts

theorem serviceQueues_passed (uid : UserID) (quiet : env.Quiet) (now : Tick)
    (standard : Standard p s) :
    Passed uid (s.serviceQueues p env now).2 := by
  have deferred := drainDeferred_passed (p := p) uid quiet [] now standard.toPlaced
    (List.append_nil _).symm fun _ hmem => absurd hmem List.not_mem_nil
  have deferredActs := drainDeferred_acts (p := p) quiet.actsOn s.deferredQueue.length now s
  unfold serviceQueues
  generalize s.drainDeferred p env s.deferredQueue.length now = drained at *
  have placed := standard.toPlaced.acts deferredActs
  have custom := deferred.spent (drainDeferredISC_spent (p := p) quiet placed drained.1
    drained.2.deferredISC.length)
  have customActs := drainDeferredISC_acts (p := p) quiet.actsOn drained.1
    drained.2.deferredISC.length drained.2
  simp only
  generalize drainDeferredISC p env drained.1 drained.2.deferredISC.length drained.2 =
    resumed at *
  have requests := custom.spent (processISCLoop_spent (p := p) quiet (placed.acts customActs)
    drained.1 (resumed.deferredISCRequests.length + 1 + env.fuel) [])
  have requestActs := processISCLoop_acts (p := p) quiet.actsOn drained.1
    (resumed.deferredISCRequests.length + 1 + env.fuel) [] resumed
  exact dispatchRounds_passed quiet maxDispatchPerTick drained.1
    (((standard.acts deferredActs).acts customActs).acts requestActs) requests

end Passed

/-! ## The queues ahead -/

section Ahead

variable {p : Params} {env : Env} {uid : UserID} {s t : CreditScheduler} {users : List UserID}

def UserAccount.queued (acc : UserAccount) : Nat := acc.queue.length + acc.queueISC.length

def queuedIn (users : List UserID) (s : CreditScheduler) : Nat :=
  (users.map fun uid => (s.account uid).queued).sum

def Listed (users : List UserID) (s : CreditScheduler) : Prop :=
  ∀ uid, uid ∉ users → (s.account uid).queued = 0

def Shrinks (s t : CreditScheduler) : Prop :=
  ∀ uid, (t.account uid).queue.length ≤ (s.account uid).queue.length ∧
    (t.account uid).queueISC.length ≤ (s.account uid).queueISC.length

theorem Shrinks.of_flows (flows : ∀ uid, (purse p uid s).Flows p uid (purse p uid t)) :
    Shrinks s t := fun uid => ⟨(flows uid).queue, (flows uid).queueISC⟩

theorem Shrinks.trans {u : CreditScheduler} (first : Shrinks s t) (second : Shrinks t u) :
    Shrinks s u := fun uid =>
  ⟨(second uid).1.trans (first uid).1, (second uid).2.trans (first uid).2⟩

theorem Shrinks.queued_le (shrinks : Shrinks s t) (uid : UserID) :
    (t.account uid).queued ≤ (s.account uid).queued :=
  Nat.add_le_add (shrinks uid).1 (shrinks uid).2

theorem Shrinks.le (shrinks : Shrinks s t) (users : List UserID) :
    queuedIn users t ≤ queuedIn users s :=
  List.sum_le_sum fun uid _ => shrinks.queued_le uid

theorem Shrinks.listed (shrinks : Shrinks s t) (listed : Listed users s) : Listed users t :=
  fun uid absent => Nat.le_zero.1 ((shrinks.queued_le uid).trans_eq (listed uid absent))

theorem Shrinks.lt (shrinks : Shrinks s t) (listed : Listed users s)
    (less : (t.account uid).queued < (s.account uid).queued) :
    queuedIn users t < queuedIn users s := by
  have hmem : uid ∈ users := by
    by_contra absent
    rw [listed uid absent] at less
    exact Nat.not_lt_zero _ less
  exact List.sum_lt_sum _ _ (fun uid _ => shrinks.queued_le uid) ⟨uid, hmem, less⟩

theorem sendISC_queued {user : UserID} {front : Request} {rest : List Request}
    (waiting : (s.account user).queueISC = front :: rest) :
    ((sendISC user front s).account user).queued < (s.account user).queued := by
  set charged := s.charge .queueISC .isc user front.pages with hcharged
  have sent : ((sendISC user front s).account user) = (charged.account user).popQueueISC :=
    modify_account_self _ _ _
  have queue : (charged.account user).queue = (s.account user).queue :=
    modify_field s user user (f := (·.pay .isc front.pages)) (·.queue) fun _ => rfl
  have queueISC : (charged.account user).queueISC = front :: rest :=
    (modify_field s user user (f := (·.pay .isc front.pages)) (·.queueISC) fun _ => rfl).trans
      waiting
  simp only [sent, UserAccount.queued, UserAccount.popQueueISC, queue, queueISC, waiting,
    List.tail_cons, List.length_cons]
  omega

theorem tryDispatchISC_queued (now : Tick) (order : List UserID) (standard : Standard p s)
    (served : (s.tryDispatchISC now order).1 = true) :
    ∃ uid, ((s.tryDispatchISC now order).2.account uid).queued < (s.account uid).queued := by
  induction order generalizing s with
  | nil => contradiction
  | cons user order ih =>
      cases waiting : (s.account user).queueISC with
      | nil =>
          rw [tryDispatchISC, waiting] at served ⊢
          exact ih standard served
      | cons front rest =>
          have waits : front ∈ (s.account user).queue ++ (s.account user).queueISC := by
            simp [waiting]
          rw [tryDispatchISC_cons waiting] at served ⊢
          split at served
          next held =>
            rw [if_pos held]
            exact ⟨user, sendISC_queued waiting⟩
          next short =>
            rw [if_neg short]
            obtain ⟨uid, less⟩ := ih (standard.acts (deferISC_acts now waits)) served
            have shrinks : Shrinks s (deferISC user front now s) :=
              .of_flows fun uid => deferISC_flows uid now standard waiting
            exact ⟨uid, less.trans_le (shrinks.queued_le uid)⟩

theorem dispatchReentrant_queue (quiet : env.Quiet) (standard : Standard p s) (req : Request)
    (now : Tick) (uid : UserID) :
    ((s.dispatchReentrant p env req now).2.account uid).queue = (s.account uid).queue :=
  congrArg Purse.queue (purse_dispatchReentrant uid quiet standard req now)

theorem sendHost_queue (quiet : env.Quiet) {user : UserID} {front : Request}
    {rest : List Request} (now : Tick) (standard : Standard p s)
    (waiting : (s.account user).queue = front :: rest)
    (held : front.pages ≤ (s.account user).credit) :
    ((dispatchReentrant p env front now (sendHost p user front s)).2.account user).queue.length <
      (s.account user).queue.length := by
  have waits : front ∈ (s.account user).queue ++ (s.account user).queueISC := by simp [waiting]
  obtain rfl := standard.owner user front waits
  have known := standard.toPlaced.known_of_waiting waits
  rw [dispatchReentrant_queue quiet (standard.acts (sendHost_acts known rfl held))]
  set charged := s.charge .hostQueue (.ofOp front.op) front.userID front.pages with hcharged
  have queue : (charged.account front.userID).queue = front :: rest :=
    (modify_field s front.userID front.userID (f := (·.pay (.ofOp front.op) front.pages))
      (·.queue) fun _ => rfl).trans waiting
  have sent : (sendHost p front.userID front s).account front.userID =
      (charged.account front.userID).popQueue := by
    unfold sendHost
    rw [getOrCreateUser_of_mem known]
    exact modify_account_self _ _ _
  simp only [sent, UserAccount.popQueue, queue, waiting, List.tail_cons, List.length_cons]
  omega

theorem deferHost_queue {user : UserID} {front : Request} {rest : List Request} (now : Tick)
    (standard : Standard p s) (waiting : (s.account user).queue = front :: rest) :
    ((deferHost p user front now s).account user).queue.length <
      (s.account user).queue.length := by
  have waits : front ∈ (s.account user).queue ++ (s.account user).queueISC := by simp [waiting]
  obtain rfl := standard.owner user front waits
  unfold deferHost
  rw [getOrCreateUser_of_mem (standard.toPlaced.known_of_waiting waits)]
  simp only [modify_account_self, UserAccount.popQueue, waiting, List.tail_cons, List.length_cons]
  omega

/-- A round of the host queues serves a request, or defers the first of every user. -/
theorem tryDispatchHost_queue (quiet : env.Quiet) (now : Tick) (order : List UserID)
    (standard : Standard p s) :
    ((s.tryDispatchHost p env now order).1 = true → ∃ uid,
      ((s.tryDispatchHost p env now order).2.2.account uid).queue.length <
        (s.account uid).queue.length) ∧
    ((s.tryDispatchHost p env now order).1 = false → ∀ uid ∈ order,
      (s.account uid).queue ≠ [] →
        ((s.tryDispatchHost p env now order).2.2.account uid).queue.length <
          (s.account uid).queue.length) := by
  induction order generalizing s with
  | nil => exact ⟨fun served => absurd served (by simp [tryDispatchHost]), by simp⟩
  | cons user order ih =>
      cases waiting : (s.account user).queue with
      | nil =>
          rw [tryDispatchHost, waiting]
          refine ⟨(ih standard).1, fun idle uid hmem some => ?_⟩
          rcases List.mem_cons.1 hmem with rfl | later
          · exact absurd waiting some
          · exact (ih standard).2 idle uid later some
      | cons front rest =>
          have waits : front ∈ (s.account user).queue ++ (s.account user).queueISC := by
            simp [waiting]
          have own := standard.owner user front waits
          have known := standard.toPlaced.known_of_waiting waits
          rw [tryDispatchHost_cons waiting, getOrCreateUser_of_mem (own.symm ▸ known)]
          split
          next held =>
            exact ⟨fun _ => ⟨user, sendHost_queue quiet now standard waiting (own ▸ held)⟩,
              fun idle => absurd idle (by simp)⟩
          next short =>
            have acts := deferHost_acts (p := p) now known own waits
            have deferred := standard.acts acts
            have shrinks : Shrinks s (deferHost p user front now s) :=
              .of_flows fun uid => deferHost_flows uid now standard waiting
            obtain ⟨serves, idles⟩ := ih deferred
            refine ⟨fun served => ?_, fun idle uid hmem some => ?_⟩
            · obtain ⟨uid, less⟩ := serves served
              exact ⟨uid, less.trans_le (shrinks uid).1⟩
            · have rounds : Shrinks (deferHost p user front now s)
                  (tryDispatchHost p env now order (deferHost p user front now s)).2.2 :=
                .of_flows fun uid => tryDispatchHost_flows uid quiet now order deferred
              rcases List.mem_cons.1 hmem with rfl | later
              · exact (rounds uid).1.trans_lt (deferHost_queue now standard waiting)
              · by_cases done : ((deferHost p user front now s).account uid).queue = []
                · have none := (rounds uid).1
                  rw [done] at none
                  exact none.trans_lt (List.length_pos_of_ne_nil some)
                · exact (idles idle uid later done).trans_le (shrinks uid).1

/-- The rounds of a tick take as many requests as they are, or the first of every user. -/
theorem dispatchRounds_queued (quiet : env.Quiet) (rounds : Nat) (now : Tick)
    (standard : Standard p s) (listed : Listed users s)
    (active : (s.account uid).isActive = true)
    (waiting : ((s.dispatchRounds p env rounds now).2.account uid).queue ≠ []) :
    queuedIn users (s.dispatchRounds p env rounds now).2 + rounds ≤ queuedIn users s ∨
      ((s.dispatchRounds p env rounds now).2.account uid).queue.length <
        (s.account uid).queue.length := by
  induction rounds generalizing s now with
  | zero => exact .inl le_rfl
  | succ rounds ih =>
      have order : scanOrder s.lastChosenUidISC s.users ⊆ s.users :=
        (scanOrder_perm _ _).subset
      have gateActs := tryDispatchISC_acts (p := p) now _ s order
      have gateFlows := fun uid =>
        tryDispatchISC_flows uid now (scanOrder s.lastChosenUidISC s.users) standard
      have served := tryDispatchISC_queued now (scanOrder s.lastChosenUidISC s.users) standard
      unfold dispatchRounds at waiting ⊢
      generalize s.tryDispatchISC now (scanOrder s.lastChosenUidISC s.users) = isc at *
      have gates := Shrinks.of_flows gateFlows
      have standardGates := standard.acts gateActs
      have activeGates : (isc.2.account uid).isActive = true :=
        ((gateFlows uid).active :).trans active
      have hostActs := tryDispatchHost_acts (p := p) quiet.actsOn now
        (scanOrder isc.2.lastChosenUid isc.2.users) isc.2
      have hostFlows := fun uid => tryDispatchHost_flows (p := p) uid quiet now
        (scanOrder isc.2.lastChosenUid isc.2.users) standardGates
      obtain ⟨serves, idles⟩ := tryDispatchHost_queue (p := p) quiet now
        (scanOrder isc.2.lastChosenUid isc.2.users) standardGates
      have scanned : uid ∈ scanOrder isc.2.lastChosenUid isc.2.users :=
        (scanOrder_perm _ _).mem_iff.2 (standardGates.active uid activeGates)
      simp only at waiting ⊢
      split at waiting
      next gate =>
        rw [if_pos gate]
        obtain ⟨user, less⟩ := served gate
        have fewer := gates.lt listed less
        rcases ih now standardGates (gates.listed listed) activeGates waiting with all | own
        · exact .inl (by omega)
        · exact .inr (own.trans_le (gates uid).1)
      next none =>
        rw [if_neg none]
        generalize isc.2.tryDispatchHost p env now
          (scanOrder isc.2.lastChosenUid isc.2.users) = host at *
        have hosts := Shrinks.of_flows hostFlows
        split at waiting
        next sent =>
          rw [if_pos sent]
          obtain ⟨user, less⟩ := serves sent
          have both := gates.trans hosts
          have fewer := both.lt listed
            (Nat.add_lt_add_of_lt_of_le (less.trans_le (gates user).1) (both user).2)
          rcases ih _ (standardGates.acts hostActs) (both.listed listed)
            (((hostFlows uid).active :).trans activeGates) waiting with all | own
          · exact .inl (by omega)
          · exact .inr (own.trans_le (both uid).1)
        next idle =>
          rw [if_neg idle]
          refine .inr ?_
          have before : (isc.2.account uid).queue ≠ [] := by
            intro empty
            have none := (hosts uid).1
            rw [empty] at none
            exact waiting (List.length_eq_zero_iff.1 (Nat.le_zero.1 none))
          exact (idles (by simpa using idle) uid scanned before).trans_le (gates uid).1

theorem serviceQueues_queued (quiet : env.Quiet) (now : Tick) (standard : Standard p s)
    (listed : Listed users s) (active : (s.account uid).isActive = true)
    (waiting : ((s.serviceQueues p env now).2.account uid).queue ≠ []) :
    queuedIn users (s.serviceQueues p env now).2 + maxDispatchPerTick ≤ queuedIn users s ∨
      ((s.serviceQueues p env now).2.account uid).queue.length <
        (s.account uid).queue.length := by
  have deferred := fun uid =>
    drainDeferred_flows (p := p) uid quiet s.deferredQueue.length now standard
  have deferredActs := drainDeferred_acts (p := p) quiet.actsOn s.deferredQueue.length now s
  unfold serviceQueues at waiting ⊢
  generalize s.drainDeferred p env s.deferredQueue.length now = drained at *
  have custom := fun uid => drainDeferredISC_flows (p := p) uid quiet drained.1
    drained.2.deferredISC.length (standard.acts deferredActs)
  have customActs := drainDeferredISC_acts (p := p) quiet.actsOn drained.1
    drained.2.deferredISC.length drained.2
  simp only at waiting ⊢
  generalize drainDeferredISC p env drained.1 drained.2.deferredISC.length drained.2 =
    resumed at *
  have standardResumed := (standard.acts deferredActs).acts customActs
  have requests := fun uid => processISCLoop_flows (p := p) uid quiet drained.1
    (resumed.deferredISCRequests.length + 1 + env.fuel) [] standardResumed
  have requestActs := processISCLoop_acts (p := p) quiet.actsOn drained.1
    (resumed.deferredISCRequests.length + 1 + env.fuel) [] resumed
  simp only [List.append_nil] at requests
  unfold processISCRequests at waiting ⊢
  generalize resumed.processISCLoop p env drained.1
    (resumed.deferredISCRequests.length + 1 + env.fuel) [] = waited at *
  have flows := fun uid => ((deferred uid).trans (custom uid)).trans (requests uid)
  have shrinks := Shrinks.of_flows flows
  have rounds := dispatchRounds_queued quiet maxDispatchPerTick drained.1
    (standardResumed.acts requestActs) (shrinks.listed listed)
    (((flows uid).active :).trans active) waiting
  have fewer := shrinks.le users
  have shorter := (shrinks uid).1
  rcases rounds with all | own
  · exact .inl (by omega)
  · exact .inr (own.trans_le shorter)

end Ahead

end SimpleSSD.HIL.CreditScheduler
