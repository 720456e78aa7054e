import SimpleSSD.Foundation.RoundRobin
import SimpleSSD.HIL.Scheduler.FCFS
import SimpleSSD.HIL.Scheduler.Service

/-!
# The round robin over the host queues

Both schedulers scan the users in a circle for the next host request.  A scan
passes a user whose queue is empty; the credit scheduler also passes one whose
first request cannot be paid, and moves that request to the deferred queue.
-/

namespace SimpleSSD.HIL

open SimpleSSD.Foundation

/-- A scan of the host queues that dispatched: the state in which it started, the
users in the order of the scan and the one it served. -/
structure HostScan (σ : Type) where
  before : σ
  order : List UserID
  chosen : UserID

namespace HostScan

variable {σ : Type}

def passed (scan : HostScan σ) : List UserID :=
  scan.order.takeWhile (· ≠ scan.chosen)

def turn (scan : HostScan σ) : Turn UserID := ⟨scan.passed, scan.chosen⟩

def dispatches (uid : UserID) (scans : List (HostScan σ)) : Nat :=
  scans.countP (·.chosen = uid)

def passes (uid : UserID) (scans : List (HostScan σ)) : Nat :=
  scans.countP (uid ∈ ·.passed)

theorem timesChosen_turns (uid : UserID) (scans : List (HostScan σ)) :
    timesChosen uid (scans.map turn) = dispatches uid scans := by
  induction scans with
  | nil => rfl
  | cons scan scans ih =>
      simp [timesChosen_cons, ih, dispatches, List.countP_cons, turn]

theorem timesPassed_turns (uid : UserID) (scans : List (HostScan σ)) :
    timesPassed uid (scans.map turn) = passes uid scans := by
  unfold timesPassed passes
  rw [List.countP_map]
  rfl

theorem passed_eq {scan : HostScan σ} {before after : List UserID} (nodup : scan.order.Nodup)
    (order : scan.order = before ++ scan.chosen :: after) : scan.passed = before := by
  have fresh : ∀ uid ∈ before, uid ≠ scan.chosen := by
    rw [order] at nodup
    exact fun uid hmem => (List.nodup_append.1 nodup).2.2 uid hmem _ List.mem_cons_self
  unfold passed
  rw [order, List.takeWhile_append_of_pos (by simpa using fresh)]
  simp

/-- A round robin over the ready users: a scan passes only users that are not
ready, and between two dispatches of one user every other that is ready at each
scan is dispatched once more than the first one is passed. -/
structure Fair (ready : UserID → σ → Prop) (users : List UserID)
    (scans : List (HostScan σ)) : Prop where
  unready : ∀ scan ∈ scans, ∀ uid ∈ scan.passed, ¬ ready uid scan.before
  between : ∀ uid other, other ∈ users → other ≠ uid →
    ∀ early opening between closing late,
      scans = early ++ opening :: (between ++ closing :: late) →
      opening.chosen = uid → closing.chosen = uid → (∀ scan ∈ between, scan.chosen ≠ uid) →
      (∀ scan ∈ between ++ [closing], ready other scan.before) →
      dispatches other between = 1 + passes uid between

theorem fair_of_turns {ready : UserID → σ → Prop} {users : List UserID} {last : UserID}
    {scans : List (HostScan σ)} (nodup : users.Nodup)
    (turns : Turns users last (scans.map turn))
    (unready : ∀ scan ∈ scans, ∀ uid ∈ scan.passed, ¬ ready uid scan.before) :
    Fair ready users scans := by
  refine ⟨unready, ?_⟩
  rintro uid other member ne early opening between closing late rfl opens closes others fair
  have known : uid ∈ users := opens ▸ turns.mem opening.turn (by simp)
  rw [List.map_append, List.map_cons] at turns
  have following := turns.after
  rw [List.append_cons between, List.map_append] at following
  have window : Turns users uid (between.map turn ++ [closing.turn]) := by
    simpa [← opens, turn] using following.take
  have away : ∀ step ∈ between.map turn, step.chosen ≠ uid := by
    simpa [turn] using others
  have seen : ∀ step ∈ between.map turn ++ [closing.turn], other ∉ step.passed := by
    intro step hmem
    have hmem : step ∈ (between ++ [closing]).map turn := by simpa using hmem
    obtain ⟨scan, inside, rfl⟩ := List.mem_map.1 hmem
    refine fun passed => unready scan ?_ other passed (fair scan inside)
    simp only [List.mem_append, List.mem_cons, List.not_mem_nil, or_false] at inside ⊢
    tauto
  have counted := Turns.count_between nodup known member ne closes window away seen
  rwa [timesChosen_turns, timesPassed_turns] at counted

end HostScan

namespace CreditScheduler

variable {p : Params} {env : Env}

def Ready (uid : UserID) (s : CreditScheduler) : Prop :=
  ∃ front ∈ (s.account uid).queue.head?, front.pages ≤ (s.account front.userID).credit

def hostScans (p : Params) (env : Env) :
    Nat → Tick → CreditScheduler → List (HostScan CreditScheduler)
  | 0, _, _ => []
  | rounds + 1, now, s =>
      let isc := tryDispatchISC now (scanOrder s.lastChosenUidISC s.users) s
      if isc.1 then hostScans p env rounds now isc.2
      else
        let order := scanOrder isc.2.lastChosenUid isc.2.users
        let host := tryDispatchHost p env now order isc.2
        if host.1 then
          ⟨isc.2, order, host.2.2.lastChosenUid⟩ :: hostScans p env rounds host.2.1 host.2.2
        else []

/-- The cache layer creates no user and dispatches nothing from the host queues. -/
structure Env.KeepsTurn (env : Env) : Prop where
  users : ∀ req now s, (env.icl req now s).2.users = s.users
  lastChosenUid : ∀ req now s, (env.icl req now s).2.lastChosenUid = s.lastChosenUid

section Scan

variable {s : CreditScheduler}

theorem length_getOrCreateUser (uid : UserID) (s : CreditScheduler) :
    s.users.length ≤ (s.getOrCreateUser p uid).users.length := by
  unfold getOrCreateUser
  split
  · exact le_rfl
  · simp [(p.emplaceOrder_perm s.users uid).length_eq]

theorem getOrCreateUser_of_length {uid : UserID}
    (same : (s.getOrCreateUser p uid).users.length ≤ s.users.length) : uid ∈ s.users := by
  by_contra absent
  unfold getOrCreateUser at same
  rw [if_neg absent] at same
  simp [(p.emplaceOrder_perm s.users uid).length_eq] at same

theorem getOrCreateUser_lastChosenUid (uid : UserID) (s : CreditScheduler) :
    (s.getOrCreateUser p uid).lastChosenUid = s.lastChosenUid := by
  unfold getOrCreateUser
  split <;> rfl

theorem dispatchReentrant_lastChosenUid (keeps : env.KeepsTurn) (req : Request) (now : Tick)
    (s : CreditScheduler) :
    (s.dispatchReentrant p env req now).2.lastChosenUid = s.lastChosenUid := by
  unfold dispatchReentrant dispatchICL
  split
  · simp only [modify, getOrCreateUser_lastChosenUid]
    exact keeps.lastChosenUid req now _
  · rfl

theorem dispatchReentrant_users (keeps : env.KeepsTurn) (req : Request) (now : Tick)
    {s : CreditScheduler} (known : req.userID ∈ s.users) :
    (s.dispatchReentrant p env req now).2.users = s.users := by
  unfold dispatchReentrant dispatchICL
  split
  · have kept : (env.icl req now { s with inTick := false }).2.users = s.users :=
      keeps.users req now _
    dsimp only
    rw [getOrCreateUser_of_mem (by simpa [kept] using known)]
    exact kept
  · rfl

theorem tryDispatchISC_keeps (now : Tick) (order : List UserID) (s : CreditScheduler) :
    (s.tryDispatchISC now order).2.users = s.users ∧
      (s.tryDispatchISC now order).2.lastChosenUid = s.lastChosenUid := by
  induction order generalizing s with
  | nil => exact ⟨rfl, rfl⟩
  | cons uid order ih =>
      cases waiting : (s.account uid).queueISC with
      | nil =>
          rw [tryDispatchISC, waiting]
          exact ih s
      | cons front rest =>
          rw [tryDispatchISC_cons waiting]
          split
          · exact ⟨rfl, rfl⟩
          · exact ih _

theorem length_tryDispatchHost (keeps : env.KeepsTurn) (now : Tick) (order : List UserID)
    (s : CreditScheduler) :
    s.users.length ≤ (s.tryDispatchHost p env now order).2.2.users.length := by
  induction order generalizing s with
  | nil => exact le_rfl
  | cons uid order ih =>
      cases waiting : (s.account uid).queue with
      | nil =>
          rw [tryDispatchHost, waiting]
          exact ih s
      | cons front rest =>
          have created := length_getOrCreateUser (p := p) front.userID s
          rw [tryDispatchHost_cons waiting]
          split
          · have known : front.userID ∈ (sendHost p uid front s).users :=
              mem_getOrCreateUser p front.userID s
            rw [dispatchReentrant_users keeps front now known]
            exact created
          · exact created.trans (ih (deferHost p uid front now s))

theorem ready_deferHost {uid other : UserID} (ne : other ≠ uid) {front : Request} (now : Tick)
    (known : front.userID ∈ s.users) :
    Ready other (deferHost p uid front now s) ↔ Ready other s := by
  have credit : ∀ payer, ((deferHost p uid front now s).account payer).credit =
      (s.account payer).credit := by
    intro payer
    unfold deferHost
    rw [getOrCreateUser_of_mem known]
    exact modify_field _ uid payer (f := UserAccount.popQueue) (·.credit) fun _ => rfl
  have queue : ((deferHost p uid front now s).account other).queue =
      (s.account other).queue := by
    unfold deferHost
    rw [getOrCreateUser_of_mem known, modify_account_ne _ _ _ _ ne]
  simp only [Ready, queue, credit]

theorem tryDispatchHost_scan (keeps : env.KeepsTurn) (now : Tick) {order : List UserID}
    (nodup : order.Nodup)
    (none : (s.tryDispatchHost p env now order).2.2.users.length ≤ s.users.length)
    (dispatched : (s.tryDispatchHost p env now order).1 = true) :
    (s.tryDispatchHost p env now order).2.2.users = s.users ∧
      ∃ passed rest,
        order = passed ++ (s.tryDispatchHost p env now order).2.2.lastChosenUid :: rest ∧
        ∀ uid ∈ passed, ¬ Ready uid s := by
  induction order generalizing s with
  | nil => cases dispatched
  | cons uid order ih =>
      obtain ⟨fresh, nodup⟩ := List.nodup_cons.1 nodup
      cases waiting : (s.account uid).queue with
      | nil =>
          rw [tryDispatchHost, waiting] at none dispatched ⊢
          obtain ⟨users, passed, rest, split, unready⟩ := ih nodup none dispatched
          refine ⟨users, uid :: passed, rest, congrArg (uid :: ·) split, ?_⟩
          intro other hmem
          rcases List.mem_cons.1 hmem with rfl | hmem
          · simp [Ready, waiting]
          · exact unready other hmem
      | cons front rest =>
          rw [tryDispatchHost_cons waiting] at none dispatched ⊢
          by_cases paid : front.pages ≤
              ((s.getOrCreateUser p front.userID).account front.userID).credit
          · rw [if_pos paid] at none ⊢
            have sent : front.userID ∈ (sendHost p uid front s).users :=
              mem_getOrCreateUser p front.userID s
            rw [dispatchReentrant_users keeps front now sent] at none ⊢
            have known : front.userID ∈ s.users := getOrCreateUser_of_length none
            have same : (s.getOrCreateUser p front.userID).users = s.users :=
              congrArg users (getOrCreateUser_of_mem known)
            refine ⟨same, [], order, ?_, by simp⟩
            rw [dispatchReentrant_lastChosenUid keeps]
            rfl
          · rw [if_neg paid] at none dispatched ⊢
            have grows := length_tryDispatchHost (p := p) keeps now order
                (deferHost p uid front now s)
            have known : front.userID ∈ s.users := getOrCreateUser_of_length (grows.trans none)
            have same : (s.getOrCreateUser p front.userID).users = s.users :=
              congrArg users (getOrCreateUser_of_mem known)
            rw [getOrCreateUser_of_mem known] at paid
            obtain ⟨users, passed, rest', split, unready⟩ :=
              ih nodup (none.trans_eq (congrArg List.length same.symm)) dispatched
            refine ⟨users.trans same, uid :: passed, rest', congrArg (uid :: ·) split, ?_⟩
            intro other hmem
            by_cases ne : other = uid
            · simpa [Ready, ne, waiting] using paid
            · rw [← ready_deferHost ne now known]
              exact unready other ((List.mem_cons.1 hmem).resolve_left ne)

end Scan

section Rounds

variable {s : CreditScheduler}

theorem length_dispatchRounds (keeps : env.KeepsTurn) (rounds : Nat) (now : Tick)
    (s : CreditScheduler) :
    s.users.length ≤ (s.dispatchRounds p env rounds now).2.users.length := by
  induction rounds generalizing now s with
  | zero => exact le_rfl
  | succ rounds ih =>
      have gates := (tryDispatchISC_keeps now (scanOrder s.lastChosenUidISC s.users) s).1
      unfold dispatchRounds
      generalize s.tryDispatchISC now (scanOrder s.lastChosenUidISC s.users) = isc at gates ⊢
      have host := length_tryDispatchHost (p := p) keeps now
        (scanOrder isc.2.lastChosenUid isc.2.users) isc.2
      rw [gates] at host
      simp only
      split
      · exact (congrArg List.length gates.symm).trans_le (ih now isc.2)
      · rw [gates]
        split
        · exact host.trans (ih _ _)
        · exact host

theorem hostScans_turns (keeps : env.KeepsTurn) (rounds : Nat) {now : Tick}
    (nodup : s.users.Nodup)
    (none : (s.dispatchRounds p env rounds now).2.users.length ≤ s.users.length) :
    Turns s.users s.lastChosenUid ((s.hostScans p env rounds now).map HostScan.turn) ∧
      ∀ scan ∈ s.hostScans p env rounds now, ∀ uid ∈ scan.passed, ¬ Ready uid scan.before := by
  induction rounds generalizing now s with
  | zero => exact ⟨.nil _, by simp [hostScans]⟩
  | succ rounds ih =>
      obtain ⟨users, last⟩ := tryDispatchISC_keeps now (scanOrder s.lastChosenUidISC s.users) s
      unfold hostScans
      unfold dispatchRounds at none
      generalize s.tryDispatchISC now (scanOrder s.lastChosenUidISC s.users) =
          isc at users last none ⊢
      rw [← users] at nodup none
      rw [← users, ← last]
      simp only at none ⊢
      by_cases gate : isc.1 = true
      · rw [if_pos gate] at none ⊢
        exact ih nodup none
      · rw [if_neg gate] at none ⊢
        have distinct : (scanOrder isc.2.lastChosenUid isc.2.users).Nodup :=
          (turnOrder_perm _ _).nodup_iff.2 nodup
        have scanned := tryDispatchHost_scan (p := p) (s := isc.2) keeps now distinct
        have circle : scanOrder isc.2.lastChosenUid isc.2.users =
          turnOrder isc.2.lastChosenUid isc.2.users := rfl
        generalize scanOrder isc.2.lastChosenUid isc.2.users = around at *
        generalize isc.2.tryDispatchHost p env now around = host at *
        by_cases dispatched : host.1 = true
        · rw [if_pos dispatched] at none ⊢
          have shorter := (length_dispatchRounds keeps rounds _ _).trans none
          obtain ⟨kept, passed, rest, order, unready⟩ := scanned shorter dispatched
          obtain ⟨turns, more⟩ := ih (kept.symm ▸ nodup)
            (none.trans_eq (congrArg List.length kept.symm))
          rw [kept] at turns
          have before : HostScan.passed ⟨isc.2, around, host.2.2.lastChosenUid⟩ = passed :=
            HostScan.passed_eq distinct order
          refine ⟨.cons (circle.symm.trans (order.trans (congrArg (· ++ _) before.symm))) turns, ?_⟩
          intro scan hmem
          rcases List.mem_cons.1 hmem with rfl | hmem
          · rw [before]
            exact unready
          · exact more scan hmem
        · rw [if_neg dispatched]
          exact ⟨.nil _, by simp⟩

end Rounds

theorem dispatchRounds_fair (keeps : env.KeepsTurn) (rounds : Nat) {now : Tick}
    {s : CreditScheduler} (nodup : s.users.Nodup)
    (none : (s.dispatchRounds p env rounds now).2.users = s.users) :
    HostScan.Fair Ready s.users (s.hostScans p env rounds now) := by
  obtain ⟨turns, unready⟩ := hostScans_turns keeps rounds nodup (congrArg List.length none).le
  exact HostScan.fair_of_turns nodup turns unready

end CreditScheduler

namespace FCFSScheduler

variable {storage : Storage}

inductive Op where
  | submitRequest (req : Request)
  | submitRequestISC (uid : UserID) (req : Request)
  | recordPageConsumption (uid : UserID) (pages : Nat) (op : OpType)
  | tick (now : Tick)

def Op.run (storage : Storage) (s : FCFSScheduler) : Op → FCFSScheduler
  | .submitRequest req => s.submitRequest req
  | .submitRequestISC uid req => s.submitRequestISC uid req
  | .recordPageConsumption uid pages op => s.recordPageConsumptionByOpType uid pages op
  | .tick now => s.tick storage now

/-- The scans of the host queues in a run that dispatch, one in a tick at most. -/
def hostScans (storage : Storage) : List Op → FCFSScheduler → List (HostScan FCFSScheduler)
  | [], _ => []
  | op :: ops, s =>
      match op, s.nextHost with
      | .tick _, some uid =>
          ⟨s, scanOrder s.lastChosenUid s.users, uid⟩ :: hostScans storage ops (op.run storage s)
      | _, _ => hostScans storage ops (op.run storage s)

def run (storage : Storage) (ops : List Op) (s : FCFSScheduler) : FCFSScheduler :=
  ops.foldl (Op.run storage) s

def Waiting (uid : UserID) (s : FCFSScheduler) : Prop := (s.account uid).queue ≠ []

def Grows (users users' : List UserID) : Prop :=
  users' = users ∨ users.length < users'.length

theorem Grows.trans {users users' users'' : List UserID} (first : Grows users users')
    (second : Grows users' users'') : Grows users users'' := by
  rcases first with rfl | first
  · exact second
  · rcases second with rfl | second
    · exact .inr first
    · exact .inr (first.trans second)

theorem Grows.eq_of_back {users users' : List UserID} (first : Grows users users')
    (second : Grows users' users) : users' = users := by
  rcases first with rfl | first
  · rfl
  · rcases second with rfl | second
    · rfl
    · omega

theorem getOrCreateUser_grows (uid : UserID) (s : FCFSScheduler) :
    Grows s.users (s.getOrCreateUser uid).users := by
  unfold getOrCreateUser
  split
  · exact .inl rfl
  · exact .inr (by simp [List.orderedInsert_length])

theorem dispatchRequest_users (req : Request) (s : FCFSScheduler) :
    (s.dispatchRequest storage req).users = (s.getOrCreateUser req.userID).users := by
  unfold dispatchRequest dispatchICL
  split <;> rfl

theorem dispatchRequest_lastChosenUid (req : Request) (s : FCFSScheduler) :
    (s.dispatchRequest storage req).lastChosenUid = s.lastChosenUid := by
  unfold dispatchRequest dispatchICL
  split <;> exact getOrCreateUser_lastChosenUid s req.userID

theorem tryDispatchHost_grows (order : List UserID) (s : FCFSScheduler) :
    Grows s.users (s.tryDispatchHost storage order).2.users := by
  induction order with
  | nil => exact .inl rfl
  | cons uid order ih =>
      unfold tryDispatchHost
      split
      · exact ih
      · rw [dispatchRequest_users]
        exact getOrCreateUser_grows _ _

theorem tryDispatchISC_grows (order : List UserID) (s : FCFSScheduler) :
    Grows s.users (s.tryDispatchISC storage order).2.users := by
  induction order with
  | nil => exact .inl rfl
  | cons uid order ih =>
      unfold tryDispatchISC
      split
      · exact ih
      · rw [dispatchRequest_users]
        exact getOrCreateUser_grows _ _

theorem tryDispatchISC_lastChosenUid (order : List UserID) (s : FCFSScheduler) :
    (s.tryDispatchISC storage order).2.lastChosenUid = s.lastChosenUid := by
  induction order with
  | nil => rfl
  | cons uid order ih =>
      unfold tryDispatchISC
      split
      · exact ih
      · exact dispatchRequest_lastChosenUid _ _

theorem schedule_grows (s : FCFSScheduler) : Grows s.users (s.schedule storage).users :=
  (tryDispatchHost_grows _ s).trans (tryDispatchISC_grows _ _)

theorem Op.run_grows (op : Op) (s : FCFSScheduler) : Grows s.users (op.run storage s).users := by
  cases op with
  | submitRequest req => exact getOrCreateUser_grows _ _
  | submitRequestISC uid req => exact getOrCreateUser_grows _ _
  | recordPageConsumption uid pages op => exact getOrCreateUser_grows _ _
  | tick now => exact schedule_grows _

theorem run_grows (ops : List Op) (s : FCFSScheduler) :
    Grows s.users (run storage ops s).users := by
  induction ops generalizing s with
  | nil => exact .inl rfl
  | cons op ops ih => exact (op.run_grows s).trans (ih _)

theorem tick_lastChosenUid (now : Tick) (s : FCFSScheduler) :
    (s.tick storage now).lastChosenUid = s.nextHost.getD s.lastChosenUid := by
  unfold tick schedule
  simp only
  rw [tryDispatchISC_lastChosenUid, tryDispatchHost_eq]
  change _ = ((scanOrder s.lastChosenUid s.users).find? fun uid =>
    !(s.account uid).queue.isEmpty).getD s.lastChosenUid
  cases found : (scanOrder s.lastChosenUid s.users).find? fun uid =>
      !(s.account uid).queue.isEmpty with
  | none => rfl
  | some uid =>
      have waiting := List.find?_some found
      cases queue : (s.account uid).queue with
      | nil => simp [queue] at waiting
      | cons req rest =>
          simp only [queue, dispatchRequest_lastChosenUid, Option.getD_some]

theorem hostScans_turns (ops : List Op) {s : FCFSScheduler} (nodup : s.users.Nodup)
    (none : (run storage ops s).users = s.users) :
    Turns s.users s.lastChosenUid ((s.hostScans storage ops).map HostScan.turn) ∧
      ∀ scan ∈ s.hostScans storage ops, ∀ uid ∈ scan.passed, ¬ Waiting uid scan.before := by
  induction ops generalizing s with
  | nil => exact ⟨.nil _, by simp [hostScans]⟩
  | cons op ops ih =>
      have kept : (op.run storage s).users = s.users :=
        (op.run_grows s).eq_of_back (none ▸ run_grows ops _)
      obtain ⟨turns, unready⟩ := ih (kept.symm ▸ nodup) (none.trans kept.symm)
      rw [kept] at turns
      have quiet (last : (op.run storage s).lastChosenUid = s.lastChosenUid)
          (same : s.hostScans storage (op :: ops) = (op.run storage s).hostScans storage ops) :
          Turns s.users s.lastChosenUid ((s.hostScans storage (op :: ops)).map HostScan.turn) ∧
            ∀ scan ∈ s.hostScans storage (op :: ops), ∀ uid ∈ scan.passed,
              ¬ Waiting uid scan.before := by
        rw [same, ← last]
        exact ⟨turns, unready⟩
      cases op with
      | submitRequest req => exact quiet (getOrCreateUser_lastChosenUid _ _) rfl
      | submitRequestISC uid req => exact quiet (getOrCreateUser_lastChosenUid _ _) rfl
      | recordPageConsumption uid pages op => exact quiet (getOrCreateUser_lastChosenUid _ _) rfl
      | tick now =>
          have last : ((Op.tick now).run storage s).lastChosenUid =
              s.nextHost.getD s.lastChosenUid := tick_lastChosenUid now s
          cases next : s.nextHost with
          | none =>
              rw [next] at last
              exact quiet last (by simp only [hostScans, next])
          | some uid =>
              rw [next] at last
              have circle : (scanOrder s.lastChosenUid s.users).Nodup :=
                (turnOrder_perm _ _).nodup_iff.2 nodup
              obtain ⟨_, passed, rest, order, idle⟩ := List.find?_eq_some_iff_append.1 next
              have before : HostScan.passed ⟨s, scanOrder s.lastChosenUid s.users, uid⟩ = passed :=
                HostScan.passed_eq circle order
              simp only [hostScans, next]
              rw [last] at turns
              refine ⟨.cons (order.trans (congrArg (· ++ _) before.symm)) turns, ?_⟩
              intro scan hmem
              rcases List.mem_cons.1 hmem with rfl | hmem
              · rw [before]
                intro other skipped
                simpa [Waiting] using idle other skipped
              · exact unready scan hmem

theorem run_fair (ops : List Op) {s : FCFSScheduler} (nodup : s.users.Nodup)
    (none : (run storage ops s).users = s.users) :
    HostScan.Fair Waiting s.users (s.hostScans storage ops) := by
  obtain ⟨turns, unready⟩ := hostScans_turns ops nodup none
  exact HostScan.fair_of_turns nodup turns unready

end FCFSScheduler

/-- The round robin of both schedulers: over the loop of one tick of the credit
scheduler, and over any run of ticks of the other. -/
theorem round_robin_fair :
    (∀ (p : CreditScheduler.Params) (env : CreditScheduler.Env), env.KeepsTurn →
      ∀ (rounds : Nat) (now : Tick) (s : CreditScheduler), s.users.Nodup →
        (s.dispatchRounds p env rounds now).2.users = s.users →
        HostScan.Fair CreditScheduler.Ready s.users (s.hostScans p env rounds now)) ∧
    ∀ (storage : Storage) (ops : List FCFSScheduler.Op) (s : FCFSScheduler), s.users.Nodup →
      (s.run storage ops).users = s.users →
      HostScan.Fair FCFSScheduler.Waiting s.users (s.hostScans storage ops) :=
  ⟨fun _ _ keeps rounds _ _ nodup none =>
      CreditScheduler.dispatchRounds_fair keeps rounds nodup none,
    fun _ ops _ nodup none => FCFSScheduler.run_fair ops nodup none⟩

/-! ## A user that is passed -/

namespace CreditScheduler

def unaffordable : CreditScheduler :=
  { empty Params.small with
    users := [1, 2]
    account := fun uid =>
      { Params.small.newAccount with
        credit := if uid = 1 then 2 else 10
        queue := if uid = 1
          then [.ofPages .read 1 1, .ofPages .read 1 10, .ofPages .read 1 1]
          else [.ofPages .read 2 1, .ofPages .read 2 1, .ofPages .read 2 1] } }

instance (uid : UserID) (s : CreditScheduler) : Decidable (Ready uid s) :=
  inferInstanceAs (Decidable (∃ front ∈ (s.account uid).queue.head?, _))

theorem Env.Quiet.keepsTurn {env : Env} (quiet : env.Quiet) : env.KeepsTurn :=
  ⟨fun req now s => congrArg users (quiet.icl req now s),
    fun req now s => congrArg lastChosenUid (quiet.icl req now s)⟩

end CreditScheduler

namespace FCFSScheduler

def unoccupied : List Op :=
  [.submitRequest (.ofPages .read 1001 1), .tick 0,
    .submitRequest (.ofPages .read 1002 1), .submitRequest (.ofPages .read 1002 1), .tick 1,
    .submitRequest (.ofPages .read 1002 1), .tick 2,
    .submitRequest (.ofPages .read 1001 1), .tick 3]

instance (uid : UserID) (s : FCFSScheduler) : Decidable (Waiting uid s) :=
  inferInstanceAs (Decidable (_ ≠ _))

end FCFSScheduler

def Storage.immediate : Storage := ⟨fun _ now _ => now, fun _ _ _ => le_rfl⟩

theorem round_robin_fair_small :
    HostScan.Fair CreditScheduler.Ready [1, 2]
        (CreditScheduler.unaffordable.hostScans .small .idle 10 0) ∧
      HostScan.Fair FCFSScheduler.Waiting [1001, 1002]
        (FCFSScheduler.construct.hostScans .immediate FCFSScheduler.unoccupied) :=
  ⟨round_robin_fair.1 .small .idle CreditScheduler.Env.idle_quiet.keepsTurn 10 0
      CreditScheduler.unaffordable (by decide) (by decide +kernel),
    round_robin_fair.2 .immediate FCFSScheduler.unoccupied FCFSScheduler.construct (by decide)
      (by decide +kernel)⟩

def HostScan.Strict {σ : Type} (ready : UserID → σ → Prop) (users : List UserID)
    (scans : List (HostScan σ)) : Prop :=
  ∀ uid other, other ∈ users → other ≠ uid →
    ∀ early opening between closing late,
      scans = early ++ opening :: (between ++ closing :: late) →
      opening.chosen = uid → closing.chosen = uid → (∀ scan ∈ between, scan.chosen ≠ uid) →
      (∀ scan ∈ between ++ [closing], ready other scan.before) → dispatches other between = 1

theorem HostScan.not_strict {σ : Type} {ready : UserID → σ → Prop} (uid other : UserID)
    {users : List UserID} {scans : List (HostScan σ)} (later : List UserID)
    (member : other ∈ users) (ne : other ≠ uid)
    (chosen : scans.map HostScan.chosen = uid :: other :: other :: uid :: later)
    (fair : ∀ scan ∈ scans.tail, ready other scan.before) : ¬ Strict ready users scans := by
  intro strict
  obtain ⟨opening, rest, rfl, opens, chosen⟩ := List.map_eq_cons_iff.1 chosen
  obtain ⟨first, rest, rfl, hfirst, chosen⟩ := List.map_eq_cons_iff.1 chosen
  obtain ⟨second, rest, rfl, hsecond, chosen⟩ := List.map_eq_cons_iff.1 chosen
  obtain ⟨closing, rest, rfl, closes, -⟩ := List.map_eq_cons_iff.1 chosen
  have once := strict uid other member ne [] opening [first, second] closing rest rfl opens
    closes (by simp [hfirst, hsecond, ne]) fun scan hmem => fair scan (by
      simp only [List.cons_append, List.nil_append, List.mem_cons, List.not_mem_nil,
        or_false] at hmem
      simp only [List.tail_cons, List.mem_cons]
      tauto)
  simp [dispatches, hfirst, hsecond] at once

theorem passed_user_overtaken :
    ¬ (∀ s : CreditScheduler, s.users.Nodup →
        (s.dispatchRounds .small .idle CreditScheduler.maxDispatchPerTick 0).2.users = s.users →
        HostScan.Strict CreditScheduler.Ready s.users
          (s.hostScans .small .idle CreditScheduler.maxDispatchPerTick 0)) ∧
      ¬ ∀ ops : List FCFSScheduler.Op,
        (FCFSScheduler.construct.run .immediate ops).users = FCFSScheduler.construct.users →
        HostScan.Strict FCFSScheduler.Waiting FCFSScheduler.construct.users
          (FCFSScheduler.construct.hostScans .immediate ops) := by
  constructor
  · intro strict
    have overtaken : ¬ HostScan.Strict CreditScheduler.Ready [1, 2]
        (CreditScheduler.unaffordable.hostScans .small .idle
          CreditScheduler.maxDispatchPerTick 0) :=
      HostScan.not_strict 1 2 [2] (by decide) (by decide) (by decide +kernel)
        (by decide +kernel)
    exact overtaken (strict CreditScheduler.unaffordable (by decide) (by decide +kernel))
  · intro strict
    have overtaken : ¬ HostScan.Strict FCFSScheduler.Waiting [1001, 1002]
        (FCFSScheduler.construct.hostScans .immediate FCFSScheduler.unoccupied) :=
      HostScan.not_strict 1001 1002 [] (by decide) (by decide) (by decide +kernel)
        (by decide +kernel)
    exact overtaken (strict FCFSScheduler.unoccupied (by decide +kernel))

end SimpleSSD.HIL
