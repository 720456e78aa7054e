import SimpleSSD.HIL.Scheduler.Tally

/-!
# Callbacks that call back

A call out of a drain loop may run a tick of its own, which drains the same queue.  The
items are safe: each is taken out before it is resumed, so it is resumed once.  The
outer loop is not: it still makes the iterations it has fixed, and takes the front of
whatever queue it finds.  It is safe as well when a callback runs a tick only after its
loop has taken the last entry.
-/

namespace SimpleSSD.HIL.CreditScheduler

open SimpleSSD.Foundation Relation

def Op.handsIn : Op → Option Item
  | .submitRequest _ req => some (.request req)
  | .submitISCDeferred getTick uid pages ctx cb => some (.custom ⟨uid, pages, getTick, ctx, cb⟩)
  | .submitISCRequest _ uid pages iscContext => iscContext.map (.isc uid pages)
  | .processUntil _ req _ => some (.request req)
  | _ => none

def Guard.faultless : Guard := { Guard.none with fault := False }

/-- Anything but handing in `item` and resetting the statistics. -/
def Guard.leaving (item : Item) : Guard where
  submit other := other ≠ item
  direct _ := True
  reset _ := False
  window _ _ := True
  fault := True

section Fault

variable {p : Params} {env : Env} {guard : Guard} {s t : CreditScheduler}

theorem getOrCreateUser_fault (uid : UserID) (s : CreditScheduler) :
    (s.getOrCreateUser p uid).fault = s.fault := by
  unfold getOrCreateUser
  split <;> rfl

theorem Submission.fault {item : Item} (entered : Submission item s t) :
    t.fault = s.fault := by
  cases entered <;> rfl

theorem Work.fault {before after : List ISCDeferredRequest × CreditScheduler}
    (step : Work p guard before after) :
    after.2.fault = before.2.fault ∨ guard.fault ∧ after.2.fault = true := by
  cases step with
  | create uid => exact .inl (getOrCreateUser_fault uid _)
  | activate uid getTick known =>
      refine .inl ?_
      simp only [CreditScheduler.activate]
      split
      · rfl
      · split <;> rfl
  | window now may =>
      refine .inl ?_
      simp only [iopsWindow]
      split <;> rfl
  | @phase _ s =>
      obtain ⟨account, grants⟩ := s.refillGrants_eq p
      exact .inl (by simp only [refillPhase, grants])
  | fail allowed => exact .inr ⟨allowed, rfl⟩
  | host uid front rest head held => exact .inl (getOrCreateUser_fault front.userID _)
  | deferHost uid front rest now head => exact .inl (getOrCreateUser_fault front.userID _)
  | _ => exact .inl rfl

theorem Move.fault {before after : List ISCDeferredRequest × CreditScheduler}
    (move : Move p guard before after) :
    after.2.fault = before.2.fault ∨ guard.fault ∧ after.2.fault = true := by
  cases move with
  | submit item may entered => exact .inl entered.fault
  | work step => exact step.fault
  | direct | resetStat => exact .inl rfl

theorem Carries.fault (carries : Carries p guard s t) :
    t.fault = s.fault ∨ guard.fault ∧ t.fault = true := by
  have all : ∀ {before after}, Moves p guard before after →
      after.2.fault = before.2.fault ∨ guard.fault ∧ after.2.fault = true := by
    intro before after moves
    induction moves with
    | refl => exact .inl rfl
    | tail _ last ih =>
        rcases last.fault with same | arises
        · rw [same]
          exact ih
        · exact .inr arises
  exact all (carries [])

end Fault

/-! ## The tally over a run -/

section Tally

variable {p : Params} {item : Item} {s t : CreditScheduler}

theorem Moves.tally {before after : List ISCDeferredRequest × CreditScheduler}
    (moves : Moves p (.leaving item) before after) (proper : Proper before.2) :
    after.2.tally item.uid (· == item) after.1 =
      before.2.tally item.uid (· == item) before.1 := by
  have own : ∀ other : Item, (other == item) = true → other.uid = item.uid := by
    intro other same
    rw [eq_of_beq same]
  induction moves with
  | refl => rfl
  | tail earlier last ih =>
      rw [← ih]
      have proper := Moves.proper earlier proper
      cases last with
      | submit other may entered =>
          have distinct : other ≠ item := may
          rw [entered.tally own, if_neg (by simpa using distinct), Nat.add_zero]
      | work step => exact step.tally own proper
      | direct site cls uid pages => exact tally_charge site cls uid pages
      | resetStat getTick may => exact may.elim

/-- `item` waits or has been served, so many times in all. -/
def handled (item : Item) (s : CreditScheduler) : Nat :=
  (s.waitingItems item.uid).count item + (served s.trace).count item

theorem tally_handled (s : CreditScheduler) :
    s.tally item.uid (· == item) [] = s.handled item := by
  simp only [CreditScheduler.tally, List.map_nil, List.countP_nil, Nat.add_zero, handled,
    List.count]

theorem Guard.leaving_allows (env : Env) (op : Op) (u : CreditScheduler)
    (other : op.handsIn ≠ some item) (noReset : op.isReset = false) :
    (Guard.leaving item).Allows p env op u := by
  refine ⟨Guard.ticks_of_free (fun _ _ => trivial) trivial p env op u, ?_⟩
  cases op with
  | submitRequest | submitISCDeferred | processUntil => exact fun same => other (congrArg some same)
  | submitISCRequest getTick uid pages iscContext =>
      cases iscContext with
      | none => trivial
      | some ctx => exact fun same => other (congrArg some same)
  | resetStatValues => exact absurd noReset Bool.noConfusion
  | _ => trivial

end Tally

/-! ## Calm callbacks -/

def Op.ticks : Op → Bool
  | .tick _ | .processEvent _ | .processUntil _ _ _ => true
  | _ => false

/-- The call comes from the drain loop of the deferred requests, as the last charge shows,
and the loop has left entries in its queue. -/
def callsFromDrain (u : CreditScheduler) : Bool :=
  match u.trace with
  | .serve _ :: .charge .deferredQueue _ _ _ _ :: _ => !u.deferredQueue.isEmpty
  | _ => false

/-- Runs whose callbacks run no tick when the drain loop that calls them has left entries in
its queue; `held` says that the run is made inside such a call. -/
inductive CalmRuns (p : Params) (ok : Op → Prop) :
    Bool → CreditScheduler → CreditScheduler → Prop
  | refl (held : Bool) (s : CreditScheduler) : CalmRuns p ok held s s
  | next {held : Bool} {s t : CreditScheduler} (env : Env) (op : Op)
      (earlier : CalmRuns p ok held s t) (allowed : ok op)
      (calm : held = true → op.ticks = false)
      (icl : ∀ req now u, CalmRuns p ok u.callsFromDrain u (env.icl req now u).2)
      (resume : ∀ dc now u, CalmRuns p ok (!u.deferredISC.isEmpty) u (env.resume dc now u))
      (iscCallback : ∀ ctx now u, CalmRuns p ok held u (env.iscCallback ctx now u)) :
      CalmRuns p ok held s (op.run p env t)

/-- Neither deferred queue gets shorter. -/
def Grows (s t : CreditScheduler) : Prop :=
  s.deferredQueue.length ≤ t.deferredQueue.length ∧ s.deferredISC.length ≤ t.deferredISC.length

section Calm

variable {p : Params} {env : Env} {ok : Op → Prop} {held : Bool} {s t u : CreditScheduler}

theorem Grows.refl (s : CreditScheduler) : Grows s s := ⟨le_rfl, le_rfl⟩

theorem Grows.trans (first : Grows s t) (later : Grows t u) : Grows s u :=
  ⟨first.1.trans later.1, first.2.trans later.2⟩

theorem Grows.of_eq (queue : t.deferredQueue = s.deferredQueue)
    (custom : t.deferredISC = s.deferredISC) : Grows s t :=
  ⟨(congrArg List.length queue).ge, (congrArg List.length custom).ge⟩

theorem getOrCreateUser_grows (uid : UserID) (s : CreditScheduler) :
    Grows s (s.getOrCreateUser p uid) :=
  .of_eq (getOrCreateUser_keeps_deferredQueue uid s) (getOrCreateUser_keeps_deferredISC uid s)

theorem activate_grows (getTick : Tick) (uid : UserID) (s : CreditScheduler) :
    Grows s (s.activate p getTick uid) := by
  unfold activate
  split
  · exact .refl s
  · simp only
    split <;> exact .of_eq rfl rfl

theorem ensureActiveUser_grows (getTick : Tick) (uid : UserID) (s : CreditScheduler) :
    Grows s (s.ensureActiveUser p getTick uid) :=
  (getOrCreateUser_grows uid s).trans (activate_grows getTick uid _)

theorem processISCLoop_grows (iscCallback : ∀ ctx now u, Grows u (env.iscCallback ctx now u))
    (now : Tick) (fuel : Nat) (remaining : List ISCDeferredRequest) (s : CreditScheduler) :
    Grows s (s.processISCLoop p env now fuel remaining) := by
  induction fuel generalizing remaining s with
  | zero => exact .of_eq rfl rfl
  | succ fuel ih =>
      unfold processISCLoop
      split
      · exact .of_eq rfl rfl
      next req rest _ =>
        have taken : Grows s ({ s with deferredISCRequests := rest }.getOrCreateUser p req.uid) :=
          getOrCreateUser_grows req.uid { s with deferredISCRequests := rest }
        simp only
        split
        · refine Grows.trans ?_ (ih _ _)
          refine Grows.trans ?_ (iscCallback _ _ _)
          exact taken
        · exact taken.trans (ih _ _)

theorem Op.run_grows (iscCallback : ∀ ctx now u, Grows u (env.iscCallback ctx now u)) (op : Op)
    (calm : op.ticks = false) (s : CreditScheduler) : Grows s (op.run p env s) := by
  cases op with
  | submitRequest getTick req =>
      simp only [Op.run, CreditScheduler.submitRequest]
      split
      · exact .of_eq rfl rfl
      · refine Grows.trans ?_ (activate_grows _ _ _)
        exact getOrCreateUser_grows req.userID s
  | submitISCDeferred =>
      simp [Op.run, CreditScheduler.submitISCDeferred, Grows]
  | submitISCRequest getTick uid pages iscContext =>
      cases iscContext with
      | none => exact .refl s
      | some ctx =>
          have ready := ensureActiveUser_grows (p := p) getTick uid s
          simp only [Op.run, CreditScheduler.submitISCRequest]
          split
          · refine Grows.trans ?_ (iscCallback _ _ _)
            exact ready
          · exact ready
  | ensureActiveUser getTick uid => exact ensureActiveUser_grows getTick uid s
  | processISCRequests now => exact processISCLoop_grows iscCallback now _ _ s
  | tick | processEvent | processUntil => exact absurd calm Bool.noConfusion
  | useCredit uid used | useCreditISC uid used =>
      exact getOrCreateUser_grows uid s
  | resetStatValues => exact .of_eq rfl rfl

theorem CalmRuns.grows (run : CalmRuns p ok held s t) (inside : held = true) : Grows s t := by
  induction run with
  | refl => exact .refl _
  | next env op _ _ calm _ _ _ earlier _ _ iscCallback =>
      exact (earlier inside).trans
        (op.run_grows (fun ctx now u => iscCallback ctx now u inside) (calm inside) _)

/-- A dispatch leaves at least the iterations that its loop has left. -/
theorem dispatchReentrant_leaves
    (icl : ∀ req now u, CalmRuns p ok u.callsFromDrain u (env.icl req now u).2) {n : Nat}
    (req : Request) (now : Tick) (drain : 0 < n → s.callsFromDrain = true)
    (enough : n ≤ s.deferredQueue.length) :
    n ≤ (s.dispatchReentrant p env req now).2.deferredQueue.length := by
  rcases n.eq_zero_or_pos with rfl | left
  · exact Nat.zero_le _
  · unfold dispatchReentrant dispatchICL
    split
    · have called := (icl req now { s with inTick := false }).grows (drain left)
      refine enough.trans (called.1.trans ?_)
      simp only [modify_deferredQueue, getOrCreateUser_keeps_deferredQueue, emit_deferredQueue]
      exact le_rfl
    · exact enough

theorem deferredKept_of_calm
    (icl : ∀ req now u, CalmRuns p ok u.callsFromDrain u (env.icl req now u).2) (n : Nat)
    (now : Tick) (s : CreditScheduler) (enough : n ≤ s.deferredQueue.length) :
    DeferredKept p env n now s := by
  induction n generalizing now s with
  | zero => exact fun back hmem => absurd hmem List.not_mem_nil
  | succ n ih =>
      unfold DeferredKept deferredReturns
      split
      · exact fun back hmem => absurd hmem List.not_mem_nil
      next dr rest head =>
        rw [head, List.length_cons, Nat.add_le_add_iff_right] at enough
        rw [getOrCreateUser_deferredQueue]
        simp only
        split
        next held =>
          have left := dispatchReentrant_leaves (p := p) icl dr.req now
            (s := (({ s.getOrCreateUser p dr.req.userID with deferredQueue := rest }.charge
              .deferredQueue (.ofOp dr.req.op) dr.req.userID dr.pages).emit
                (.serve (.request dr.req))))
            (fun some => by
              have full : rest ≠ [] := List.ne_nil_of_length_pos (some.trans_le enough)
              simpa [callsFromDrain, charge] using full) enough
          refine List.forall_mem_cons.2 ⟨fun some => ?_, ih _ _ left⟩
          exact List.ne_nil_of_length_pos (some.trans_le left)
        next poor =>
          refine ih _ _ ?_
          simp only [List.length_append, List.length_singleton]
          omega

theorem resumeReentrant_leaves
    (resume : ∀ dc now u, CalmRuns p ok (!u.deferredISC.isEmpty) u (env.resume dc now u))
    {n : Nat} (dc : DeferredCustom) (now : Tick) (enough : n ≤ s.deferredISC.length) :
    n ≤ (s.resumeReentrant env dc now).deferredISC.length := by
  unfold resumeReentrant
  split
  · rcases n.eq_zero_or_pos with rfl | left
    · exact Nat.zero_le _
    · have full : s.deferredISC ≠ [] := List.ne_nil_of_length_pos (left.trans_le enough)
      have called := (resume dc now { s with inTick := false }).grows (by simpa using full)
      exact enough.trans called.2
  · exact enough

theorem deferredISCKept_of_calm
    (resume : ∀ dc now u, CalmRuns p ok (!u.deferredISC.isEmpty) u (env.resume dc now u))
    (now : Tick) (n : Nat) (s : CreditScheduler) (enough : n ≤ s.deferredISC.length) :
    DeferredISCKept p env now n s := by
  induction n generalizing s with
  | zero => exact fun back hmem => absurd hmem List.not_mem_nil
  | succ n ih =>
      unfold DeferredISCKept deferredISCReturns
      split
      · exact fun back hmem => absurd hmem List.not_mem_nil
      next dc rest head =>
        rw [head, List.length_cons, Nat.add_le_add_iff_right] at enough
        rw [getOrCreateUser_deferredISC]
        simp only
        split
        next held =>
          have left := resumeReentrant_leaves resume dc now
            (s := (({ s.getOrCreateUser p dc.uid with deferredISC := rest }.charge
              .deferredISC .isc dc.uid dc.pages).emit (.serve (.custom dc)))) enough
          refine List.forall_mem_cons.2 ⟨fun some => ?_, ih _ left⟩
          exact List.ne_nil_of_length_pos (some.trans_le left)
        next poor =>
          refine ih _ ?_
          simp only [List.length_append, List.length_singleton]
          omega

theorem tickKept_of_calm
    (icl : ∀ req now u, CalmRuns p ok u.callsFromDrain u (env.icl req now u).2)
    (resume : ∀ dc now u, CalmRuns p ok (!u.deferredISC.isEmpty) u (env.resume dc now u))
    (now : Tick) (s : CreditScheduler) : TickKept p env now s :=
  fun _ => ⟨deferredKept_of_calm icl _ _ _ le_rfl, deferredISCKept_of_calm resume _ _ _ le_rfl⟩

theorem CalmRuns.runsBy (run : CalmRuns p ok held s t) :
    RunsBy p (fun env op u => op.EachTick p env (TickKept p env) u ∧ ok op) s t := by
  induction run with
  | refl => exact .refl _
  | next env op _ allowed _ icl resume _ earlier icl' resume' iscCallback' =>
      exact .next env op earlier
        ⟨.of_forall p env (tickKept_of_calm icl resume) op _, allowed⟩ icl' resume' iscCallback'

theorem CalmRuns.quiet {env : Env} (quiet : env.Quiet) (earlier : CalmRuns p ok held s t)
    (op : Op) (allowed : ok op) (calm : held = true → op.ticks = false) :
    CalmRuns p ok held s (op.run p env t) := by
  refine .next env op earlier allowed calm (fun req now u => ?_) (fun dc now u => ?_)
    fun ctx now u => ?_
  · rw [quiet.icl]
    exact .refl _ u
  · rw [quiet.resume]
    exact .refl _ u
  · rw [quiet.iscCallback]
    exact .refl _ u

end Calm

/-! ## Runs -/

section Runs

variable {p : Params} {uids : List UserID} {profile : UserID → Profile} {s : CreditScheduler}

theorem start_sound : (start p uids profile).inTick = false ∧
    (start p uids profile).fault = false := by
  refine start_induction (fun s => s.inTick = false ∧ s.fault = false) ⟨rfl, rfl⟩ ?_ ?_
  · intro s uid sound
    rw [getOrCreateUser_inTick, getOrCreateUser_fault]
    exact sound
  · exact fun _ _ _ sound => sound

theorem Op.allowed_of_kept {env : Env} {op : Op} {u : CreditScheduler}
    (kept : op.EachTick p env (TickKept p env) u) : Guard.faultless.Allows p env op u := by
  refine ⟨kept.mono fun _ _ tick _ => ⟨trivial, .inr tick⟩, ?_⟩
  cases op with
  | submitISCRequest _ _ _ iscContext => cases iscContext <;> trivial
  | _ => trivial

theorem CalmRuns.fault {ok : Op → Prop} {held : Bool} {t : CreditScheduler}
    (run : CalmRuns p ok held s t) : t.fault = s.fault := by
  have carries : Carries p .faultless s t := run.runsBy.carries fun _ _ _ allowed =>
    Op.allowed_of_kept allowed.1
  exact carries.fault.resolve_right fun none => none.1.elim

/-- When callbacks are calm, the scheduler is not in a tick between two outermost calls, no
loop has taken the front of an empty queue, and an item that is not handed in meanwhile
waits or has been served as often as before. -/
theorem drains_reentrant (run : CalmRuns p (fun _ => True) false (start p uids profile) s) :
    s.inTick = false ∧ s.fault = false ∧
      ∀ item t, CalmRuns p (fun _ => True) false (start p uids profile) t →
        CalmRuns p (fun op => op.handsIn ≠ some item ∧ op.isReset = false) false t s →
          s.handled item = t.handled item := by
  refine ⟨run.runsBy.inTick.trans start_sound.1, run.fault.trans start_sound.2,
    fun item t earlier later => ?_⟩
  have carries : Carries p (.leaving item) t s := later.runsBy.carries fun env op u allowed =>
    Guard.leaving_allows env op u allowed.2.1 allowed.2.2
  have proper : Proper t := earlier.runsBy.runs.proper
  have kept := Moves.tally (carries []) proper
  rw [← tally_handled, ← tally_handled]
  exact kept

end Runs

/-! ## A callback that ticks -/

def Env.ticking : Env := { Env.idle with
  resume := fun _ now u => (u.tick Params.small Env.idle now).2 }

def postponed (ctx : Nat) : Op := .submitISCDeferred 0 1 0 ctx true

/-- One user with two deferred callbacks, neither of which asks for a page. -/
def twoPostponed : CreditScheduler :=
  (postponed 1).run .small .idle
    ((postponed 0).run .small .idle (start .small [1] fun _ => .standard))

def Env.tickingLast : Env := { Env.idle with
  resume := fun _ now u =>
    if u.deferredISC.isEmpty then (u.tick Params.small Env.idle now).2 else u }

theorem tickingLast_calm {ok : Op → Prop} (allowed : ∀ now, ok (.tick now)) (dc : DeferredCustom)
    (now : Tick) (u : CreditScheduler) :
    CalmRuns .small ok (!u.deferredISC.isEmpty) u (Env.tickingLast.resume dc now u) := by
  by_cases last : u.deferredISC.isEmpty = true
  · simp only [Env.tickingLast, if_pos last]
    exact .quiet Env.idle_quiet (.refl _ u) (.tick now) (allowed now) fun inside => by
      simp [last] at inside
  · simp only [Env.tickingLast, if_neg last]
    exact .refl _ u

theorem tickingLast_ticks {ok : Op → Prop} (allowed : ∀ now, ok (.tick now))
    {s t : CreditScheduler} (earlier : CalmRuns .small ok false s t) :
    CalmRuns .small ok false s ((Op.tick 5).run .small .tickingLast t) :=
  .next .tickingLast (.tick 5) earlier (allowed 5) (fun inside => nomatch inside)
    (fun _ _ u => .refl _ u) (tickingLast_calm allowed) fun _ _ u => .refl _ u

/-- The second callback runs a tick inside the tick that resumes it. -/
theorem drains_reentrant_small :
    ((Op.tick 5).run .small .tickingLast twoPostponed).fault = false ∧
      ((Op.tick 5).run .small .tickingLast twoPostponed).deferredISC = [] ∧
      ((Op.tick 5).run .small .tickingLast twoPostponed).handled (.custom ⟨1, 0, 0, 1, true⟩) =
        twoPostponed.handled (.custom ⟨1, 0, 0, 1, true⟩) := by
  have calm : ∀ ctx, false = true → (postponed ctx).ticks = false := fun _ _ => rfl
  have waiting : CalmRuns .small (fun _ => True) false (start .small [1] fun _ => .standard)
      twoPostponed :=
    .quiet Env.idle_quiet (.quiet Env.idle_quiet (.refl false _) (postponed 0) trivial (calm 0))
      (postponed 1) trivial (calm 1)
  obtain ⟨-, sound, kept⟩ := drains_reentrant (tickingLast_ticks (fun _ => trivial) waiting)
  exact ⟨sound, by decide +kernel,
    kept _ _ waiting (tickingLast_ticks (fun _ => ⟨nofun, rfl⟩) (.refl _ _))⟩

/-- The nested tick resumes the second entry; the outer loop then finds its queue
empty. -/
theorem nested_tick_drains :
    Runs Params.small false (start .small [1] fun _ => .standard) twoPostponed ∧
      (∀ dc now u, Runs Params.small false u (Env.ticking.resume dc now u)) ∧
      twoPostponed.inTick = false ∧ twoPostponed.fault = false ∧
      (twoPostponed.tick .small .ticking 5).2.fault = true := by
  refine ⟨?_, ?_, ?_⟩
  · exact (Runs.quiet Env.idle_quiet (.quiet Env.idle_quiet (.refl _) (postponed 0) nofun)
      (postponed 1) nofun)
  · exact fun dc now u => .quiet Env.idle_quiet (.refl u) (.tick now) nofun
  · decide +kernel

end SimpleSSD.HIL.CreditScheduler
