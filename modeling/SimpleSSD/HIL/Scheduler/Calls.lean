import SimpleSSD.HIL.Scheduler.Act

/-!
# Calls out of the drain loops

The two drain loops of `tick` fix the number of their iterations before they start
and call out in the middle.  What matters to them is how the queue stands when a call
returns.  A run is guarded when every public call made in it, those of the callbacks
included, meets a condition on the state it is made in.
-/

namespace SimpleSSD.HIL.CreditScheduler

section Returns

variable (p : Params) (env : Env)

/-- The states in which the dispatches of `drainDeferred` return, each with the
iterations that are left. -/
def deferredReturns : Nat → Tick → CreditScheduler → List (Nat × CreditScheduler)
  | 0, _, _ => []
  | n + 1, now, s =>
      match s.deferredQueue with
      | [] => []
      | dr :: rest =>
          let s := { s with deferredQueue := rest }.getOrCreateUser p dr.req.userID
          if dr.pages ≤ (s.account dr.req.userID).credit then
            let s := (s.charge .deferredQueue (.ofOp dr.req.op) dr.req.userID
              dr.pages).emit (.serve (.request dr.req))
            let done := dispatchReentrant p env dr.req now s
            (n, done.2) :: deferredReturns n done.1 done.2
          else
            deferredReturns n now { s with deferredQueue := s.deferredQueue ++ [dr] }

/-- The states in which the resumptions of `drainDeferredISC` return. -/
def deferredISCReturns (now : Tick) : Nat → CreditScheduler → List (Nat × CreditScheduler)
  | 0, _ => []
  | n + 1, s =>
      match s.deferredISC with
      | [] => []
      | dc :: rest =>
          let s := { s with deferredISC := rest }.getOrCreateUser p dc.uid
          if dc.pages ≤ (s.account dc.uid).credit then
            let s := (s.charge .deferredISC .isc dc.uid dc.pages).emit
              (.serve (.custom dc))
            let s := resumeReentrant env dc now s
            (n, s) :: deferredISCReturns now n s
          else deferredISCReturns now n { s with deferredISC := s.deferredISC ++ [dc] }

/-- With iterations left, `drainDeferred` finds an entry after each dispatch. -/
def DeferredKept (n : Nat) (now : Tick) (s : CreditScheduler) : Prop :=
  ∀ back ∈ deferredReturns p env n now s, 0 < back.1 → back.2.deferredQueue ≠ []

/-- With iterations left, `drainDeferredISC` finds an entry after each resumption. -/
def DeferredISCKept (now : Tick) (n : Nat) (s : CreditScheduler) : Prop :=
  ∀ back ∈ deferredISCReturns p env now n s, 0 < back.1 → back.2.deferredISC ≠ []

def DrainsKept (now : Tick) (s : CreditScheduler) : Prop :=
  DeferredKept p env s.deferredQueue.length now s ∧
    let done := drainDeferred p env s.deferredQueue.length now s
    DeferredISCKept p env done.1 done.2.deferredISC.length done.2

/-- What a tick that is not a nested one has done when its drain loops start. -/
def drainStart (now : Tick) (s : CreditScheduler) : Tick × CreditScheduler :=
  let s := iopsWindow p now { s with inTick := true }
  let admin := drainAdmin p env (s.adminQueue.length + env.fuel) now s
  (admin.1, refill p admin.1 admin.2)

/-- No call out of a drain loop of this tick returns with the queue of the loop empty
while the loop has iterations left. -/
def TickKept (now : Tick) (s : CreditScheduler) : Prop :=
  s.inTick = false → DrainsKept p env (drainStart p env now s).1 (drainStart p env now s).2

/-- Every tick of the loop of `processUntil` meets `ok` in the state it is made in. -/
def LoopEach (ok : Tick → CreditScheduler → Prop) (uid : UserID) :
    Nat → Tick → CreditScheduler → Prop
  | 0, _, _ => True
  | iterations + 1, completionTick, s =>
      let done := tick p env completionTick s
      ok completionTick s ∧ (done.2.hasPending uid = true →
        LoopEach ok uid iterations (done.1 + p.periodTicks / 10) done.2)

/-- Every tick that a public call makes itself meets `ok`. -/
def Op.EachTick (ok : Tick → CreditScheduler → Prop) (op : Op) (s : CreditScheduler) : Prop :=
  match op with
  | .tick now => ok now s
  | .processEvent now => ok now s
  | .processUntil getTick req completionTick =>
      LoopEach p env ok req.userID maxIterations completionTick (s.submitRequest p getTick req)
  | _ => True

variable {p env} in
theorem LoopEach.mono {ok ok' : Tick → CreditScheduler → Prop}
    (weaker : ∀ now u, ok now u → ok' now u) {uid : UserID} {iterations : Nat}
    {completionTick : Tick} {s : CreditScheduler}
    (each : LoopEach p env ok uid iterations completionTick s) :
    LoopEach p env ok' uid iterations completionTick s := by
  induction iterations generalizing completionTick s with
  | zero => trivial
  | succ iterations ih => exact ⟨weaker _ _ each.1, fun pending => ih (each.2 pending)⟩

variable {p env} in
theorem Op.EachTick.mono {ok ok' : Tick → CreditScheduler → Prop}
    (weaker : ∀ now u, ok now u → ok' now u) {op : Op} {s : CreditScheduler}
    (each : op.EachTick p env ok s) : op.EachTick p env ok' s := by
  cases op with
  | tick | processEvent => exact weaker _ _ each
  | processUntil => exact LoopEach.mono weaker each
  | _ => trivial

theorem LoopEach.of_forall {ok : Tick → CreditScheduler → Prop} (always : ∀ now u, ok now u)
    (uid : UserID) (iterations : Nat) (completionTick : Tick) (s : CreditScheduler) :
    LoopEach p env ok uid iterations completionTick s := by
  induction iterations generalizing completionTick s with
  | zero => trivial
  | succ iterations ih => exact ⟨always _ _, fun _ => ih _ _⟩

theorem Op.EachTick.of_forall {ok : Tick → CreditScheduler → Prop}
    (always : ∀ now u, ok now u) (op : Op) (s : CreditScheduler) :
    op.EachTick p env ok s := by
  cases op with
  | tick | processEvent => exact always _ _
  | processUntil => exact LoopEach.of_forall p env always _ _ _ _
  | _ => trivial

end Returns

/-- Runs all of whose calls meet `ok`, those that callbacks make included. -/
inductive RunsBy (p : Params) (ok : Env → Op → CreditScheduler → Prop) :
    CreditScheduler → CreditScheduler → Prop
  | refl (s : CreditScheduler) : RunsBy p ok s s
  | next {s t : CreditScheduler} (env : Env) (op : Op) (earlier : RunsBy p ok s t)
      (allowed : ok env op t)
      (icl : ∀ req now u, RunsBy p ok u (env.icl req now u).2)
      (resume : ∀ dc now u, RunsBy p ok u (env.resume dc now u))
      (iscCallback : ∀ ctx now u, RunsBy p ok u (env.iscCallback ctx now u)) :
      RunsBy p ok s (op.run p env t)

structure Env.Makes (env : Env) (p : Params) (ok : Env → Op → CreditScheduler → Prop) :
    Prop where
  icl : ∀ req now u, RunsBy p ok u (env.icl req now u).2
  resume : ∀ dc now u, RunsBy p ok u (env.resume dc now u)
  iscCallback : ∀ ctx now u, RunsBy p ok u (env.iscCallback ctx now u)

theorem Env.Quiet.makes {env : Env} (quiet : env.Quiet) (p : Params)
    (ok : Env → Op → CreditScheduler → Prop) : env.Makes p ok := by
  refine ⟨fun req now u => ?_, fun dc now u => ?_, fun ctx now u => ?_⟩
  · rw [quiet.icl]
    exact .refl u
  · rw [quiet.resume]
    exact .refl u
  · rw [quiet.iscCallback]
    exact .refl u

namespace RunsBy

variable {p : Params} {ok ok' : Env → Op → CreditScheduler → Prop} {s t : CreditScheduler}

theorem runs (run : RunsBy p ok s t) : Runs p true s t := by
  induction run with
  | refl s => exact .refl s
  | next env op _ _ _ _ _ earlier icl resume iscCallback =>
      exact .next env op earlier (fun _ => rfl) icl resume iscCallback

theorem acts (run : RunsBy p ok s t) : Acts p s t := run.runs.acts

theorem quiet {env : Env} (quiet : env.Quiet) (earlier : RunsBy p ok s t) (op : Op)
    (allowed : ok env op t) : RunsBy p ok s (op.run p env t) :=
  have makes := quiet.makes p ok
  .next env op earlier allowed makes.icl makes.resume makes.iscCallback

end RunsBy

/-! ## Whether a call is nested -/

section InTick

variable {p : Params} {env : Env}

theorem getOrCreateUser_inTick (uid : UserID) (s : CreditScheduler) :
    (s.getOrCreateUser p uid).inTick = s.inTick := by
  unfold getOrCreateUser
  split <;> rfl

theorem activate_inTick (getTick : Tick) (uid : UserID) (s : CreditScheduler) :
    (s.activate p getTick uid).inTick = s.inTick := by
  unfold activate
  split
  · rfl
  · dsimp only
    split <;> rfl

theorem ensureActiveUser_inTick (getTick : Tick) (uid : UserID) (s : CreditScheduler) :
    (s.ensureActiveUser p getTick uid).inTick = s.inTick :=
  (activate_inTick getTick uid _).trans (getOrCreateUser_inTick uid s)

theorem submitRequest_inTick (getTick : Tick) (req : Request) (s : CreditScheduler) :
    (s.submitRequest p getTick req).inTick = s.inTick := by
  unfold submitRequest
  split
  · rfl
  · exact (activate_inTick getTick _ _).trans (getOrCreateUser_inTick req.userID s)

theorem tick_inTick (now : Tick) (s : CreditScheduler) :
    (s.tick p env now).2.inTick = s.inTick := by
  unfold tick
  split
  next nested => rfl
  next outermost => simpa using outermost

theorem processISCLoop_inTick
    (iscCallback : ∀ ctx now u, (env.iscCallback ctx now u).inTick = u.inTick) (now : Tick)
    (fuel : Nat) (remaining : List ISCDeferredRequest) (s : CreditScheduler) :
    (s.processISCLoop p env now fuel remaining).inTick = s.inTick := by
  induction fuel generalizing remaining s with
  | zero => rfl
  | succ fuel ih =>
      unfold processISCLoop
      split
      · rfl
      · have found := getOrCreateUser_inTick (p := p)
        simp only
        split
        · rw [ih, iscCallback]
          exact found _ _
        · rw [ih]
          exact found _ _

theorem processLoop_inTick (uid : UserID) (iterations : Nat) (completionTick : Tick)
    (s : CreditScheduler) :
    (s.processLoop p env uid iterations completionTick).2.inTick = s.inTick := by
  induction iterations generalizing completionTick s with
  | zero => rfl
  | succ iterations ih =>
      unfold processLoop
      simp only
      split
      · rw [ih, tick_inTick]
      · exact tick_inTick completionTick s

theorem Op.run_inTick
    (iscCallback : ∀ ctx now u, (env.iscCallback ctx now u).inTick = u.inTick) (op : Op)
    (s : CreditScheduler) : (op.run p env s).inTick = s.inTick := by
  cases op with
  | submitRequest getTick req => exact submitRequest_inTick getTick req s
  | submitISCDeferred => rfl
  | submitISCRequest getTick uid pages iscContext =>
      have ready := ensureActiveUser_inTick (p := p) getTick uid s
      cases iscContext with
      | none => rfl
      | some ctx =>
          simp only [Op.run, CreditScheduler.submitISCRequest]
          split
          · exact (iscCallback _ _ _).trans ready
          · exact ready
  | ensureActiveUser getTick uid => exact ensureActiveUser_inTick getTick uid s
  | tick now => exact tick_inTick now s
  | processISCRequests now => exact processISCLoop_inTick iscCallback now _ _ s
  | processEvent now => exact tick_inTick now s
  | processUntil getTick req completionTick =>
      exact (processLoop_inTick _ _ _ _).trans (submitRequest_inTick getTick req s)
  | useCredit uid used => exact getOrCreateUser_inTick uid s
  | useCreditISC uid used => exact getOrCreateUser_inTick uid s
  | resetStatValues => rfl

theorem RunsBy.inTick {ok : Env → Op → CreditScheduler → Prop} {s t : CreditScheduler}
    (run : RunsBy p ok s t) : t.inTick = s.inTick := by
  induction run with
  | refl => rfl
  | next env op _ _ _ _ _ earlier _ _ iscCallback =>
      exact (op.run_inTick iscCallback _).trans earlier

end InTick

end SimpleSSD.HIL.CreditScheduler
