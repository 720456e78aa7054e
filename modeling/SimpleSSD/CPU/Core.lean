import SimpleSSD.Util.Def
import SimpleSSD.Foundation.Fallible
import SimpleSSD.Foundation.Service

/-!
# Cores of the storage controller

A core runs the jobs submitted to it one after the other.  The one event of the core is due when
the job at the front of the queue finishes, and the function of that job may submit further jobs.
-/

namespace SimpleSSD.CPU

open Foundation

structure InstStat where
  branch : Nat
  load : Nat
  store : Nat
  arithmetic : Nat
  floatingPoint : Nat
  otherInsts : Nat
  latency : Nat
  deriving DecidableEq, Repr

/-- The latency is not added up. -/
def InstStat.add (self rhs : InstStat) : InstStat :=
  { self with
    branch := self.branch + rhs.branch
    load := self.load + rhs.load
    store := self.store + rhs.store
    arithmetic := self.arithmetic + rhs.arithmetic
    floatingPoint := self.floatingPoint + rhs.floatingPoint
    otherInsts := self.otherInsts + rhs.otherInsts }

structure CoreStat where
  instStat : InstStat
  busy : Nat
  deriving DecidableEq, Repr

/-- `φ` is what names a function together with its context. -/
structure JobEntry (φ : Type) where
  func : φ
  inst : InstStat
  submitAt : Tick
  delay : Nat
  deriving DecidableEq, Repr

/-- A core at a tick of the simulator.  `jobEvent` is when its event is due, the last three fields
record the jobs submitted, the functions run with their ticks, and what the event was due at
whenever it was scheduled. -/
structure Core (φ : Type) where
  tick : Tick
  busy : Bool
  jobEvent : Option Tick
  jobs : List (JobEntry φ)
  stat : CoreStat
  submitted : List (JobEntry φ)
  ran : List (JobEntry φ × Tick)
  held : List (Option Tick)
  deriving DecidableEq, Repr

variable {φ : Type}

namespace Core

def new (φ : Type) : Core φ where
  tick := 0
  busy := false
  jobEvent := none
  jobs := []
  stat := ⟨⟨0, 0, 0, 0, 0, 0, 0⟩, 0⟩
  submitted := []
  ran := []
  held := []

def schedule (c : Core φ) (tick : Tick) : Core φ :=
  { c with jobEvent := some tick, held := c.held ++ [c.jobEvent] }

/-- The front of an empty queue is not defined. -/
def handleJob (c : Core φ) : Except Fault (Core φ) :=
  match c.jobs with
  | [] => .error .undefined
  | iter :: _ =>
      let now := c.tick
      let diff := now - iter.submitAt
      -- the delay counts from the submission, and some of it may have passed
      let finishedAt :=
        if iter.delay ≤ diff then now + iter.inst.latency
        else now + iter.inst.latency + iter.delay - diff
      .ok ({ c with busy := true }.schedule finishedAt)

def submitJob (c : Core φ) (job : JobEntry φ) (delay : Nat) : Except Fault (Core φ) :=
  let job := { job with delay := delay, submitAt := c.tick }
  let c := { c with jobs := c.jobs ++ [job], submitted := c.submitted ++ [job] }
  if c.busy then .ok c else c.handleJob

/-- `inside` is what the function of the job submits while it runs. -/
def jobDone (c : Core φ) (inside : List (JobEntry φ × Nat)) : Except Fault (Core φ) :=
  match c.jobs with
  | [] => .error .undefined
  | iter :: _ => do
      let c := { c with ran := c.ran ++ [(iter, c.tick)] }
      -- the core is still busy, so these calls only queue their jobs
      let c ← inside.foldlM (fun c call => c.submitJob call.1 call.2) c
      let stat : CoreStat :=
        { busy := c.stat.busy + iter.inst.latency, instStat := c.stat.instStat.add iter.inst }
      let c := { c with stat := stat, jobs := c.jobs.tail, busy := false }
      if 0 < c.jobs.length then c.handleJob else .ok c

end Core

/-- What happens to a core: a call at some tick, or its event. -/
inductive Action (φ : Type) where
  | submit (tick : Tick) (job : JobEntry φ) (delay : Nat)
  | fire (inside : List (JobEntry φ × Nat))
  deriving DecidableEq, Repr

/-- The event is not due any more when it runs. -/
def act (c : Core φ) : Action φ → Except Fault (Core φ)
  | .submit tick job delay => { c with tick := tick }.submitJob job delay
  | .fire inside =>
      match c.jobEvent with
      | none => .error .undefined
      | some due => { c with tick := due, jobEvent := none }.jobDone inside

/-- The simulator does not go back in time, and not past an event that is due. -/
def Enabled (c : Core φ) : Action φ → Prop
  | .submit tick _ _ => c.tick ≤ tick ∧ ∀ due ∈ c.jobEvent, tick ≤ due
  | .fire _ => c.jobEvent.isSome = true

instance (c : Core φ) : (action : Action φ) → Decidable (Enabled c action)
  | .submit tick _ _ => inferInstanceAs (Decidable (c.tick ≤ tick ∧ ∀ due ∈ c.jobEvent, tick ≤ due))
  | .fire _ => inferInstanceAs (Decidable (c.jobEvent.isSome = true))

namespace Core

def entry (tick : Tick) (call : JobEntry φ × Nat) : JobEntry φ :=
  { call.1 with delay := call.2, submitAt := tick }

end Core

def JobEntry.readyAt (job : JobEntry φ) : Tick := job.submitAt + job.delay

def finishes (jobs : List (JobEntry φ)) : List Tick :=
  finishTimes JobEntry.readyAt (·.inst.latency) 0 jobs

def Core.freeAt (c : Core φ) : Tick :=
  lastFinish JobEntry.readyAt (·.inst.latency) 0 (c.ran.map Prod.fst)

/-- The jobs in the order of their submission: those that ran at the ticks at which they finish,
then those that wait, the first of which has the event. -/
structure Serves (c : Core φ) : Prop where
  ran : c.ran = (c.submitted.zip (finishes c.submitted)).take c.ran.length
  behind : ∀ k last next, c.ran[k]? = some last → c.ran[k + 1]? = some next →
    next.2 = max last.2 (next.1.submitAt + next.1.delay) + next.1.inst.latency
  waiting : c.jobs = c.submitted.drop c.ran.length
  event : c.jobEvent = (finishes c.submitted)[c.ran.length]?
  busy : c.busy = !c.jobs.isEmpty
  once : ∀ due ∈ c.held, due = none
  account : c.stat.busy = (c.ran.map fun job => job.1.inst.latency).sum

/-- The books of a core, also while its event is being handled. -/
structure Books (c : Core φ) : Prop where
  split : c.submitted = c.ran.map Prod.fst ++ c.jobs
  finished : c.ran.map Prod.snd = finishes (c.ran.map Prod.fst)
  free : c.freeAt ≤ c.tick
  arrived : ∀ job ∈ c.jobs, job.submitAt ≤ c.tick
  once : ∀ due ∈ c.held, due = none
  account : c.stat.busy = (c.ran.map fun job => job.1.inst.latency).sum

/-- Between two actions the first of the waiting jobs has the event. -/
structure Inv (c : Core φ) : Prop extends Books c where
  event : c.jobEvent =
    c.jobs.head?.map (finishBehind JobEntry.readyAt (·.inst.latency) c.freeAt)
  busy : c.busy = !c.jobs.isEmpty
  ahead : ∀ due ∈ c.jobEvent, c.tick ≤ due

theorem inv_new : Inv (Core.new φ) where
  split := rfl
  finished := rfl
  free := Nat.le_refl 0
  arrived := by simp [Core.new]
  once := by simp [Core.new]
  account := rfl
  event := rfl
  busy := rfl
  ahead := by simp [Core.new]

theorem Inv.serves {c : Core φ} (inv : Inv c) : Serves c where
  ran := by
    have pairs : c.ran = (c.ran.map Prod.fst).zip (c.ran.map Prod.snd) := by
      rw [List.zip_map', List.map_id']
    rw [inv.split, finishes, finishTimes_append, List.zip_append (by simp), List.take_left']
    · rw [inv.finished] at pairs
      exact pairs
    · simp
  behind := by
    intro k last next hlast hnext
    have before : (finishes (c.ran.map Prod.fst))[k]? = some last.2 := by
      rw [← inv.finished, List.getElem?_map, hlast, Option.map_some]
    have stands : (c.ran.map Prod.fst)[k + 1]? = some next.1 := by
      rw [List.getElem?_map, hnext, Option.map_some]
    have finish := finishTimes_succ before stands
    rw [← finishes, ← inv.finished, List.getElem?_map, hnext, Option.map_some] at finish
    exact Option.some.inj finish
  waiting := by rw [inv.split, List.drop_left' (by simp)]
  event := by
    rw [inv.event, inv.split, finishes, ← List.length_map (f := Prod.fst), finishTimes_getElem?]
    rfl
  busy := inv.busy
  once := inv.once
  account := inv.account

namespace Core

theorem finishedAt_eq {free now submitAt delay latency : Nat} (since : free ≤ now)
    (arrived : submitAt ≤ now) (soon : now = free ∨ now = submitAt) :
    (if delay ≤ now - submitAt then now + latency else now + latency + delay - (now - submitAt)) =
      max free (submitAt + delay) + latency := by
  split <;> omega

/-- A job handled as soon as the core is free, or as soon as it is submitted, finishes behind
the jobs before it. -/
theorem handleJob_eq {c : Core φ} {iter : JobEntry φ} {rest : List (JobEntry φ)}
    (front : c.jobs = iter :: rest) (free : c.freeAt ≤ c.tick) (arrived : iter.submitAt ≤ c.tick)
    (soon : c.tick = c.freeAt ∨ c.tick = iter.submitAt) :
    c.handleJob = .ok ({ c with busy := true }.schedule
      (finishBehind JobEntry.readyAt (·.inst.latency) c.freeAt iter)) := by
  simp only [handleJob, front, finishedAt_eq free arrived soon]
  rfl

theorem submitJob_foldlM {c : Core φ} (busy : c.busy = true) (calls : List (JobEntry φ × Nat)) :
    calls.foldlM (fun c call => c.submitJob call.1 call.2) c =
      .ok { c with
        jobs := c.jobs ++ calls.map (entry c.tick)
        submitted := c.submitted ++ calls.map (entry c.tick) } := by
  induction calls generalizing c with
  | nil => simp [pure, Except.pure]
  | cons call rest ih =>
      have first : c.submitJob call.1 call.2 = .ok { c with
          jobs := c.jobs ++ [entry c.tick call]
          submitted := c.submitted ++ [entry c.tick call] } := by
        simp [submitJob, busy, entry]
      have later := ih (c := { c with
        jobs := c.jobs ++ [entry c.tick call]
        submitted := c.submitted ++ [entry c.tick call] }) busy
      rw [List.foldlM_cons, first, ok_bind, later]
      simp

def afterJob (c : Core φ) (iter : JobEntry φ) (inside : List (JobEntry φ × Nat)) : Core φ :=
  { c with
    busy := false
    jobs := c.jobs.tail ++ inside.map (entry c.tick)
    stat := ⟨c.stat.instStat.add iter.inst, c.stat.busy + iter.inst.latency⟩
    submitted := c.submitted ++ inside.map (entry c.tick)
    ran := c.ran ++ [(iter, c.tick)] }

theorem jobDone_eq {c : Core φ} {iter : JobEntry φ} {rest : List (JobEntry φ)}
    (front : c.jobs = iter :: rest) (busy : c.busy = true) (inside : List (JobEntry φ × Nat)) :
    c.jobDone inside = if 0 < (c.afterJob iter inside).jobs.length then
      (c.afterJob iter inside).handleJob else .ok (c.afterJob iter inside) := by
  have calls := submitJob_foldlM (c := { c with ran := c.ran ++ [(iter, c.tick)] }) busy inside
  simp only [jobDone, front] at calls ⊢
  rw [calls, ok_bind]
  simp only [afterJob, front, List.cons_append, List.tail_cons]
  rfl

@[simp] theorem afterJob_freeAt {c : Core φ} {iter : JobEntry φ}
    {inside : List (JobEntry φ × Nat)} : (c.afterJob iter inside).freeAt =
      finishBehind JobEntry.readyAt (·.inst.latency) c.freeAt iter := by
  simp only [freeAt, afterJob, List.map_append, List.map_cons, List.map_nil]
  exact lastFinish_append

end Core

theorem Books.handleJob {c : Core φ} {iter : JobEntry φ} {rest : List (JobEntry φ)}
    (books : Books c) (idle : c.jobEvent = none) (front : c.jobs = iter :: rest)
    (soon : c.tick = c.freeAt ∨ c.tick = iter.submitAt) :
    ∃ c', c.handleJob = .ok c' ∧ Inv c' ∧ c'.submitted = c.submitted ∧ c'.ran = c.ran := by
  have arrived : iter.submitAt ≤ c.tick := books.arrived iter (by simp [front])
  refine ⟨_, Core.handleJob_eq front books.free arrived soon, ?_, rfl, rfl⟩
  refine { books with once := ?_, event := ?_, busy := ?_, ahead := ?_ }
  · simp only [Core.schedule, idle, List.mem_append, List.mem_singleton]
    rintro due (earlier | rfl)
    · exact books.once due earlier
    · rfl
  · simp only [Core.schedule, front, List.head?_cons, Option.map_some]
    rfl
  · simp [Core.schedule, front]
  · rintro due hdue
    obtain rfl := Option.some.inj hdue
    have later : c.tick ≤ max c.freeAt iter.readyAt := by
      rcases soon with soon | soon
      · exact soon.le.trans (Nat.le_max_left ..)
      · exact soon.le.trans ((Nat.le_add_right ..).trans (Nat.le_max_right ..))
    exact later.trans (Nat.le_add_right ..)

namespace Action

def isFire : Action φ → Bool
  | .submit .. => false
  | .fire _ => true

def arrivals : Core φ × Action φ → List (JobEntry φ)
  | (_, .submit tick job delay) => [Core.entry tick (job, delay)]
  | (c, .fire inside) => inside.map (Core.entry (c.jobEvent.getD c.tick))

end Action

structure Moves (c : Core φ) (action : Action φ) (c' : Core φ) : Prop where
  inv : Inv c'
  submitted : c'.submitted = c.submitted ++ Action.arrivals (c, action)
  ran : c'.ran.length = c.ran.length + if action.isFire then 1 else 0

theorem submit_eq_ok {c : Core φ} {tick : Tick} {job : JobEntry φ} {delay : Nat} (inv : Inv c)
    (enabled : Enabled c (.submit tick job delay)) :
    ∃ c', act c (.submit tick job delay) = .ok c' ∧ Moves c (.submit tick job delay) c' := by
  obtain ⟨later, before⟩ := enabled
  let queued : Core φ := { c with
    tick := tick
    jobs := c.jobs ++ [Core.entry tick (job, delay)]
    submitted := c.submitted ++ [Core.entry tick (job, delay)] }
  have called : act c (.submit tick job delay) =
      if queued.busy then .ok queued else queued.handleJob := rfl
  have books : Books queued := by
    refine { inv.toBooks with split := ?_, free := inv.free.trans later, arrived := ?_ }
    · simp [queued, inv.split]
    · simp only [queued, List.mem_append, List.mem_singleton]
      rintro waiting (earlier | rfl)
      · exact (inv.arrived waiting earlier).trans later
      · exact Nat.le_refl tick
  cases waits : c.jobs with
  | nil =>
      have idle : queued.jobEvent = none := by simp [queued, inv.event, waits]
      have rests : queued.busy = false := by simp [queued, inv.busy, waits]
      have front : queued.jobs = [Core.entry tick (job, delay)] := by simp [queued, waits]
      obtain ⟨c', handled, inv', submitted, ran⟩ := books.handleJob idle front (.inr rfl)
      refine ⟨c', ?_, inv', submitted, ?_⟩
      · rw [called, rests]
        exact handled
      · rw [ran]
        rfl
  | cons iter rest =>
      have works : queued.busy = true := by simp [queued, inv.busy, waits]
      refine ⟨queued, ?_, { books with event := ?_, busy := ?_, ahead := before }, rfl, rfl⟩
      · rw [called, if_pos works]
      · simp only [queued, inv.event, waits]
        rfl
      · simp [queued, inv.busy, waits]

theorem Inv.afterJob {c : Core φ} {iter : JobEntry φ} {rest : List (JobEntry φ)} {due : Tick}
    (inv : Inv c) (front : c.jobs = iter :: rest) (hdue : c.jobEvent = some due)
    (inside : List (JobEntry φ × Nat)) :
    Books ({ c with tick := due, jobEvent := none }.afterJob iter inside) := by
  have finish : due = finishBehind JobEntry.readyAt (·.inst.latency) c.freeAt iter := by
    rw [inv.event, front, List.head?_cons, Option.map_some] at hdue
    exact (Option.some.inj hdue).symm
  constructor
  case split => simp [Core.afterJob, inv.split, front]
  case finished =>
    simp only [Core.afterJob, List.map_append, List.map_cons, List.map_nil, finishes]
    rw [finishTimes_append, inv.finished, finish]
    rfl
  case free =>
    rw [Core.afterJob_freeAt]
    exact Nat.le_of_eq finish.symm
  case arrived =>
    simp only [Core.afterJob, front, List.tail_cons, List.mem_append, List.mem_map]
    rintro waiting (earlier | ⟨call, -, rfl⟩)
    · exact (inv.arrived waiting (by simp [front, earlier])).trans (inv.ahead due hdue)
    · exact Nat.le_refl due
  case once => exact inv.once
  case account => simp [Core.afterJob, inv.account]

theorem fire_eq_ok {c : Core φ} {inside : List (JobEntry φ × Nat)} (inv : Inv c)
    (enabled : Enabled c (.fire inside)) :
    ∃ c', act c (.fire inside) = .ok c' ∧ Moves c (.fire inside) c' := by
  obtain ⟨due, hdue⟩ := Option.isSome_iff_exists.1 enabled
  cases front : c.jobs with
  | nil => simp [inv.event, front] at hdue
  | cons iter rest =>
      have books := inv.afterJob front hdue inside
      have works : c.busy = true := by simp [inv.busy, front]
      have called := Core.jobDone_eq (c := { c with tick := due, jobEvent := none }) front works
        inside
      have goes : act c (.fire inside) =
          { c with tick := due, jobEvent := none }.jobDone inside := by
        simp only [act, hdue]
      rw [called] at goes
      generalize hdone : { c with tick := due, jobEvent := none }.afterJob iter inside = done at *
      have submitted : done.submitted = c.submitted ++ Action.arrivals (c, .fire inside) := by
        simp [← hdone, Core.afterJob, Action.arrivals, hdue]
      have ran : done.ran.length = c.ran.length + 1 := by simp [← hdone, Core.afterJob]
      cases waits : done.jobs with
      | nil =>
          refine ⟨done, ?_, { books with event := ?_, busy := ?_, ahead := ?_ }, submitted, ran⟩
          · rw [goes, waits]
            rfl
          · rw [waits, ← hdone]
            rfl
          · rw [waits, ← hdone]
            rfl
          · simp [← hdone, Core.afterJob]
      | cons next later =>
          have soon : done.tick = done.freeAt := by
            rw [← hdone, Core.afterJob_freeAt]
            simp only [inv.event, front, List.head?_cons, Option.map_some] at hdue
            exact (Option.some.inj hdue).symm
          obtain ⟨c', handled, inv', same, sameRan⟩ :=
            books.handleJob (by rw [← hdone]; rfl) waits (.inl soon)
          refine ⟨c', ?_, inv', same.trans submitted, ?_⟩
          · rw [goes, waits]
            exact handled
          · rw [sameRan]
            exact ran

theorem act_eq_ok {c : Core φ} {action : Action φ} (inv : Inv c) (enabled : Enabled c action) :
    ∃ c', act c action = .ok c' ∧ Moves c action c' := by
  cases action with
  | submit tick job delay => exact submit_eq_ok inv enabled
  | fire inside => exact fire_eq_ok inv enabled

theorem run_eq_ok {c : Core φ} {actions : List (Action φ)} (inv : Inv c)
    (possible : ∀ v ∈ visits act actions c, Enabled v.1 v.2) :
    ∃ c', actions.foldlM act c = .ok c' ∧ Inv c' ∧
      c'.submitted = c.submitted ++ (visits act actions c).flatMap Action.arrivals ∧
      c'.ran.length = c.ran.length + actions.countP Action.isFire := by
  induction actions generalizing c with
  | nil => exact ⟨c, rfl, inv, by simp [visits], by simp⟩
  | cons action rest ih =>
      have enabled : Enabled c action := possible (c, action) (by simp [visits])
      obtain ⟨mid, first, moves⟩ := act_eq_ok inv enabled
      simp only [visits, first, List.forall_mem_cons] at possible
      obtain ⟨c', later, inv', submitted, ran⟩ := ih moves.inv possible.2
      refine ⟨c', ?_, inv', ?_, ?_⟩
      · rw [List.foldlM_cons, first, ok_bind, later]
      · simp [submitted, moves.submitted, visits, first]
      · rw [ran, moves.ran, List.countP_cons]
        omega

theorem drain_eq_ok {c : Core φ} {n : Nat} (inv : Inv c) (waiting : c.jobs.length = n) :
    (∀ v ∈ visits act (.replicate n (.fire [])) c, Enabled v.1 v.2) ∧
      ∃ d, (List.replicate n (.fire [])).foldlM act c = .ok d ∧ Inv d ∧
        d.submitted = c.submitted ∧ d.jobs = [] := by
  induction n generalizing c with
  | zero =>
      refine ⟨by simp [visits], c, rfl, inv, rfl, ?_⟩
      exact List.eq_nil_of_length_eq_zero waiting
  | succ n ih =>
      have enabled : Enabled c (.fire []) := by
        cases front : c.jobs with
        | nil => simp [front] at waiting
        | cons iter rest => simp [Enabled, inv.event, front]
      obtain ⟨mid, first, moves⟩ := act_eq_ok inv enabled
      have same : mid.submitted = c.submitted := by simp [moves.submitted, Action.arrivals]
      have fewer : mid.jobs.length = n := by
        have before := congrArg List.length inv.split
        have after := congrArg List.length moves.inv.split
        have ran := moves.ran
        simp only [List.length_append, List.length_map, Action.isFire, if_true, same] at *
        omega
      obtain ⟨possible, d, later, inv', submitted, empty⟩ := ih moves.inv fewer
      simp only [List.replicate_succ, visits, first, List.forall_mem_cons]
      refine ⟨⟨enabled, possible⟩, d, ?_, inv', submitted.trans same, empty⟩
      rw [List.foldlM_cons, first, ok_bind, later]

/-- However the calls and the firings come, the core serves its jobs one behind the other, and
the firings that are still due run all the jobs that wait. -/
theorem jobs_finish_in_order {actions : List (Action φ)}
    (possible : ∀ v ∈ visits act actions (Core.new φ), Enabled v.1 v.2) :
    ∃ c, actions.foldlM act (Core.new φ) = .ok c ∧ Serves c ∧
      c.submitted = (visits act actions (Core.new φ)).flatMap Action.arrivals ∧
      c.ran.length = actions.countP Action.isFire ∧
      (∀ v ∈ visits act (.replicate c.jobs.length (.fire [])) c, Enabled v.1 v.2) ∧
      ∃ d, (List.replicate c.jobs.length (.fire [])).foldlM act c = .ok d ∧ Serves d ∧
        d.submitted = c.submitted ∧ d.jobs = [] := by
  obtain ⟨c, run, inv, submitted, ran⟩ := run_eq_ok inv_new possible
  obtain ⟨fires, d, drained, inv', same, empty⟩ := drain_eq_ok inv rfl
  refine ⟨c, run, inv.serves, ?_, ?_, fires, d, drained, inv'.serves, same, empty⟩
  · simp [submitted, Core.new]
  · simp [ran, Core.new]

private def reentrant : List (Action Nat) :=
  let inst : InstStat := ⟨1, 2, 1, 3, 0, 0, 70⟩
  [.submit 5 ⟨0, inst, 0, 0⟩ 10, .fire [(⟨1, inst, 0, 0⟩, 100)], .submit 100 ⟨2, inst, 0, 0⟩ 0,
    .fire [], .fire []]

/-- The first job waits for its delay, the second for its own, the third for the second. -/
theorem jobs_finish_in_order_reentrant :
    (∀ v ∈ visits act reentrant (Core.new Nat), Enabled v.1 v.2) ∧
      ∃ c, reentrant.foldlM act (Core.new Nat) = .ok c ∧ Serves c ∧
        c.ran.map Prod.snd = [85, 255, 325] ∧ c.held = [none, none, none] := by
  have possible : ∀ v ∈ visits act reentrant (Core.new Nat), Enabled v.1 v.2 := by decide
  obtain ⟨c, run, serves, -⟩ := jobs_finish_in_order possible
  refine ⟨possible, c, run, serves, ?_⟩
  have ends : (reentrant.foldlM act (Core.new Nat)).toOption.map
      (fun c => (c.ran.map Prod.snd, c.held)) = some ([85, 255, 325], [none, none, none]) := by
    decide
  rw [run] at ends
  simpa [Except.toOption] using ends

end SimpleSSD.CPU
