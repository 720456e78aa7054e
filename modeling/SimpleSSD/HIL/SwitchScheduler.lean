import SimpleSSD.HIL.Scheduler.Conservation
import SimpleSSD.HIL.Scheduler.ProcessUntil
import SimpleSSD.ISC.Gate

/-!
# Switching the scheduler

`HIL::switchScheduler`.  The scheduler is named twice: `pScheduler` is the member that host
requests go through, the global `gScheduler` is what the gates of in-storage computing ask.
A switch deletes the old object with everything it holds.
-/

namespace SimpleSSD.HIL

open SimpleSSD.Foundation

inductive SchedulerType where
  | fcfs
  | credit
  | flin
  deriving DecidableEq, Repr

def FCFSScheduler.waiting (s : FCFSScheduler) : Multiset CreditScheduler.Item :=
  (s.users.map fun uid =>
    (((s.account uid).queue ++ (s.account uid).queueISC).map CreditScheduler.Item.request :
      Multiset CreditScheduler.Item)).sum

namespace Scheduler

def type : Scheduler → SchedulerType
  | .fcfs _ _ => .fcfs
  | .credit _ _ _ => .credit

/-- What has been handed to the scheduler and is not served yet. -/
def waiting : Scheduler → Multiset CreditScheduler.Item
  | .fcfs _ s => s.waiting
  | .credit _ _ s => s.waiting

def processEvent (storage : Storage) (now : Tick) : Scheduler → Scheduler
  | .fcfs latency s => .fcfs latency s
  | .credit p callbacks s => .credit p callbacks (s.processEvent p (callbacks.env storage) now)

def resetStatValues (getTick : Tick) : Scheduler → Scheduler
  | .fcfs latency s => .fcfs latency s.resetStatValues
  | .credit p callbacks s => .credit p callbacks (s.resetStatValues getTick)

/-- A gate does nothing when the object is not a credit scheduler. -/
def isc (storage : Storage) (call : ISC.Call) : Scheduler → Scheduler
  | .fcfs latency s => .fcfs latency s
  | .credit p callbacks s =>
      .credit p callbacks (call.run p (callbacks.env storage) ⟨s, [], []⟩).scheduler

end Scheduler

/-- The objects by address, `none` where none has been made or it has been deleted. -/
structure SchedulerHandles where
  objects : Nat → Option Scheduler
  next : Nat
  pScheduler : Nat
  gScheduler : Nat
  currentSchedulerType : SchedulerType
  fault : Option Fault

inductive SchedulerAction where
  | processUntil (storage : Storage) (getTick : Tick) (req : Request) (completionTick : Tick)
  | processEvent (storage : Storage) (now : Tick)
  | resetStatValues (getTick : Tick)
  | isc (storage : Storage) (call : ISC.Call)
  | switchScheduler (type : SchedulerType)

structure SchedulerParams where
  latency : Tick
  credit : CreditScheduler.Params
  callbacks : CreditScheduler.Callbacks

namespace SchedulerHandles

def call (pointer : Nat) (f : Scheduler → Scheduler) (s : SchedulerHandles) : SchedulerHandles :=
  match s.objects pointer with
  | none => { s with fault := some .undefined }
  | some object => { s with objects := Function.update s.objects pointer (some (f object)) }

/-- `new`, and the assignment to `pScheduler`. -/
def create (object : Scheduler) (s : SchedulerHandles) : SchedulerHandles :=
  { s with
    objects := Function.update s.objects s.next (some object)
    next := s.next + 1
    pScheduler := s.next
    currentSchedulerType := object.type }

variable (p : SchedulerParams)

def newFCFS : Scheduler := .fcfs p.latency FCFSScheduler.construct

def newCredit : Scheduler := .credit p.credit p.callbacks (CreditScheduler.construct p.credit)

/-- The constructor of HIL with one of the two configured schedulers. -/
def init (credit : Bool) : SchedulerHandles :=
  let s := create (if credit then newCredit p else newFCFS p) {
    objects := fun _ => none
    next := 0
    pScheduler := 0
    gScheduler := 0
    currentSchedulerType := .fcfs
    fault := none }
  { s with gScheduler := s.pScheduler }

def switchScheduler (type : SchedulerType) (s : SchedulerHandles) : SchedulerHandles :=
  if type = s.currentSchedulerType then s
  else
    let s := { s with objects := Function.update s.objects s.pScheduler none }
    match type with
    | .fcfs => s.create (newFCFS p)
    | .credit =>
        let s := s.create (newCredit p)
        { s with gScheduler := s.pScheduler }
    | .flin => { s with fault := some (.panic "Unknown scheduler type") }

def perform (s : SchedulerHandles) : SchedulerAction → SchedulerHandles
  | .processUntil storage getTick req completionTick =>
      s.call s.pScheduler fun object => (object.processUntil storage getTick req completionTick).2
  | .processEvent storage now => s.call s.pScheduler (Scheduler.processEvent storage now)
  | .resetStatValues getTick => s.call s.pScheduler (Scheduler.resetStatValues getTick)
  | .isc storage gate => s.call s.gScheduler (Scheduler.isc storage gate)
  | .switchScheduler type => s.switchScheduler p type

/-- Nothing follows a panic or the use of a deleted object. -/
def step (s : SchedulerHandles) (a : SchedulerAction) : Option SchedulerHandles :=
  if s.fault = none then some (s.perform p a) else none

/-- What the scheduler of HIL still has to dispatch or to call back. -/
def waiting (s : SchedulerHandles) : Multiset CreditScheduler.Item :=
  match s.objects s.pScheduler with
  | none => 0
  | some object => object.waiting

/-- Both names are of the same object, and it has not been deleted. -/
structure Agree (s : SchedulerHandles) : Prop where
  fault : s.fault = none
  same : s.gScheduler = s.pScheduler
  alive : ∃ object, s.objects s.pScheduler = some object

def Carries (s : SchedulerHandles) (a : SchedulerAction) : Prop :=
  match a with
  | .switchScheduler type => (s.switchScheduler p type).waiting = s.waiting
  | _ => True

/-- A switch names the current type, or a credit scheduler follows one that holds nothing. -/
def Sound (s : SchedulerHandles) (a : SchedulerAction) : Prop :=
  match a with
  | .switchScheduler type =>
      type = s.currentSchedulerType ∨ type = .credit ∧ s.waiting = 0
  | _ => True

/-- No object has an address that has not been given out. -/
def Fresh (s : SchedulerHandles) : Prop := ∀ pointer, s.next ≤ pointer → s.objects pointer = none

variable {p} {s : SchedulerHandles}

/-! ## One action -/

theorem call_fresh (fresh : s.Fresh) (pointer : Nat) (f : Scheduler → Scheduler) :
    (s.call pointer f).Fresh := by
  unfold call
  cases h : s.objects pointer with
  | none => exact fresh
  | some object =>
      intro other le
      have ne : other ≠ pointer := by
        rintro rfl
        rw [fresh other le] at h
        cases h
      exact (Function.update_of_ne ne _ _).trans (fresh other le)

theorem create_fresh (fresh : s.Fresh) (object : Scheduler) : (s.create object).Fresh := by
  intro other le
  have ne : other ≠ s.next := Nat.ne_of_gt le
  exact (Function.update_of_ne ne _ _).trans (fresh other (Nat.le_of_succ_le le))

theorem delete_fresh (fresh : s.Fresh) (pointer : Nat) :
    Fresh { s with objects := Function.update s.objects pointer none } := by
  intro other le
  by_cases same : other = pointer
  · subst same
    exact Function.update_self _ _ _
  · exact (Function.update_of_ne same _ _).trans (fresh other le)

theorem perform_fresh (fresh : s.Fresh) (a : SchedulerAction) : (s.perform p a).Fresh := by
  cases a with
  | switchScheduler type =>
      change (s.switchScheduler p type).Fresh
      unfold switchScheduler
      by_cases current : type = s.currentSchedulerType
      · rw [if_pos current]
        exact fresh
      · rw [if_neg current]
        have deleted := delete_fresh fresh s.pScheduler
        cases type with
        | fcfs => exact create_fresh deleted _
        | credit => exact create_fresh deleted (newCredit p)
        | flin => exact deleted
  | _ => exact call_fresh fresh _ _

theorem call_agree (agree : s.Agree) {pointer : Nat} (live : pointer = s.pScheduler)
    (f : Scheduler → Scheduler) : (s.call pointer f).Agree := by
  obtain ⟨object, alive⟩ := agree.alive
  subst live
  unfold call
  rw [alive]
  exact ⟨agree.fault, agree.same, f object, Function.update_self _ _ _⟩

theorem newCredit_waiting : (newCredit p).waiting = 0 := by
  have balance := (CreditScheduler.start_conserved p.credit [] fun _ => .standard).balance
  rw [add_zero] at balance
  exact Multiset.le_zero.1 ((Multiset.le_add_right _ _).trans_eq balance)

theorem waiting_of_object {object : Scheduler} (h : s.objects s.pScheduler = some object) :
    s.waiting = object.waiting := by
  rw [waiting, h]

theorem create_object (object : Scheduler) :
    (s.create object).objects (s.create object).pScheduler = some object :=
  Function.update_self (f := s.objects) _ _

/-- A switch keeps both names of one object and everything that waits exactly when it is
sound. -/
theorem sound_iff (fresh : s.Fresh) (agree : s.Agree) (type : SchedulerType) :
    s.Sound (.switchScheduler type) ↔
      s.Carries p (.switchScheduler type) ∧ (s.switchScheduler p type).Agree := by
  unfold Sound Carries switchScheduler
  by_cases current : type = s.currentSchedulerType
  · simp only [if_pos current]
    exact ⟨fun _ => ⟨trivial, agree⟩, fun _ => .inl current⟩
  · simp only [if_neg current]
    obtain ⟨object, alive⟩ := agree.alive
    have used : s.pScheduler ≠ s.next := by
      intro same
      rw [fresh _ same.ge] at alive
      cases alive
    cases type with
    | fcfs =>
        constructor
        · rintro (same | ⟨credit, -⟩)
          · exact absurd same current
          · cases credit
        · rintro ⟨-, agree'⟩
          exact absurd (agree.same.symm.trans agree'.same) used
    | credit =>
        have object := create_object (s := { s with
          objects := Function.update s.objects s.pScheduler none }) (newCredit p)
        have created := (waiting_of_object object).trans newCredit_waiting
        constructor
        · rintro (same | ⟨-, nothing⟩)
          · exact absurd same current
          · exact ⟨created.trans nothing.symm, agree.fault, rfl, _, object⟩
        · rintro ⟨carried, -⟩
          exact .inr ⟨rfl, carried.symm.trans created⟩
    | flin =>
        constructor
        · rintro (same | ⟨credit, -⟩)
          · exact absurd same current
          · cases credit
        · rintro ⟨-, agree'⟩
          cases agree'.fault

theorem sound_iff_step {s' : SchedulerHandles} (fresh : s.Fresh) (agree : s.Agree)
    (a : SchedulerAction) (hstep : s.step p a = some s') :
    s.Sound a ↔ s.Carries p a ∧ s'.Agree := by
  rw [step, if_pos agree.fault] at hstep
  cases hstep
  cases a with
  | switchScheduler type => exact sound_iff fresh agree type
  | isc storage gate =>
      exact ⟨fun _ => ⟨trivial, call_agree agree agree.same _⟩, fun _ => trivial⟩
  | _ => exact ⟨fun _ => ⟨trivial, call_agree agree rfl _⟩, fun _ => trivial⟩

/-! ## Runs -/

theorem init_agree (credit : Bool) : (init p credit).Agree :=
  ⟨rfl, rfl, _, create_object _⟩

theorem init_fresh (credit : Bool) : (init p credit).Fresh :=
  create_fresh (fun _ _ => rfl) _

/-- In every run both names are of the same live scheduler in every state, and no switch
loses what waits, if and only if every switch is sound. -/
theorem switch_iff (p : SchedulerParams) (credit : Bool) (actions : List SchedulerAction) :
    (EachAction (step p) (Carries p) (init p credit) actions ∧
      Throughout (step p) Agree (init p credit) actions) ↔
      EachAction (step p) Sound (init p credit) actions := by
  refine (good_iff_eachAction ?_ ?_ (init_fresh credit) actions).trans
    (and_iff_right (init_agree credit))
  · intro s a s' fresh hstep
    rw [step] at hstep
    obtain ⟨-, same⟩ := Option.ite_none_right_eq_some.1 hstep
    cases same
    exact perform_fresh fresh a
  · exact fun s a s' fresh agree hstep => sound_iff_step fresh agree a hstep

/-! ## A switch back and forth -/

def smallScheduler : SchedulerParams where
  latency := 0
  credit := .small
  callbacks := {
    resume := fun _ _ s => s
    iscCallback := fun _ _ s => s
    fuel := 0
    resume_completions := fun _ _ _ => rfl
    iscCallback_completions := fun _ _ _ => rfl }

/-- A switch between schedulers nobody has used, and a read through the new one. -/
theorem switch_iff_unused :
    (EachAction (step smallScheduler) (Carries smallScheduler) (init smallScheduler false)
        [.switchScheduler .credit, .processUntil Scheduler.slowStorage 0
            (.ofPages .read 1001 1) 0] ∧
      Throughout (step smallScheduler) Agree (init smallScheduler false)
        [.switchScheduler .credit,
          .processUntil Scheduler.slowStorage 0 (.ofPages .read 1001 1) 0]) ↔
      EachAction (step smallScheduler) Sound (init smallScheduler false)
        [.switchScheduler .credit,
          .processUntil Scheduler.slowStorage 0 (.ofPages .read 1001 1) 0] :=
  switch_iff smallScheduler false _

def transferWaits : List SchedulerAction :=
  [.processUntil Scheduler.slowStorage 0 (.ofPages .read 1001 1) 1000,
    .isc Scheduler.slowStorage (.iscGet 1000 1001 160 512 81920 7)]

theorem transferWaits_waiting :
    (transferWaits.foldl (perform smallScheduler) (init smallScheduler true)).waiting ≠ 0 := by
  decide +kernel

/-- The first switch away from the credit scheduler leaves the gates with a deleted object,
and what waits for credit is lost with it. -/
theorem switch_loses :
    ¬ Throughout (step smallScheduler) Agree (init smallScheduler true) [.switchScheduler .fcfs] ∧
      ¬ EachAction (step smallScheduler) (Carries smallScheduler) (init smallScheduler true)
        (transferWaits ++ [.switchScheduler .fcfs]) := by
  constructor
  · intro all
    have agree : Agree _ := all.2 _ rfl
    exact absurd agree.same (by decide)
  · intro each
    have carried := (((each _ rfl).2 _ rfl).2 _ rfl).1
    have nothing : waiting ((transferWaits.foldl (perform smallScheduler)
        (init smallScheduler true)).switchScheduler smallScheduler .fcfs) = 0 := by
      decide +kernel
    exact transferWaits_waiting (carried.symm.trans nothing)

end SchedulerHandles

end SimpleSSD.HIL
