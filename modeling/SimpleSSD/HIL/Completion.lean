import SimpleSSD.Foundation.PriorityQueue
import SimpleSSD.Foundation.Transition
import SimpleSSD.Util.Def

/-!
# Completion of host requests

`HIL` keeps finished requests in a priority queue and calls them back when its
completion event fires.  `updateCompletion` moves the event whenever the tick it
scheduled last differs from the finishing tick of the queue's top; whether the
event is still pending is not looked at.  The simulator holds at most one tick
for the event, the last one it was scheduled at.
-/

namespace SimpleSSD.HIL

open SimpleSSD.Foundation

/-- Where `completion` stands: not running, at the test of its loop, or inside
the callback of the queue's top. -/
inductive Handler where
  | idle
  | loop
  | calling (req : Request)
  deriving DecidableEq, Repr

def Handler.isCalling : Handler → Bool
  | .calling _ => true
  | _ => false

abbrev CompletionQueue := PriorityQueue Request Request.finishedAt

/-- The lists `pushed` and `called` record what entered the queue and whose
callbacks were entered. -/
structure CompletionState where
  tick : Tick
  completionQueue : CompletionQueue
  lastScheduled : Tick
  completionEvent : Option Tick
  handler : Handler
  pushed : List Request
  called : List Request

namespace CompletionState

def start : CompletionState where
  tick := 0
  completionQueue := .empty
  lastScheduled := 0
  completionEvent := none
  handler := .idle
  pushed := []
  called := []

def updateCompletion (s : CompletionState) : CompletionState :=
  match s.completionQueue.top? with
  | none => s
  | some top =>
      if s.lastScheduled ≠ top.finishedAt then
        { s with
          lastScheduled := top.finishedAt
          completionEvent := some top.finishedAt }
      else s

def enqueue (s : CompletionState) (req : Request) : CompletionState :=
  { s with
    completionQueue := s.completionQueue.push req
    pushed := s.pushed ++ [req] }

def push (s : CompletionState) (req : Request) : CompletionState :=
  (s.enqueue req).updateCompletion

/-- One test of the loop of `completion`: the top's callback is entered when it
is due, and otherwise the handler ends. -/
def test (s : CompletionState) : CompletionState :=
  match s.completionQueue.top? with
  | none => updateCompletion { s with handler := .idle }
  | some req =>
      if req.finishedAt ≤ s.tick then
        { s with handler := .calling req, called := s.called ++ [req] }
      else updateCompletion { s with handler := .idle }

def afterPop (s : CompletionState) (rest : CompletionQueue) : CompletionState :=
  { s with completionQueue := rest, handler := .loop }

/-- Pushes come from commands and from inside callbacks; time passes between
handlers, up to the tick of the pending event. -/
inductive Action where
  | push (req : Request)
  | advance (tick : Tick)
  | fire
  | test
  | pop (rest : CompletionQueue)

def Action.IsPush : Action → Prop
  | .push _ => True
  | _ => False

def step (s : CompletionState) : Action → Option CompletionState
  | .push req =>
      if s.handler ≠ .loop ∧ s.tick ≤ req.finishedAt then some (s.push req) else none
  | .advance tick =>
      if s.handler = .idle ∧ s.tick ≤ tick ∧ ∀ due ∈ s.completionEvent, tick ≤ due then
        some { s with tick := tick }
      else none
  | .fire =>
      if s.handler = .idle ∧ s.completionEvent = some s.tick then
        some { s with completionEvent := none, handler := .loop }
      else none
  | .test => if s.handler = .loop then some s.test else none
  | .pop rest =>
      if s.handler.isCalling ∧ s.completionQueue.PopsTo rest then
        some (s.afterPop rest)
      else none

def waiting (s : CompletionState) : List Request :=
  match s.handler with
  | .calling _ => s.completionQueue.items.tail
  | _ => s.completionQueue.items

/-- Without further pushes the run can go on until everything pushed was called. -/
def Completes (s : CompletionState) : Prop :=
  ∃ more s', (∀ a ∈ more, ¬ a.IsPush) ∧ runActions step s more = some s' ∧
    s'.handler = .idle ∧ s'.called.Perm s.pushed

structure Delivers (s : CompletionState) : Prop where
  scheduled : s.handler = .idle → ∀ top, s.completionQueue.top? = some top →
    s.completionEvent = some top.finishedAt
  once : s.pushed.Perm (s.called ++ s.waiting)
  ordered : s.called.Pairwise fun earlier later => earlier.finishedAt ≤ later.finishedAt
  completes : s.Completes

/-- A push into the empty queue of an idle HIL finishes at another tick than the
one scheduled last. -/
def FreshTick (s : CompletionState) : Action → Prop
  | .push req => s.handler = .idle → s.completionQueue.items = [] →
      s.lastScheduled ≠ req.finishedAt
  | _ => True

/-! ## The invariant -/

structure Inv (s : CompletionState) : Prop where
  once : s.pushed.Perm (s.called ++ s.waiting)
  ordered : s.called.Pairwise fun earlier later => earlier.finishedAt ≤ later.finishedAt
  ahead : ∀ req ∈ s.completionQueue.items, s.tick ≤ req.finishedAt
  behind : ∀ req ∈ s.called, req.finishedAt ≤ s.tick
  event : s.completionEvent =
    if s.handler = .idle then s.completionQueue.top?.map Request.finishedAt else none
  remembered : s.handler = .idle → ∀ top, s.completionQueue.top? = some top →
    s.lastScheduled = top.finishedAt
  running : s.handler ≠ .idle → s.lastScheduled = s.tick
  calling : ∀ req, s.handler = .calling req →
    s.completionQueue.top? = some req ∧ req.finishedAt = s.tick

variable {s s' : CompletionState} {req top : Request} {a : Action}

theorem inv_start : Inv start where
  once := List.Perm.refl _
  ordered := List.Pairwise.nil
  ahead := by simp [start, PriorityQueue.empty]
  behind := by simp [start]
  event := rfl
  remembered := by simp [start, PriorityQueue.empty, PriorityQueue.top?]
  running h := absurd rfl h
  calling := by simp [start]

@[simp] theorem updateCompletion_pushed : s.updateCompletion.pushed = s.pushed := by
  unfold updateCompletion
  split
  · rfl
  · split <;> rfl

@[simp] theorem updateCompletion_handler :
    s.updateCompletion.handler = s.handler := by
  unfold updateCompletion
  split
  · rfl
  · split <;> rfl

@[simp] theorem updateCompletion_completionQueue :
    s.updateCompletion.completionQueue = s.completionQueue := by
  unfold updateCompletion
  split
  · rfl
  · split <;> rfl

theorem updateCompletion_of_empty (h : s.completionQueue.items = []) :
    s.updateCompletion = s := by
  simp [updateCompletion, PriorityQueue.top?_eq_none.2 h]

theorem updateCompletion_of_same (htop : s.completionQueue.top? = some top)
    (h : s.lastScheduled = top.finishedAt) : s.updateCompletion = s := by
  simp [updateCompletion, htop, h]

theorem updateCompletion_of_ne (htop : s.completionQueue.top? = some top)
    (h : s.lastScheduled ≠ top.finishedAt) :
    s.updateCompletion = { s with
      lastScheduled := top.finishedAt
      completionEvent := some top.finishedAt } := by
  simp [updateCompletion, htop, h]

private theorem once_of_push {pushed called waiting waiting' : List Request}
    (once : pushed.Perm (called ++ waiting)) (more : waiting'.Perm (req :: waiting)) :
    (pushed ++ [req]).Perm (called ++ waiting') := by
  calc
    (pushed ++ [req]).Perm (called ++ waiting ++ [req]) := once.append_right _
    _ = called ++ (waiting ++ [req]) := List.append_assoc _ _ _
    List.Perm _ (called ++ (req :: waiting)) :=
      (List.perm_append_singleton req waiting).append_left _
    List.Perm _ (called ++ waiting') := more.symm.append_left _

private theorem ahead_of_push (inv : s.Inv) (le : s.tick ≤ req.finishedAt) :
    ∀ other ∈ (s.completionQueue.push req).items, s.tick ≤ other.finishedAt := by
  intro other hmem
  rcases List.mem_cons.1 (PriorityQueue.push_perm.mem_iff.1 hmem) with rfl | hold
  · exact le
  · exact inv.ahead other hold

private theorem inv_push_moved (inv : s.Inv) (hidle : s.handler = .idle)
    (le : s.tick ≤ req.finishedAt) (htop : (s.completionQueue.push req).top? = some req)
    (ne : s.lastScheduled ≠ req.finishedAt) : (s.push req).Inv := by
  rw [push, updateCompletion_of_ne (s := s.enqueue req) htop ne]
  exact {
    once := once_of_push inv.once (by
      simpa only [waiting, enqueue, hidle] using PriorityQueue.push_perm)
    ordered := inv.ordered
    ahead := ahead_of_push inv le
    behind := inv.behind
    event := by simp [enqueue, hidle, htop]
    remembered := by
      intro _ top h
      cases htop.symm.trans h
      rfl
    running := fun h => absurd hidle h
    calling := by simp [enqueue, hidle] }

private theorem inv_push_below (inv : s.Inv) (le : s.tick ≤ req.finishedAt)
    (hloop : s.handler ≠ .loop) (htop : s.completionQueue.top? = some top)
    (same : s.lastScheduled = top.finishedAt) (below : top.finishedAt ≤ req.finishedAt) :
    (s.push req).Inv := by
  obtain ⟨htop', htail⟩ := PriorityQueue.top?_push_of_le htop below
  rw [push, updateCompletion_of_same (s := s.enqueue req) htop' same]
  exact {
    once := by
      refine once_of_push inv.once ?_
      cases hhandler : s.handler with
      | idle => simpa only [waiting, enqueue, hhandler] using PriorityQueue.push_perm
      | loop => exact absurd hhandler hloop
      | calling cur => simpa only [waiting, enqueue, hhandler] using htail
    ordered := inv.ordered
    ahead := ahead_of_push inv le
    behind := inv.behind
    event := by
      have := inv.event
      simpa only [enqueue, htop, htop'] using this
    remembered := by
      intro _ other h
      cases htop'.symm.trans h
      exact same
    running := inv.running
    calling := by
      intro cur h
      have := inv.calling cur h
      rw [htop] at this
      exact ⟨htop'.trans this.1, this.2⟩ }

theorem inv_push (inv : s.Inv) (hloop : s.handler ≠ .loop) (le : s.tick ≤ req.finishedAt)
    (fresh : s.FreshTick (.push req)) : (s.push req).Inv := by
  cases htop : s.completionQueue.top? with
  | none =>
      have hempty := PriorityQueue.top?_eq_none.1 htop
      have hidle : s.handler = .idle := by
        cases hhandler : s.handler with
        | idle => rfl
        | loop => exact absurd hhandler hloop
        | calling cur =>
            have := (inv.calling cur hhandler).1
            rw [htop] at this
            cases this
      exact inv_push_moved inv hidle le (PriorityQueue.top?_push_empty hempty)
        (fresh hidle hempty)
  | some top =>
      have same : s.lastScheduled = top.finishedAt := by
        cases hhandler : s.handler with
        | idle => exact inv.remembered hhandler top htop
        | loop => exact absurd hhandler hloop
        | calling cur =>
            obtain ⟨hcur, due⟩ := inv.calling cur hhandler
            obtain rfl : top = cur := by simpa [htop] using hcur
            rw [inv.running (by simp [hhandler]), due]
      by_cases before : req.finishedAt < top.finishedAt
      · have hidle : s.handler = .idle := by
          cases hhandler : s.handler with
          | idle => rfl
          | loop => exact absurd hhandler hloop
          | calling cur =>
              rw [inv.running (by simp [hhandler])] at same
              exact absurd (le.trans_lt before) same.ge.not_gt
        exact inv_push_moved inv hidle le (PriorityQueue.top?_push_of_lt htop before)
          (same ▸ before.ne')
      · exact inv_push_below inv le hloop htop same (not_lt.1 before)

theorem inv_advance {tick : Tick} (inv : s.Inv) (hidle : s.handler = .idle)
    (le : s.tick ≤ tick) (due : ∀ due ∈ s.completionEvent, tick ≤ due) :
    Inv { s with tick := tick } where
  once := inv.once
  ordered := inv.ordered
  ahead := by
    intro req hmem
    cases htop : s.completionQueue.top? with
    | none =>
        rw [PriorityQueue.top?_eq_none.1 htop] at hmem
        cases hmem
    | some top =>
        have hevent : s.completionEvent = some top.finishedAt := by
          rw [inv.event, if_pos hidle, htop]
          rfl
        exact (due _ hevent).trans (s.completionQueue.top_le top htop req hmem)
  behind req hmem := (inv.behind req hmem).trans le
  event := inv.event
  remembered := inv.remembered
  running h := absurd hidle h
  calling req h := by
    change s.handler = _ at h
    rw [hidle] at h
    cases h

theorem inv_fire (inv : s.Inv) (hidle : s.handler = .idle)
    (hevent : s.completionEvent = some s.tick) :
    Inv { s with completionEvent := none, handler := .loop } where
  once := by
    have := inv.once
    rwa [waiting, hidle] at this
  ordered := inv.ordered
  ahead := inv.ahead
  behind := inv.behind
  event := by simp
  remembered := by simp
  running := by
    have := inv.event
    rw [hevent, if_pos hidle] at this
    obtain ⟨top, htop, hfin⟩ := Option.map_eq_some_iff.1 this.symm
    intro _
    exact (inv.remembered hidle top htop).trans hfin
  calling := by simp

theorem inv_test_due (inv : s.Inv) (hloop : s.handler = .loop)
    (htop : s.completionQueue.top? = some req) (due : req.finishedAt ≤ s.tick) :
    Inv { s with handler := .calling req, called := s.called ++ [req] } where
  once := by
    have := inv.once
    rw [waiting, hloop] at this
    change s.pushed.Perm (s.called ++ [req] ++ s.completionQueue.items.tail)
    rw [List.append_assoc]
    change s.pushed.Perm (s.called ++ (req :: s.completionQueue.items.tail))
    rwa [← PriorityQueue.items_eq_cons htop]
  ordered := by
    have now : req.finishedAt = s.tick :=
      due.antisymm (inv.ahead req (List.mem_of_mem_head? htop))
    refine List.pairwise_append.2 ⟨inv.ordered, List.pairwise_singleton _ _, ?_⟩
    intro earlier hmem later hlater
    rw [List.mem_singleton.1 hlater, now]
    exact inv.behind earlier hmem
  ahead := inv.ahead
  behind := by
    intro other hmem
    rcases List.mem_append.1 hmem with hold | hnew
    · exact inv.behind other hold
    · rw [List.mem_singleton.1 hnew]
      exact due
  event := by
    have := inv.event
    simpa [hloop] using this
  remembered := by simp
  running := by
    intro _
    exact inv.running (by simp [hloop])
  calling := by
    intro cur h
    cases h
    exact ⟨htop, due.antisymm (inv.ahead req (List.mem_of_mem_head? htop))⟩

theorem inv_test_exit (inv : s.Inv) (hloop : s.handler = .loop)
    (later : ∀ req, s.completionQueue.top? = some req → s.tick < req.finishedAt) :
    (updateCompletion { s with handler := .idle }).Inv := by
  have once : s.pushed.Perm (s.called ++ s.completionQueue.items) := by
    have := inv.once
    rwa [waiting, hloop] at this
  have hevent : s.completionEvent = none := by
    rw [inv.event, if_neg (by simp [hloop])]
  cases htop : s.completionQueue.top? with
  | none =>
      rw [updateCompletion_of_empty (s := { s with handler := .idle })
        (PriorityQueue.top?_eq_none.1 htop)]
      exact {
        once := once
        ordered := inv.ordered
        ahead := inv.ahead
        behind := inv.behind
        event := by simp [hevent, htop]
        remembered := by simp [htop]
        running := by simp
        calling := by simp }
  | some top =>
      have ne : s.lastScheduled ≠ top.finishedAt := by
        rw [inv.running (by simp [hloop])]
        exact (later top htop).ne
      rw [updateCompletion_of_ne (s := { s with handler := .idle }) htop ne]
      exact {
        once := once
        ordered := inv.ordered
        ahead := inv.ahead
        behind := inv.behind
        event := by simp [htop]
        remembered := by
          intro _ other h
          cases htop.symm.trans h
          rfl
        running := by simp
        calling := by simp }

theorem test_of_due (htop : s.completionQueue.top? = some req)
    (due : req.finishedAt ≤ s.tick) :
    s.test = { s with handler := .calling req, called := s.called ++ [req] } := by
  simp [test, htop, due]

theorem test_of_later (later : ∀ req, s.completionQueue.top? = some req →
    s.tick < req.finishedAt) :
    s.test = updateCompletion { s with handler := .idle } := by
  unfold test
  split
  next => rfl
  next req htop => exact if_neg (not_le.2 (later req htop))

theorem inv_test (inv : s.Inv) (hloop : s.handler = .loop) : s.test.Inv := by
  by_cases due : ∃ req, s.completionQueue.top? = some req ∧ req.finishedAt ≤ s.tick
  · obtain ⟨req, htop, hdue⟩ := due
    rw [test_of_due htop hdue]
    exact inv_test_due inv hloop htop hdue
  · have later (req : Request) (htop : s.completionQueue.top? = some req) :
        s.tick < req.finishedAt := not_le.1 fun hdue => due ⟨req, htop, hdue⟩
    rw [test_of_later later]
    exact inv_test_exit inv hloop later

theorem inv_pop {rest : CompletionQueue} (inv : s.Inv) (hcalling : s.handler.isCalling)
    (pops : s.completionQueue.PopsTo rest) : (s.afterPop rest).Inv := by
  obtain ⟨cur, hcur⟩ : ∃ cur, s.handler = .calling cur := by
    cases hhandler : s.handler with
    | calling cur => exact ⟨cur, rfl⟩
    | idle => simp [Handler.isCalling, hhandler] at hcalling
    | loop => simp [Handler.isCalling, hhandler] at hcalling
  exact {
    once := by
      have := inv.once
      rw [waiting, hcur] at this
      exact this.trans (pops.symm.append_left _)
    ordered := inv.ordered
    ahead := fun req hmem => inv.ahead req (List.mem_of_mem_tail (pops.mem_iff.1 hmem))
    behind := inv.behind
    event := by
      have := inv.event
      simpa [afterPop, hcur] using this
    remembered := by simp [afterPop]
    running := fun _ => inv.running (by simp [hcur])
    calling := by simp [afterPop] }

theorem inv_step (inv : s.Inv) (fresh : s.FreshTick a) (hstep : step s a = some s') :
    s'.Inv := by
  cases a with
  | push req =>
      obtain ⟨⟨hloop, le⟩, h⟩ := Option.ite_none_right_eq_some.1 hstep
      cases h
      exact inv_push inv hloop le fresh
  | advance tick =>
      obtain ⟨⟨hidle, le, due⟩, h⟩ := Option.ite_none_right_eq_some.1 hstep
      cases h
      exact inv_advance inv hidle le due
  | fire =>
      obtain ⟨⟨hidle, hevent⟩, h⟩ := Option.ite_none_right_eq_some.1 hstep
      cases h
      exact inv_fire inv hidle hevent
  | test =>
      obtain ⟨hloop, h⟩ := Option.ite_none_right_eq_some.1 hstep
      cases h
      exact inv_test inv hloop
  | pop rest =>
      obtain ⟨⟨hcalling, pops⟩, h⟩ := Option.ite_none_right_eq_some.1 hstep
      cases h
      exact inv_pop inv hcalling pops

/-! ## Completion of what was pushed -/

theorem Completes.of_step (hpush : ¬ a.IsPush) (hstep : step s a = some s')
    (same : s'.pushed = s.pushed) (rest : s'.Completes) : s.Completes := by
  obtain ⟨more, final, quiet, hrun, hidle, perm⟩ := rest
  refine ⟨a :: more, final, ?_, ?_, hidle, same ▸ perm⟩
  · intro b hmem
    rcases List.mem_cons.1 hmem with rfl | hmore
    · exact hpush
    · exact quiet b hmore
  · change (step s a).bind _ = _
    rw [hstep]
    exact hrun

theorem completes_of_empty (inv : s.Inv) (hidle : s.handler = .idle)
    (hempty : s.completionQueue.items = []) : s.Completes := by
  have once := inv.once
  rw [waiting, hidle, hempty, List.append_nil] at once
  exact ⟨[], s, by simp, rfl, hidle, once.symm⟩

def CompletesWithin (n : Nat) : Prop :=
  ∀ s : CompletionState, s.Inv → s.handler = .loop →
    s.completionQueue.items.length ≤ n → s.Completes

theorem completes_of_due {n : Nat} (fewer : CompletesWithin n) (inv : s.Inv)
    (hloop : s.handler = .loop) (htop : s.completionQueue.top? = some top)
    (due : top.finishedAt ≤ s.tick) (hn : s.completionQueue.items.length ≤ n + 1) :
    s.Completes := by
  obtain ⟨rest, pops⟩ := s.completionQueue.exists_popsTo
  have invTest := inv_test inv hloop
  have htest := test_of_due htop due
  have hcalling : s.test.handler.isCalling := by rw [htest]; rfl
  have hpops : s.test.completionQueue.PopsTo rest := by rwa [htest]
  refine Completes.of_step (a := .test) id (if_pos hloop) (by rw [htest]) ?_
  refine Completes.of_step (a := .pop rest) id (if_pos ⟨hcalling, hpops⟩) rfl ?_
  refine fewer _ (inv_pop invTest hcalling hpops) rfl ?_
  change rest.items.length ≤ n
  rw [pops.length_eq, List.length_tail]
  omega

theorem completes_of_idle {n : Nat} (fewer : CompletesWithin n) (inv : s.Inv)
    (hidle : s.handler = .idle) (hn : s.completionQueue.items.length ≤ n + 1) :
    s.Completes := by
  cases htop : s.completionQueue.top? with
  | none => exact completes_of_empty inv hidle (PriorityQueue.top?_eq_none.1 htop)
  | some top =>
      have hevent : s.completionEvent = some top.finishedAt := by
        rw [inv.event, if_pos hidle, htop]
        rfl
      have ahead := inv.ahead top (List.mem_of_mem_head? htop)
      have hdue : ∀ due ∈ s.completionEvent, top.finishedAt ≤ due := by
        simp [hevent]
      have invLater := inv_advance inv hidle ahead hdue
      refine Completes.of_step (a := .advance top.finishedAt) id
        (if_pos ⟨hidle, ahead, hdue⟩) rfl ?_
      refine Completes.of_step (a := .fire) id (if_pos ⟨hidle, hevent⟩) rfl ?_
      exact completes_of_due fewer (inv_fire invLater hidle hevent) rfl htop le_rfl hn

theorem completesWithin (n : Nat) : CompletesWithin n := by
  induction n with
  | zero =>
      intro s inv hloop hn
      have hempty := List.length_eq_zero_iff.1 (Nat.le_zero.1 hn)
      have htest := test_of_later (s := s) (by simp [PriorityQueue.top?_eq_none.2 hempty])
      refine Completes.of_step (a := .test) id (if_pos hloop) (by simp [htest]) ?_
      exact completes_of_empty (inv_test inv hloop) (by simp [htest])
        (by simpa [htest] using hempty)
  | succ n ih =>
      intro s inv hloop hn
      by_cases due : ∃ req, s.completionQueue.top? = some req ∧ req.finishedAt ≤ s.tick
      · obtain ⟨req, htop, hdue⟩ := due
        exact completes_of_due ih inv hloop htop hdue hn
      · have htest := test_of_later (s := s) fun req htop =>
          not_le.1 fun hdue => due ⟨req, htop, hdue⟩
        refine Completes.of_step (a := .test) id (if_pos hloop) (by simp [htest]) ?_
        exact completes_of_idle ih (inv_test inv hloop) (by simp [htest])
          (by simpa [htest] using hn)

theorem Inv.completes (inv : s.Inv) : s.Completes := by
  cases hhandler : s.handler with
  | idle => exact completes_of_idle (completesWithin _) inv hhandler (Nat.le_succ _)
  | loop => exact completesWithin _ s inv hhandler le_rfl
  | calling req =>
      have hcalling : s.handler.isCalling := by rw [hhandler]; rfl
      obtain ⟨rest, pops⟩ := s.completionQueue.exists_popsTo
      refine Completes.of_step (a := .pop rest) id (if_pos ⟨hcalling, pops⟩) rfl ?_
      exact completesWithin _ _ (inv_pop inv hcalling pops) rfl le_rfl

theorem Inv.delivers (inv : s.Inv) : s.Delivers where
  scheduled := by
    intro hidle top htop
    rw [inv.event, if_pos hidle, htop]
    rfl
  once := inv.once
  ordered := inv.ordered
  completes := inv.completes

theorem freshTick_of_delivers (inv : s.Inv) (hstep : step s a = some s')
    (delivers : s'.Delivers) : s.FreshTick a := by
  cases a with
  | push req =>
      obtain ⟨-, h⟩ := Option.ite_none_right_eq_some.1 hstep
      cases h
      intro hidle hempty same
      have htop : (s.enqueue req).completionQueue.top? = some req :=
        PriorityQueue.top?_push_empty hempty
      have kept : s.push req = s.enqueue req :=
        updateCompletion_of_same (s := s.enqueue req) htop same
      rw [kept] at delivers
      have hevent : s.completionEvent = none := by
        rw [inv.event, if_pos hidle, PriorityQueue.top?_eq_none.2 hempty]
        rfl
      cases hevent.symm.trans (delivers.scheduled hidle req htop)
  | _ => trivial

/-- Along any run the event is scheduled at the top of the queue, no completion
is lost or made twice, and they come in order of their ticks, if and only if no
request is pushed into an empty idle queue with the tick scheduled last. -/
theorem delivers_iff (actions : List Action) :
    Throughout step Delivers start actions ↔ EachAction step FreshTick start actions :=
  throughout_iff_eachAction (fun _ _ _ inv fresh hstep => inv_step inv fresh hstep)
    (fun _ inv => inv.delivers) (fun _ _ _ inv hstep => freshTick_of_delivers inv hstep)
    inv_start actions

def readUntilFive : Request :=
  { Request.ofPages .read 1 1 with finishedAt := 5 }

/-- After the first read was called back at tick 5, a second one that finishes at
the same tick waits without an event. -/
theorem second_read_unscheduled :
    ¬ Throughout step Delivers start
      [.push readUntilFive, .advance 5, .fire, .test, .pop .empty, .test,
        .push readUntilFive] := by
  intro all
  have final := all.2 _ rfl |>.2 _ rfl |>.2 _ rfl |>.2 _ rfl |>.2 _ rfl |>.2 _ rfl |>.2 _ rfl
  cases final.scheduled rfl _ rfl

end CompletionState

end SimpleSSD.HIL
