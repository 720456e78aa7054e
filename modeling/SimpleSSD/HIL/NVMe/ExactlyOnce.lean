import SimpleSSD.HIL.NVMe.Deletion

/-!
# Commands complete exactly once

As long as Abort finds nothing in `lSQFIFO` and the loop of Delete I/O Submission
Queue erases just the commands that are purged, a ticket is either completed
once or still on its way, and never both.
-/

namespace SimpleSSD.HIL.NVMe

open SimpleSSD.Foundation

namespace Controller

def Action.IsProgress : Action → Prop
  | .fetchDone _ _ | .handleRequest _ _ _ | .complete _ _ => True
  | _ => False

def Finishes (p : Arbitration) (c : Controller) : Prop :=
  ∃ more c', (∀ a ∈ more, a.IsProgress) ∧ runActions (step p) c more = some c' ∧
    c'.fault = none ∧ c'.completed.Perm (List.range c.fetched)

structure ExactlyOnce (p : Arbitration) (c : Controller) : Prop where
  fault : c.fault = none
  accounted : (c.completed ++ (c.reading ++ c.staged ++ c.inSubsystem)).Perm
    (List.range c.fetched)
  apart : ∀ t ∈ c.aborted, t ∉ c.executed
  finishes : c.Finishes p

/-- The condition on an action: queue ids are inside the table, Abort names no
entry of `lSQFIFO`, and Delete I/O Submission Queue comes when no fetch from the
queue is under way and the entries of `lSQFIFO` its loop meets are staged. -/
def Careful (c : Controller) : Action → Prop
  | .doorbell qid _ => qid < c.ppSQueue.length
  | .abort sqid cid => ∀ req ∈ c.lSQFIFO, ¬ (req.sqID = sqid ∧ req.entry.commandID = cid)
  | .deleteSQueue sqid => sqid < c.ppSQueue.length ∧
      (0 < sqid → (c.queue? sqid).isSome →
        (∀ f ∈ c.fetching, f.sqID ≠ sqid) ∧ MeetsStaged sqid c.lSQByUser.all c.lSQFIFO)
  | _ => True

variable {p : Arbitration} {c c' : Controller} {req : SQEntryWrapper} {a : Action}

instance (c : Controller) : (a : Action) → Decidable (c.Careful a)
  | .doorbell _ _ => inferInstanceAs (Decidable (_ < _))
  | .abort _ _ => inferInstanceAs (Decidable (∀ req ∈ c.lSQFIFO, ¬ _))
  | .deleteSQueue _ => inferInstanceAs (Decidable (_ ∧ (_ → _ → _ ∧ MeetsStaged _ _ _)))
  | .collect _ | .fetchDone _ _ | .queueFunction _ | .handleRequest _ _ _ | .complete _ _
  | .advance _ => isTrue trivial

/-! ## Every step -/

theorem step_eq (inv : c.Inv) (a : Action) :
    step p c a =
      match a with
      | .doorbell qid tail => some (c.ringSQTailDoorbell qid tail)
      | .collect fuel => c.collectSQueue p fuel
      | .fetchDone fetch entry =>
          if fetch ∈ c.fetching then some (c.doRead fetch entry) else none
      | .queueFunction now => some (c.queueFunction now)
      | .handleRequest now canServe lbaSize => some (c.handleRequest p now canServe lbaSize)
      | .complete req status =>
          if req ∈ c.executing then some (c.complete req status) else none
      | .abort sqid cid => some (c.abort sqid cid).2
      | .deleteSQueue sqid => some (c.deleteSQueue sqid).2
      | .advance tick => if c.tick ≤ tick then some { c with tick := tick } else none :=
  if_neg fun h => h inv.fault

theorem inv_delete {sqid : Nat} (inv : c.Inv) (careful : c.Careful (.deleteSQueue sqid)) :
    (c.deleteSQueue sqid).2.Inv := by
  obtain ⟨lt, spares⟩ := careful
  rcases Nat.eq_zero_or_pos sqid with rfl | pos
  · unfold deleteSQueue
    split
    next h => exact absurd (List.getElem?_eq_none_iff.1 h) (not_le.2 lt)
    next => exact inv
    next => exact inv
  · cases hq : c.queue? sqid with
    | none =>
        unfold deleteSQueue
        split
        next h => exact absurd (List.getElem?_eq_none_iff.1 h) (not_le.2 lt)
        next => exact inv
        next q h => simp [queue?, h] at hq
    | some q =>
        obtain ⟨idle, meets⟩ := spares pos (by rw [hq]; rfl)
        exact (deleteSQueue_deleted inv pos hq).inv inv pos idle meets

theorem inv_step (inv : c.Inv) (careful : c.Careful a) (hstep : step p c a = some c') :
    c'.Inv := by
  rw [step_eq inv] at hstep
  cases a with
  | doorbell qid tail =>
      cases hstep
      exact inv_doorbell inv careful
  | collect fuel => exact (collectSQueue_checks inv.admin hstep).inv inv
  | fetchDone fetch entry =>
      obtain ⟨hmem, h⟩ := Option.ite_none_right_eq_some.1 hstep
      cases h
      exact inv_doRead inv hmem
  | queueFunction now =>
      cases hstep
      exact { inv with }
  | handleRequest now canServe lbaSize =>
      cases hstep
      exact inv_handleRequest inv
  | complete req status =>
      obtain ⟨hmem, h⟩ := Option.ite_none_right_eq_some.1 hstep
      cases h
      exact inv_complete inv hmem
  | abort sqid cid =>
      cases hstep
      rw [abort_of_absent careful]
      exact inv
  | deleteSQueue sqid =>
      cases hstep
      exact inv_delete inv careful
  | advance tick =>
      obtain ⟨-, h⟩ := Option.ite_none_right_eq_some.1 hstep
      cases h
      exact { inv with }

theorem careful_of_exactlyOnce (inv : c.Inv) (hstep : step p c a = some c')
    (once : c'.ExactlyOnce p) : c.Careful a := by
  rw [step_eq inv] at hstep
  cases a with
  | doorbell qid tail =>
      cases hstep
      by_contra out
      have := once.fault
      simp [ringSQTailDoorbell, List.getElem?_eq_none (not_lt.1 out), fail] at this
  | abort sqid cid =>
      cases hstep
      exact absent_of_accounted inv once.fault once.accounted
  | deleteSQueue sqid =>
      cases hstep
      refine ⟨?_, fun pos hq => ?_⟩
      · by_contra out
        have := once.fault
        simp [deleteSQueue, List.getElem?_eq_none (not_lt.1 out), fail] at this
      · obtain ⟨q, hq⟩ := Option.isSome_iff_exists.1 hq
        exact (deleteSQueue_deleted inv pos hq).meets inv once.fault once.accounted
  | _ => trivial

/-! ## Completion of what was fetched -/

theorem Finishes.of_step (progress : a.IsProgress) (hstep : step p c a = some c')
    (same : c'.fetched = c.fetched) (rest : c'.Finishes p) : c.Finishes p := by
  obtain ⟨more, final, all, hrun, hfault, perm⟩ := rest
  refine ⟨a :: more, final, ?_, ?_, hfault, same ▸ perm⟩
  · intro b hmem
    rcases List.mem_cons.1 hmem with rfl | hmore
    · exact progress
    · exact all b hmore
  · change (step p c a).bind _ = _
    rw [hstep]
    exact hrun

def remaining (c : Controller) : Nat :=
  3 * c.fetching.length + 2 * c.lSQByUser.all.length + c.executing.length

theorem remaining_doRead {fetch : Fetch} (inv : c.Inv) (hf : fetch ∈ c.fetching)
    (entry : SQEntry) :
    (c.doRead fetch entry).remaining + 1 = c.remaining ∧
      (c.doRead fetch entry).fetched = c.fetched := by
  obtain ⟨live, object⟩ := inv.objects fetch hf
  obtain ⟨q, hq⟩ := Option.isSome_iff_exists.1 object
  simp only [doRead, hq, live, Bool.false_eq_true, if_false, remaining,
    QueueMap.all_push.length_eq, List.length_cons, List.length_erase_of_mem hf, and_true]
  have := List.length_pos_of_mem hf
  omega

theorem remaining_complete (inv : c.Inv) (hmem : req ∈ c.executing) (status : Nat) :
    (c.complete req status).remaining + 1 = c.remaining ∧
      (c.complete req status).fetched = c.fetched := by
  have cq : { c with executing := c.executing.erase req }.HasCQ
      (CQEntryWrapper.respond req req.sqHead status).cqID := inv.executing_cq req hmem
  unfold complete
  rw [submit_of_hasCQ cq]
  simp only [remaining, List.length_erase_of_mem hmem, and_true]
  have := List.length_pos_of_mem hmem
  omega

theorem pickUser_some {lbaSize : Nat → Nat} {users : List UserID}
    (h : ∃ uid ∈ users, c.lSQByUser.get uid ≠ []) :
    (pickUser (fun _ _ => true) lbaSize users c).1 ≠ none := by
  induction users with
  | nil =>
      obtain ⟨uid, hmem, -⟩ := h
      cases hmem
  | cons uid rest ih =>
      unfold pickUser
      split
      next hempty =>
        refine ih ?_
        obtain ⟨other, hmem, nonempty⟩ := h
        rcases List.mem_cons.1 hmem with rfl | hrest
        · exact absurd hempty nonempty
        · exact ⟨other, hrest, nonempty⟩
      next => simp

theorem selectRequest_some (inv : c.Inv) (h : c.lSQByUser.all ≠ []) (lbaSize : Nat → Nat) :
    (c.selectRequest (fun _ _ => true) lbaSize).1 ≠ none := by
  unfold selectRequest
  split
  next => simp
  next =>
    obtain ⟨req, hreq⟩ := List.exists_mem_of_ne_nil _ h
    obtain ⟨uid, huid⟩ := QueueMap.exists_get hreq
    have nonempty := List.ne_nil_of_mem huid
    exact pickUser_some ⟨uid, List.mem_rotate.2 (inv.users uid nonempty), nonempty⟩

theorem remaining_reschedule {now : Tick} {selected : Bool} :
    (c.reschedule p now selected).remaining = c.remaining ∧
      (c.reschedule p now selected).fetched = c.fetched := by
  unfold reschedule
  dsimp only
  split <;> exact ⟨rfl, rfl⟩

theorem remaining_handleRequest (inv : c.Inv) (h : c.lSQByUser.all ≠ []) (p : Arbitration)
    (now : Tick) (lbaSize : Nat → Nat) :
    (c.handleRequest p now (fun _ _ => true) lbaSize).remaining + 1 = c.remaining ∧
      (c.handleRequest p now (fun _ _ => true) lbaSize).fetched = c.fetched := by
  have takes := selectRequest_takes (fun _ _ => true) lbaSize c
  have some := selectRequest_some inv h lbaSize
  unfold handleRequest
  split
  next req c' hselect =>
    rw [hselect] at takes
    obtain ⟨uid, rest, b, last, hget, rfl⟩ := takes
    have popped := (QueueMap.all_pop hget).length_eq
    rw [List.length_cons] at popped
    refine ⟨?_, remaining_reschedule.2⟩
    rw [remaining_reschedule.1]
    simp only [remaining, dispatch, List.length_append, List.length_singleton]
    omega
  next c' hselect =>
    rw [hselect] at some
    exact absurd rfl some

theorem careful_of_isProgress (progress : a.IsProgress) : c.Careful a := by
  cases a with
  | fetchDone fetch entry => trivial
  | handleRequest now canServe lbaSize => trivial
  | complete req status => trivial
  | _ => cases progress

theorem Inv.finishes_of_step (inv : c.Inv)
    (ih : ∀ c' : Controller, c'.Inv → c'.remaining < c.remaining → c'.Finishes p)
    (progress : a.IsProgress) (hstep : step p c a = some c')
    (less : c'.remaining + 1 = c.remaining ∧ c'.fetched = c.fetched) : c.Finishes p :=
  .of_step progress hstep less.2
    (ih c' (inv_step inv (careful_of_isProgress progress) hstep) (by omega))

theorem Inv.finishes (inv : c.Inv) : c.Finishes p := by
  induction hn : c.remaining using Nat.strong_induction_on generalizing c with
  | _ n rec =>
      have ih (c' : Controller) (inv' : c'.Inv) (less : c'.remaining < c.remaining) :
          c'.Finishes p := rec _ (hn ▸ less) inv' rfl
      by_cases reading : c.fetching = []
      · by_cases staging : c.lSQByUser.all = []
        · by_cases executing : c.executing = []
          · refine ⟨[], c, by simp, rfl, inv.fault, ?_⟩
            have := inv.accounted
            simpa [reading, staged, staging, inSubsystem, executing] using this
          · obtain ⟨req, hmem⟩ := List.exists_mem_of_ne_nil _ executing
            exact inv.finishes_of_step ih (a := .complete req 0) trivial
              ((step_eq inv _).trans (if_pos hmem)) (remaining_complete inv hmem 0)
        · exact inv.finishes_of_step ih
            (a := .handleRequest 0 (fun _ _ => true) fun _ => 0) trivial (step_eq inv _)
            (remaining_handleRequest inv staging p 0 fun _ => 0)
      · obtain ⟨fetch, hmem⟩ := List.exists_mem_of_ne_nil _ reading
        exact inv.finishes_of_step ih (a := .fetchDone fetch ⟨0, 0, 0, 0⟩) trivial
          ((step_eq inv _).trans (if_pos hmem)) (remaining_doRead inv hmem _)

theorem Inv.exactlyOnce (inv : c.Inv) : c.ExactlyOnce p where
  fault := inv.fault
  accounted := by
    rw [inv.reading_eq]
    exact inv.accounted
  apart := inv.apart
  finishes := inv.finishes

/-- From a controller with its queues and no commands, every state of a run keeps
each fetched command on its way or completed, exactly once, if and only if every
action of the run is careful. -/
theorem exactlyOnce_iff (p : Arbitration) (started : c.Started) (actions : List Action) :
    Throughout (step p) (ExactlyOnce p) c actions ↔ EachAction (step p) Careful c actions :=
  throughout_iff_eachAction (fun _ _ _ inv careful hstep => inv_step inv careful hstep)
    (fun _ inv => inv.exactlyOnce)
    (fun _ _ _ inv hstep once => careful_of_exactlyOnce inv hstep once) started.inv actions

/-! ## Runs -/

def threeQueues : Controller where
  tick := 0
  ppSQueue := [some ⟨0, 0, 0, 0, 0, 8⟩, some ⟨1, 1, 0, 0, 0, 8⟩, some ⟨2, 1, 0, 0, 0, 8⟩]
  ppCQueue := [some ⟨0, 0⟩, some ⟨1, 0⟩]
  lSQFIFO := []
  lCQFIFO := []
  lSQByUser := .empty
  rrUsers := []
  lastUid := 0
  uidSQMap := []
  bootstrappedUsers := []
  requestCounter := 0
  lastWorkAt := 0
  requestEvent := none
  workEvent := none
  fetching := []
  executing := []
  fault := none
  fetched := 0
  executed := []
  aborted := []

def plainRoundRobin : Arbitration := ⟨true, .roundRobin, 2, 2, 4, 12500000, 50000000⟩

theorem threeQueues_started : threeQueues.Started where
  fault := rfl
  admin := rfl
  queue_cq := by
    intro i q hq
    match i, hq with
    | 0, rfl => exact ⟨⟨0, 0⟩, rfl⟩
    | 1, rfl => exact ⟨⟨1, 0⟩, rfl⟩
    | 2, rfl => exact ⟨⟨1, 0⟩, rfl⟩
  fetched := rfl
  fetching := rfl
  staged := rfl
  executing := rfl
  lSQFIFO := rfl
  lCQFIFO := rfl
  executed := rfl
  aborted := rfl

/-- A read of user 1001 with command id 7, and an Abort of the host's admin queue. -/
def userRead : SQEntry := ⟨7, 1, 1001, 0⟩

def hostAbort : SQEntry := ⟨3, 0, 0, 0⟩

/-- The queue of the first fetched command is deleted while both are staged. -/
theorem exactlyOnce_iff_deleted :
    Throughout (step plainRoundRobin) (ExactlyOnce plainRoundRobin) threeQueues
      [.doorbell 1 1, .doorbell 2 1, .collect 2, .fetchDone ⟨0, 1, 0, false⟩ userRead,
        .fetchDone ⟨1, 2, 0, false⟩ userRead, .deleteSQueue 1] := by
  refine (exactlyOnce_iff plainRoundRobin threeQueues_started _).2 ?_
  exact .cons rfl (by decide) (.cons rfl (by decide) (.cons rfl (by decide) (.cons rfl
    (by decide) (.cons rfl (by decide) (.cons rfl (by decide) trivial)))))

/-- The read is staged when the Abort is executed: it is completed as aborted,
picked, executed and completed again. -/
theorem aborted_and_executed :
    ¬ Throughout (step plainRoundRobin) (ExactlyOnce plainRoundRobin) threeQueues
      [.doorbell 0 1, .doorbell 1 1, .collect 2, .fetchDone ⟨0, 0, 0, false⟩ hostAbort,
        .fetchDone ⟨1, 1, 0, false⟩ userRead,
        .handleRequest 0 (fun _ _ => false) (fun _ => 512), .abort 1 7,
        .complete ⟨hostAbort, 0, 0, 1, 0, 0⟩ 0,
        .handleRequest 0 (fun _ _ => false) (fun _ => 512),
        .complete ⟨userRead, 1, 1, 1, 0, 1⟩ 0] := by
  intro all
  have final := all.2 _ rfl |>.2 _ rfl |>.2 _ rfl |>.2 _ rfl |>.2 _ rfl |>.2 _ rfl
    |>.2 _ rfl |>.2 _ rfl |>.2 _ rfl |>.2 _ rfl
  have twice := final.accounted.length_eq
  exact absurd twice (by decide)

end Controller

end SimpleSSD.HIL.NVMe
