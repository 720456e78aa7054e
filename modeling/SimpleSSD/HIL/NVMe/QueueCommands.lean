import SimpleSSD.HIL.NVMe.Deletion

/-!
# Creating and deleting queues

Submission queues name their completion queue by its number.  Delete I/O Completion Queue
looks for such names by a scan that is bounded by the table of the completion queues, and
it does not ask for commands and entries that are still to be completed.
-/

namespace SimpleSSD.HIL.NVMe

open SimpleSSD.Foundation

namespace Controller

/-! ## The commands -/

def createCQueue (cqid iv : Nat) (c : Controller) : Nat × Controller :=
  match c.ppCQueue[cqid]? with
  | none => (1, c.fail .undefined)
  | some (some _) => (1, c)
  | some none => (0, { c with ppCQueue := c.ppCQueue.set cqid (some ⟨cqid, iv⟩) })

def createSQueue (sqid cqid size priority : Nat) (c : Controller) : Nat × Controller :=
  match c.ppSQueue[sqid]? with
  | none => (1, c.fail .undefined)
  | some (some _) => (1, c)
  | some none =>
      match c.ppCQueue[cqid]? with
      | none => (1, c.fail .undefined)
      | some none => (2, c)
      | some (some _) => (0, c.setQueue sqid (some ⟨sqid, cqid, priority, 0, 0, size⟩))

/-- Whether a queue from the list names `cqid`, with a break at the first that does. -/
def scanSQueues (cqid : Nat) (c : Controller) : List Nat → Except Fault Bool
  | [] => .ok false
  | i :: rest =>
      match c.ppSQueue[i]? with
      | none => .error .undefined
      | some none => scanSQueues cqid c rest
      | some (some q) => if q.cqID = cqid then .ok true else scanSQueues cqid c rest

/-- The scan runs to `cqsize`, not to `sqsize`.  What is kept for the interrupt vector is
dropped in `AdminState.dropVector`. -/
def deleteCQueue (cqid : Nat) (c : Controller) : Nat × Controller :=
  match c.ppCQueue[cqid]? with
  | none => (1, c.fail .undefined)
  | some none => (1, c)
  | some (some _) =>
      if 0 < cqid then
        match c.scanSQueues cqid (List.range' 1 (c.ppCQueue.length - 1)) with
        | .error fault => (0, c.fail fault)
        | .ok true => (2, c)
        | .ok false => (0, { c with ppCQueue := c.ppCQueue.set cqid none })
      else (1, c)

/-- The vector of a queue that is there. -/
def interruptVector (cqid : Nat) (c : Controller) : Nat :=
  (c.ppCQueue[cqid]?.join).elim 0 CQueue.interruptVector

def sameIV (iv : Nat) (c : Controller) : Bool :=
  (List.range' 1 (c.ppCQueue.length - 1)).any fun i =>
    (c.ppCQueue[i]?.join).any fun q => q.interruptVector = iv

/-- What the doorbell changes of the queue is of no account here. -/
def ringCQHeadDoorbell (qid : Nat) (c : Controller) : Controller :=
  match c.ppCQueue[qid]? with
  | none => c.fail .undefined
  | some _ => c

def due (c : Controller) : List CQEntryWrapper :=
  c.lCQFIFO.filter fun iter => iter.submitAt ≤ c.tick

/-- Entries are posted to their queues, without a check of the pointer. -/
def completion (c : Controller) : Controller :=
  let written := { c with lCQFIFO := c.lCQFIFO.filter fun iter => c.tick < iter.submitAt }
  if c.due.all fun iter => (c.ppCQueue[iter.cqID]?.join).isSome then written
  else written.fail .undefined

inductive QueueAction where
  | createCQueue (cqid iv : Nat)
  | createSQueue (sqid cqid size priority : Nat)
  | deleteCQueue (cqid : Nat)
  | ringCQHeadDoorbell (qid : Nat)
  | completion
  | other (action : Action)

def queueStep (p : Arbitration) (c : Controller) (a : QueueAction) : Option Controller :=
  if c.fault ≠ none then none
  else
    match a with
    | .createCQueue cqid iv => some (c.createCQueue cqid iv).2
    | .createSQueue sqid cqid size priority => some (c.createSQueue sqid cqid size priority).2
    | .deleteCQueue cqid => some (c.deleteCQueue cqid).2
    | .ringCQHeadDoorbell qid => some (c.ringCQHeadDoorbell qid)
    | .completion => some c.completion
    | .other action => step p c action

/-! ## Integrity -/

/-- The completion queues of the entries that wait and of the commands that are staged, in
`lSQFIFO` or inside the subsystem. -/
def references (c : Controller) : List Nat :=
  c.lCQFIFO.map CQEntryWrapper.cqID ++
    (c.lSQFIFO ++ c.lSQByUser.all ++ c.executing).map SQEntryWrapper.cqID

/-- All names are of live completion queues.  There is no fault, so no id was beyond its
table, no queue was missing and no pointer null. -/
structure Integrity (c : Controller) : Prop where
  fault : c.fault = none
  queue_cq : ∀ i q, c.queue? i = some q → c.HasCQ q.cqID
  references_cq : ∀ cqid ∈ c.references, c.HasCQ cqid

def ScanFinds (c : Controller) (cqid : Nat) : Prop :=
  ∃ i q, 0 < i ∧ i < c.ppCQueue.length ∧ c.queue? i = some q ∧ q.cqID = cqid

def Unnamed (c : Controller) (cqid : Nat) : Prop :=
  (∀ i q, c.queue? i = some q → q.cqID ≠ cqid) ∧ cqid ∉ c.references

/-- The condition on an action.  Ids are inside their table; a completion queue goes when
nothing names it and its scan stays inside the table; a fetch ends, and Abort finds an
entry, while the submission queue lives; the loop of Delete I/O Submission Queue stays
inside its list. -/
def Sound (c : Controller) : QueueAction → Prop
  | .createCQueue cqid _ => cqid < c.ppCQueue.length
  | .createSQueue sqid cqid _ _ =>
      sqid < c.ppSQueue.length ∧ (c.queue? sqid = none → cqid < c.ppCQueue.length)
  | .deleteCQueue cqid =>
      cqid < c.ppCQueue.length ∧ (0 < cqid → c.HasCQ cqid →
        c.ScanFinds cqid ∨ (c.ppCQueue.length ≤ c.ppSQueue.length ∧ c.Unnamed cqid))
  | .ringCQHeadDoorbell qid => qid < c.ppCQueue.length
  | .completion => True
  | .other (.doorbell qid _) => qid < c.ppSQueue.length
  | .other (.fetchDone fetch _) => fetch.freed = false
  | .other (.abort sqid cid) =>
      (∃ req ∈ c.lSQFIFO, req.sqID = sqid ∧ req.entry.commandID = cid) → (c.queue? sqid).isSome
  | .other (.deleteSQueue sqid) =>
      sqid < c.ppSQueue.length ∧
        (0 < sqid → (c.queue? sqid).isSome → runsPast sqid c.lSQFIFO = false)
  | .other _ => True

structure Keeps (c : Controller) : Prop extends Integrity c where
  admin : (c.queue? 0).isSome
  objects : ∀ f ∈ c.fetching, f.freed = false → (c.queue? f.sqID).isSome

variable {p : Arbitration} {c c' : Controller} {cqid sqid iv : Nat} {req : SQEntryWrapper}

/-! ## Names -/

theorem mem_references : cqid ∈ c.references ↔
    (∃ entry ∈ c.lCQFIFO, entry.cqID = cqid) ∨ (∃ req ∈ c.lSQFIFO, req.cqID = cqid) ∨
      (∃ req ∈ c.lSQByUser.all, req.cqID = cqid) ∨ ∃ req ∈ c.executing, req.cqID = cqid := by
  simp only [references, List.mem_append, List.mem_map, or_and_right, exists_or, or_assoc]

theorem Keeps.waiting_cq (keeps : c.Keeps) {entry : CQEntryWrapper} (h : entry ∈ c.lCQFIFO) :
    c.HasCQ entry.cqID :=
  keeps.references_cq _ (mem_references.2 (.inl ⟨entry, h, rfl⟩))

theorem Keeps.fifo_cq (keeps : c.Keeps) (h : req ∈ c.lSQFIFO) : c.HasCQ req.cqID :=
  keeps.references_cq _ (mem_references.2 (.inr (.inl ⟨req, h, rfl⟩)))

theorem Keeps.staged_cq (keeps : c.Keeps) (h : req ∈ c.lSQByUser.all) : c.HasCQ req.cqID :=
  keeps.references_cq _ (mem_references.2 (.inr (.inr (.inl ⟨req, h, rfl⟩))))

theorem Keeps.executing_cq (keeps : c.Keeps) (h : req ∈ c.executing) : c.HasCQ req.cqID :=
  keeps.references_cq _ (mem_references.2 (.inr (.inr (.inr ⟨req, h, rfl⟩))))

theorem references_cq_of (waiting : ∀ entry ∈ c.lCQFIFO, c.HasCQ entry.cqID)
    (fifo : ∀ req ∈ c.lSQFIFO, c.HasCQ req.cqID)
    (staged : ∀ req ∈ c.lSQByUser.all, c.HasCQ req.cqID)
    (executing : ∀ req ∈ c.executing, c.HasCQ req.cqID) :
    ∀ cqid ∈ c.references, c.HasCQ cqid := by
  intro cqid h
  rcases mem_references.1 h with ⟨entry, hmem, rfl⟩ | ⟨req, hmem, rfl⟩ | ⟨req, hmem, rfl⟩ |
    ⟨req, hmem, rfl⟩
  · exact waiting entry hmem
  · exact fifo req hmem
  · exact staged req hmem
  · exact executing req hmem

theorem Started.keeps (h : c.Started) : c.Keeps where
  fault := h.fault
  queue_cq := h.queue_cq
  references_cq := by simp [references, h.lCQFIFO, h.lSQFIFO, h.staged, h.executing]
  admin := h.admin
  objects := by simp [h.fetching]

/-! ## Doorbells, fetches and commands -/

theorem keeps_setQueue {i : Nat} {q : Option SQueue} (keeps : c.Keeps) (lt : i < c.ppSQueue.length)
    (cq : ∀ q', q = some q' → c.HasCQ q'.cqID) (live : (c.queue? i).isSome → q.isSome) :
    (c.setQueue i q).Keeps where
  fault := keeps.fault
  queue_cq := by
    intro j q' hj
    rw [queue?_setQueue lt] at hj
    by_cases same : j = i
    · rw [if_pos same] at hj
      exact cq q' hj
    · rw [if_neg same] at hj
      exact keeps.queue_cq j q' hj
  references_cq := keeps.references_cq
  admin := by
    rw [queue?_setQueue lt]
    by_cases same : 0 = i
    · rw [if_pos same]
      exact live (same ▸ keeps.admin)
    · rw [if_neg same]
      exact keeps.admin
  objects := by
    intro f hf here
    rw [queue?_setQueue lt]
    by_cases same : f.sqID = i
    · rw [if_pos same]
      exact live (same ▸ keeps.objects f hf here)
    · rw [if_neg same]
      exact keeps.objects f hf here

theorem keeps_replaceQueue {i : Nat} {q q' : SQueue} (keeps : c.Keeps) (hq : c.queue? i = some q)
    (same : q'.cqID = q.cqID) : (c.setQueue i (some q')).Keeps := by
  apply keeps_setQueue keeps (lt_of_queue? hq)
  · intro other h
    cases h
    rw [same]
    exact keeps.queue_cq i q hq
  · simp

theorem keeps_doorbell {qid tail : Nat} (keeps : c.Keeps) (lt : qid < c.ppSQueue.length) :
    (c.ringSQTailDoorbell qid tail).Keeps := by
  unfold ringSQTailDoorbell
  split
  next h => exact absurd (List.getElem?_eq_none_iff.1 h) (not_le.2 lt)
  next => exact keeps
  next q h => exact keeps_replaceQueue (q := q) keeps (by simp [queue?, h]) rfl

theorem keeps_checkQueue {i : Nat} (keeps : c.Keeps) (h : c.checkQueue i = some c') : c'.Keeps := by
  unfold checkQueue at h
  split at h
  · cases h
  next q hq =>
    obtain ⟨-, h⟩ := Option.ite_none_right_eq_some.1 h
    cases h
    have moved : q.getData.cqID = q.cqID := by
      unfold SQueue.getData
      split <;> rfl
    have keeps' := keeps_replaceQueue keeps hq moved
    exact { keeps' with
      objects := by
        intro f hf here
        rcases List.mem_append.1 hf with old | new
        · exact keeps'.objects f old here
        · rw [List.mem_singleton.1 new]
          change ((c.setQueue i (some q.getData)).queue? i).isSome
          rw [queue?_setQueue (lt_of_queue? hq), if_pos rfl]
          rfl }

theorem Checks.keeps (h : Checks c c') (keeps : c.Keeps) : c'.Keeps :=
  invariant_of_steps (fun _ _ ⟨_, hstep⟩ keeps => keeps_checkQueue keeps hstep) h keeps

theorem keeps_doRead {fetch : Fetch} {entry : SQEntry} (keeps : c.Keeps) (hf : fetch ∈ c.fetching)
    (here : fetch.freed = false) : (c.doRead fetch entry).Keeps := by
  obtain ⟨q, hq⟩ := Option.isSome_iff_exists.1 (keeps.objects fetch hf here)
  have cq := keeps.queue_cq _ q hq
  simp only [doRead, hq, here, Bool.false_eq_true, if_false]
  exact {
    fault := keeps.fault
    queue_cq := keeps.queue_cq
    references_cq := by
      apply references_cq_of
      · exact fun entry h => keeps.waiting_cq h
      · intro req hreq
        rcases List.mem_append.1 hreq with old | new
        · exact keeps.fifo_cq old
        · rw [List.mem_singleton.1 new]
          exact cq
      · intro req hreq
        rcases List.mem_cons.1 (QueueMap.all_push.mem_iff.1 hreq) with rfl | old
        · exact cq
        · exact keeps.staged_cq old
      · exact fun req h => keeps.executing_cq h
    admin := keeps.admin
    objects := fun f h => keeps.objects f (List.mem_of_mem_erase h) }

theorem keeps_reschedule {now : Tick} {selected : Bool} (keeps : c.Keeps) :
    (c.reschedule p now selected).Keeps := by
  unfold reschedule
  dsimp only
  split
  · exact { keeps with }
  · exact { keeps with }

theorem keeps_dispatch {uid last : UserID} {rest : List SQEntryWrapper} {b : List UserID}
    (keeps : c.Keeps) (h : c.lSQByUser.get uid = req :: rest) :
    (dispatch req { c with
      bootstrappedUsers := b
      lSQByUser := c.lSQByUser.pop uid
      lastUid := last }).Keeps := by
  have held : req ∈ c.lSQByUser.all :=
    QueueMap.mem_all_of_get (k := uid) (by rw [h]; exact List.mem_cons_self)
  exact { keeps with
    references_cq := by
      apply references_cq_of
      · exact fun entry h => keeps.waiting_cq h
      · exact fun req h => keeps.fifo_cq h
      · exact fun other hmem =>
          keeps.staged_cq ((QueueMap.all_pop h).mem_iff.2 (List.mem_cons_of_mem _ hmem))
      · intro other hmem
        rcases List.mem_append.1 hmem with old | new
        · exact keeps.executing_cq old
        · rw [List.mem_singleton.1 new]
          exact keeps.staged_cq held }

theorem keeps_handleRequest {now : Tick} {canServe : UserID → Nat → Bool} {lbaSize : Nat → Nat}
    (keeps : c.Keeps) : (c.handleRequest p now canServe lbaSize).Keeps := by
  have takes := selectRequest_takes canServe lbaSize c
  unfold handleRequest
  split
  next req c' hselect =>
    rw [hselect] at takes
    obtain ⟨uid, rest, b, last, hget, rfl⟩ := takes
    exact keeps_reschedule (keeps_dispatch keeps hget)
  next c' hselect =>
    rw [hselect] at takes
    obtain ⟨b, rfl⟩ := takes
    exact keeps_reschedule { keeps with }

/-! ## Entries -/

theorem keeps_submit {entry : CQEntryWrapper} (keeps : c.Keeps) (cq : c.HasCQ entry.cqID) :
    (c.submit entry).Keeps := by
  rw [submit_of_hasCQ cq]
  exact { keeps with
    references_cq := by
      apply references_cq_of
      · intro other h
        rcases List.mem_cons.1 ((insertBySubmitAt_perm _ _).mem_iff.1 h) with rfl | old
        · exact cq
        · exact keeps.waiting_cq old
      · exact fun req h => keeps.fifo_cq h
      · exact fun req h => keeps.staged_cq h
      · exact fun req h => keeps.executing_cq h }

theorem keeps_complete {status : Nat} (keeps : c.Keeps) (h : req ∈ c.executing) :
    (c.complete req status).Keeps := by
  apply keeps_submit
  · exact { keeps with
      references_cq := by
        apply references_cq_of
        · exact fun entry h => keeps.waiting_cq h
        · exact fun req h => keeps.fifo_cq h
        · exact fun req h => keeps.staged_cq h
        · exact fun req h => keeps.executing_cq (List.mem_of_mem_erase h) }
  · exact keeps.executing_cq h

theorem keeps_submitAborted {sqHead status : Nat} (keeps : c.Keeps) (cq : c.HasCQ req.cqID) :
    (c.submitAborted sqHead status req).Keeps := by
  apply keeps_submit
  · exact { keeps with }
  · exact cq

theorem keeps_fifo {fifo : List SQEntryWrapper} (keeps : c.Keeps) (sub : fifo ⊆ c.lSQFIFO) :
    { c with lSQFIFO := fifo }.Keeps :=
  { keeps with
    references_cq := by
      apply references_cq_of
      · exact fun entry h => keeps.waiting_cq h
      · exact fun req h => keeps.fifo_cq (sub h)
      · exact fun req h => keeps.staged_cq h
      · exact fun req h => keeps.executing_cq h }

theorem completion_of_keeps (keeps : c.Keeps) :
    c.completion = { c with lCQFIFO := c.lCQFIFO.filter fun iter => c.tick < iter.submitAt } := by
  apply if_pos
  rw [List.all_eq_true]
  intro iter h
  obtain ⟨q, hq⟩ := keeps.waiting_cq (List.mem_of_mem_filter h)
  rw [hq]
  rfl

theorem keeps_completion (keeps : c.Keeps) : c.completion.Keeps := by
  rw [completion_of_keeps keeps]
  exact { keeps with
    references_cq := by
      apply references_cq_of
      · exact fun entry h => keeps.waiting_cq (List.mem_of_mem_filter h)
      · exact fun req h => keeps.fifo_cq h
      · exact fun req h => keeps.staged_cq h
      · exact fun req h => keeps.executing_cq h }

/-! ## Abort and deletion of submission queues -/

theorem keeps_abort {cid : Nat} (keeps : c.Keeps) (sound : c.Sound (.other (.abort sqid cid))) :
    (c.abort sqid cid).2.Keeps := by
  unfold abort
  cases hfind : c.lSQFIFO.find? fun req => req.sqID = sqid ∧ req.entry.commandID = cid with
  | none => exact keeps
  | some req =>
      have hmem := List.mem_of_find?_eq_some hfind
      have here := List.find?_some hfind
      obtain ⟨q, hq⟩ := Option.isSome_iff_exists.1 (sound ⟨req, hmem, of_decide_eq_true here⟩)
      have cq := keeps.fifo_cq hmem
      have keeps' : (c.submitAborted q.head abortRequested req).Keeps :=
          keeps_submitAborted keeps cq
      simp only [hq]
      rw [submitAborted_of_hasCQ cq] at keeps' ⊢
      exact keeps_fifo keeps' List.eraseP_subset

theorem keeps_abortQueue (sqHead : Nat) {l : List SQEntryWrapper} (keeps : c.Keeps)
    (cq : ∀ req ∈ l, c.HasCQ req.cqID) (stays : runsPast sqid l = false) :
    (abortQueue sqid sqHead l c).2.Keeps := by
  induction l, c using abortQueue.induct sqid sqHead with
  | case1 c => exact keeps
  | case2 req c here => simp [runsPast, here] at stays
  | case3 req c here mid next rest left c' heq ih =>
      have first := cq req List.mem_cons_self
      simp only [runsPast, here, if_true] at stays
      simp only [abortQueue, here, if_true]
      exact ih (keeps_submitAborted keeps first) (fun other hmem =>
        (cq other (List.mem_cons_of_mem _ (List.mem_cons_of_mem _ hmem))).submitAborted first) stays
  | case4 req rest c other left c' heq ih =>
      rw [runsPast_of_ne other] at stays
      simp only [abortQueue, other, if_false]
      exact ih keeps (fun req hmem => cq req (List.mem_cons_of_mem _ hmem)) stays

theorem keeps_freeQueue (keeps : c.Keeps) (pos : 0 < sqid) (lt : sqid < c.ppSQueue.length) :
    (c.freeQueue sqid).Keeps where
  fault := keeps.fault
  queue_cq := by
    intro j q hj
    change (c.setQueue sqid none).queue? j = some q at hj
    rw [queue?_setQueue lt] at hj
    by_cases same : j = sqid
    · rw [if_pos same] at hj
      cases hj
    · rw [if_neg same] at hj
      exact keeps.queue_cq j q hj
  references_cq := keeps.references_cq
  admin := by
    change ((c.setQueue sqid none).queue? 0).isSome
    rw [queue?_setQueue lt, if_neg pos.ne]
    exact keeps.admin
  objects := by
    intro f hf here
    obtain ⟨f', hf', rfl⟩ := List.mem_map.1 hf
    by_cases same : f'.sqID = sqid
    · rw [if_pos same] at here
      cases here
    · rw [if_neg same] at here ⊢
      change ((c.setQueue sqid none).queue? f'.sqID).isSome
      rw [queue?_setQueue lt, if_neg same]
      exact keeps.objects f' hf' here

theorem keeps_purge (keeps : c.Keeps) : (c.purgeSQFromUserQueues sqid).Keeps :=
  { keeps with
    references_cq := by
      apply references_cq_of
      · exact fun entry h => keeps.waiting_cq h
      · exact fun req h => keeps.fifo_cq h
      · intro req h
        have held : req ∈ (c.lSQByUser.filter fun req => req.sqID ≠ sqid).all := h
        rw [QueueMap.all_filter] at held
        exact keeps.staged_cq (List.mem_of_mem_filter held)
      · exact fun req h => keeps.executing_cq h }

theorem deleteSQueue_cases (c : Controller) (sqid : Nat) :
    (c.ppSQueue.length ≤ sqid ∧ (c.deleteSQueue sqid).2 = c.fail .undefined) ∨
    (sqid < c.ppSQueue.length ∧ ¬(0 < sqid ∧ (c.queue? sqid).isSome) ∧
      (c.deleteSQueue sqid).2 = c) ∨
    ∃ q, c.queue? sqid = some q ∧ 0 < sqid ∧ (c.deleteSQueue sqid).2 =
      ({ (abortQueue sqid q.head c.lSQFIFO c).2 with
        lSQFIFO := (abortQueue sqid q.head c.lSQFIFO c).1 }.freeQueue sqid).purgeSQFromUserQueues
        sqid := by
  unfold deleteSQueue queue?
  cases h : c.ppSQueue[sqid]? with
  | none => exact .inl ⟨List.getElem?_eq_none_iff.1 h, rfl⟩
  | some slot =>
      have lt := (List.getElem?_eq_some_iff.1 h).1
      cases slot with
      | none => exact .inr (.inl ⟨lt, by simp, rfl⟩)
      | some q =>
          rcases Nat.eq_zero_or_pos sqid with zero | pos
          · refine .inr (.inl ⟨lt, by omega, ?_⟩)
            dsimp only
            rw [if_neg (by omega)]
          · refine .inr (.inr ⟨q, rfl, pos, ?_⟩)
            dsimp only
            rw [if_pos pos]

theorem keeps_deleteSQueue (keeps : c.Keeps) (sound : c.Sound (.other (.deleteSQueue sqid))) :
    (c.deleteSQueue sqid).2.Keeps := by
  obtain ⟨lt, stays⟩ := sound
  rcases deleteSQueue_cases c sqid with ⟨out, -⟩ | ⟨-, -, heq⟩ | ⟨q, hq, pos, heq⟩
  · exact absurd lt (not_lt.2 out)
  · rw [heq]
    exact keeps
  · have cq : ∀ req ∈ c.lSQFIFO, c.HasCQ req.cqID := fun req h => keeps.fifo_cq h
    have keeps' := keeps_abortQueue q.head keeps cq (stays pos (by rw [hq]; rfl))
    obtain ⟨hleft, fifo, hafter, -⟩ := abortQueue_aborts sqid q.head c.lSQFIFO c cq
    rw [heq, hleft]
    rw [hafter] at keeps' ⊢
    exact keeps_purge (keeps_freeQueue
      (keeps_fifo keeps' (leftBy_sublist sqid c.lSQFIFO).subset) pos lt)

/-! ## Creation and deletion of completion queues -/

theorem hasCQ_set_of_ne {q : Option CQueue} {id : Nat} (h : c.HasCQ id) (ne : cqid ≠ id) :
    { c with ppCQueue := c.ppCQueue.set cqid q }.HasCQ id := by
  obtain ⟨q', hq'⟩ := h
  refine ⟨q', ?_⟩
  change (c.ppCQueue.set cqid q)[id]? = _
  rw [List.getElem?_set_ne ne, hq']

theorem keeps_createCQueue (keeps : c.Keeps) (lt : cqid < c.ppCQueue.length) :
    (c.createCQueue cqid iv).2.Keeps := by
  unfold createCQueue
  cases h : c.ppCQueue[cqid]? with
  | none => exact absurd (List.getElem?_eq_none_iff.1 h) (not_le.2 lt)
  | some slot =>
      cases slot with
      | some _ => exact keeps
      | none =>
          have live (id : Nat) (cq : c.HasCQ id) :
              { c with ppCQueue := c.ppCQueue.set cqid (some ⟨cqid, iv⟩) }.HasCQ id := by
            apply hasCQ_set_of_ne cq
            rintro rfl
            obtain ⟨q, hq⟩ := cq
            rw [h] at hq
            cases hq
          exact { keeps with
            queue_cq := fun i q hq => live _ (keeps.queue_cq i q hq)
            references_cq := fun id hid => live _ (keeps.references_cq id hid) }

theorem keeps_createSQueue {size priority : Nat} (keeps : c.Keeps)
    (sound : c.Sound (.createSQueue sqid cqid size priority)) :
    (c.createSQueue sqid cqid size priority).2.Keeps := by
  obtain ⟨lt, inside⟩ := sound
  unfold createSQueue
  cases h : c.ppSQueue[sqid]? with
  | none => exact absurd (List.getElem?_eq_none_iff.1 h) (not_le.2 lt)
  | some slot =>
      cases slot with
      | some _ => exact keeps
      | none =>
          have free : c.queue? sqid = none := by simp [queue?, h]
          cases hcq : c.ppCQueue[cqid]? with
          | none => exact absurd (List.getElem?_eq_none_iff.1 hcq) (not_le.2 (inside free))
          | some cq =>
              cases cq with
              | none => exact keeps
              | some q =>
                  apply keeps_setQueue keeps lt
                  · intro q' hq'
                    cases hq'
                    exact ⟨q, hcq⟩
                  · simp

/-! ## The scan -/

theorem scan_of_found {start count i : Nat} {q : SQueue} (from_start : start ≤ i)
    (before : i < start + count) (hq : c.queue? i = some q) (named : q.cqID = cqid) :
    c.scanSQueues cqid (List.range' start count) = .ok true := by
  have lt := lt_of_queue? hq
  induction count generalizing start with
  | zero => omega
  | succ count ih =>
      rw [List.range'_succ, scanSQueues]
      rcases Nat.eq_or_lt_of_le from_start with rfl | later
      · have slot : c.ppSQueue[start]? = some (some q) := by
          simpa [queue?, Option.join_eq_some_iff] using hq
        rw [slot]
        exact if_pos named
      · have rest : c.scanSQueues cqid (List.range' (start + 1) count) = .ok true :=
          ih later (by omega)
        rw [List.getElem?_eq_getElem (later.trans lt)]
        cases c.ppSQueue[start] with
        | none => exact rest
        | some q' =>
            dsimp only
            rw [rest, ite_self]

theorem scan_of_unnamed {indices : List Nat} (inside : ∀ i ∈ indices, i < c.ppSQueue.length)
    (unnamed : ∀ i ∈ indices, ∀ q, c.queue? i = some q → q.cqID ≠ cqid) :
    c.scanSQueues cqid indices = .ok false := by
  induction indices with
  | nil => rfl
  | cons i rest ih =>
      obtain ⟨lt, insideRest⟩ := List.forall_mem_cons.1 inside
      obtain ⟨here, later⟩ := List.forall_mem_cons.1 unnamed
      rw [scanSQueues]
      cases h : c.ppSQueue[i]? with
      | none => exact absurd (List.getElem?_eq_none_iff.1 h) (not_le.2 lt)
      | some slot =>
          cases slot with
          | none => exact ih insideRest later
          | some q =>
              dsimp only
              rw [if_neg (here q (by simp [queue?, h]))]
              exact ih insideRest later

theorem scan_of_outside {indices : List Nat} {out : Nat} (hmem : out ∈ indices)
    (outside : c.ppSQueue.length ≤ out)
    (unnamed : ∀ i ∈ indices, ∀ q, c.queue? i = some q → q.cqID ≠ cqid) :
    c.scanSQueues cqid indices = .error .undefined := by
  induction indices with
  | nil => cases hmem
  | cons i rest ih =>
      obtain ⟨here, later⟩ := List.forall_mem_cons.1 unnamed
      rw [scanSQueues]
      cases h : c.ppSQueue[i]? with
      | none => rfl
      | some slot =>
          have lt := (List.getElem?_eq_some_iff.1 h).1
          rcases List.mem_cons.1 hmem with rfl | hrest
          · exact absurd lt (not_lt.2 outside)
          cases slot with
          | none => exact ih hrest later
          | some q =>
              dsimp only
              rw [if_neg (here q (by simp [queue?, h]))]
              exact ih hrest later

theorem deleteCQueue_cases (c : Controller) (cqid : Nat) :
    (c.ppCQueue.length ≤ cqid ∧ c.deleteCQueue cqid = (1, c.fail .undefined)) ∨
    (cqid < c.ppCQueue.length ∧ (0 < cqid → c.HasCQ cqid → c.ScanFinds cqid) ∧
      (c.deleteCQueue cqid = (1, c) ∨ c.deleteCQueue cqid = (2, c))) ∨
    (0 < cqid ∧ c.HasCQ cqid ∧ ¬c.ScanFinds cqid ∧ c.ppSQueue.length < c.ppCQueue.length ∧
      c.deleteCQueue cqid = (0, c.fail .undefined)) ∨
    (0 < cqid ∧ cqid < c.ppCQueue.length ∧ c.HasCQ cqid ∧ ¬c.ScanFinds cqid ∧
      c.ppCQueue.length ≤ c.ppSQueue.length ∧
      c.deleteCQueue cqid = (0, { c with ppCQueue := c.ppCQueue.set cqid none })) := by
  unfold deleteCQueue
  cases h : c.ppCQueue[cqid]? with
  | none => exact .inl ⟨List.getElem?_eq_none_iff.1 h, rfl⟩
  | some slot =>
      have lt := (List.getElem?_eq_some_iff.1 h).1
      cases slot with
      | none =>
          refine .inr (.inl ⟨lt, fun _ cq => ?_, .inl rfl⟩)
          obtain ⟨q, hq⟩ := cq
          rw [h] at hq
          cases hq
      | some q =>
          dsimp only
          rcases Nat.eq_zero_or_pos cqid with zero | pos
          · rw [if_neg (by omega)]
            exact .inr (.inl ⟨lt, fun pos => by omega, .inl rfl⟩)
          rw [if_pos pos]
          by_cases found : c.ScanFinds cqid
          · obtain ⟨i, q', positive, below, hq', named⟩ := found
            rw [scan_of_found (by omega) (by omega) hq' named]
            exact .inr (.inl ⟨lt, fun _ _ => ⟨i, q', positive, below, hq', named⟩, .inr rfl⟩)
          have unnamed : ∀ i ∈ List.range' 1 (c.ppCQueue.length - 1), ∀ q', c.queue? i = some q' →
              q'.cqID ≠ cqid := by
            intro i hi q' hq' named
            rw [List.mem_range'_1] at hi
            exact found ⟨i, q', by omega, by omega, hq', named⟩
          by_cases inside : c.ppCQueue.length ≤ c.ppSQueue.length
          · rw [scan_of_unnamed (fun i hi => by rw [List.mem_range'_1] at hi; omega) unnamed]
            exact .inr (.inr (.inr ⟨pos, lt, ⟨q, h⟩, found, inside, rfl⟩))
          · have last : c.ppCQueue.length - 1 ∈ List.range' 1 (c.ppCQueue.length - 1) := by
              rw [List.mem_range'_1]
              omega
            rw [scan_of_outside last (by omega) unnamed]
            exact .inr (.inr (.inl ⟨pos, ⟨q, h⟩, found, by omega, rfl⟩))

theorem keeps_deleteCQueue (keeps : c.Keeps) (sound : c.Sound (.deleteCQueue cqid)) :
    (c.deleteCQueue cqid).2.Keeps := by
  obtain ⟨lt, unnamed⟩ := sound
  unfold deleteCQueue
  cases h : c.ppCQueue[cqid]? with
  | none => exact absurd (List.getElem?_eq_none_iff.1 h) (not_le.2 lt)
  | some slot =>
      cases slot with
      | none => exact keeps
      | some q =>
          dsimp only
          by_cases pos : 0 < cqid
          · rw [if_pos pos]
            rcases unnamed pos ⟨q, h⟩ with
              ⟨i, q', positive, below, hq', named⟩ | ⟨inside, queues, names⟩
            · rw [scan_of_found (by omega) (by omega) hq' named]
              exact keeps
            · rw [scan_of_unnamed (fun i hi => by rw [List.mem_range'_1] at hi; omega)
                fun i _ q' => queues i q']
              exact { keeps with
                queue_cq := fun i q' hq' =>
                  hasCQ_set_of_ne (keeps.queue_cq i q' hq') (queues i q' hq').symm
                references_cq := fun id hid =>
                  hasCQ_set_of_ne (keeps.references_cq id hid) fun same => names (same ▸ hid) }
          · rw [if_neg pos]
            exact keeps

/-! ## Runs -/

theorem queueStep_eq (fault : c.fault = none) (a : QueueAction) :
    queueStep p c a =
      match a with
      | .createCQueue cqid iv => some (c.createCQueue cqid iv).2
      | .createSQueue sqid cqid size priority => some (c.createSQueue sqid cqid size priority).2
      | .deleteCQueue cqid => some (c.deleteCQueue cqid).2
      | .ringCQHeadDoorbell qid => some (c.ringCQHeadDoorbell qid)
      | .completion => some c.completion
      | .other action => step p c action :=
  if_neg fun h => h fault

theorem keeps_step {a : Action} (keeps : c.Keeps) (sound : c.Sound (.other a))
    (hstep : step p c a = some c') : c'.Keeps := by
  unfold step at hstep
  rw [if_neg fun h => h keeps.fault] at hstep
  cases a with
  | doorbell qid tail =>
      cases hstep
      exact keeps_doorbell keeps sound
  | collect fuel => exact (collectSQueue_checks keeps.admin hstep).keeps keeps
  | fetchDone fetch entry =>
      obtain ⟨hmem, h⟩ := Option.ite_none_right_eq_some.1 hstep
      cases h
      exact keeps_doRead keeps hmem sound
  | queueFunction now =>
      cases hstep
      exact { keeps with }
  | handleRequest now canServe lbaSize =>
      cases hstep
      exact keeps_handleRequest keeps
  | complete req status =>
      obtain ⟨hmem, h⟩ := Option.ite_none_right_eq_some.1 hstep
      cases h
      exact keeps_complete keeps hmem
  | abort sqid cid =>
      cases hstep
      exact keeps_abort keeps sound
  | deleteSQueue sqid =>
      cases hstep
      exact keeps_deleteSQueue keeps sound
  | advance tick =>
      obtain ⟨-, h⟩ := Option.ite_none_right_eq_some.1 hstep
      cases h
      exact { keeps with }

theorem keeps_queueStep {a : QueueAction} (keeps : c.Keeps) (sound : c.Sound a)
    (hstep : queueStep p c a = some c') : c'.Keeps := by
  rw [queueStep_eq keeps.fault] at hstep
  cases a with
  | createCQueue cqid iv =>
      cases hstep
      exact keeps_createCQueue keeps sound
  | createSQueue sqid cqid size priority =>
      cases hstep
      exact keeps_createSQueue keeps sound
  | deleteCQueue cqid =>
      cases hstep
      exact keeps_deleteCQueue keeps sound
  | ringCQHeadDoorbell qid =>
      cases hstep
      unfold ringCQHeadDoorbell
      cases h : c.ppCQueue[qid]? with
      | none => exact absurd (List.getElem?_eq_none_iff.1 h) (not_le.2 sound)
      | some _ => exact keeps
  | completion =>
      cases hstep
      exact keeps_completion keeps
  | other action => exact keeps_step keeps sound hstep

/-! ## What breaks the integrity -/

theorem fail_fault (c : Controller) (fault : Fault) : (c.fail fault).fault ≠ none := by
  simp [fail]

theorem sound_createCQueue (sound : (c.createCQueue cqid iv).2.Integrity) :
    c.Sound (.createCQueue cqid iv) := by
  by_contra out
  have h := List.getElem?_eq_none_iff.2 (not_lt.1 out)
  unfold createCQueue at sound
  rw [h] at sound
  exact fail_fault c _ sound.fault

theorem sound_createSQueue {size priority : Nat}
    (sound : (c.createSQueue sqid cqid size priority).2.Integrity) :
    c.Sound (.createSQueue sqid cqid size priority) := by
  unfold createSQueue at sound
  cases h : c.ppSQueue[sqid]? with
  | none =>
      rw [h] at sound
      exact absurd sound.fault (fail_fault c _)
  | some slot =>
      refine ⟨(List.getElem?_eq_some_iff.1 h).1, fun free => ?_⟩
      cases slot with
      | some q => simp [queue?, h] at free
      | none =>
          by_contra out
          have hcq := List.getElem?_eq_none_iff.2 (not_lt.1 out)
          simp only [h, hcq] at sound
          exact fail_fault c _ sound.fault

theorem not_hasCQ_set (lt : cqid < c.ppCQueue.length) :
    ¬{ c with ppCQueue := c.ppCQueue.set cqid none }.HasCQ cqid := by
  rintro ⟨q, hq⟩
  change (c.ppCQueue.set cqid none)[cqid]? = _ at hq
  rw [List.getElem?_set_self lt] at hq
  cases hq

theorem sound_deleteCQueue (sound : (c.deleteCQueue cqid).2.Integrity) :
    c.Sound (.deleteCQueue cqid) := by
  rcases deleteCQueue_cases c cqid with ⟨-, heq⟩ | ⟨lt, finds, -⟩ | ⟨-, -, -, -, heq⟩ |
    ⟨-, lt, -, -, inside, heq⟩
  · rw [heq] at sound
    exact absurd sound.fault (fail_fault c _)
  · exact ⟨lt, fun pos cq => .inl (finds pos cq)⟩
  · rw [heq] at sound
    exact absurd sound.fault (fail_fault c _)
  · rw [heq] at sound
    refine ⟨lt, fun _ _ => .inr ⟨inside, fun i q hq same => ?_, fun hmem => ?_⟩⟩
    · have cq := sound.queue_cq i q hq
      rw [same] at cq
      exact not_hasCQ_set lt cq
    · exact not_hasCQ_set lt (sound.references_cq cqid hmem)

theorem sound_abort {cid : Nat} (sound : (c.abort sqid cid).2.Integrity) :
    c.Sound (.other (.abort sqid cid)) := by
  rintro ⟨req, hmem, here⟩
  by_contra dead
  rw [Option.not_isSome_iff_eq_none] at dead
  unfold abort at sound
  cases hfind : c.lSQFIFO.find? fun req => req.sqID = sqid ∧ req.entry.commandID = cid with
  | none => exact List.find?_eq_none.1 hfind req hmem (decide_eq_true here)
  | some first =>
      simp only [hfind, dead] at sound
      exact fail_fault c _ sound.fault

theorem sound_deleteSQueue (keeps : c.Keeps) (sound : (c.deleteSQueue sqid).2.Integrity) :
    c.Sound (.other (.deleteSQueue sqid)) := by
  rcases deleteSQueue_cases c sqid with ⟨-, heq⟩ | ⟨lt, absent, -⟩ | ⟨q, hq, pos, heq⟩
  · rw [heq] at sound
    exact absurd sound.fault (fail_fault c _)
  · exact ⟨lt, fun pos live => absurd ⟨pos, live⟩ absent⟩
  · refine ⟨lt_of_queue? hq, fun _ _ => ?_⟩
    obtain ⟨-, fifo, hafter, -⟩ :=
      abortQueue_aborts sqid q.head c.lSQFIFO c fun req h => keeps.fifo_cq h
    have fault := sound.fault
    rw [heq, hafter] at fault
    by_contra past
    rw [Bool.not_eq_false] at past
    simp [purgeSQFromUserQueues, freeQueue, setQueue, past] at fault

theorem sound_step {a : Action} (keeps : c.Keeps) (hstep : step p c a = some c')
    (integrity : c'.Integrity) : c.Sound (.other a) := by
  unfold step at hstep
  rw [if_neg fun h => h keeps.fault] at hstep
  cases a with
  | doorbell qid tail =>
      cases hstep
      by_contra out
      have h := List.getElem?_eq_none_iff.2 (not_lt.1 out)
      unfold ringSQTailDoorbell at integrity
      rw [h] at integrity
      exact fail_fault c _ integrity.fault
  | fetchDone fetch entry =>
      obtain ⟨-, h⟩ := Option.ite_none_right_eq_some.1 hstep
      cases h
      by_contra freed
      have fault := integrity.fault
      unfold doRead at fault
      cases hq : c.queue? fetch.sqID with
      | none =>
          simp only [hq] at fault
          exact fail_fault c _ fault
      | some q =>
          simp only [hq, if_pos (Bool.not_eq_false _ ▸ freed)] at fault
          exact fail_fault c _ fault
  | abort sqid cid =>
      cases hstep
      exact sound_abort integrity
  | deleteSQueue sqid =>
      cases hstep
      exact sound_deleteSQueue keeps integrity
  | collect | queueFunction | handleRequest | complete | advance => trivial

theorem sound_of_integrity {a : QueueAction} (keeps : c.Keeps) (hstep : queueStep p c a = some c')
    (integrity : c'.Integrity) : c.Sound a := by
  rw [queueStep_eq keeps.fault] at hstep
  cases a with
  | createCQueue cqid iv =>
      cases hstep
      exact sound_createCQueue integrity
  | createSQueue sqid cqid size priority =>
      cases hstep
      exact sound_createSQueue integrity
  | deleteCQueue cqid =>
      cases hstep
      exact sound_deleteCQueue integrity
  | ringCQHeadDoorbell qid =>
      cases hstep
      by_contra out
      have h := List.getElem?_eq_none_iff.2 (not_lt.1 out)
      unfold ringCQHeadDoorbell at integrity
      rw [h] at integrity
      exact fail_fault c _ integrity.fault
  | completion => trivial
  | other action => exact sound_step keeps hstep integrity

/-- From a controller with its queues and no commands: in every state of a run all names are
of live completion queues, and no id is beyond its table and no pointer null, if and only
if every action of the run is sound. -/
theorem integrity_iff (p : Arbitration) (started : c.Started) (actions : List QueueAction) :
    Throughout (queueStep p) Integrity c actions ↔ EachAction (queueStep p) Sound c actions :=
  throughout_iff_eachAction (fun _ _ _ keeps sound hstep => keeps_queueStep keeps sound hstep)
    (fun _ keeps => keeps.toIntegrity)
    (fun _ _ _ keeps hstep integrity => sound_of_integrity keeps hstep integrity) started.keeps
    actions

/-! ## Runs -/

def adminQueues : Controller where
  tick := 0
  ppSQueue := [some ⟨0, 0, 0, 0, 0, 8⟩, none, none, none]
  ppCQueue := [some ⟨0, 0⟩, none, none, none]
  lSQFIFO := []
  lCQFIFO := []
  lSQByUser := .empty
  rrUsers := []
  lastUid := 0
  uidSQMap := []
  bootstrappedUsers := []
  requestCounter := 0
  lastWorkAt := 0
  requestEvent := none
  workEvent := none
  fetching := []
  executing := []
  fault := none
  fetched := 0
  executed := []
  aborted := []

def oneRound : Arbitration := ⟨true, .roundRobin, 2, 2, 4, 12500000, 50000000⟩

theorem adminQueues_started : adminQueues.Started where
  fault := rfl
  admin := rfl
  queue_cq := by
    intro i q hq
    match i, hq with
    | 0, rfl => exact ⟨⟨0, 0⟩, rfl⟩
    | 1, hq | 2, hq | 3, hq => cases hq
  fetched := rfl
  fetching := rfl
  staged := rfl
  executing := rfl
  lSQFIFO := rfl
  lCQFIFO := rfl
  executed := rfl
  aborted := rfl

/-- A pair of queues comes and goes, the submission queue first. -/
theorem integrity_iff_pair : Throughout (queueStep oneRound) Integrity adminQueues
    [.createCQueue 1 0, .createSQueue 1 1 8 0, .other (.doorbell 1 1), .deleteCQueue 1,
      .other (.deleteSQueue 1), .ringCQHeadDoorbell 1, .completion] := by
  apply (integrity_iff oneRound adminQueues_started _).2
  apply EachAction.cons rfl (by simp [Sound, adminQueues])
  apply EachAction.cons rfl ⟨by decide, by decide⟩
  apply EachAction.cons rfl (by simp [Sound, adminQueues, createCQueue, createSQueue, setQueue])
  apply EachAction.cons rfl
    ⟨by decide, fun _ _ => .inl ⟨1, ⟨1, 1, 0, 0, 1, 8⟩, by decide, by decide, rfl, rfl⟩⟩
  apply EachAction.cons rfl ⟨by decide, by decide⟩
  apply EachAction.cons rfl
  · exact show 1 < 4 by decide
  exact EachAction.cons rfl trivial trivial

/-- Both queues are deleted while a command of theirs is executed; both deletions succeed,
and the completion of the command meets no queue. -/
theorem completion_queue_missing :
    (∃ c, runActions (queueStep oneRound) adminQueues
      [.createCQueue 1 0, .createSQueue 1 1 8 0, .other (.doorbell 1 2), .other (.collect 3),
        .other (.fetchDone ⟨0, 1, 0, false⟩ ⟨7, 1, 1001, 0⟩),
        .other (.fetchDone ⟨1, 1, 1, false⟩ ⟨8, 1, 1001, 0⟩),
        .other (.handleRequest 0 (fun _ _ => false) fun _ => 512), .other (.deleteSQueue 1),
        .deleteCQueue 1, .other (.complete ⟨⟨7, 1, 1001, 0⟩, 1, 1, 2, 0, 0⟩ 0)] = some c ∧
      c.fault = some (.panic "nvme_ctrl: Completion Queue not created!")) ∧
    ¬Throughout (queueStep oneRound) Integrity adminQueues
      [.createCQueue 1 0, .createSQueue 1 1 8 0, .other (.doorbell 1 2), .other (.collect 3),
        .other (.fetchDone ⟨0, 1, 0, false⟩ ⟨7, 1, 1001, 0⟩),
        .other (.fetchDone ⟨1, 1, 1, false⟩ ⟨8, 1, 1001, 0⟩),
        .other (.handleRequest 0 (fun _ _ => false) fun _ => 512), .other (.deleteSQueue 1),
        .deleteCQueue 1, .other (.complete ⟨⟨7, 1, 1001, 0⟩, 1, 1, 2, 0, 0⟩ 0)] := by
  refine ⟨⟨_, rfl, rfl⟩, fun all => ?_⟩
  have final := all.2 _ rfl |>.2 _ rfl |>.2 _ rfl |>.2 _ rfl |>.2 _ rfl |>.2 _ rfl
    |>.2 _ rfl |>.2 _ rfl |>.2 _ rfl |>.2 _ rfl
  have fault := final.fault
  exact absurd fault (by decide)

end Controller

end SimpleSSD.HIL.NVMe
