import SimpleSSD.HIL.NVMe.Accounting

/-!
# Abort and Delete I/O Submission Queue

Both complete entries of `lSQFIFO` as aborted, while the commands to be executed
are staged for their users.  The loop of `deleteSQueue` passes over the entry
behind each one it erases.
-/

namespace SimpleSSD.HIL.NVMe

open SimpleSSD.Foundation

namespace Controller

variable {c c' : Controller} {req : SQEntryWrapper}

/-! ## Abort -/

theorem abort_of_absent {sqid cid : Nat}
    (absent : ∀ req ∈ c.lSQFIFO, ¬ (req.sqID = sqid ∧ req.entry.commandID = cid)) :
    c.abort sqid cid = (0, c) := by
  unfold abort
  rw [List.find?_eq_none.2 fun req hreq => by simpa using absent req hreq]

/-! ## Delete I/O Submission Queue -/

/-- Going through `lSQFIFO`, each entry of the queue that is met is a staged
command, and the entry behind it, which is passed over, is not. -/
def MeetsStaged (sqid : Nat) (stagedEntries : List SQEntryWrapper) :
    List SQEntryWrapper → Prop
  | [] => True
  | req :: rest =>
      if req.sqID = sqid then
        req ∈ stagedEntries ∧
          match rest with
          | [] => False
          | next :: rest =>
              (next.sqID = sqid → next ∉ stagedEntries) ∧ MeetsStaged sqid stagedEntries rest
      else MeetsStaged sqid stagedEntries rest

def erasedBy (sqid : Nat) : List SQEntryWrapper → List SQEntryWrapper
  | [] => []
  | req :: rest =>
      if req.sqID = sqid then
        req :: match rest with
          | [] => []
          | _ :: rest => erasedBy sqid rest
      else erasedBy sqid rest

def leftBy (sqid : Nat) : List SQEntryWrapper → List SQEntryWrapper
  | [] => []
  | req :: rest =>
      if req.sqID = sqid then
        match rest with
        | [] => []
        | next :: rest => next :: leftBy sqid rest
      else req :: leftBy sqid rest

/-- The loop erases the last entry of the list and then advances from its end. -/
def runsPast (sqid : Nat) : List SQEntryWrapper → Bool
  | [] => false
  | req :: rest =>
      if req.sqID = sqid then
        match rest with
        | [] => true
        | _ :: rest => runsPast sqid rest
      else runsPast sqid rest

section Loop

variable {sqid : Nat} {rest : List SQEntryWrapper}

@[elab_as_elim]
theorem loop_induction (sqid : Nat) {motive : List SQEntryWrapper → Prop} (nil : motive [])
    (last : ∀ req, req.sqID = sqid → motive [req])
    (erased : ∀ req next rest, req.sqID = sqid → motive rest → motive (req :: next :: rest))
    (other : ∀ req rest, req.sqID ≠ sqid → motive rest → motive (req :: rest)) :
    ∀ l, motive l
  | [] => nil
  | [req] =>
      if here : req.sqID = sqid then last req here else other req [] here nil
  | req :: next :: rest =>
      if here : req.sqID = sqid then
        erased req next rest here (loop_induction sqid nil last erased other rest)
      else other req (next :: rest) here (loop_induction sqid nil last erased other (next :: rest))

theorem erasedBy_of_ne (other : req.sqID ≠ sqid) :
    erasedBy sqid (req :: rest) = erasedBy sqid rest := by
  cases rest <;> simp [erasedBy, other]

theorem leftBy_of_ne (other : req.sqID ≠ sqid) :
    leftBy sqid (req :: rest) = req :: leftBy sqid rest := by
  cases rest <;> simp [leftBy, other]

theorem runsPast_of_ne (other : req.sqID ≠ sqid) :
    runsPast sqid (req :: rest) = runsPast sqid rest := by
  cases rest <;> simp [runsPast, other]

end Loop

theorem submitAborted_of_hasCQ {sqHead status : Nat} (h : c.HasCQ req.cqID) :
    c.submitAborted sqHead status req = { c with
      aborted := c.aborted ++ [req.ticket]
      lCQFIFO := insertBySubmitAt
        { CQEntryWrapper.respond req sqHead status with submitAt := c.tick } c.lCQFIFO } :=
  submit_of_hasCQ (c := { c with aborted := c.aborted ++ [req.ticket] })
    (show HasCQ _ (CQEntryWrapper.respond req sqHead status).cqID from h)

/-- `c'` is `c` after the commands `erased` were completed as aborted, with the
fault of an iterator that ran past the end. -/
def Aborts (c : Controller) (erased : List SQEntryWrapper) (past : Bool) (c' : Controller) :
    Prop :=
  ∃ fifo, c' = { c with
      lCQFIFO := fifo
      aborted := c.aborted ++ erased.map SQEntryWrapper.ticket
      fault := if past then some .undefined else c.fault } ∧
    ∀ t, List.count t (fifo.map CQEntryWrapper.ticket) =
      List.count t c.completed + List.count t (erased.map SQEntryWrapper.ticket)

theorem Aborts.none : c.Aborts [] false c :=
  ⟨c.lCQFIFO, by simp, by simp [completed]⟩

theorem Aborts.past : c.Aborts [] true (c.fail .undefined) :=
  ⟨c.lCQFIFO, by simp [fail], by simp [completed]⟩

theorem Aborts.cons {sqHead status : Nat} {erased : List SQEntryWrapper} {past : Bool}
    (cq : c.HasCQ req.cqID)
    (rest : (c.submitAborted sqHead status req).Aborts erased past c') :
    c.Aborts (req :: erased) past c' := by
  obtain ⟨fifo, rfl, counts⟩ := rest
  rw [submitAborted_of_hasCQ cq] at counts ⊢
  refine ⟨fifo, by simp, fun t => ?_⟩
  have split : List.count t ((req :: erased).map SQEntryWrapper.ticket) =
      List.count t [req.ticket] + List.count t (erased.map SQEntryWrapper.ticket) := by
    rw [List.map_cons, ← List.singleton_append, List.count_append]
  simp only [counts t, completed, count_insert, CQEntryWrapper.respond, split]
  omega

theorem HasCQ.submitAborted {cqID sqHead status : Nat} {other : SQEntryWrapper}
    (cq : c.HasCQ cqID) (h : c.HasCQ other.cqID) :
    (c.submitAborted sqHead status other).HasCQ cqID := by
  rw [submitAborted_of_hasCQ h]
  exact cq

theorem abortQueue_aborts (sqid sqHead : Nat) (l : List SQEntryWrapper) (c : Controller)
    (h : ∀ req ∈ l, c.HasCQ req.cqID) :
    (abortQueue sqid sqHead l c).1 = leftBy sqid l ∧
      c.Aborts (erasedBy sqid l) (runsPast sqid l) (abortQueue sqid sqHead l c).2 := by
  induction l, c using abortQueue.induct sqid sqHead with
  | case1 c => exact ⟨rfl, Aborts.none⟩
  | case2 req c here =>
      simp only [abortQueue, leftBy, erasedBy, runsPast, here, if_true, true_and]
      exact Aborts.cons (h req List.mem_cons_self) Aborts.past
  | case3 req c here mid next rest left c' heq ih =>
      have cq := h req List.mem_cons_self
      obtain ⟨hleft, aborts⟩ := ih fun other hmem =>
        (h other (List.mem_cons_of_mem _ (List.mem_cons_of_mem _ hmem))).submitAborted cq
      simp only [abortQueue, leftBy, erasedBy, runsPast, here, if_true]
      exact ⟨congrArg _ hleft, Aborts.cons cq aborts⟩
  | case4 req rest c other left c' heq ih =>
      obtain ⟨hleft, aborts⟩ := ih fun other hmem => h other (List.mem_cons_of_mem _ hmem)
      rw [erasedBy_of_ne other, leftBy_of_ne other, runsPast_of_ne other]
      simp only [abortQueue, other, if_false]
      exact ⟨congrArg _ hleft, aborts⟩

section Loop

variable {sqid : Nat} {l : List SQEntryWrapper}

theorem sqID_of_erasedBy (h : req ∈ erasedBy sqid l) : req.sqID = sqid := by
  induction l using loop_induction sqid with
  | nil => cases h
  | last first here =>
      simp only [erasedBy, here, if_true, List.mem_singleton] at h
      rw [h, here]
  | erased first next rest here ih =>
      simp only [erasedBy, here, if_true] at h
      rcases List.mem_cons.1 h with rfl | later
      · exact here
      · exact ih later
  | other first rest other ih =>
      rw [erasedBy_of_ne other] at h
      exact ih h

theorem erasedBy_append_leftBy (sqid : Nat) (l : List SQEntryWrapper) :
    (erasedBy sqid l ++ leftBy sqid l).Perm l := by
  induction l using loop_induction sqid with
  | nil => exact List.Perm.refl _
  | last first here => simp [erasedBy, leftBy, here]
  | erased first next rest here ih =>
      simp only [erasedBy, leftBy, here, if_true, List.cons_append]
      exact (List.perm_middle.trans (ih.cons next)).cons first
  | other first rest other ih =>
      rw [erasedBy_of_ne other, leftBy_of_ne other]
      exact List.perm_middle.trans (ih.cons first)

theorem leftBy_sublist (sqid : Nat) (l : List SQEntryWrapper) : (leftBy sqid l).Sublist l := by
  induction l using loop_induction sqid with
  | nil => exact List.Sublist.refl _
  | last first here => simp [leftBy, here]
  | erased first next rest here ih =>
      simp only [leftBy, here, if_true]
      exact (ih.cons_cons next).cons first
  | other first rest other ih =>
      rw [leftBy_of_ne other]
      exact ih.cons_cons first

theorem meetsStaged_iff (sqid : Nat) (stagedEntries l : List SQEntryWrapper) :
    MeetsStaged sqid stagedEntries l ↔
      runsPast sqid l = false ∧ (∀ req ∈ erasedBy sqid l, req ∈ stagedEntries) ∧
        ∀ req ∈ leftBy sqid l, req.sqID = sqid → req ∉ stagedEntries := by
  induction l using loop_induction sqid with
  | nil => simp [MeetsStaged, runsPast, erasedBy, leftBy]
  | last first here => simp [MeetsStaged, runsPast, here]
  | erased first next rest here ih =>
      simp only [MeetsStaged, runsPast, erasedBy, leftBy, here, if_true, ih,
        List.forall_mem_cons]
      tauto
  | other first rest other ih =>
      rw [erasedBy_of_ne other, leftBy_of_ne other, runsPast_of_ne other, List.forall_mem_cons]
      have unfold : MeetsStaged sqid stagedEntries (first :: rest) ↔
          MeetsStaged sqid stagedEntries rest := by
        cases rest <;> simp [MeetsStaged, other]
      rw [unfold, ih]
      simp [other]

instance (stagedEntries : List SQEntryWrapper) :
    Decidable (MeetsStaged sqid stagedEntries l) :=
  decidable_of_iff _ (meetsStaged_iff sqid stagedEntries l).symm

end Loop

/-- What Delete I/O Submission Queue leaves of `c` when the queue exists. -/
structure Deleted (sqid : Nat) (c c' : Controller) : Prop where
  fault : c'.fault = if runsPast sqid c.lSQFIFO then some .undefined else none
  fetched : c'.fetched = c.fetched
  fetching : c'.fetching =
    c.fetching.map fun f => if f.sqID = sqid then { f with freed := true } else f
  executing : c'.executing = c.executing
  executed : c'.executed = c.executed
  aborted : c'.aborted = c.aborted ++ (erasedBy sqid c.lSQFIFO).map SQEntryWrapper.ticket
  lSQFIFO : c'.lSQFIFO = leftBy sqid c.lSQFIFO
  lSQByUser : c'.lSQByUser = c.lSQByUser.filter fun req => req.sqID ≠ sqid
  rrUsers : ∀ uid ∈ c.rrUsers, c'.lSQByUser.get uid ≠ [] → uid ∈ c'.rrUsers
  ppCQueue : c'.ppCQueue = c.ppCQueue
  queue : ∀ j, c'.queue? j = if j = sqid then none else c.queue? j
  completed : ∀ t, List.count t c'.completed = List.count t c.completed +
    List.count t ((erasedBy sqid c.lSQFIFO).map SQEntryWrapper.ticket)

theorem dropped_empty {uid : UserID} {m : QueueMap UserID SQEntryWrapper}
    {uidSQMap : List (UserID × List Nat)} (h : uid ∈ droppedUsers m uidSQMap) :
    m.get uid = [] := by
  obtain ⟨user, hmem, rfl⟩ := List.mem_map.1 h
  have := (List.mem_filter.1 hmem).2
  simp only [Bool.decide_and, Bool.and_eq_true, decide_eq_true_eq, List.isEmpty_iff] at this
  exact this.1

theorem mem_rrUsers_purge {sqid : Nat} {uid : UserID} (hmem : uid ∈ c.rrUsers)
    (nonempty : (c.purgeSQFromUserQueues sqid).lSQByUser.get uid ≠ []) :
    uid ∈ (c.purgeSQFromUserQueues sqid).rrUsers :=
  List.mem_filter.2 ⟨hmem, decide_eq_true fun h => nonempty (dropped_empty h)⟩

theorem deleteSQueue_deleted {sqid : Nat} {q : SQueue} (inv : c.Inv) (pos : 0 < sqid)
    (hq : c.queue? sqid = some q) : Deleted sqid c (c.deleteSQueue sqid).2 := by
  have entry : c.ppSQueue[sqid]? = some (some q) := by
    simpa [queue?, Option.join_eq_some_iff] using hq
  obtain ⟨hleft, fifo, haborts, counts⟩ :=
    abortQueue_aborts sqid q.head c.lSQFIFO c inv.fifo_cq
  unfold deleteSQueue
  rw [entry]
  simp only [pos, if_true]
  rw [hleft, haborts, inv.fault]
  exact {
    fault := rfl
    fetched := rfl
    fetching := rfl
    executing := rfl
    executed := rfl
    aborted := rfl
    lSQFIFO := rfl
    lSQByUser := rfl
    rrUsers := fun uid hmem nonempty => mem_rrUsers_purge hmem nonempty
    ppCQueue := rfl
    queue := fun j => queue?_setQueue (lt_of_queue? hq)
    completed := counts }

theorem count_filter_split {α : Type*} (ticket : α → Nat) (p : α → Bool) (l : List α) (t : Nat) :
    List.count t (l.map ticket) =
      List.count t ((l.filter p).map ticket) +
        List.count t ((l.filter fun x => !p x).map ticket) := by
  rw [← List.count_append, ← List.map_append]
  exact (((List.filter_append_perm p l).map ticket).count_eq t).symm

section Delete

variable {sqid : Nat}

def purged (sqid : Nat) (c : Controller) : List SQEntryWrapper :=
  c.lSQByUser.all.filter fun req => req.sqID = sqid

theorem count_staged_split (sqid : Nat) (c : Controller) (t : Nat) :
    List.count t c.staged = List.count t ((c.purged sqid).map SQEntryWrapper.ticket) +
      List.count t ((c.lSQByUser.filter fun req => req.sqID ≠ sqid).all.map
        SQEntryWrapper.ticket) := by
  rw [QueueMap.all_filter]
  have := count_filter_split SQEntryWrapper.ticket (fun req => decide (req.sqID = sqid))
    c.lSQByUser.all t
  simpa [purged, staged] using this

/-- When the entries of the queue that are met are staged, the loop erases what
the purge removes. -/
theorem erasedBy_perm_purged (inv : c.Inv)
    (meets : MeetsStaged sqid c.lSQByUser.all c.lSQFIFO) :
    (erasedBy sqid c.lSQFIFO).Perm (c.purged sqid) := by
  obtain ⟨-, erased, left⟩ := (meetsStaged_iff _ _ _).1 meets
  have perm := erasedBy_append_leftBy sqid c.lSQFIFO
  have nodupFifo : (erasedBy sqid c.lSQFIFO ++ leftBy sqid c.lSQFIFO).Nodup :=
    perm.nodup_iff.2 (List.Nodup.of_map _ inv.fifo_nodup)
  have nodupStaged : c.lSQByUser.all.Nodup := by
    have := (List.nodup_append.1 inv.nodup).2.1
    exact List.Nodup.of_map _
      (List.nodup_append.1 (List.nodup_append.1 this).1).2.1
  refine (List.perm_ext_iff_of_nodup (List.nodup_append.1 nodupFifo).1
    (nodupStaged.filter _)).2 fun req => ?_
  simp only [List.mem_filter, decide_eq_true_eq]
  refine ⟨fun h => ⟨erased req h, sqID_of_erasedBy h⟩, fun ⟨hstaged, same⟩ => ?_⟩
  rcases List.mem_append.1 (perm.mem_iff.2 (inv.staged_fifo req hstaged)) with h | h
  · exact h
  · exact absurd hstaged (left req h same)

theorem meetsStaged_of_count (inv : c.Inv) (stays : runsPast sqid c.lSQFIFO = false)
    (counts : ∀ t, List.count t ((erasedBy sqid c.lSQFIFO).map SQEntryWrapper.ticket) =
      List.count t ((c.purged sqid).map SQEntryWrapper.ticket)) :
    MeetsStaged sqid c.lSQByUser.all c.lSQFIFO := by
  have perm := erasedBy_append_leftBy sqid c.lSQFIFO
  have tickets : ((erasedBy sqid c.lSQFIFO).map SQEntryWrapper.ticket).Perm
      ((c.purged sqid).map SQEntryWrapper.ticket) := List.perm_iff_count.2 counts
  have same : ∀ req ∈ c.lSQFIFO, ∀ other ∈ c.lSQFIFO, req.ticket = other.ticket →
      req = other := fun _ h _ h' => List.inj_on_of_nodup_map inv.fifo_nodup h h'
  have nodup : (erasedBy sqid c.lSQFIFO ++ leftBy sqid c.lSQFIFO).Nodup :=
    perm.nodup_iff.2 (List.Nodup.of_map _ inv.fifo_nodup)
  refine (meetsStaged_iff _ _ _).2 ⟨stays, fun req h => ?_, fun req h hsq hstaged => ?_⟩
  · obtain ⟨other, hother, hticket⟩ :=
      List.mem_map.1 (tickets.mem_iff.1 (List.mem_map_of_mem h))
    have staged := (List.mem_filter.1 hother).1
    have : other = req := same other (inv.staged_fifo other staged) req
      (perm.mem_iff.1 (List.mem_append_left _ h)) hticket
    exact this ▸ staged
  · have hpurged : req ∈ c.purged sqid := List.mem_filter.2 ⟨hstaged, by simpa using hsq⟩
    obtain ⟨other, hother, hticket⟩ :=
      List.mem_map.1 (tickets.mem_iff.2 (List.mem_map_of_mem hpurged))
    have : other = req := same other (perm.mem_iff.1 (List.mem_append_left _ hother)) req
      (inv.staged_fifo req hstaged) hticket
    exact (List.nodup_append.1 nodup).2.2 other hother req h this

theorem Deleted.inv (deleted : Deleted sqid c c') (inv : c.Inv) (pos : 0 < sqid)
    (idle : ∀ f ∈ c.fetching, f.sqID ≠ sqid)
    (meets : MeetsStaged sqid c.lSQByUser.all c.lSQFIFO) : c'.Inv := by
  have erased := erasedBy_perm_purged inv meets
  have left := leftBy_sublist sqid c.lSQFIFO
  have stays := ((meetsStaged_iff _ _ _).1 meets).1
  have fetching : c'.fetching = c.fetching := by
    rw [deleted.fetching]
    conv_rhs => rw [← List.map_id c.fetching]
    exact List.map_congr_left fun f hf => if_neg (idle f hf)
  have hasCQ {cqID : Nat} (h : c.HasCQ cqID) : c'.HasCQ cqID := by
    unfold HasCQ
    rwa [deleted.ppCQueue]
  exact {
    fault := by simp [deleted.fault, stays]
    accounted := by
      refine List.perm_iff_count.2 fun t => ?_
      have before := inv.accounted.count_eq t
      have split := count_staged_split sqid c t
      have same := (erased.map SQEntryWrapper.ticket).count_eq t
      simp only [List.count_append, deleted.completed, fetching, deleted.fetched, staged,
        deleted.lSQByUser, inSubsystem, deleted.executing] at before split ⊢
      omega
    balance := by
      refine List.perm_iff_count.2 fun t => ?_
      have before := inv.balance.count_eq t
      simp only [List.count_append, deleted.completed, inSubsystem, deleted.executing,
        deleted.aborted, deleted.executed] at before ⊢
      omega
    objects := by
      intro f hf
      rw [fetching] at hf
      rw [deleted.queue, if_neg (idle f hf)]
      exact inv.objects f hf
    fifo_nodup := by
      rw [deleted.lSQFIFO]
      exact inv.fifo_nodup.sublist (left.map _)
    fifo_fetched := by
      intro req h
      rw [deleted.lSQFIFO] at h
      rw [deleted.fetched]
      exact inv.fifo_fetched req (left.subset h)
    fifo_read := by
      intro req h
      rw [deleted.lSQFIFO] at h
      rw [fetching]
      exact inv.fifo_read req (left.subset h)
    staged_fifo := by
      intro req h
      rw [deleted.lSQByUser, QueueMap.all_filter] at h
      obtain ⟨hstaged, other⟩ := List.mem_filter.1 h
      have hmem := (erasedBy_append_leftBy sqid c.lSQFIFO).mem_iff.2
        (inv.staged_fifo req hstaged)
      rw [deleted.lSQFIFO]
      rcases List.mem_append.1 hmem with h' | h'
      · exact absurd (sqID_of_erasedBy h') (by simpa using other)
      · exact h'
    queue_cq := by
      intro j other hj
      rw [deleted.queue] at hj
      split at hj
      · cases hj
      · exact hasCQ (inv.queue_cq j other hj)
    fifo_cq := by
      intro req h
      rw [deleted.lSQFIFO] at h
      exact hasCQ (inv.fifo_cq req (left.subset h))
    executing_cq := by
      intro req h
      rw [deleted.executing] at h
      exact hasCQ (inv.executing_cq req h)
    admin := by
      rw [deleted.queue, if_neg pos.ne]
      exact inv.admin
    users := by
      intro uid nonempty
      refine deleted.rrUsers uid (inv.users uid fun hempty => nonempty ?_) nonempty
      rw [deleted.lSQByUser, QueueMap.get_filter, hempty]
      rfl }

theorem Deleted.meets (deleted : Deleted sqid c c') (inv : c.Inv) (fault : c'.fault = none)
    (accounted : (c'.completed ++ (c'.reading ++ c'.staged ++ c'.inSubsystem)).Perm
      (List.range c'.fetched)) :
    (∀ f ∈ c.fetching, f.sqID ≠ sqid) ∧ MeetsStaged sqid c.lSQByUser.all c.lSQFIFO := by
  have stays : runsPast sqid c.lSQFIFO = false := by
    rw [deleted.fault] at fault
    simpa using fault
  have reading : c'.reading =
      (c.fetching.filter fun f => !decide (f.sqID = sqid)).map Fetch.ticket := by
    rw [Controller.reading, deleted.fetching, List.filter_map, List.map_map]
    rw [List.filter_congr (q := fun f => !decide (f.sqID = sqid)) ?_]
    · refine List.map_congr_left fun f _ => ?_
      dsimp only [Function.comp]
      split <;> rfl
    · intro f hf
      have live := (inv.objects f hf).1
      by_cases same : f.sqID = sqid
      · simp [same]
      · simp [same, live]
  have counts (t : Nat) :
      List.count t ((erasedBy sqid c.lSQFIFO).map SQEntryWrapper.ticket) =
        List.count t ((c.fetching.filter fun f => decide (f.sqID = sqid)).map Fetch.ticket) +
          List.count t ((c.purged sqid).map SQEntryWrapper.ticket) := by
    have before := inv.accounted.count_eq t
    have after := accounted.count_eq t
    have split := count_staged_split sqid c t
    have fetches := count_filter_split Fetch.ticket (fun f => decide (f.sqID = sqid))
      c.fetching t
    simp only [List.count_append, deleted.completed, reading, deleted.fetched, staged,
      deleted.lSQByUser, inSubsystem, deleted.executing] at before after split
    omega
  have idle : ∀ f ∈ c.fetching, f.sqID ≠ sqid := by
    intro f hf same
    have found : f.ticket ∈
        (c.fetching.filter fun f => decide (f.sqID = sqid)).map Fetch.ticket :=
      List.mem_map_of_mem (List.mem_filter.2 ⟨hf, by simpa using same⟩)
    have pos := List.count_pos_iff.2 found
    have : f.ticket ∈ (erasedBy sqid c.lSQFIFO).map SQEntryWrapper.ticket := by
      refine List.count_pos_iff.1 ?_
      rw [counts]
      omega
    obtain ⟨req, hreq, hticket⟩ := List.mem_map.1 this
    have hfifo := (erasedBy_append_leftBy sqid c.lSQFIFO).mem_iff.1
      (List.mem_append_left _ hreq)
    exact inv.fifo_read req hfifo (hticket ▸ List.mem_map_of_mem hf)
  refine ⟨idle, meetsStaged_of_count inv stays fun t => ?_⟩
  have none : (c.fetching.filter fun f => decide (f.sqID = sqid)) = [] :=
    List.filter_eq_nil_iff.2 fun f hf => by simpa using idle f hf
  rw [counts, none]
  simp

end Delete

theorem absent_of_accounted {sqid cid : Nat} (inv : c.Inv)
    (fault : (c.abort sqid cid).2.fault = none)
    (accounted : ((c.abort sqid cid).2.completed ++ ((c.abort sqid cid).2.reading ++
      (c.abort sqid cid).2.staged ++ (c.abort sqid cid).2.inSubsystem)).Perm
      (List.range (c.abort sqid cid).2.fetched)) :
    ∀ req ∈ c.lSQFIFO, ¬ (req.sqID = sqid ∧ req.entry.commandID = cid) := by
  unfold abort at fault accounted
  split at accounted
  next hnone =>
    intro req hreq
    simpa using List.find?_eq_none.1 hnone req hreq
  next req hfind =>
    rw [hfind] at fault
    dsimp only at fault
    split at accounted
    next hq =>
      rw [hq] at fault
      cases fault
    next q hq =>
      have cq := inv.fifo_cq req (List.mem_of_find?_eq_some hfind)
      rw [submitAborted_of_hasCQ cq] at accounted
      have before := inv.accounted.count_eq req.ticket
      have after := accounted.count_eq req.ticket
      have reading := inv.reading_eq
      simp only [completed, staged, inSubsystem, List.count_append, count_insert,
        CQEntryWrapper.respond, List.count_singleton_self] at before after
      change _ + (List.count _ c.reading + _ + _) = _ at after
      rw [reading] at after
      omega
end Controller

end SimpleSSD.HIL.NVMe
