import SimpleSSD.Foundation.Transition
import SimpleSSD.HIL.NVMe.Controller

/-!
# What is owed to the host

Every fetch has a ticket.  The invariant accounts for each ticket once: it is
completed, or its command is being read, staged for its user or inside the
subsystem.  Doorbells, collection, fetches, dispatch and completion keep it.
-/

namespace SimpleSSD.HIL.NVMe

open SimpleSSD.Foundation Relation

namespace Controller

def completed (c : Controller) : List Nat := c.lCQFIFO.map CQEntryWrapper.ticket

def reading (c : Controller) : List Nat :=
  (c.fetching.filter fun f => !f.freed).map Fetch.ticket

def staged (c : Controller) : List Nat := c.lSQByUser.all.map SQEntryWrapper.ticket

def inSubsystem (c : Controller) : List Nat := c.executing.map SQEntryWrapper.ticket

/-! ## The invariant -/

def HasCQ (c : Controller) (cqID : Nat) : Prop := ∃ q, c.ppCQueue[cqID]? = some (some q)

structure Inv (c : Controller) : Prop where
  fault : c.fault = none
  accounted : (c.completed ++ (c.fetching.map Fetch.ticket ++ c.staged ++ c.inSubsystem)).Perm
    (List.range c.fetched)
  balance : (c.completed ++ c.inSubsystem).Perm (c.aborted ++ c.executed)
  objects : ∀ f ∈ c.fetching, f.freed = false ∧ (c.queue? f.sqID).isSome
  fifo_nodup : (c.lSQFIFO.map SQEntryWrapper.ticket).Nodup
  fifo_fetched : ∀ req ∈ c.lSQFIFO, req.ticket < c.fetched
  fifo_read : ∀ req ∈ c.lSQFIFO, req.ticket ∉ c.fetching.map Fetch.ticket
  staged_fifo : ∀ req ∈ c.lSQByUser.all, req ∈ c.lSQFIFO
  queue_cq : ∀ i q, c.queue? i = some q → c.HasCQ q.cqID
  fifo_cq : ∀ req ∈ c.lSQFIFO, c.HasCQ req.cqID
  executing_cq : ∀ req ∈ c.executing, c.HasCQ req.cqID
  admin : (c.queue? 0).isSome
  users : ∀ uid, c.lSQByUser.get uid ≠ [] → uid ∈ c.rrUsers

/-- A controller that has its admin queues and other queues and no commands yet. -/
structure Started (c : Controller) : Prop where
  fault : c.fault = none
  admin : (c.queue? 0).isSome
  queue_cq : ∀ i q, c.queue? i = some q → c.HasCQ q.cqID
  fetched : c.fetched = 0
  fetching : c.fetching = []
  staged : c.lSQByUser.all = []
  executing : c.executing = []
  lSQFIFO : c.lSQFIFO = []
  lCQFIFO : c.lCQFIFO = []
  executed : c.executed = []
  aborted : c.aborted = []

variable {p : Arbitration} {c c' : Controller} {req : SQEntryWrapper}

theorem Started.inv (h : c.Started) : c.Inv where
  fault := h.fault
  accounted := by
    simp [completed, Controller.staged, inSubsystem, h.lCQFIFO, h.fetching, h.staged,
      h.executing, h.fetched]
  balance := by simp [completed, inSubsystem, h.lCQFIFO, h.executing, h.executed, h.aborted]
  objects := by simp [h.fetching]
  fifo_nodup := by simp [h.lSQFIFO]
  fifo_fetched := by simp [h.lSQFIFO]
  fifo_read := by simp [h.lSQFIFO]
  staged_fifo := by simp [h.staged]
  queue_cq := h.queue_cq
  fifo_cq := by simp [h.lSQFIFO]
  executing_cq := by simp [h.executing]
  admin := h.admin
  users := by
    intro uid nonempty
    obtain ⟨req, hreq⟩ := List.exists_mem_of_ne_nil _ nonempty
    have := QueueMap.mem_all_of_get hreq
    rw [h.staged] at this
    cases this

theorem Inv.reading_eq (inv : c.Inv) : c.reading = c.fetching.map Fetch.ticket := by
  unfold reading
  rw [List.filter_eq_self.2 fun f hf => by simp [(inv.objects f hf).1]]

theorem Inv.nodup (inv : c.Inv) :
    (c.completed ++ (c.fetching.map Fetch.ticket ++ c.staged ++ c.inSubsystem)).Nodup :=
  inv.accounted.nodup_iff.2 List.nodup_range

theorem Inv.apart (inv : c.Inv) : ∀ t ∈ c.aborted, t ∉ c.executed := by
  have nodup : (c.completed ++ c.inSubsystem).Nodup :=
    inv.nodup.sublist ((List.sublist_append_right _ _).append_left _)
  have := inv.balance.nodup_iff.1 nodup
  exact fun t ha he => (List.nodup_append.1 this).2.2 t ha t he rfl

/-! ## Completion entries -/

theorem insertBySubmitAt_perm (entry : CQEntryWrapper) (fifo : List CQEntryWrapper) :
    (insertBySubmitAt entry fifo).Perm (entry :: fifo) := by
  unfold insertBySubmitAt
  refine List.perm_middle.trans ?_
  rw [List.takeWhile_append_dropWhile]

theorem submit_of_hasCQ {entry : CQEntryWrapper} (h : c.HasCQ entry.cqID) :
    c.submit entry =
      { c with lCQFIFO := insertBySubmitAt { entry with submitAt := c.tick } c.lCQFIFO } := by
  obtain ⟨q, hq⟩ := h
  simp [submit, hq]

theorem count_insert (entry : CQEntryWrapper) (fifo : List CQEntryWrapper) (t : Nat) :
    List.count t ((insertBySubmitAt entry fifo).map CQEntryWrapper.ticket) =
      List.count t [entry.ticket] + List.count t (fifo.map CQEntryWrapper.ticket) := by
  rw [((insertBySubmitAt_perm entry fifo).map _).count_eq, List.map_cons, ← List.count_append]
  rfl

theorem count_erase {α : Type*} [DecidableEq α] (ticket : α → Nat) {l : List α} {x : α}
    (hmem : x ∈ l) (t : Nat) :
    List.count t (l.map ticket) =
      List.count t [ticket x] + List.count t ((l.erase x).map ticket) := by
  rw [((List.perm_cons_erase hmem).map ticket).count_eq, List.map_cons, ← List.count_append]
  rfl

/-! ## Doorbells and fetches -/

theorem queue?_setQueue {i j : Nat} {q : Option SQueue} (h : i < c.ppSQueue.length) :
    (c.setQueue i q).queue? j = if j = i then q else c.queue? j := by
  simp only [queue?, setQueue, List.getElem?_set]
  by_cases same : i = j
  · subst same
    simp [h]
  · simp [same, Ne.symm same]

theorem lt_of_queue? {i : Nat} {q : SQueue} (h : c.queue? i = some q) :
    i < c.ppSQueue.length := by
  by_contra out
  rw [queue?, List.getElem?_eq_none (not_lt.1 out)] at h
  cases h

theorem inv_setQueue {i : Nat} {q q' : SQueue} (inv : c.Inv) (hq : c.queue? i = some q)
    (same : q'.cqID = q.cqID) : (c.setQueue i (some q')).Inv :=
  have lt := lt_of_queue? hq
  { inv with
    objects := by
      intro f hf
      refine ⟨(inv.objects f hf).1, ?_⟩
      rw [queue?_setQueue lt]
      split
      · rfl
      · exact (inv.objects f hf).2
    queue_cq := by
      intro j other hj
      rw [queue?_setQueue lt] at hj
      split at hj
      · cases hj
        rw [same]
        exact inv.queue_cq i q hq
      · exact inv.queue_cq j other hj
    admin := by
      rw [queue?_setQueue lt]
      split
      · rfl
      · exact inv.admin }

theorem inv_doorbell {qid tail : Nat} (inv : c.Inv) (lt : qid < c.ppSQueue.length) :
    (c.ringSQTailDoorbell qid tail).Inv := by
  unfold ringSQTailDoorbell
  split
  next h => exact absurd (List.getElem?_eq_none_iff.1 h) (not_le.2 lt)
  next => exact inv
  next q h => exact inv_setQueue (q := q) inv (by simp [queue?, h]) rfl

theorem inv_checkQueue {i : Nat} (inv : c.Inv) (h : c.checkQueue i = some c') : c'.Inv := by
  unfold checkQueue at h
  split at h
  · cases h
  next q hq =>
    split at h
    · cases h
      have moved : q.getData.cqID = q.cqID := by
        unfold SQueue.getData
        split <;> rfl
      have inv' := inv_setQueue inv hq moved
      exact { inv' with
        accounted := by
          refine List.perm_iff_count.2 fun t => ?_
          have := inv.accounted.count_eq t
          rw [List.range_succ]
          change List.count t (c.completed ++ (List.map _ (c.fetching ++ [_]) ++ c.staged ++
            c.inSubsystem)) = _
          simp only [List.map_append, List.map_cons, List.map_nil, List.count_append] at this ⊢
          omega
        objects := by
          intro f hf
          rcases List.mem_append.1 hf with old | new
          · exact inv'.objects f old
          · rw [List.mem_singleton.1 new]
            refine ⟨rfl, ?_⟩
            change ((c.setQueue i (some q.getData)).queue? i).isSome
            rw [queue?_setQueue (lt_of_queue? hq), if_pos rfl]
            rfl
        fifo_read := by
          intro req hreq hmem
          rw [List.map_append] at hmem
          rcases List.mem_append.1 hmem with old | new
          · exact inv.fifo_read req hreq old
          · exact absurd (List.mem_singleton.1 new) (inv.fifo_fetched req hreq).ne
        fifo_fetched := fun req hreq => (inv.fifo_fetched req hreq).trans (Nat.lt_succ_self _) }
    · cases h

/-! ## Collecting the queues -/

/-- The loops of `collectSQueue` do nothing but start fetches. -/
def Checks : Controller → Controller → Prop :=
  ReflTransGen fun c c' => ∃ i, c.checkQueue i = some c'

theorem Checks.inv (h : Checks c c') (inv : c.Inv) : c'.Inv :=
  invariant_of_steps (fun _ _ ⟨_, hstep⟩ inv => inv_checkQueue inv hstep) h inv

theorem checks_of_ite {i : Nat} {wanted : Prop} [Decidable wanted]
    (h : (if wanted then c.checkQueue i else none) = some c') : Checks c c' := by
  split at h
  · exact ReflTransGen.single ⟨i, h⟩
  · cases h

theorem sweep_checks (wanted : SQueue → Bool) (indices : List Nat)
    (state : Controller × Nat) : Checks state.1 (sweep wanted indices state).1 := by
  induction indices generalizing state with
  | nil => exact ReflTransGen.refl
  | cons i rest ih =>
      obtain ⟨c, updated⟩ := state
      unfold sweep
      split
      · split
        next c' h => exact (checks_of_ite h).trans (ih (c', _))
        next => exact ih _
      · exact ih _

theorem sweepUntilIdle_checks (wanted : SQueue → Bool) (indices : List Nat) {fuel : Nat}
    (h : sweepUntilIdle wanted indices fuel c = some c') : Checks c c' := by
  induction fuel generalizing c with
  | zero => cases h
  | succ fuel ih =>
      have first := sweep_checks wanted indices (c, 0)
      unfold sweepUntilIdle at h
      dsimp only at h
      split at h
      · cases h
        exact first
      · exact first.trans (ih h)

theorem drainQueue_checks {i fuel : Nat} (h : drainQueue i fuel c = some c') :
    Checks c c' := by
  induction fuel generalizing c with
  | zero => cases h
  | succ fuel ih =>
      unfold drainQueue at h
      split at h
      · cases h
        exact ReflTransGen.refl
      next mid first => exact ReflTransGen.head ⟨i, first⟩ (ih h)

theorem weightedSweep_checks (priority weight : Nat) (indices : List Nat) (s : Sweep) :
    Checks s.c (weightedSweep priority weight indices s).c := by
  induction indices generalizing s with
  | nil => exact ReflTransGen.refl
  | cons i rest ih =>
      unfold weightedSweep
      split
      · split
        next c' h =>
          dsimp only
          split
          · exact checks_of_ite h
          · exact (checks_of_ite h).trans (ih ⟨c', _, _⟩)
        next => exact ih _
      · exact ih _

theorem singleSweep_checks (priority : Nat) (indices : List Nat) (s : Sweep) :
    Checks s.c (singleSweep priority indices s).c := by
  induction indices generalizing s with
  | nil => exact ReflTransGen.refl
  | cons i rest ih =>
      unfold singleSweep
      split
      · split
        next c' h => exact checks_of_ite h
        next => exact ih _
      · exact ih _

theorem weightedRoundRobin_checks {indices : List Nat} {fuel : Nat} {s : Sweep}
    (h : weightedRoundRobin p indices fuel s = some c') : Checks s.c c' := by
  induction fuel generalizing s with
  | zero => cases h
  | succ fuel ih =>
      have round : Checks s.c (weightedRound p indices s).c :=
        (weightedSweep_checks _ _ _ _).trans
          ((weightedSweep_checks _ _ _ _).trans (singleSweep_checks _ _ _))
      unfold weightedRoundRobin at h
      dsimp only at h
      split at h
      · cases h
        exact round
      · exact round.trans (ih (s := { weightedRound p indices s with total := 0 }) h)

theorem collectSQueue_checks {fuel : Nat} (admin : (c.queue? 0).isSome)
    (h : c.collectSQueue p fuel = some c') : Checks c c' := by
  unfold collectSQueue at h
  dsimp only at h
  split at h
  · split at h
    · exact sweepUntilIdle_checks _ _ h
    · split at h
      next absent =>
        rw [absent] at admin
        cases admin
      next =>
        obtain ⟨c₁, first, h⟩ := Option.bind_eq_some_iff.1 h
        obtain ⟨c₂, second, h⟩ := Option.bind_eq_some_iff.1 h
        exact (drainQueue_checks first).trans
          ((sweepUntilIdle_checks _ _ second).trans (weightedRoundRobin_checks h))
  · cases h
    exact ReflTransGen.refl

/-! ## The end of a fetch -/

theorem count_all_push (m : QueueMap UserID SQEntryWrapper) (uid : UserID)
    (req : SQEntryWrapper) (t : Nat) :
    List.count t ((m.push uid req).all.map SQEntryWrapper.ticket) =
      List.count t [req.ticket] + List.count t (m.all.map SQEntryWrapper.ticket) := by
  rw [((QueueMap.all_push (m := m) (k := uid) (x := req)).map _).count_eq, List.map_cons,
    ← List.count_append]
  rfl

theorem inv_doRead {fetch : Fetch} {entry : SQEntry} (inv : c.Inv) (hf : fetch ∈ c.fetching) :
    (c.doRead fetch entry).Inv := by
  obtain ⟨live, object⟩ := inv.objects fetch hf
  obtain ⟨q, hq⟩ := Option.isSome_iff_exists.1 object
  have unfetched : ∀ req ∈ c.lSQFIFO, req.ticket ≠ fetch.ticket := fun req hreq same =>
    inv.fifo_read req hreq (same ▸ List.mem_map_of_mem hf)
  have taken : (c.fetching.map Fetch.ticket).Perm
      (fetch.ticket :: (c.fetching.erase fetch).map Fetch.ticket) :=
    (List.perm_cons_erase hf).map Fetch.ticket
  have known : fetch.ticket < c.fetched := by
    have := inv.accounted.mem_iff (a := fetch.ticket)
    simp only [List.mem_append, List.mem_map_of_mem hf, List.mem_range] at this
    simpa using this
  have once : fetch.ticket ∉ (c.fetching.erase fetch).map Fetch.ticket := by
    have nodup := inv.nodup
    rw [List.nodup_append] at nodup
    have := (List.nodup_append.1 (List.nodup_append.1 nodup.2.1).1).1
    exact (List.nodup_cons.1 (taken.nodup_iff.1 this)).1
  simp only [doRead, hq, live, Bool.false_eq_true, if_false]
  exact {
    fault := inv.fault
    accounted := by
      refine List.perm_iff_count.2 fun t => ?_
      have before := inv.accounted.count_eq t
      have here := count_erase Fetch.ticket hf t
      simp only [completed, staged, inSubsystem, List.count_append, count_all_push] at before ⊢
      omega
    balance := inv.balance
    objects := fun f h => inv.objects f (List.mem_of_mem_erase h)
    fifo_nodup := by
      rw [List.map_append, List.nodup_append]
      refine ⟨inv.fifo_nodup, by simp, ?_⟩
      intro t ht t' ht' same
      obtain ⟨req, hreq, rfl⟩ := List.mem_map.1 ht
      exact unfetched req hreq (same.trans (by simpa using ht'))
    fifo_fetched := by
      intro req hreq
      rcases List.mem_append.1 hreq with old | new
      · exact inv.fifo_fetched req old
      · rw [List.mem_singleton.1 new]
        exact known
    fifo_read := by
      intro req hreq hmem
      rcases List.mem_append.1 hreq with old | new
      · exact inv.fifo_read req old (((List.erase_sublist).map _).subset hmem)
      · rw [List.mem_singleton.1 new] at hmem
        exact once hmem
    staged_fifo := by
      intro req hreq
      rcases List.mem_cons.1 (QueueMap.all_push.mem_iff.1 hreq) with rfl | old
      · exact List.mem_append_right _ List.mem_cons_self
      · exact List.mem_append_left _ (inv.staged_fifo req old)
    queue_cq := inv.queue_cq
    fifo_cq := by
      intro req hreq
      rcases List.mem_append.1 hreq with old | new
      · exact inv.fifo_cq req old
      · rw [List.mem_singleton.1 new]
        exact inv.queue_cq _ q hq
    executing_cq := inv.executing_cq
    admin := inv.admin
    users := by
      intro uid nonempty
      dsimp only at nonempty ⊢
      rw [QueueMap.get_push] at nonempty
      split at nonempty
      next same =>
        subst same
        split
        · assumption
        · exact List.mem_append_right _ List.mem_cons_self
      next =>
        have old := inv.users uid nonempty
        split
        · exact old
        · exact List.mem_append_left _ old }

/-! ## Dispatch and completion -/

/-- `c'` is `c` after a user's first staged command was taken, or none was. -/
def Takes (c : Controller) : Option SQEntryWrapper × Controller → Prop
  | (none, c') => ∃ b, c' = { c with bootstrappedUsers := b }
  | (some req, c') => ∃ uid rest b last, c.lSQByUser.get uid = req :: rest ∧
      c' = { c with
        bootstrappedUsers := b
        lSQByUser := c.lSQByUser.pop uid
        lastUid := last }

theorem pickUser_takes (canServe : UserID → Nat → Bool) (lbaSize : Nat → Nat)
    (users : List UserID) (c : Controller) : c.Takes (pickUser canServe lbaSize users c) := by
  induction users generalizing c with
  | nil => exact ⟨_, rfl⟩
  | cons uid rest ih =>
      unfold pickUser
      split
      · exact ih c
      next front others hget =>
        dsimp only
        split
        · exact ⟨uid, others, _, uid, hget, rfl⟩
        · exact ih { c with bootstrappedUsers := c.bootstrappedUsers.insert uid }

theorem selectRequest_takes (canServe : UserID → Nat → Bool) (lbaSize : Nat → Nat)
    (c : Controller) : c.Takes (c.selectRequest canServe lbaSize) := by
  unfold selectRequest
  split
  next front others hget => exact ⟨0, others, _, _, hget, rfl⟩
  next => exact pickUser_takes _ _ _ _

theorem inv_reschedule {now : Tick} {selected : Bool} (inv : c.Inv) :
    (c.reschedule p now selected).Inv := by
  unfold reschedule
  dsimp only
  split
  · exact { inv with }
  · exact { inv with }

theorem count_all_pop {m : QueueMap UserID SQEntryWrapper} {uid : UserID}
    {rest : List SQEntryWrapper} (h : m.get uid = req :: rest) (t : Nat) :
    List.count t (m.all.map SQEntryWrapper.ticket) =
      List.count t [req.ticket] +
        List.count t ((m.pop uid).all.map SQEntryWrapper.ticket) := by
  rw [((QueueMap.all_pop h).map _).count_eq, List.map_cons, ← List.count_append]
  rfl

theorem inv_dispatch {uid last : UserID} {rest : List SQEntryWrapper} {b : List UserID}
    (inv : c.Inv) (h : c.lSQByUser.get uid = req :: rest) :
    (dispatch req { c with
      bootstrappedUsers := b
      lSQByUser := c.lSQByUser.pop uid
      lastUid := last }).Inv := by
  have held : req ∈ c.lSQByUser.all :=
    QueueMap.mem_all_of_get (k := uid) (by rw [h]; exact List.mem_cons_self)
  exact { inv with
    accounted := by
      refine List.perm_iff_count.2 fun t => ?_
      have before := inv.accounted.count_eq t
      have here := count_all_pop h t
      simp only [dispatch, completed, staged, inSubsystem, List.count_append, List.map_append,
        List.map_cons, List.map_nil] at before here ⊢
      omega
    balance := by
      refine List.perm_iff_count.2 fun t => ?_
      have before := inv.balance.count_eq t
      simp only [dispatch, completed, inSubsystem, List.count_append, List.map_append,
        List.map_cons, List.map_nil] at before ⊢
      omega
    staged_fifo := fun other hmem => inv.staged_fifo other
      ((QueueMap.all_pop h).mem_iff.2 (List.mem_cons_of_mem _ hmem))
    executing_cq := by
      intro other hmem
      rcases List.mem_append.1 hmem with old | new
      · exact inv.executing_cq other old
      · rw [List.mem_singleton.1 new]
        exact inv.fifo_cq req (inv.staged_fifo req held)
    users := by
      intro other nonempty
      change (c.lSQByUser.pop uid).get other ≠ [] at nonempty
      rw [QueueMap.get_pop] at nonempty
      split at nonempty
      next same =>
        refine inv.users other ?_
        rw [same, h]
        exact List.cons_ne_nil _ _
      next => exact inv.users other nonempty }

theorem inv_handleRequest {now : Tick} {canServe : UserID → Nat → Bool} {lbaSize : Nat → Nat}
    (inv : c.Inv) : (c.handleRequest p now canServe lbaSize).Inv := by
  have takes := selectRequest_takes canServe lbaSize c
  unfold handleRequest
  split
  next req c' hselect =>
    rw [hselect] at takes
    obtain ⟨uid, rest, b, last, hget, rfl⟩ := takes
    exact inv_reschedule (inv_dispatch inv hget)
  next c' hselect =>
    rw [hselect] at takes
    obtain ⟨b, rfl⟩ := takes
    exact inv_reschedule { inv with }

theorem inv_complete {status : Nat} (inv : c.Inv) (hmem : req ∈ c.executing) :
    (c.complete req status).Inv := by
  have cq : { c with executing := c.executing.erase req }.HasCQ
      (CQEntryWrapper.respond req req.sqHead status).cqID := inv.executing_cq req hmem
  unfold complete
  rw [submit_of_hasCQ cq]
  exact { inv with
    accounted := by
      refine List.perm_iff_count.2 fun t => ?_
      have before := inv.accounted.count_eq t
      have here := count_erase SQEntryWrapper.ticket hmem t
      simp only [completed, staged, inSubsystem, List.count_append, count_insert,
        CQEntryWrapper.respond] at before ⊢
      omega
    balance := by
      refine List.perm_iff_count.2 fun t => ?_
      have before := inv.balance.count_eq t
      have here := count_erase SQEntryWrapper.ticket hmem t
      simp only [completed, inSubsystem, List.count_append, count_insert,
        CQEntryWrapper.respond] at before ⊢
      omega
    executing_cq := fun other h => inv.executing_cq other (List.mem_of_mem_erase h) }
end Controller

end SimpleSSD.HIL.NVMe
