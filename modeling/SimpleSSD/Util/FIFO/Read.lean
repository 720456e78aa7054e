import SimpleSSD.Foundation.Fallible
import SimpleSSD.Util.FIFO.Queue

/-!
# Reads through the FIFO

A piece is read from the upstream and inserted into the FIFO at the same time.  Which of
the two ends first leaves an entry in `readCompletion` for the other to find.
-/

namespace SimpleSSD.FIFO

open SimpleSSD.Foundation

structure ReadEntry where
  id : Nat
  insertEndAt : Tick
  dmaEndAt : Tick
  latency : Nat
  deriving DecidableEq, Repr

structure ReadSide extends Side where
  counter : Nat
  readCompletion : List ReadEntry

def ReadSide.new (capacity : Nat) : ReadSide where
  toSide := .new capacity
  counter := 0
  readCompletion := []

namespace Read

def find (id : Nat) (readCompletion : List ReadEntry) : Option ReadEntry :=
  readCompletion.find? fun comp => comp.id = id

def erase (id : Nat) (readCompletion : List ReadEntry) : List ReadEntry :=
  readCompletion.eraseP fun comp => comp.id = id

variable (p : FIFOParam) (now : Tick)

def transferRead (s : ReadSide) : Except Fault ReadSide := do
  match ← enter p now p.rqSize s.transferPending (fun iter => { iter with id := s.counter })
      s.toQueue with
  | none => .ok s
  | some (iter, q) =>
      .ok {
        s with
        toQueue := { q with transferPending := true }
        counter := s.counter + 1
        accesses := s.accesses ++ [iter.piece]
        outstanding := s.outstanding + 1 }

def transferNext (s : ReadSide) : Except Fault ReadSide :=
  if s.waitQueue = [] then .ok s else transferRead p now s

def insertRead (s : ReadSide) : Except Fault ReadSide :=
  match s.transferQueue with
  | [] => .error .undefined
  | iter :: rest =>
      if s.insertPending then .ok s
      else
        let iter := { iter with insertEndAt := now + p.latency (p.calcSize iter.size) }
        .ok { s with
          insertPending := true
          transferQueue := iter :: rest
          insertDone := if s.insertDone.isSome then s.insertDone else some iter.insertEndAt }

def insertNext (s : ReadSide) : Except Fault ReadSide :=
  if s.transferQueue ≠ [] ∧ s.beginTransfer = none then insertRead p now s else .ok s

def dmaRead (s : ReadSide) (request : Request) : Except Fault ReadSide :=
  if request.size = 0 then .ok s
  else transferRead p now {
    s with
    waitQueue := s.waitQueue ++ [s.entry request]
    requests := s.requests ++ [request] }

/-- Call the function of the last piece, which makes the requests in `handler`. -/
def call (handler : List Request) (iter : FIFOEntry) (s : ReadSide) : Except Fault ReadSide :=
  if iter.last then handler.foldlM (dmaRead p now) { s with calls := s.calls ++ [iter.func] }
  else .ok s

def insertReadDoneNext (handler : List Request) (s : ReadSide) : Except Fault ReadSide :=
  match s.transferQueue with
  | [] => .error .undefined
  | iter :: _ => do
      let s ← call p now handler iter s
      let s ← insertNext p now {
        s with
        usage := sub64 s.usage (p.calcSize iter.size)
        insertPending := false
        transferQueue := s.transferQueue.tail }
      transferNext p now s

/-- Both have ended, but the FIFO may be slower than the upstream. -/
def finishAt (handler : List Request) (comp : ReadEntry) (s : ReadSide) : Except Fault ReadSide :=
  if comp.dmaEndAt + comp.latency ≤ now then insertReadDoneNext p now handler s
  else .ok { s with submitCompletion := some (comp.dmaEndAt + comp.latency) }

def insertReadDoneMerge (handler : List Request) (comp : ReadEntry) (s : ReadSide) :
    Except Fault ReadSide := do
  let s ← finishAt p now handler comp s
  .ok { s with readCompletion := erase comp.id s.readCompletion }

def insertReadDone (handler : List Request) (s : ReadSide) : Except Fault ReadSide :=
  match s.transferQueue with
  | [] => .error .undefined
  | iter :: _ =>
      match find iter.id s.readCompletion with
      | none => .ok { s with
          readCompletion := s.readCompletion ++ [⟨iter.id, now, 0, p.unitLatency iter.size⟩] }
      | some comp => insertReadDoneMerge p now handler comp s

def saveEnd (handler : List Request) (iter : FIFOEntry) (s : ReadSide) : Except Fault ReadSide :=
  match find iter.id s.readCompletion with
  | none => .ok { s with
      readCompletion := s.readCompletion ++ [⟨iter.id, 0, now, p.unitLatency iter.size⟩] }
  | some comp => insertReadDoneMerge p now handler { comp with dmaEndAt := now } s

def transferReadDone (handler : List Request) (s : ReadSide) : Except Fault ReadSide :=
  match s.waitQueue with
  | [] => .error .undefined
  | iter :: _ => do
      let s ← saveEnd p now handler iter s
      transferNext p now { s with waitQueue := s.waitQueue.tail, transferPending := false }

def step (action : Action) (s : ReadSide) : Option (Except Fault ReadSide) :=
  match action with
  | .request request => some (dmaRead p now s request)
  | .insertDone handler =>
      if s.insertDone.isSome then
        some (insertReadDone p now handler { s with insertDone := none })
      else none
  | .beginTransfer =>
      if s.beginTransfer.isSome then some (insertRead p now { s with beginTransfer := none })
      else none
  | .submitCompletion handler =>
      if s.submitCompletion.isSome then
        some (insertReadDoneNext p now handler { s with submitCompletion := none })
      else none
  | .transferDone handler =>
      match s.outstanding with
      | 0 => none
      | outstanding + 1 =>
          some (transferReadDone p now handler { s with outstanding := outstanding })

/-! ## What each function keeps -/

variable {p} {finished : List FIFOEntry} {s s' s'' : ReadSide}

def ids (s : ReadSide) : List Nat := s.transferQueue.map FIFOEntry.id

def arrived (s : ReadSide) : List Nat := if s.transferPending then (ids s).dropLast else ids s

/-- The entries in the queue make up the pieces that were not finished. -/
structure Core (p : FIFOParam) (finished : List FIFOEntry) (s : ReadSide) : Prop where
  kept : Kept p p.rqSize s.transferPending s.insertPending finished s.requests s.toQueue
  accesses : s.accesses = (finished ++ s.transferQueue).map FIFOEntry.piece
  ready : Ready s.insertPending s.toQueue
  ordered : (ids s).Pairwise (· < ·)
  fresh : ∀ id ∈ ids s, id < s.counter

/-- The entry that is being read is the first to wait and the last to insert. -/
def Linked (s : ReadSide) : Prop :=
  s.transferPending = true → ∃ e, s.waitQueue.head? = some e ∧ (ids s).getLast? = some e.id

inductive Phase (s : ReadSide) : Prop
  | inserts (insert : s.insertPending = s.insertDone.isSome) (submit : s.submitCompletion = none)
      (arrived : s.readCompletion.map ReadEntry.id = arrived s)
  | waits (insert : s.insertPending = true) (inserted : s.insertDone = none)
      (submit : s.submitCompletion = none) (transfer : s.transferPending = true)
      (single : (ids s).length = 1) (arrived : s.readCompletion.map ReadEntry.id = ids s)
  | completes (insert : s.insertPending = true) (inserted : s.insertDone = none)
      (submit : s.submitCompletion.isSome = true) (front : arrived s ≠ [])
      (arrived : s.readCompletion.map ReadEntry.id = (arrived s).tail)

structure Flows (p : FIFOParam) (finished : List FIFOEntry) (s : ReadSide) : Prop extends
    Core p finished s where
  calls : s.calls = functions (finished.map FIFOEntry.piece)
  linked : Linked s
  outstanding : s.outstanding = s.transferPending.toNat

structure Inv (p : FIFOParam) (finished : List FIFOEntry) (s : ReadSide) : Prop extends
    Flows p finished s where
  phase : Phase s
  blocked : Blocked p p.rqSize s.transferPending s.toQueue

def load (p : FIFOParam) (s : ReadSide) : Nat :=
  4 * ((waiting s.transferPending s.toQueue).flatMap (FIFOEntry.pieces p p.rqSize)).length +
    s.outstanding + s.beginTransfer.isSome.toNat +
    2 * (s.transferQueue.drop s.insertPending.toNat).length + s.insertPending.toNat +
    s.insertDone.isSome.toNat

/-- New requests bring their own steps; `steps` others have been taken. -/
def Pays (p : FIFOParam) (steps : Nat) (s s' : ReadSide) : Prop :=
  load p s' + steps + 4 * (allPieces p p.rqSize s.requests).length ≤
    load p s + 4 * (allPieces p p.rqSize s'.requests).length

theorem Pays.refl (s : ReadSide) : Pays p 0 s s := le_rfl

theorem Pays.mono {n m : Nat} (h : Pays p n s s') (hle : m ≤ n) : Pays p m s s' := by
  unfold Pays at *
  omega

theorem Pays.zero_trans {n : Nat} (h : Pays p 0 s s') (h' : Pays p n s' s'') :
    Pays p n s s'' := by
  unfold Pays at *
  omega

theorem Pays.trans_zero {n : Nat} (h : Pays p n s s') (h' : Pays p 0 s' s'') :
    Pays p n s s'' := by
  unfold Pays at *
  omega

/-- Nothing more is read from the upstream, or one entry more. -/
inductive Grows (s s' : ReadSide) : Prop
  | same (pending : s'.transferPending = s.transferPending) (ids : ids s' = ids s)
      (outstanding : s'.outstanding = s.outstanding)
      (head : s.transferPending = true → s'.waitQueue.head? = s.waitQueue.head?)
  | more (idle : s.transferPending = false) (pending : s'.transferPending = true) (e : FIFOEntry)
      (ids : ids s' = ids s ++ [e.id]) (outstanding : s'.outstanding = s.outstanding + 1)
      (head : s'.waitQueue.head? = some e)

theorem Grows.refl (s : ReadSide) : Grows s s := .same rfl rfl rfl fun _ => rfl

theorem Grows.trans (h : Grows s s') (h' : Grows s' s'') : Grows s s'' := by
  cases h with
  | same pending ids outstanding head =>
      cases h' with
      | same pending' ids' outstanding' head' =>
          exact .same (pending'.trans pending) (ids'.trans ids) (outstanding'.trans outstanding)
            fun h => (head' (pending.trans h)).trans (head h)
      | more idle' pending' e ids' outstanding' head' =>
          exact .more (pending.symm.trans idle') pending' e (by rw [ids', ids])
            (by rw [outstanding', outstanding]) head'
  | more idle pending e ids outstanding head =>
      cases h' with
      | same pending' ids' outstanding' head' =>
          exact .more idle (pending'.trans pending) e (ids'.trans ids)
            (outstanding'.trans outstanding) ((head' pending).trans head)
      | more idle' =>
          rw [pending] at idle'
          cases idle'

theorem Grows.arrived (h : Grows s s') : arrived s' = arrived s := by
  cases h with
  | same pending ids => simp [Read.arrived, pending, ids]
  | more idle pending e ids => simp [Read.arrived, idle, pending, ids]

theorem Grows.linked (h : Grows s s') (linked : Linked s) : Linked s' := by
  intro hpending
  cases h with
  | same pending ids outstanding head =>
      rw [pending] at hpending
      rw [head hpending, ids]
      exact linked hpending
  | more idle pending e ids outstanding head => exact ⟨e, head, by simp [ids]⟩

theorem Grows.outstanding_eq (h : Grows s s') (transit : s.outstanding = s.transferPending.toNat) :
    s'.outstanding = s'.transferPending.toNat := by
  cases h with
  | same pending ids outstanding => rw [outstanding, pending, transit]
  | more idle pending e ids outstanding => simp [outstanding, pending, transit, idle]

theorem Grows.of_pending (h : Grows s s') (pending : s.transferPending = true) :
    s'.transferPending = true ∧ ids s' = ids s ∧ s'.outstanding = s.outstanding ∧
      s'.waitQueue.head? = s.waitQueue.head? := by
  cases h with
  | same pending' ids outstanding head =>
      exact ⟨pending'.trans pending, ids, outstanding, head pending⟩
  | more idle =>
      rw [pending] at idle
      cases idle

structure Frame (s s' : ReadSide) : Prop where
  calls : s'.calls = s.calls
  insertPending : s'.insertPending = s.insertPending
  insertDone : s'.insertDone = s.insertDone
  submitCompletion : s'.submitCompletion = s.submitCompletion
  readCompletion : s'.readCompletion = s.readCompletion
  transferQueue : ∃ transferred, s'.transferQueue = s.transferQueue ++ transferred
  grows : Grows s s'

theorem Frame.refl (s : ReadSide) : Frame s s :=
  ⟨rfl, rfl, rfl, rfl, rfl, ⟨[], (List.append_nil _).symm⟩, .refl s⟩

theorem Frame.trans (h : Frame s s') (h' : Frame s' s'') : Frame s s'' := by
  obtain ⟨transferred, heq⟩ := h.transferQueue
  obtain ⟨transferred', heq'⟩ := h'.transferQueue
  exact ⟨h'.calls.trans h.calls, h'.insertPending.trans h.insertPending,
    h'.insertDone.trans h.insertDone, h'.submitCompletion.trans h.submitCompletion,
    h'.readCompletion.trans h.readCompletion, ⟨transferred ++ transferred', by
      rw [heq', heq, List.append_assoc]⟩, h.grows.trans h'.grows⟩

theorem Frame.phase (h : Frame s s') (phase : Phase s) : Phase s' := by
  cases phase with
  | inserts insert submit arrived =>
      refine .inserts ?_ (h.submitCompletion.trans submit) ?_
      · rw [h.insertPending, h.insertDone, insert]
      · rw [h.readCompletion, h.grows.arrived, arrived]
  | waits insert inserted submit transfer single arrived =>
      obtain ⟨pending, same, -, -⟩ := h.grows.of_pending transfer
      refine .waits (h.insertPending.trans insert) (h.insertDone.trans inserted)
        (h.submitCompletion.trans submit) pending (by rw [same, single]) ?_
      rw [h.readCompletion, same, arrived]
  | completes insert inserted submit front arrived =>
      refine .completes (h.insertPending.trans insert) (h.insertDone.trans inserted) ?_ ?_ ?_
      · rw [h.submitCompletion, submit]
      · rwa [h.grows.arrived]
      · rw [h.readCompletion, h.grows.arrived, arrived]

theorem Flows.of_frame (flows : Flows p finished s) (phase : Phase s)
    (core : Core p finished s') (blocked : Blocked p p.rqSize s'.transferPending s'.toQueue)
    (frame : Frame s s') : Inv p finished s' where
  toCore := core
  calls := frame.calls.trans flows.calls
  linked := frame.grows.linked flows.linked
  outstanding := frame.grows.outstanding_eq flows.outstanding
  phase := frame.phase phase
  blocked := blocked

/-! ## Transfers -/

theorem transferRead_eq_ok (valid : p.Valid) (core : Core p finished s)
    (nonempty : s.waitQueue ≠ []) :
    ∃ s', transferRead p now s = .ok s' ∧ Core p finished s' ∧
      Blocked p p.rqSize s'.transferPending s'.toQueue ∧ Frame s s' ∧ Pays p 0 s s' := by
  rcases core.kept.enter valid.unit valid.read now (fun iter => { iter with id := s.counter })
    (fun _ => rfl) nonempty with ⟨hnone, blocked⟩ | ⟨e, q, free, hsome, kept, taken, hpieces⟩
  · exact ⟨s, by rw [transferRead, hnone]; rfl, core, blocked, Frame.refl s, .refl s⟩
  · obtain ⟨hinsert, -, hdone, hsubmit⟩ := taken.flags
    obtain ⟨rest, hhead⟩ := taken.head
    have hids : q.transferQueue.map FIFOEntry.id = ids s ++ [s.counter] := by
      simp [taken.transferQueue, ids]
    refine ⟨_, by rw [transferRead, hsome]; rfl, ⟨?_, ?_, taken.ready, ?_, ?_⟩, ?_, ?_, ?_⟩
    · simp only [hinsert]
      exact { kept with }
    · simp [taken.transferQueue, core.accesses, FIFOEntry.piece]
    · change (q.transferQueue.map FIFOEntry.id).Pairwise (· < ·)
      rw [hids, List.pairwise_append]
      exact ⟨core.ordered, List.pairwise_singleton _ _, by simpa using core.fresh⟩
    · change ∀ id ∈ q.transferQueue.map FIFOEntry.id, id < s.counter + 1
      rw [hids]
      intro id hid
      rcases List.mem_append.1 hid with hid | hid
      · exact Nat.lt_succ_of_lt (core.fresh id hid)
      · exact Nat.lt_succ_of_le (List.mem_singleton.1 hid).le
    · simp [Blocked]
    · exact ⟨rfl, hinsert, hdone, hsubmit, rfl, ⟨_, taken.transferQueue⟩,
        .more free rfl { e with id := s.counter } hids rfl (by simp [hhead])⟩
    · unfold Pays load
      have hbegin := Bool.toNat_le (q.beginTransfer.isSome)
      simp only [waiting, if_true, Bool.false_eq_true, if_false] at hpieces
      simp only [waiting, if_true, Bool.false_eq_true, if_false, hinsert, hdone, free, hpieces,
        taken.transferQueue, drop_concat core.kept.served, List.length_append, List.length_cons,
        List.length_nil]
      omega

theorem transferNext_eq_ok (valid : p.Valid) (core : Core p finished s) :
    ∃ s', transferNext p now s = .ok s' ∧ Core p finished s' ∧
      Blocked p p.rqSize s'.transferPending s'.toQueue ∧ Frame s s' ∧ Pays p 0 s s' := by
  unfold transferNext
  by_cases hempty : s.waitQueue = []
  · refine ⟨s, if_pos hempty, core, ?_, Frame.refl s, .refl s⟩
    intro _ e rest heq
    rw [hempty] at heq
    cases heq
  · rw [if_neg hempty]
    exact transferRead_eq_ok now valid core hempty

theorem dmaRead_eq_ok (valid : p.Valid) (core : Core p finished s)
    (blocked : Blocked p p.rqSize s.transferPending s.toQueue) (request : Request) :
    ∃ s', dmaRead p now s request = .ok s' ∧ Core p finished s' ∧
      Blocked p p.rqSize s'.transferPending s'.toQueue ∧ Frame s s' ∧ Pays p 0 s s' := by
  unfold dmaRead
  by_cases hzero : request.size = 0
  · exact ⟨s, if_pos hzero, core, blocked, Frame.refl s, .refl s⟩
  · rw [if_neg hzero]
    have kept := core.kept.request (s.entry request) (Nat.pos_of_ne_zero hzero)
      ⟨rfl, rfl, rfl, rfl, rfl⟩
    have core' : Core p finished { s with
        waitQueue := s.waitQueue ++ [s.entry request]
        requests := s.requests ++ [request] } :=
      ⟨kept, core.accesses, core.ready, core.ordered, core.fresh⟩
    have pays : Pays p 0 s { s with
        waitQueue := s.waitQueue ++ [s.entry request]
        requests := s.requests ++ [request] } := by
      unfold Pays load
      simp only [core.kept.waiting_concat, List.flatMap_append, List.length_append,
        allPieces_concat]
      simp only [List.flatMap_singleton, FIFOEntry.pieces, Side.entry]
      omega
    have frame : Frame s { s with
        waitQueue := s.waitQueue ++ [s.entry request]
        requests := s.requests ++ [request] } := by
      refine ⟨rfl, rfl, rfl, rfl, rfl, ⟨[], (List.append_nil _).symm⟩,
        .same rfl rfl rfl fun hpending => ?_⟩
      obtain ⟨e, rest, hwait, -⟩ := core.kept.head hpending
      simp [hwait]
    obtain ⟨s', hok, core'', blocked', frame', pays'⟩ :=
      transferRead_eq_ok now valid core' (by simp)
    exact ⟨s', hok, core'', blocked', frame.trans frame', pays.zero_trans pays'⟩

theorem foldlM_dmaRead_eq_ok (valid : p.Valid) (handler : List Request)
    (core : Core p finished s) (blocked : Blocked p p.rqSize s.transferPending s.toQueue) :
    ∃ s', handler.foldlM (dmaRead p now) s = .ok s' ∧ Core p finished s' ∧
      Blocked p p.rqSize s'.transferPending s'.toQueue ∧ Frame s s' ∧ Pays p 0 s s' := by
  induction handler generalizing s with
  | nil => exact ⟨s, rfl, core, blocked, Frame.refl s, .refl s⟩
  | cons request rest ih =>
      obtain ⟨s₁, hok, core₁, blocked₁, frame₁, pays₁⟩ :=
        dmaRead_eq_ok now valid core blocked request
      obtain ⟨s', hrest, core', blocked', frame', pays'⟩ := ih core₁ blocked₁
      refine ⟨s', ?_, core', blocked', frame₁.trans frame', pays₁.zero_trans pays'⟩
      rw [List.foldlM_cons, hok]
      exact hrest

theorem call_eq_ok (valid : p.Valid) (core : Core p finished s)
    (blocked : Blocked p p.rqSize s.transferPending s.toQueue) (handler : List Request)
    (iter : FIFOEntry) :
    ∃ s', call p now handler iter s = .ok s' ∧ Core p finished s' ∧
      Blocked p p.rqSize s'.transferPending s'.toQueue ∧
      Frame { s with calls := s.calls ++ functions [iter.piece] } s' ∧ Pays p 0 s s' := by
  unfold call
  cases hlast : iter.last with
  | true =>
      have hfunctions : functions [iter.piece] = [iter.func] := by
        simp [functions, FIFOEntry.piece, hlast]
      rw [if_pos rfl, hfunctions]
      exact foldlM_dmaRead_eq_ok now (s := { s with calls := s.calls ++ [iter.func] }) valid
        handler ⟨core.kept, core.accesses, core.ready, core.ordered, core.fresh⟩ blocked
  | false =>
      have hfunctions : functions [iter.piece] = [] := by
        simp [functions, FIFOEntry.piece, hlast]
      rw [if_neg (by simp), hfunctions, List.append_nil]
      exact ⟨s, rfl, core, blocked, Frame.refl s, .refl s⟩

/-! ## Insertions -/

theorem insertRead_of_idle {iter : FIFOEntry} {rest : List FIFOEntry}
    (front : s.transferQueue = iter :: rest) (idle : s.insertPending = false)
    (unscheduled : s.insertDone = none) :
    ∃ t, insertRead p now s = .ok { s with
      insertPending := true
      transferQueue := { iter with insertEndAt := t } :: rest
      insertDone := some t } := by
  refine ⟨now + p.latency (p.calcSize iter.size), ?_⟩
  unfold insertRead
  split
  · rename_i hnil
    rw [front] at hnil
    cases hnil
  · rename_i first others heq
    rw [front] at heq
    cases heq
    rw [if_neg (by simp [idle])]
    simp [unscheduled]

theorem insertRead_of_pending {iter : FIFOEntry} {rest : List FIFOEntry}
    (front : s.transferQueue = iter :: rest) (pending : s.insertPending = true) :
    insertRead p now s = .ok s := by
  unfold insertRead
  split
  · rename_i hnil
    rw [front] at hnil
    cases hnil
  · exact if_pos pending

structure Begins (s s' : ReadSide) : Prop where
  calls : s'.calls = s.calls
  submitCompletion : s'.submitCompletion = s.submitCompletion
  readCompletion : s'.readCompletion = s.readCompletion
  grows : Grows s s'
  insert : s'.insertPending = s'.insertDone.isSome

theorem insertRead_eq_ok
    (kept : Kept p p.rqSize s.transferPending false finished s.requests s.toQueue)
    (accesses : s.accesses = (finished ++ s.transferQueue).map FIFOEntry.piece)
    (ordered : (ids s).Pairwise (· < ·)) (fresh : ∀ id ∈ ids s, id < s.counter)
    (idle : s.insertPending = false) (inserted : s.insertDone = none)
    (nonempty : s.transferQueue ≠ []) (unscheduled : s.beginTransfer = none) :
    ∃ s', insertRead p now s = .ok s' ∧ Core p finished s' ∧ Begins s s' ∧
      (Blocked p p.rqSize s.transferPending s.toQueue →
        Blocked p p.rqSize s'.transferPending s'.toQueue) ∧ Pays p 0 s s' := by
  obtain ⟨iter, rest, front⟩ := List.exists_cons_of_ne_nil nonempty
  obtain ⟨t, hok⟩ := insertRead_of_idle (p := p) now front idle inserted
  have hids : ids s = iter.id :: rest.map FIFOEntry.id := by simp [ids, front]
  have served := kept.serve nonempty unscheduled
  refine ⟨_, hok, ⟨?_, ?_, fun _ => .inl rfl, ?_, ?_⟩, ⟨rfl, rfl, rfl, ?_, rfl⟩, fun h => h, ?_⟩
  · refine { served with usage := ?_, served := by simp, scheduled := ?_, pieces := ?_ }
    · simp [served.usage, front]
    · simp [unscheduled]
    · rw [← served.pieces, front]
      simp [FIFOEntry.piece, waiting]
  · simp [accesses, front, FIFOEntry.piece]
  · rw [hids] at ordered
    exact ordered
  · rw [hids] at fresh
    exact fresh
  · exact .same rfl hids.symm rfl fun _ => rfl
  · unfold Pays load
    simp [waiting, front, idle, inserted]
    omega

theorem insertNext_eq_ok
    (kept : Kept p p.rqSize s.transferPending false finished s.requests s.toQueue)
    (accesses : s.accesses = (finished ++ s.transferQueue).map FIFOEntry.piece)
    (ordered : (ids s).Pairwise (· < ·)) (fresh : ∀ id ∈ ids s, id < s.counter)
    (idle : s.insertPending = false) (inserted : s.insertDone = none) :
    ∃ s', insertNext p now s = .ok s' ∧ Core p finished s' ∧ Begins s s' ∧ Pays p 0 s s' := by
  unfold insertNext
  by_cases next : s.transferQueue ≠ [] ∧ s.beginTransfer = none
  · rw [if_pos next]
    obtain ⟨s', hok, core, begins, -, pays⟩ :=
      insertRead_eq_ok now kept accesses ordered fresh idle inserted next.1 next.2
    exact ⟨s', hok, core, begins, pays⟩
  · rw [if_neg next]
    refine ⟨s, rfl, ⟨?_, accesses, ?_, ordered, fresh⟩, ⟨rfl, rfl, rfl, .refl s, ?_⟩, .refl s⟩
    · rw [idle]
      exact kept
    · intro hne
      right
      by_contra hbegin
      exact next ⟨hne, Option.not_isSome_iff_eq_none.1 hbegin⟩
    · simp [idle, inserted]

def pop (p : FIFOParam) (iter : FIFOEntry) (s : ReadSide) : ReadSide :=
  { s with
    usage := sub64 s.usage (p.calcSize iter.size)
    insertPending := false
    transferQueue := s.transferQueue.tail }

theorem ids_pop (p : FIFOParam) (iter : FIFOEntry) (s : ReadSide) :
    ids (pop p iter s) = (ids s).tail := by
  simp [ids, pop, List.map_tail]

theorem Grows.pop (h : Grows s s') (nonempty : ids s ≠ []) (p : FIFOParam) (iter : FIFOEntry) :
    Grows (pop p iter s) (pop p iter s') := by
  cases h with
  | same pending ids outstanding head =>
      exact .same pending (by rw [ids_pop, ids_pop, ids]) outstanding head
  | more idle pending e ids outstanding head =>
      refine .more idle pending e ?_ outstanding head
      rw [ids_pop, ids_pop, ids, List.tail_append_of_ne_nil nonempty]

theorem insertReadDoneNext_eq_ok (valid : p.Valid) (core : Core p finished s)
    (blocked : Blocked p p.rqSize s.transferPending s.toQueue)
    (calls : s.calls = functions (finished.map FIFOEntry.piece))
    (pending : s.insertPending = true) (inserted : s.insertDone = none)
    (handler : List Request) :
    ∃ iter s', insertReadDoneNext p now handler s = .ok s' ∧ Core p (finished ++ [iter]) s' ∧
      Blocked p p.rqSize s'.transferPending s'.toQueue ∧
      s'.calls = functions ((finished ++ [iter]).map FIFOEntry.piece) ∧
      s'.insertPending = s'.insertDone.isSome ∧ s'.submitCompletion = s.submitCompletion ∧
      s'.readCompletion = s.readCompletion ∧ Grows (pop p iter s) s' ∧ Pays p 1 s s' := by
  obtain ⟨iter, rest, front⟩ := List.exists_cons_of_ne_nil (core.kept.served pending)
  obtain ⟨s₁, hcall, core₁, blocked₁, frame₁, pays₁⟩ :=
    call_eq_ok now valid core blocked handler iter
  obtain ⟨transferred, hqueue₁⟩ := frame₁.transferQueue
  simp only [front, List.cons_append] at hqueue₁
  have hpending₁ : s₁.insertPending = true := frame₁.insertPending.trans pending
  have hkept₁ := core₁.kept
  rw [hpending₁] at hkept₁
  have hids₁ : ids s₁ = iter.id :: (rest ++ transferred).map FIFOEntry.id := by
    simp [ids, hqueue₁]
  have hordered₁ := core₁.ordered
  have hfresh₁ := core₁.fresh
  rw [hids₁] at hordered₁ hfresh₁
  have hkept₂ : Kept p p.rqSize s₁.transferPending false (finished ++ [iter]) s₁.requests
      (pop p iter s₁).toQueue := by
    have hfinish := hkept₁.finish hqueue₁
    simp only [pop, hqueue₁]
    exact { hfinish with }
  have hids₂ : ids (pop p iter s₁) = (rest ++ transferred).map FIFOEntry.id := by
    rw [ids_pop, hids₁, List.tail_cons]
  obtain ⟨s₂, hinsert, core₂, begins, pays₂⟩ :=
    insertNext_eq_ok (s := pop p iter s₁) now hkept₂ (by simp [pop, core₁.accesses, hqueue₁])
      (by rw [hids₂]; exact hordered₁.of_cons)
      (by rw [hids₂]; exact fun id hid => hfresh₁ id (List.mem_cons_of_mem _ hid))
      rfl (frame₁.insertDone.trans inserted)
  have leave : Pays p 1 s₁ (pop p iter s₁) := by
    unfold Pays load pop
    simp +arith [waiting, hpending₁, hqueue₁]
  obtain ⟨s', htransfer, core', blocked', frame', pays'⟩ := transferNext_eq_ok now valid core₂
  refine ⟨iter, s', ?_, core', blocked', ?_, ?_, ?_, ?_, ?_, ?_⟩
  · unfold insertReadDoneNext
    split
    · rename_i hnil
      rw [front] at hnil
      cases hnil
    · rename_i first others heq
      rw [front] at heq
      cases heq
      exact bind_eq_ok.2 ⟨s₁, hcall, bind_eq_ok.2 ⟨s₂, hinsert, htransfer⟩⟩
  · rw [frame'.calls, begins.calls, List.map_append, functions_append, ← calls]
    exact frame₁.calls
  · rw [frame'.insertPending, frame'.insertDone, begins.insert]
  · rw [frame'.submitCompletion, begins.submitCompletion]
    exact frame₁.submitCompletion
  · rw [frame'.readCompletion, begins.readCompletion]
    exact frame₁.readCompletion
  · have hgrows := frame₁.grows.pop (by simp [ids, front]) p iter
    have hcalls : Grows (pop p iter s)
        (pop p iter { s with calls := s.calls ++ functions [iter.piece] }) :=
      .same rfl rfl rfl fun _ => rfl
    exact hcalls.trans (hgrows.trans (begins.grows.trans frame'.grows))
  · exact pays₁.zero_trans (leave.trans_zero (pays₂.zero_trans pays'))

/-! ## Entries that have ended on one side -/

theorem find_eq_none {id : Nat} {readCompletion : List ReadEntry} :
    find id readCompletion = none ↔ id ∉ readCompletion.map ReadEntry.id := by
  simp [find]

theorem mem_of_find {id : Nat} {readCompletion : List ReadEntry} {comp : ReadEntry}
    (h : find id readCompletion = some comp) :
    comp.id = id ∧ id ∈ readCompletion.map ReadEntry.id := by
  have heq : comp.id = id := by simpa using List.find?_some h
  exact ⟨heq, List.mem_map.2 ⟨comp, List.mem_of_find?_eq_some h, heq⟩⟩

theorem erase_head {id : Nat} {readCompletion : List ReadEntry} {rest : List Nat}
    (h : readCompletion.map ReadEntry.id = id :: rest) :
    (erase id readCompletion).map ReadEntry.id = rest := by
  cases readCompletion with
  | nil => cases h
  | cons comp others =>
      rw [List.map_cons, List.cons.injEq] at h
      rw [erase, List.eraseP_cons_of_pos (by simp [h.1])]
      exact h.2

theorem arrived_eq {id : Nat} {rest : List Nat} (front : ids s = id :: rest) :
    (s.transferPending = true ∧ rest = [] ∧ arrived s = []) ∨
      ∃ others, arrived s = id :: others := by
  unfold arrived
  rw [front]
  cases s.transferPending with
  | false => exact .inr ⟨rest, rfl⟩
  | true =>
      cases rest with
      | nil => exact .inl ⟨rfl, rfl, rfl⟩
      | cons next others => exact .inr ⟨_, List.dropLast_cons_cons⟩

theorem arrived_concat (linked : Linked s) (pending : s.transferPending = true) :
    ∃ e rest, s.waitQueue = e :: rest ∧ ids s = arrived s ++ [e.id] := by
  obtain ⟨e, hhead, hlast⟩ := linked pending
  obtain ⟨rest, hwait⟩ := List.head?_eq_some_iff.1 hhead
  refine ⟨e, rest, hwait, ?_⟩
  rw [arrived, if_pos pending]
  exact (List.dropLast_append_getLast? e.id hlast).symm

theorem arrived_pop (p : FIFOParam) (iter : FIFOEntry) (s : ReadSide) :
    arrived (pop p iter s) = (arrived s).tail := by
  unfold arrived
  rw [ids_pop]
  cases hpending : s.transferPending with
  | false => simp [pop, hpending]
  | true => simp [pop, hpending, List.tail_dropLast]

theorem Linked.pop (linked : Linked s) (front : arrived s ≠ []) (p : FIFOParam)
    (iter : FIFOEntry) : Linked (pop p iter s) := by
  intro hpending
  obtain ⟨e, rest, hwait, hids⟩ := arrived_concat linked hpending
  refine ⟨e, by simp [Read.pop, hwait], ?_⟩
  rw [ids_pop, hids, List.tail_append_of_ne_nil front]
  simp

/-! ## Steps -/

theorem insertReadDoneMerge_eq_ok (valid : p.Valid) (flows : Flows p finished s)
    (blocked : Blocked p p.rqSize s.transferPending s.toQueue) (pending : s.insertPending = true)
    (inserted : s.insertDone = none) (submit : s.submitCompletion = none)
    (front : arrived s ≠ []) (comp : ReadEntry)
    (arrived : s.readCompletion.map ReadEntry.id = comp.id :: (arrived s).tail)
    (handler : List Request) :
    ∃ finished' s', insertReadDoneMerge p now handler comp s = .ok s' ∧ Inv p finished' s' ∧
      Pays p 0 s s' := by
  unfold insertReadDoneMerge finishAt
  by_cases immediate : comp.dmaEndAt + comp.latency ≤ now
  · rw [if_pos immediate]
    obtain ⟨iter, s', hok, core, blocked', calls, insert, submit', completion, grows, pays⟩ :=
      insertReadDoneNext_eq_ok now valid flows.toCore blocked flows.calls pending inserted handler
    refine ⟨_, _, bind_eq_ok.2 ⟨s', hok, rfl⟩, ⟨⟨?_, calls, ?_, ?_⟩, ?_, blocked'⟩,
      pays.mono (Nat.zero_le 1)⟩
    · exact ⟨core.kept, core.accesses, core.ready, core.ordered, core.fresh⟩
    · exact grows.linked (flows.linked.pop front p iter)
    · exact grows.outstanding_eq flows.outstanding
    · refine .inserts insert (submit'.trans submit) ?_
      rw [completion, erase_head arrived]
      exact (grows.arrived.trans (arrived_pop p iter s)).symm
  · rw [if_neg immediate]
    refine ⟨finished, _, rfl, ⟨⟨?_, flows.calls, flows.linked, flows.outstanding⟩, ?_, blocked⟩,
      .refl s⟩
    · exact ⟨{ flows.kept with }, flows.accesses, flows.ready, flows.ordered, flows.fresh⟩
    · exact .completes pending inserted rfl front (erase_head arrived)

theorem insertReadDone_of_none {iter : FIFOEntry} {rest : List FIFOEntry}
    (front : s.transferQueue = iter :: rest) (missing : find iter.id s.readCompletion = none)
    (handler : List Request) :
    ∃ comp, comp.id = iter.id ∧ insertReadDone p now handler s =
      .ok { s with readCompletion := s.readCompletion ++ [comp] } :=
  ⟨⟨iter.id, now, 0, p.unitLatency iter.size⟩, rfl, by simp [insertReadDone, front, missing]⟩

theorem insertReadDone_of_some {iter : FIFOEntry} {rest : List FIFOEntry} {comp : ReadEntry}
    (front : s.transferQueue = iter :: rest) (found : find iter.id s.readCompletion = some comp)
    (handler : List Request) :
    insertReadDone p now handler s = insertReadDoneMerge p now handler comp s := by
  simp [insertReadDone, front, found]

theorem insertDone_eq_ok (valid : p.Valid) (inv : Inv p finished s)
    (scheduled : s.insertDone.isSome = true) (handler : List Request) :
    ∃ finished' s', insertReadDone p now handler { s with insertDone := none } = .ok s' ∧
      Inv p finished' s' ∧ Pays p 1 s s' := by
  have phase := inv.phase
  cases phase with
  | waits insert inserted => simp [inserted] at scheduled
  | completes insert inserted => simp [inserted] at scheduled
  | inserts insert submit completion =>
      have pending : s.insertPending = true := insert.trans scheduled
      obtain ⟨iter, rest, front⟩ := List.exists_cons_of_ne_nil (inv.kept.served pending)
      have hids : ids s = iter.id :: rest.map FIFOEntry.id := by simp [ids, front]
      have flows : Flows p finished { s with insertDone := none } :=
        ⟨⟨{ inv.kept with }, inv.accesses, inv.ready, inv.ordered, inv.fresh⟩, inv.calls,
          inv.linked, inv.outstanding⟩
      have once : Pays p 1 s { s with insertDone := none } := by
        unfold Pays load
        simp [waiting, scheduled]
      cases hfind : find iter.id s.readCompletion with
      | none =>
          have hmiss := find_eq_none.1 hfind
          rw [completion] at hmiss
          rcases arrived_eq hids with ⟨transfer, hrest, hnone⟩ | ⟨others, harrived⟩
          · obtain ⟨comp, hcomp, hok⟩ := insertReadDone_of_none
              (s := { s with insertDone := none }) (p := p) now front hfind handler
            refine ⟨finished, _, hok, ⟨⟨?_, flows.calls, flows.linked, flows.outstanding⟩, ?_,
              inv.blocked⟩, once⟩
            · exact ⟨{ flows.kept with }, flows.accesses, flows.ready, flows.ordered, flows.fresh⟩
            · refine .waits pending rfl submit transfer ?_ ?_
              · change (ids s).length = 1
                simp [hids, hrest]
              · change (s.readCompletion ++ [comp]).map ReadEntry.id = ids s
                rw [List.map_append, completion, hnone, hids, hrest, ← hcomp]
                rfl
          · exact absurd (by simp [harrived]) hmiss
      | some comp =>
          obtain ⟨hcomp, hmem⟩ := mem_of_find hfind
          rw [completion] at hmem
          rcases arrived_eq hids with ⟨-, -, hnone⟩ | ⟨others, harrived⟩
          · simp [hnone] at hmem
          · rw [insertReadDone_of_some (s := { s with insertDone := none }) (p := p)
                now front hfind]
            obtain ⟨finished', s', hok, inv', pays⟩ := insertReadDoneMerge_eq_ok now valid flows
              inv.blocked pending rfl submit (List.ne_nil_of_mem hmem) comp
              (by
                change s.readCompletion.map ReadEntry.id = comp.id :: (arrived s).tail
                rw [completion, harrived, hcomp]
                rfl) handler
            exact ⟨finished', s', hok, inv', once.trans_zero pays⟩

theorem beginTransfer_eq_ok (inv : Inv p finished s) (scheduled : s.beginTransfer.isSome = true) :
    ∃ s', insertRead p now { s with beginTransfer := none } = .ok s' ∧ Inv p finished s' ∧
      Pays p 1 s s' := by
  have unserved := inv.kept.scheduled scheduled
  have once : Pays p 1 s { s with beginTransfer := none } := by
    unfold Pays load
    simp +arith [waiting, scheduled]
  have same : Frame s { s with beginTransfer := none } :=
    ⟨rfl, rfl, rfl, rfl, rfl, ⟨[], (List.append_nil _).symm⟩, .same rfl rfl rfl fun _ => rfl⟩
  have phase : Phase { s with beginTransfer := none } := same.phase inv.phase
  by_cases pending : s.insertPending = true
  · obtain ⟨iter, rest, front⟩ := List.exists_cons_of_ne_nil (inv.kept.served pending)
    refine ⟨_, insertRead_of_pending now front pending, ?_, once⟩
    exact ⟨⟨⟨{ inv.kept with scheduled := by simp }, inv.accesses, fun _ => .inl pending,
      inv.ordered, inv.fresh⟩, inv.calls, inv.linked, inv.outstanding⟩, phase, inv.blocked⟩
  · have idle := Bool.eq_false_of_not_eq_true pending
    have kept := inv.kept
    rw [idle] at kept unserved
    cases phase with
    | waits insert => exact absurd insert pending
    | completes insert => exact absurd insert pending
    | inserts insert submit completion =>
        have inserted : s.insertDone = none := by
          refine Option.not_isSome_iff_eq_none.1 fun h => pending (insert.trans h)
        obtain ⟨s', hok, core, begins, blocked, pays⟩ := insertRead_eq_ok
          (s := { s with beginTransfer := none }) now { kept with scheduled := by simp }
          inv.accesses inv.ordered inv.fresh idle inserted (by simpa using unserved) rfl
        refine ⟨s', hok, ⟨⟨core, ?_, ?_, ?_⟩, ?_, blocked inv.blocked⟩, once.trans_zero pays⟩
        · exact begins.calls.trans inv.calls
        · exact begins.grows.linked inv.linked
        · exact begins.grows.outstanding_eq inv.outstanding
        · refine .inserts begins.insert (begins.submitCompletion.trans submit) ?_
          rw [begins.readCompletion, begins.grows.arrived]
          exact completion

theorem submitCompletion_eq_ok (valid : p.Valid) (inv : Inv p finished s)
    (scheduled : s.submitCompletion.isSome = true) (handler : List Request) :
    ∃ finished' s', insertReadDoneNext p now handler { s with submitCompletion := none } =
      .ok s' ∧ Inv p finished' s' ∧ Pays p 1 s s' := by
  have phase := inv.phase
  cases phase with
  | inserts insert submit => simp [submit] at scheduled
  | waits insert inserted submit => simp [submit] at scheduled
  | completes pending inserted submit front arrived =>
      obtain ⟨iter, s', hok, core, blocked, calls, insert, submit', completion, grows, pays⟩ :=
        insertReadDoneNext_eq_ok (s := { s with submitCompletion := none }) now valid
          ⟨{ inv.kept with }, inv.accesses, inv.ready, inv.ordered, inv.fresh⟩ inv.blocked
          inv.calls pending inserted handler
      refine ⟨_, s', hok, ⟨⟨core, calls, ?_, ?_⟩, ?_, blocked⟩, pays⟩
      · exact grows.linked (inv.linked.pop front p iter)
      · exact grows.outstanding_eq inv.outstanding
      · refine .inserts insert submit' ?_
        rw [completion, arrived]
        exact (grows.arrived.trans (arrived_pop p iter s)).symm

theorem saveEnd_of_none {iter : FIFOEntry} (missing : find iter.id s.readCompletion = none)
    (handler : List Request) :
    ∃ comp, comp.id = iter.id ∧ saveEnd p now handler iter s =
      .ok { s with readCompletion := s.readCompletion ++ [comp] } :=
  ⟨⟨iter.id, 0, now, p.unitLatency iter.size⟩, rfl, by simp [saveEnd, missing]⟩

theorem saveEnd_waits_eq_ok (valid : p.Valid) (flows : Core p finished s)
    (blocked : Blocked p p.rqSize s.transferPending s.toQueue)
    (calls : s.calls = functions (finished.map FIFOEntry.piece)) (insert : s.insertPending = true)
    (inserted : s.insertDone = none) (submit : s.submitCompletion = none)
    (transfer : s.transferPending = true) {iter : FIFOEntry} (single : ids s = [iter.id])
    (completion : s.readCompletion.map ReadEntry.id = [iter.id]) (handler : List Request) :
    ∃ finished' s', saveEnd p now handler iter s = .ok s' ∧ Core p finished' s' ∧
      s'.calls = functions (finished'.map FIFOEntry.piece) ∧ s'.transferPending = true ∧
      s'.outstanding = s.outstanding ∧
      Phase { s' with waitQueue := s'.waitQueue.tail, transferPending := false } ∧
      Pays p 0 s s' := by
  cases hfind : find iter.id s.readCompletion with
  | none =>
      have hmiss := find_eq_none.1 hfind
      rw [completion] at hmiss
      exact absurd (List.mem_singleton.2 rfl) hmiss
  | some comp =>
      obtain ⟨hcomp, -⟩ := mem_of_find hfind
      rw [← hcomp] at completion
      have hsave : saveEnd p now handler iter s =
          insertReadDoneMerge p now handler { comp with dmaEndAt := now } s := by
        simp [saveEnd, hfind]
      rw [hsave]
      unfold insertReadDoneMerge finishAt
      by_cases immediate : now + comp.latency ≤ now
      · rw [if_pos immediate]
        obtain ⟨first, s', hok, core, blocked', calls', insert', submit',
            hcompletion, grows, pays⟩ :=
          insertReadDoneNext_eq_ok now valid flows blocked calls insert inserted handler
        obtain ⟨hpending, hids, houtstanding, -⟩ := grows.of_pending transfer
        rw [ids_pop, single, List.tail_cons] at hids
        refine ⟨_, _, bind_eq_ok.2 ⟨s', hok, rfl⟩, ?_, calls', hpending, houtstanding, ?_,
          pays.mono (Nat.zero_le 1)⟩
        · exact ⟨core.kept, core.accesses, core.ready, core.ordered, core.fresh⟩
        · refine .inserts insert' (submit'.trans submit) ?_
          change (erase comp.id s'.readCompletion).map ReadEntry.id = ids s'
          rw [hcompletion, erase_head completion, hids]
      · rw [if_neg immediate]
        refine ⟨finished, _, rfl, ?_, calls, transfer, rfl, ?_, .refl s⟩
        · exact ⟨{ flows.kept with }, flows.accesses, flows.ready, flows.ordered, flows.fresh⟩
        · refine .completes insert inserted rfl ?_ ?_
          · change ids s ≠ []
            simp [single]
          · change (erase comp.id s.readCompletion).map ReadEntry.id = (ids s).tail
            rw [erase_head completion, single, List.tail_cons]

theorem saveEnd_eq_ok (valid : p.Valid) (core : Core p finished s)
    (blocked : Blocked p p.rqSize s.transferPending s.toQueue)
    (calls : s.calls = functions (finished.map FIFOEntry.piece)) (phase : Phase s)
    (pending : s.transferPending = true) {iter : FIFOEntry}
    (last : ids s = arrived s ++ [iter.id]) (handler : List Request) :
    ∃ finished' s', saveEnd p now handler iter s = .ok s' ∧ Core p finished' s' ∧
      s'.calls = functions (finished'.map FIFOEntry.piece) ∧ s'.transferPending = true ∧
      s'.outstanding = s.outstanding ∧
      Phase { s' with waitQueue := s'.waitQueue.tail, transferPending := false } ∧
      Pays p 0 s s' := by
  have hnew : iter.id ∉ arrived s := by
    intro hmem
    have hordered := core.ordered
    rw [last, List.pairwise_append] at hordered
    exact lt_irrefl _ (hordered.2.2 _ hmem _ (List.mem_singleton.2 rfl))
  cases phase with
  | waits insert inserted submit transfer single completion =>
      have hnone : arrived s = [] := by
        rw [last, List.length_append, List.length_singleton] at single
        exact List.length_eq_zero_iff.1 (by omega)
      rw [hnone, List.nil_append] at last
      exact saveEnd_waits_eq_ok now valid core blocked calls insert inserted submit pending last
        (completion.trans last) handler
  | inserts insert submit completion =>
      obtain ⟨comp, hcomp, hok⟩ := saveEnd_of_none (p := p) now
        (find_eq_none.2 (by rwa [completion])) handler
      refine ⟨finished, _, hok, ?_, calls, pending, rfl, ?_, .refl s⟩
      · exact ⟨{ core.kept with }, core.accesses, core.ready, core.ordered, core.fresh⟩
      · refine .inserts insert submit ?_
        change (s.readCompletion ++ [comp]).map ReadEntry.id = ids s
        simp [completion, last, hcomp]
  | completes insert inserted submit front completion =>
      obtain ⟨comp, hcomp, hok⟩ := saveEnd_of_none (p := p) now
        (find_eq_none.2 (by
          rw [completion]
          exact fun hmem => hnew (List.mem_of_mem_tail hmem))) handler
      refine ⟨finished, _, hok, ?_, calls, pending, rfl, ?_, .refl s⟩
      · exact ⟨{ core.kept with }, core.accesses, core.ready, core.ordered, core.fresh⟩
      · refine .completes insert inserted submit ?_ ?_
        · change ids s ≠ []
          simp [last]
        · change (s.readCompletion ++ [comp]).map ReadEntry.id = (ids s).tail
          simp [completion, last, hcomp, List.tail_append_of_ne_nil front]

theorem transferNext_of_done (valid : p.Valid) (core : Core p finished s)
    (calls : s.calls = functions (finished.map FIFOEntry.piece))
    (pending : s.transferPending = true) (outstanding : s.outstanding = 0)
    (phase : Phase { s with waitQueue := s.waitQueue.tail, transferPending := false }) :
    ∃ s', transferNext p now { s with
        waitQueue := s.waitQueue.tail, transferPending := false } = .ok s' ∧
      Inv p finished s' ∧ Pays p 0 s s' := by
  have kept := core.kept
  rw [pending] at kept
  have core' : Core p finished { s with
      waitQueue := s.waitQueue.tail, transferPending := false } :=
    ⟨{ kept.taken with }, core.accesses, core.ready, core.ordered, core.fresh⟩
  have taken : Pays p 0 s { s with waitQueue := s.waitQueue.tail, transferPending := false } := by
    unfold Pays load
    simp [waiting, pending]
  obtain ⟨s', hok, core'', blocked, frame, pays⟩ := transferNext_eq_ok now valid core'
  refine ⟨s', hok, Flows.of_frame ⟨core', calls, ?_, outstanding⟩ phase core'' blocked frame,
    taken.zero_trans pays⟩
  intro h
  cases h

theorem transferDone_eq_ok (valid : p.Valid) (inv : Inv p finished s) {outstanding : Nat}
    (waits : s.outstanding = outstanding + 1) (handler : List Request) :
    ∃ finished' s', transferReadDone p now handler { s with outstanding := outstanding } =
      .ok s' ∧ Inv p finished' s' ∧ Pays p 1 s s' := by
  have houtstanding := inv.outstanding
  have hle := Bool.toNat_le s.transferPending
  have hzero : outstanding = 0 := by omega
  have pending : s.transferPending = true := by
    rw [waits, hzero] at houtstanding
    simpa using houtstanding.symm
  obtain ⟨e, rest, hwait, hids⟩ := arrived_concat inv.linked pending
  have once : Pays p 1 s { s with outstanding := outstanding } := by
    unfold Pays load
    simp only [waits]
    omega
  have core : Core p finished { s with outstanding := outstanding } :=
    ⟨inv.kept, inv.accesses, inv.ready, inv.ordered, inv.fresh⟩
  have phase : Phase { s with outstanding := outstanding } := by
    cases inv.phase with
    | inserts insert submit completion => exact .inserts insert submit completion
    | waits insert inserted submit transfer single completion =>
        exact .waits insert inserted submit transfer single completion
    | completes insert inserted submit front completion =>
        exact .completes insert inserted submit front completion
  obtain ⟨finished', s₁, hsave, core₁, calls₁, pending₁, outstanding₁, phase₁, pays₁⟩ :=
    saveEnd_eq_ok (s := { s with outstanding := outstanding }) now valid core inv.blocked inv.calls
      phase pending hids handler
  obtain ⟨s', hok, inv', pays'⟩ := transferNext_of_done now valid core₁ calls₁ pending₁
    (outstanding₁.trans hzero) phase₁
  refine ⟨finished', s', ?_, inv', once.trans_zero (pays₁.zero_trans pays')⟩
  simp only [transferReadDone, hwait]
  exact bind_eq_ok.2 ⟨s₁, hsave, hok⟩

theorem step_eq_ok (valid : p.Valid) (inv : Inv p finished s) {action : Action}
    {result : Except Fault ReadSide} (h : step p now action s = some result) :
    ∃ finished' s', result = .ok s' ∧ Inv p finished' s' ∧ Pays p action.steps s s' := by
  cases action with
  | request request =>
      cases h
      obtain ⟨s', hok, core, blocked, frame, pays⟩ :=
        dmaRead_eq_ok now valid inv.toCore inv.blocked request
      exact ⟨finished, s', hok, inv.toFlows.of_frame inv.phase core blocked frame, pays⟩
  | insertDone handler =>
      obtain ⟨scheduled, heq⟩ := Option.ite_none_right_eq_some.1 h
      cases heq
      exact insertDone_eq_ok now valid inv scheduled handler
  | beginTransfer =>
      obtain ⟨scheduled, heq⟩ := Option.ite_none_right_eq_some.1 h
      cases heq
      exact ⟨finished, beginTransfer_eq_ok now inv scheduled⟩
  | submitCompletion handler =>
      obtain ⟨scheduled, heq⟩ := Option.ite_none_right_eq_some.1 h
      cases heq
      exact submitCompletion_eq_ok now valid inv scheduled handler
  | transferDone handler =>
      unfold step at h
      cases waits : s.outstanding with
      | zero => simp [waits] at h
      | succ outstanding =>
          simp only [waits, Option.some.injEq] at h
          subst h
          exact transferDone_eq_ok now valid inv waits handler

end Read

end SimpleSSD.FIFO
