import SimpleSSD.Foundation.Fallible
import SimpleSSD.Util.FIFO.Queue

/-!
# Writes through the FIFO

A piece is inserted into the FIFO first and then written to the upstream.  It leaves
the transfer queue when both are done.
-/

namespace SimpleSSD.FIFO

open SimpleSSD.Foundation

namespace Write

variable (p : FIFOParam) (now : Tick)

def insertWrite (s : Side) : Except Fault Side := do
  match ← enter p now p.wqSize s.insertPending
      (fun iter => { iter with insertEndAt := now + p.latency (p.calcSize iter.size) })
      s.toQueue with
  | none => .ok s
  | some (iter, q) =>
      .ok { s with
        toQueue := { q with insertPending := true, insertDone := some iter.insertEndAt } }

def insertNext (s : Side) : Except Fault Side :=
  if s.waitQueue = [] then .ok s else insertWrite p now s

def insertWriteDone (s : Side) : Except Fault Side :=
  if s.waitQueue = [] then .error .undefined
  else insertNext p now { s with waitQueue := s.waitQueue.tail, insertPending := false }

def transferWrite (s : Side) : Except Fault Side :=
  match s.transferQueue with
  | [] => .error .undefined
  | iter :: _ =>
      if s.transferPending then .ok s
      else .ok { s with
        transferPending := true
        accesses := s.accesses ++ [iter.piece]
        outstanding := s.outstanding + 1 }

def transferNext (s : Side) : Except Fault Side :=
  if s.transferQueue ≠ [] ∧ s.beginTransfer = none then transferWrite s else .ok s

def dmaWrite (s : Side) (request : Request) : Except Fault Side :=
  if request.size = 0 then .ok s
  else insertWrite p now {
    s with
    waitQueue := s.waitQueue ++ [s.entry request]
    requests := s.requests ++ [request] }

/-- Call the function of the last piece, which makes the requests in `handler`. -/
def call (handler : List Request) (iter : FIFOEntry) (s : Side) : Except Fault Side :=
  if iter.last then handler.foldlM (dmaWrite p now) { s with calls := s.calls ++ [iter.func] }
  else .ok s

def transferWriteDoneNext (handler : List Request) (s : Side) : Except Fault Side :=
  match s.transferQueue with
  | [] => .error .undefined
  | iter :: _ => do
      let s ← call p now handler iter s
      let s ← transferNext {
        s with
        usage := sub64 s.usage (p.calcSize iter.size)
        transferPending := false
        transferQueue := s.transferQueue.tail }
      insertNext p now s

def transferWriteDone (handler : List Request) (s : Side) : Except Fault Side :=
  match s.transferQueue with
  | [] => .error .undefined
  | iter :: _ =>
      if iter.insertEndAt + p.unitLatency iter.size ≤ now then transferWriteDoneNext p now handler s
      else .ok { s with submitCompletion := some (iter.insertEndAt + p.unitLatency iter.size) }

def step (action : Action) (s : Side) : Option (Except Fault Side) :=
  match action with
  | .request request => some (dmaWrite p now s request)
  | .insertDone _ =>
      if s.insertDone.isSome then some (insertWriteDone p now { s with insertDone := none })
      else none
  | .beginTransfer =>
      if s.beginTransfer.isSome then some (transferWrite { s with beginTransfer := none }) else none
  | .submitCompletion handler =>
      if s.submitCompletion.isSome then
        some (transferWriteDoneNext p now handler { s with submitCompletion := none })
      else none
  | .transferDone handler =>
      match s.outstanding with
      | 0 => none
      | outstanding + 1 =>
          some (transferWriteDone p now handler { s with outstanding := outstanding })

/-! ## What each function keeps -/

variable {p} {finished : List FIFOEntry} {s s' s'' : Side}

/-- The entries in the queue make up the pieces that were not finished. -/
structure Core (p : FIFOParam) (finished : List FIFOEntry) (s : Side) : Prop where
  kept : Kept p p.wqSize s.insertPending s.transferPending finished s.requests s.toQueue
  insert : s.insertPending = s.insertDone.isSome
  accesses : s.accesses =
    (finished ++ s.transferQueue.take s.transferPending.toNat).map FIFOEntry.piece
  ready : Ready s.transferPending s.toQueue

/-- Nothing of what waits can be inserted, and what is transferred is either with the
upstream or about to be completed. -/
structure Inv (p : FIFOParam) (finished : List FIFOEntry) (s : Side) : Prop extends
    Core p finished s where
  blocked : Blocked p p.wqSize s.insertPending s.toQueue
  calls : s.calls = functions (finished.map FIFOEntry.piece)
  transit : s.outstanding + s.submitCompletion.isSome.toNat = s.transferPending.toNat

def load (p : FIFOParam) (s : Side) : Nat :=
  4 * ((waiting s.insertPending s.toQueue).flatMap (FIFOEntry.pieces p p.wqSize)).length +
    s.insertDone.isSome.toNat + s.beginTransfer.isSome.toNat +
    2 * (s.transferQueue.drop s.transferPending.toNat).length + 2 * s.outstanding +
    s.submitCompletion.isSome.toNat

/-- New requests bring their own steps; `steps` others have been taken. -/
def Pays (p : FIFOParam) (steps : Nat) (s s' : Side) : Prop :=
  load p s' + steps + 4 * (allPieces p p.wqSize s.requests).length ≤
    load p s + 4 * (allPieces p p.wqSize s'.requests).length

theorem Pays.zero_trans {n : Nat} (h : Pays p 0 s s') (h' : Pays p n s' s'') :
    Pays p n s s'' := by
  unfold Pays at *
  omega

theorem Pays.trans_zero {n : Nat} (h : Pays p n s s') (h' : Pays p 0 s' s'') :
    Pays p n s s'' := by
  unfold Pays at *
  omega

structure Frame (s s' : Side) : Prop where
  accesses : s'.accesses = s.accesses
  outstanding : s'.outstanding = s.outstanding
  calls : s'.calls = s.calls
  submitCompletion : s'.submitCompletion = s.submitCompletion
  transferPending : s'.transferPending = s.transferPending
  transferQueue : ∃ inserted, s'.transferQueue = s.transferQueue ++ inserted

theorem Frame.refl (s : Side) : Frame s s := ⟨rfl, rfl, rfl, rfl, rfl, [], (List.append_nil _).symm⟩

theorem Frame.trans (h : Frame s s') (h' : Frame s' s'') : Frame s s'' := by
  obtain ⟨inserted, heq⟩ := h.transferQueue
  obtain ⟨inserted', heq'⟩ := h'.transferQueue
  exact ⟨h'.accesses.trans h.accesses, h'.outstanding.trans h.outstanding,
    h'.calls.trans h.calls, h'.submitCompletion.trans h.submitCompletion,
    h'.transferPending.trans h.transferPending, inserted ++ inserted', by
      rw [heq', heq, List.append_assoc]⟩

theorem insertWrite_eq_ok (valid : p.Valid) (core : Core p finished s)
    (nonempty : s.waitQueue ≠ []) :
    ∃ s', insertWrite p now s = .ok s' ∧ Core p finished s' ∧
      Blocked p p.wqSize s'.insertPending s'.toQueue ∧ Frame s s' ∧ Pays p 0 s s' := by
  rcases core.kept.enter valid.unit valid.write now
    (fun iter => { iter with insertEndAt := now + p.latency (p.calcSize iter.size) })
    (fun _ => rfl) nonempty with ⟨hnone, blocked⟩ | ⟨e, q, free, hsome, kept, taken, hpieces⟩
  · refine ⟨s, by rw [insertWrite, hnone]; rfl, core, blocked, Frame.refl s, ?_⟩
    unfold Pays
    omega
  · obtain ⟨-, htransfer, -, hsubmit⟩ := taken.flags
    have hinsert : s.insertDone = none := by
      have hflag := core.insert
      rw [free] at hflag
      exact Option.not_isSome_iff_eq_none.1 (by simp [← hflag])
    refine ⟨_, by rw [insertWrite, hsome]; rfl, ⟨?_, rfl, ?_, ?_⟩, ?_, ?_, ?_⟩
    · simp only [htransfer]
      exact { kept with }
    · simp only [htransfer, taken.transferQueue, core.accesses]
      rw [take_concat core.kept.served]
    · exact taken.ready
    · simp [Blocked]
    · exact ⟨rfl, rfl, rfl, hsubmit, htransfer, _, taken.transferQueue⟩
    · unfold Pays load
      have hbegin := Bool.toNat_le (q.beginTransfer.isSome)
      simp only [waiting, if_true, Bool.false_eq_true, if_false] at hpieces
      simp only [waiting, if_true, Bool.false_eq_true, if_false, htransfer, hsubmit, hinsert, free,
        hpieces, taken.transferQueue, drop_concat core.kept.served, List.length_append,
        List.length_cons, List.length_nil, Option.isSome_some, Option.isSome_none,
        Bool.toNat_true, Bool.toNat_false]
      omega

theorem insertNext_eq_ok (valid : p.Valid) (core : Core p finished s) :
    ∃ s', insertNext p now s = .ok s' ∧ Core p finished s' ∧
      Blocked p p.wqSize s'.insertPending s'.toQueue ∧ Frame s s' ∧ Pays p 0 s s' := by
  unfold insertNext
  by_cases hempty : s.waitQueue = []
  · refine ⟨s, if_pos hempty, core, ?_, Frame.refl s, ?_⟩
    · intro _ e rest heq
      rw [hempty] at heq
      cases heq
    · unfold Pays
      omega
  · rw [if_neg hempty]
    exact insertWrite_eq_ok now valid core hempty

theorem dmaWrite_eq_ok (valid : p.Valid) (core : Core p finished s)
    (blocked : Blocked p p.wqSize s.insertPending s.toQueue) (request : Request) :
    ∃ s', dmaWrite p now s request = .ok s' ∧ Core p finished s' ∧
      Blocked p p.wqSize s'.insertPending s'.toQueue ∧ Frame s s' ∧ Pays p 0 s s' := by
  unfold dmaWrite
  by_cases hzero : request.size = 0
  · refine ⟨s, if_pos hzero, core, blocked, Frame.refl s, ?_⟩
    unfold Pays
    omega
  · rw [if_neg hzero]
    have kept := core.kept.request (s.entry request) (Nat.pos_of_ne_zero hzero)
      ⟨rfl, rfl, rfl, rfl, rfl⟩
    have core' : Core p finished { s with
        waitQueue := s.waitQueue ++ [s.entry request]
        requests := s.requests ++ [request] } :=
      ⟨kept, core.insert, core.accesses, core.ready⟩
    have pays : Pays p 0 s { s with
        waitQueue := s.waitQueue ++ [s.entry request]
        requests := s.requests ++ [request] } := by
      unfold Pays load
      simp only [core.kept.waiting_concat, List.flatMap_append, List.length_append,
        allPieces_concat]
      simp only [List.flatMap_singleton, FIFOEntry.pieces, Side.entry]
      omega
    obtain ⟨s', hok, core'', blocked', frame, pays'⟩ :=
      insertWrite_eq_ok now valid core' (by simp)
    refine ⟨s', hok, core'', blocked', ?_, pays.zero_trans pays'⟩
    exact ⟨frame.accesses, frame.outstanding, frame.calls, frame.submitCompletion,
      frame.transferPending, frame.transferQueue⟩

theorem foldlM_dmaWrite_eq_ok (valid : p.Valid) (handler : List Request)
    (core : Core p finished s) (blocked : Blocked p p.wqSize s.insertPending s.toQueue) :
    ∃ s', handler.foldlM (dmaWrite p now) s = .ok s' ∧ Core p finished s' ∧
      Blocked p p.wqSize s'.insertPending s'.toQueue ∧ Frame s s' ∧ Pays p 0 s s' := by
  induction handler generalizing s with
  | nil =>
      refine ⟨s, rfl, core, blocked, Frame.refl s, ?_⟩
      unfold Pays
      omega
  | cons request rest ih =>
      obtain ⟨s₁, hok, core₁, blocked₁, frame₁, pays₁⟩ :=
        dmaWrite_eq_ok now valid core blocked request
      obtain ⟨s', hrest, core', blocked', frame', pays'⟩ := ih core₁ blocked₁
      refine ⟨s', ?_, core', blocked', frame₁.trans frame', pays₁.zero_trans pays'⟩
      rw [List.foldlM_cons, hok]
      exact hrest

theorem call_eq_ok (valid : p.Valid) (core : Core p finished s)
    (blocked : Blocked p p.wqSize s.insertPending s.toQueue) (handler : List Request)
    (iter : FIFOEntry) :
    ∃ s', call p now handler iter s = .ok s' ∧ Core p finished s' ∧
      Blocked p p.wqSize s'.insertPending s'.toQueue ∧
      Frame { s with calls := s.calls ++ functions [iter.piece] } s' ∧ Pays p 0 s s' := by
  unfold call
  cases hlast : iter.last with
  | true =>
      have hfunctions : functions [iter.piece] = [iter.func] := by
        simp [functions, FIFOEntry.piece, hlast]
      rw [if_pos rfl, hfunctions]
      exact foldlM_dmaWrite_eq_ok now (s := { s with calls := s.calls ++ [iter.func] })
          valid handler
        ⟨core.kept, core.insert, core.accesses, core.ready⟩ blocked
  | false =>
      have hfunctions : functions [iter.piece] = [] := by
        simp [functions, FIFOEntry.piece, hlast]
      rw [if_neg (by simp), hfunctions, List.append_nil]
      refine ⟨s, rfl, core, blocked, Frame.refl s, ?_⟩
      unfold Pays
      omega

theorem transferWrite_of_idle {iter : FIFOEntry} {rest : List FIFOEntry}
    (front : s.transferQueue = iter :: rest) (idle : s.transferPending = false) :
    transferWrite s = .ok { s with
      transferPending := true
      accesses := s.accesses ++ [iter.piece]
      outstanding := s.outstanding + 1 } := by
  unfold transferWrite
  split
  · rename_i hnil
    rw [front] at hnil
    cases hnil
  · rename_i first others heq
    rw [front] at heq
    cases heq
    exact if_neg (by simp [idle])

theorem transferWrite_eq_ok
    (kept : Kept p p.wqSize s.insertPending false finished s.requests s.toQueue)
    (insert : s.insertPending = s.insertDone.isSome)
    (accesses : s.accesses = finished.map FIFOEntry.piece) (idle : s.transferPending = false)
    (nonempty : s.transferQueue ≠ []) (unscheduled : s.beginTransfer = none) :
    ∃ s', transferWrite s = .ok s' ∧ Core p finished s' ∧ s'.toQueue = { s.toQueue with
      transferPending := true } ∧ s'.calls = s.calls ∧ s'.outstanding = s.outstanding + 1 ∧
      Pays p 0 s s' := by
  obtain ⟨iter, rest, front⟩ := List.exists_cons_of_ne_nil nonempty
  refine ⟨_, transferWrite_of_idle front idle, ⟨?_, insert, ?_, fun _ => .inl rfl⟩,
      rfl, rfl, rfl, ?_⟩
  · exact { kept.serve nonempty unscheduled with }
  · simp [accesses, front]
  · unfold Pays load
    simp [waiting, front, idle]
    omega

theorem transferNext_eq_ok
    (kept : Kept p p.wqSize s.insertPending false finished s.requests s.toQueue)
    (insert : s.insertPending = s.insertDone.isSome)
    (accesses : s.accesses = finished.map FIFOEntry.piece) (idle : s.transferPending = false) :
    ∃ s', transferNext s = .ok s' ∧ Core p finished s' ∧ s'.calls = s.calls ∧
      s'.submitCompletion = s.submitCompletion ∧
      s'.outstanding = s.outstanding + s'.transferPending.toNat ∧ Pays p 0 s s' := by
  unfold transferNext
  by_cases next : s.transferQueue ≠ [] ∧ s.beginTransfer = none
  · rw [if_pos next]
    obtain ⟨s', hok, core, hqueue, hcalls, houtstanding, pays⟩ :=
      transferWrite_eq_ok kept insert accesses idle next.1 next.2
    exact ⟨s', hok, core, hcalls, by rw [hqueue], by rw [houtstanding, hqueue]; rfl, pays⟩
  · rw [if_neg next]
    refine ⟨s, rfl, ⟨?_, insert, ?_, ?_⟩, rfl, rfl, ?_, ?_⟩
    · rw [idle]
      exact kept
    · simp [accesses, idle]
    · intro hne
      right
      by_contra hbegin
      exact next ⟨hne, Option.not_isSome_iff_eq_none.1 hbegin⟩
    · simp [idle]
    · unfold Pays
      omega

theorem transferWriteDoneNext_eq_ok (valid : p.Valid) (core : Core p finished s)
    (blocked : Blocked p p.wqSize s.insertPending s.toQueue)
    (calls : s.calls = functions (finished.map FIFOEntry.piece))
    (pending : s.transferPending = true) (outstanding : s.outstanding = 0)
    (submit : s.submitCompletion = none) (handler : List Request) :
    ∃ finished' s', transferWriteDoneNext p now handler s = .ok s' ∧ Inv p finished' s' ∧
      Pays p 0 s s' := by
  obtain ⟨iter, rest, front⟩ := List.exists_cons_of_ne_nil (core.kept.served pending)
  obtain ⟨s₁, hcall, core₁, blocked₁, frame₁, pays₁⟩ :=
    call_eq_ok now valid core blocked handler iter
  obtain ⟨inserted, hqueue₁⟩ := frame₁.transferQueue
  simp only [front, List.cons_append] at hqueue₁
  have hpending₁ : s₁.transferPending = true := frame₁.transferPending.trans pending
  have hkept₁ := core₁.kept
  rw [hpending₁] at hkept₁
  have haccesses := core₁.accesses
  rw [hpending₁, hqueue₁] at haccesses
  have hkept₂ : Kept p p.wqSize s₁.insertPending false (finished ++ [iter]) s₁.requests {
      s₁.toQueue with
      usage := sub64 s₁.usage (p.calcSize iter.size)
      transferPending := false
      transferQueue := s₁.transferQueue.tail } := by
    rw [hqueue₁]
    exact { hkept₁.finish hqueue₁ with }
  obtain ⟨s₂, htransfer, core₂, hcalls₂, hsubmit₂, houtstanding₂, pays₂⟩ := transferNext_eq_ok
    (s := { s₁ with
      usage := sub64 s₁.usage (p.calcSize iter.size)
      transferPending := false
      transferQueue := s₁.transferQueue.tail })
    hkept₂ core₁.insert (by simpa using haccesses) rfl
  have pop : Pays p 0 s₁ { s₁ with
      usage := sub64 s₁.usage (p.calcSize iter.size)
      transferPending := false
      transferQueue := s₁.transferQueue.tail } := by
    unfold Pays load
    simp [waiting, hpending₁]
  obtain ⟨s', hinsert, core', blocked', frame', pays'⟩ := insertNext_eq_ok now valid core₂
  refine ⟨_, s', ?_, ⟨core', blocked', ?_, ?_⟩,
    pays₁.zero_trans (pop.zero_trans (pays₂.zero_trans pays'))⟩
  · unfold transferWriteDoneNext
    split
    · rename_i hnil
      rw [front] at hnil
      cases hnil
    · rename_i first others heq
      rw [front] at heq
      cases heq
      exact bind_eq_ok.2 ⟨s₁, hcall, bind_eq_ok.2 ⟨s₂, htransfer, hinsert⟩⟩
  · rw [frame'.calls, hcalls₂, List.map_append, functions_append, ← calls]
    exact frame₁.calls
  · rw [frame'.outstanding, frame'.submitCompletion, frame'.transferPending,
        houtstanding₂, hsubmit₂]
    simp [frame₁.outstanding, frame₁.submitCompletion, outstanding, submit]

/-! ## Steps -/

theorem Inv.of_frame (inv : Inv p finished s) (core : Core p finished s')
    (blocked : Blocked p p.wqSize s'.insertPending s'.toQueue) (frame : Frame s s') :
    Inv p finished s' := by
  refine ⟨core, blocked, frame.calls.trans inv.calls, ?_⟩
  rw [frame.outstanding, frame.submitCompletion, frame.transferPending]
  exact inv.transit

theorem insertDone_eq_ok (valid : p.Valid) (inv : Inv p finished s)
    (scheduled : s.insertDone.isSome = true) :
    ∃ s', insertWriteDone p now { s with insertDone := none } = .ok s' ∧ Inv p finished s' ∧
      Pays p 1 s s' := by
  have taking : s.insertPending = true := inv.insert.trans scheduled
  have kept := inv.kept
  rw [taking] at kept
  obtain ⟨e, rest, hwait, -⟩ := kept.head rfl
  have core : Core p finished { s with
      insertDone := none, waitQueue := s.waitQueue.tail, insertPending := false } :=
    ⟨{ kept.taken with }, rfl, inv.accesses, inv.ready⟩
  obtain ⟨s', hok, core', blocked, frame, pays⟩ := insertNext_eq_ok now valid core
  refine ⟨s', ?_, inv.of_frame core' blocked ⟨frame.accesses, frame.outstanding, frame.calls,
    frame.submitCompletion, frame.transferPending, frame.transferQueue⟩, ?_⟩
  · unfold insertWriteDone
    rw [if_neg (by simp [hwait])]
    exact hok
  · unfold Pays load at pays ⊢
    simp only [waiting, taking, scheduled, if_true, Bool.toNat_true] at pays ⊢
    simp at pays ⊢
    omega

theorem transferWrite_of_pending {iter : FIFOEntry} {rest : List FIFOEntry}
    (front : s.transferQueue = iter :: rest) (pending : s.transferPending = true) :
    transferWrite s = .ok s := by
  unfold transferWrite
  split
  · rename_i hnil
    rw [front] at hnil
    cases hnil
  · exact if_pos pending

theorem beginTransfer_eq_ok (inv : Inv p finished s) (scheduled : s.beginTransfer.isSome = true) :
    ∃ s', transferWrite { s with beginTransfer := none } = .ok s' ∧ Inv p finished s' ∧
      Pays p 1 s s' := by
  have unserved := inv.kept.scheduled scheduled
  have once : Pays p 1 s { s with beginTransfer := none } := by
    unfold Pays load
    simp +arith [waiting, scheduled]
  by_cases pending : s.transferPending = true
  · obtain ⟨iter, rest, front⟩ := List.exists_cons_of_ne_nil (inv.kept.served pending)
    refine ⟨_, transferWrite_of_pending front pending, ?_, once⟩
    exact ⟨⟨{ inv.kept with scheduled := by simp }, inv.insert, inv.accesses,
      fun _ => .inl pending⟩, inv.blocked, inv.calls, inv.transit⟩
  · have idle := Bool.eq_false_of_not_eq_true pending
    have kept := inv.kept
    have accesses := inv.accesses
    have transit := inv.transit
    rw [idle] at kept accesses unserved transit
    obtain ⟨s', hok, core, hqueue, hcalls, houtstanding, pays⟩ :=
      transferWrite_eq_ok (s := { s with beginTransfer := none })
        { kept with scheduled := by simp } inv.insert (by simpa using accesses) idle
        (by simpa using unserved) rfl
    refine ⟨s', hok, ⟨core, ?_, hcalls.trans inv.calls, ?_⟩, once.trans_zero pays⟩
    · rw [hqueue]
      exact inv.blocked
    · rw [hqueue, houtstanding]
      simp only [Bool.toNat_false, Bool.toNat_true] at transit ⊢
      omega

theorem submitCompletion_eq_ok (valid : p.Valid) (inv : Inv p finished s)
    (scheduled : s.submitCompletion.isSome = true) (handler : List Request) :
    ∃ finished' s', transferWriteDoneNext p now handler { s with submitCompletion := none } =
      .ok s' ∧ Inv p finished' s' ∧ Pays p 1 s s' := by
  have transit := inv.transit
  rw [scheduled] at transit
  have hle := Bool.toNat_le s.transferPending
  have outstanding : s.outstanding = 0 := by
    simp only [Bool.toNat_true] at transit
    omega
  have pending : s.transferPending = true := by
    rw [outstanding] at transit
    simpa using transit.symm
  have core : Core p finished { s with submitCompletion := none } :=
    ⟨{ inv.kept with }, inv.insert, inv.accesses, inv.ready⟩
  obtain ⟨finished', s', hok, inv', pays⟩ := transferWriteDoneNext_eq_ok now valid core
    inv.blocked inv.calls pending outstanding rfl handler
  refine ⟨finished', s', hok, inv', ?_⟩
  unfold Pays load at pays ⊢
  simp only [scheduled, Bool.toNat_true] at pays ⊢
  simp [waiting] at pays ⊢
  omega

theorem transferDone_eq_ok (valid : p.Valid) (inv : Inv p finished s) {outstanding : Nat}
    (waits : s.outstanding = outstanding + 1) (handler : List Request) :
    ∃ finished' s', transferWriteDone p now handler { s with outstanding := outstanding } =
      .ok s' ∧ Inv p finished' s' ∧ Pays p 1 s s' := by
  have transit := inv.transit
  have hle := Bool.toNat_le s.transferPending
  have hzero : outstanding = 0 := by omega
  have hsubmit : s.submitCompletion.isSome.toNat = 0 := by omega
  have pending : s.transferPending = true := by
    rw [waits, hsubmit, hzero] at transit
    simpa using transit.symm
  have submit : s.submitCompletion = none := by simpa using hsubmit
  have core : Core p finished { s with outstanding := outstanding } :=
    ⟨inv.kept, inv.insert, inv.accesses, inv.ready⟩
  have once : Pays p 2 s { s with outstanding := outstanding } := by
    unfold Pays load
    simp only [waits]
    omega
  obtain ⟨iter, rest, front⟩ := List.exists_cons_of_ne_nil (inv.kept.served pending)
  unfold transferWriteDone
  split
  · rename_i hnil
    rw [front] at hnil
    cases hnil
  · rename_i first others heq
    by_cases immediate : first.insertEndAt + p.unitLatency first.size ≤ now
    · rw [if_pos immediate]
      obtain ⟨finished', s', hok, inv', pays⟩ := transferWriteDoneNext_eq_ok now valid core
        inv.blocked inv.calls pending hzero submit handler
      refine ⟨finished', s', hok, inv', ?_⟩
      have both := once.trans_zero pays
      unfold Pays at both ⊢
      omega
    · rw [if_neg immediate]
      refine ⟨finished, _, rfl, ⟨⟨{ inv.kept with }, inv.insert, inv.accesses, inv.ready⟩,
        inv.blocked, inv.calls, ?_⟩, ?_⟩
      · simp [hzero, pending]
      · unfold Pays load at once ⊢
        simp only [waiting, Option.isSome_some, Bool.toNat_true] at once ⊢
        omega

theorem step_eq_ok (valid : p.Valid) (inv : Inv p finished s) {action : Action}
    {result : Except Fault Side} (h : step p now action s = some result) :
    ∃ finished' s', result = .ok s' ∧ Inv p finished' s' ∧ Pays p action.steps s s' := by
  cases action with
  | request request =>
      cases h
      obtain ⟨s', hok, core, blocked, frame, pays⟩ :=
        dmaWrite_eq_ok now valid inv.toCore inv.blocked request
      exact ⟨finished, s', hok, inv.of_frame core blocked frame, pays⟩
  | insertDone handler =>
      obtain ⟨scheduled, heq⟩ := Option.ite_none_right_eq_some.1 h
      cases heq
      exact ⟨finished, insertDone_eq_ok now valid inv scheduled⟩
  | beginTransfer =>
      obtain ⟨scheduled, heq⟩ := Option.ite_none_right_eq_some.1 h
      cases heq
      exact ⟨finished, beginTransfer_eq_ok inv scheduled⟩
  | submitCompletion handler =>
      obtain ⟨scheduled, heq⟩ := Option.ite_none_right_eq_some.1 h
      cases heq
      exact submitCompletion_eq_ok now valid inv scheduled handler
  | transferDone handler =>
      unfold step at h
      cases waits : s.outstanding with
      | zero => simp [waits] at h
      | succ outstanding =>
          simp only [waits, Option.some.injEq] at h
          subst h
          exact transferDone_eq_ok now valid inv waits handler

end Write

end SimpleSSD.FIFO
