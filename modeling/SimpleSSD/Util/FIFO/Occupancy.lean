import SimpleSSD.Foundation.Transition
import SimpleSSD.Util.FIFO.Delivery

/-!
# Occupancy of the FIFO

What the queues take on, call by call.  A request that is too large for its queue is cut,
and its first unit does not wait for room.
-/

namespace SimpleSSD.FIFO

open SimpleSSD.Foundation

/-- There is room for the unit cut off a request that is too large. -/
def Roomy (p : FIFOParam) (maxSize : Nat) (q : Queue) : Prop :=
  ∀ e ∈ q.waitQueue.head?, maxSize < p.calcSize e.size → q.usage + p.transferUnit ≤ maxSize

instance (p : FIFOParam) (maxSize : Nat) (q : Queue) : Decidable (Roomy p maxSize q) :=
  inferInstanceAs (Decidable (∀ e ∈ q.waitQueue.head?, _ → _))

structure Fits (p : FIFOParam) (maxSize : Nat) (q : Queue) : Prop where
  capacity : q.capacity = maxSize
  usage : q.usage = (q.transferQueue.map fun e => p.calcSize e.size).sum
  bounded : q.usage ≤ maxSize

variable {p : FIFOParam} {now : Tick} {maxSize : Nat} {pending : Bool}
  {mark : FIFOEntry → FIFOEntry} {iter : FIFOEntry} {rest : List FIFOEntry} {q q' : Queue}

theorem calcSize_unit (unit : 0 < p.transferUnit) : p.calcSize p.transferUnit = p.transferUnit := by
  have hdiv : (p.transferUnit - 1) / p.transferUnit = 0 := Nat.div_eq_of_lt (by omega)
  simp [FIFOParam.calcSize, hdiv]

theorem enter_none (h : enter p now maxSize pending mark q = .ok none) : Roomy p maxSize q := by
  intro e hhead large
  obtain ⟨rest, hwait⟩ := List.head?_eq_some_iff.1 hhead
  have small : ¬p.calcSize e.size ≤ maxSize := Nat.not_le.2 large
  simp [enter, hwait, small] at h

theorem enter_eq_some (h : enter p now maxSize pending mark q = .ok (some (iter, q'))) :
    ∃ e rest, q.waitQueue = e :: rest ∧
      ¬ ((pending = true ∨ q.capacity < q.usage + p.calcSize e.size) ∧
        p.calcSize e.size ≤ maxSize) ∧
      iter = mark (p.split maxSize e rest).1 ∧ q'.capacity = q.capacity ∧
      q'.usage = q.usage + p.calcSize iter.size ∧
      q'.transferQueue = q.transferQueue ++ [iter] := by
  unfold enter at h
  cases hwait : q.waitQueue with
  | nil => simp [hwait] at h
  | cons e rest =>
      simp only [hwait] at h
      split at h
      · cases h
      · rename_i free
        cases h
        exact ⟨e, rest, rfl, free, rfl, rfl, rfl, rfl⟩

theorem enter_some (unit : 0 < p.transferUnit) (same : ∀ e, (mark e).size = e.size)
    (fits : Fits p maxSize q) (h : enter p now maxSize pending mark q = .ok (some (iter, q'))) :
    (q'.usage ≤ maxSize ↔ Roomy p maxSize q) ∧ (Roomy p maxSize q → Fits p maxSize q') := by
  obtain ⟨e, rest, hwait, free, rfl, hcapacity, husage, hqueue⟩ := enter_eq_some h
  have capacity := fits.capacity
  have roomy : q'.usage ≤ maxSize ↔ Roomy p maxSize q := by
    simp only [husage, same, Roomy, hwait, List.head?_cons, Option.mem_some_iff, forall_eq']
    by_cases large : maxSize < p.calcSize e.size
    · have hcut : p.calcSize (p.split maxSize e rest).1.size = p.transferUnit := by
        simp [FIFOParam.split, large, calcSize_unit unit]
      simp [hcut, large]
    · have hcut : (p.split maxSize e rest).1 = e := by simp [FIFOParam.split, large]
      have room : q.usage + p.calcSize e.size ≤ maxSize := by
        by_contra hfull
        exact free ⟨.inr (by omega), by omega⟩
      simp [hcut, large, room]
  refine ⟨roomy, fun h => ⟨hcapacity.trans capacity, ?_, roomy.2 h⟩⟩
  rw [husage, fits.usage]
  simp [hqueue]

theorem enter_queue (h : enter p now maxSize pending mark q = .ok (some (iter, q'))) :
    q.transferQueue <+: q'.transferQueue := by
  obtain ⟨_, _, -, -, -, -, -, hqueue⟩ := enter_eq_some h
  rw [hqueue]
  exact List.prefix_append _ _

theorem Fits.finish (fits : Fits p maxSize q) (front : iter :: rest <+: q.transferQueue) :
    Fits p maxSize { q with
      usage := sub64 q.usage (p.calcSize iter.size), transferQueue := q.transferQueue.tail } := by
  obtain ⟨more, front⟩ := front
  have husage := fits.usage
  have hbounded := fits.bounded
  rw [← front] at husage ⊢
  simp only [List.cons_append, List.map_cons, List.sum_cons, List.tail_cons] at husage ⊢
  have hsub : sub64 q.usage (p.calcSize iter.size) = q.usage - p.calcSize iter.size :=
    sub64_of_le (by omega)
  constructor
  · exact fits.capacity
  · simp only [hsub]
    omega
  · simp only [hsub]
    omega

theorem Fits.congr (fits : Fits p maxSize q) (capacity : q'.capacity = q.capacity)
    (usage : q'.usage = q.usage) (transferQueue : q'.transferQueue = q.transferQueue) :
    Fits p maxSize q' :=
  ⟨capacity.trans fits.capacity, by rw [usage, transferQueue, fits.usage],
    usage.le.trans fits.bounded⟩

/-! ## Insertions of writes -/

namespace Write

variable (p now)

def requestInsertions (s : Side) (request : Request) : List Side :=
  if request.size = 0 then []
  else [{ s with
    waitQueue := s.waitQueue ++ [s.entry request]
    requests := s.requests ++ [request] }]

def nextInsertions (s : Side) : List Side := if s.waitQueue = [] then [] else [s]

def callInsertions (handler : List Request) (iter : FIFOEntry) (s : Side) : List Side :=
  if iter.last then
    (visits (dmaWrite p now) handler { s with calls := s.calls ++ [iter.func] }).flatMap
      fun v => requestInsertions v.1 v.2
  else []

def doneNextInsertions (handler : List Request) (s : Side) : List Side :=
  match s.transferQueue with
  | [] => []
  | iter :: _ =>
      callInsertions p now handler iter s ++
        match call p now handler iter s with
        | .error _ => []
        | .ok s =>
            match transferNext {
              s with
              usage := sub64 s.usage (p.calcSize iter.size)
              transferPending := false
              transferQueue := s.transferQueue.tail } with
            | .error _ => []
            | .ok s => nextInsertions s

def doneInsertions (handler : List Request) (s : Side) : List Side :=
  match s.transferQueue with
  | [] => []
  | iter :: _ =>
      if iter.insertEndAt + p.unitLatency iter.size ≤ now then doneNextInsertions p now handler s
      else []

def insertions (action : Action) (s : Side) : List Side :=
  match action with
  | .request request => requestInsertions s request
  | .insertDone _ => nextInsertions {
      s with insertDone := none, waitQueue := s.waitQueue.tail, insertPending := false }
  | .beginTransfer => []
  | .submitCompletion handler =>
      doneNextInsertions p now handler { s with submitCompletion := none }
  | .transferDone handler =>
      doneInsertions p now handler { s with outstanding := s.outstanding - 1 }

def Bounded (s : Side) : Prop := ∀ s', insertWrite p now s = .ok s' → s'.usage ≤ p.wqSize

variable {p now}

/-- The condition on the insertions between two states is exact. -/
abbrev Inserts (p : FIFOParam) (now : Tick) (calls : List Side) (s s' : Side) : Prop :=
  Exact (fun s : Side => Fits p p.wqSize s.toQueue) (Bounded p now)
    (fun s : Side => Roomy p p.wqSize s.toQueue) calls s s'

variable {s s' : Side} {handler : List Request}

theorem insertWrite_inserts (valid : p.Valid) (h : insertWrite p now s = .ok s') :
    Inserts p now [s] s s' := by
  intro fits
  have once : ∀ s'', insertWrite p now s = .ok s'' → s'' = s' := by
    intro s'' h'
    exact Except.ok.inj (h'.symm.trans h)
  have bounded : Bounded p now s ↔ s'.usage ≤ p.wqSize :=
    ⟨fun h' => h' s' h, fun hle s'' h' => (once s'' h').symm ▸ hle⟩
  simp only [List.forall_mem_singleton, bounded]
  unfold insertWrite at h
  obtain ⟨entered, henter, h⟩ := bind_eq_ok.1 h
  cases entered with
  | none =>
      cases h
      have roomy := enter_none henter
      exact ⟨⟨fun _ => roomy, fun _ => fits.bounded⟩, fun _ => fits⟩
  | some entered =>
      obtain ⟨iter, q⟩ := entered
      cases h
      obtain ⟨hiff, hfits⟩ := enter_some valid.unit (by simp) fits henter
      exact ⟨hiff, fun roomy => (hfits roomy).congr rfl rfl rfl⟩

theorem insertNext_inserts (valid : p.Valid) (h : insertNext p now s = .ok s') :
    Inserts p now (nextInsertions s) s s' := by
  unfold insertNext at h
  unfold nextInsertions
  split_ifs at h ⊢
  · cases h
    exact .nil id
  · exact insertWrite_inserts valid h

theorem dmaWrite_inserts (valid : p.Valid) {request : Request}
    (h : dmaWrite p now s request = .ok s') :
    Inserts p now (requestInsertions s request) s s' := by
  unfold dmaWrite at h
  unfold requestInsertions
  split_ifs at h ⊢
  · cases h
    exact .nil id
  · exact (insertWrite_inserts valid h).of_kept fun fits => fits.congr rfl rfl rfl

theorem call_inserts (valid : p.Valid) {iter : FIFOEntry}
    (h : call p now handler iter s = .ok s') :
    Inserts p now (callInsertions p now handler iter s) s s' := by
  unfold call at h
  unfold callInsertions
  split_ifs at h ⊢
  · apply Exact.of_kept (Exact.foldlM (fun s request s' => dmaWrite_inserts valid) h)
    exact fun fits => fits.congr rfl rfl rfl
  · cases h
    exact .nil id

theorem insertWrite_queue (h : insertWrite p now s = .ok s') :
    s.transferQueue <+: s'.transferQueue := by
  unfold insertWrite at h
  obtain ⟨entered, henter, h⟩ := bind_eq_ok.1 h
  cases entered with
  | none =>
      cases h
      exact List.prefix_rfl
  | some entered =>
      have queued := enter_queue henter
      cases h
      exact queued

theorem dmaWrite_queue {request : Request} (h : dmaWrite p now s request = .ok s') :
    s.transferQueue <+: s'.transferQueue := by
  unfold dmaWrite at h
  split_ifs at h
  · cases h
    exact List.prefix_rfl
  · have queued := insertWrite_queue h
    exact queued

theorem call_queue {iter : FIFOEntry} (h : call p now handler iter s = .ok s') :
    s.transferQueue <+: s'.transferQueue := by
  unfold call at h
  split_ifs at h
  · exact foldlM_invariant_mem (fun mid : Side => s.transferQueue <+: mid.transferQueue)
      (fun request _ mid mid' queued hmid => queued.trans (dmaWrite_queue hmid)) h
      List.prefix_rfl
  · cases h
    exact List.prefix_rfl

theorem transferWrite_fits (h : transferWrite s = .ok s') (fits : Fits p p.wqSize s.toQueue) :
    Fits p p.wqSize s'.toQueue := by
  unfold transferWrite at h
  split at h
  · cases h
  · split_ifs at h
    · cases h
      exact fits
    · cases h
      exact fits.congr rfl rfl rfl

theorem transferNext_fits (h : transferNext s = .ok s') (fits : Fits p p.wqSize s.toQueue) :
    Fits p p.wqSize s'.toQueue := by
  unfold transferNext at h
  split_ifs at h
  · exact transferWrite_fits h fits
  · cases h
    exact fits

theorem doneNext_inserts (valid : p.Valid)
    (h : transferWriteDoneNext p now handler s = .ok s') :
    Inserts p now (doneNextInsertions p now handler s) s s' := by
  unfold transferWriteDoneNext at h
  unfold doneNextInsertions
  cases hqueue : s.transferQueue with
  | nil => simp [hqueue] at h
  | cons iter rest =>
      simp only [hqueue] at h ⊢
      obtain ⟨s₁, hcall, h⟩ := bind_eq_ok.1 h
      obtain ⟨s₂, htransfer, hnext⟩ := bind_eq_ok.1 h
      simp only [hcall, htransfer]
      apply (call_inserts valid hcall).trans
      apply (insertNext_inserts valid hnext).of_kept
      intro fits
      have front := call_queue hcall
      rw [hqueue] at front
      exact transferNext_fits htransfer ((fits.finish front).congr rfl rfl rfl)

theorem done_inserts (valid : p.Valid) (h : transferWriteDone p now handler s = .ok s') :
    Inserts p now (doneInsertions p now handler s) s s' := by
  unfold transferWriteDone at h
  unfold doneInsertions
  cases hqueue : s.transferQueue with
  | nil => simp [hqueue] at h
  | cons iter rest =>
      simp only [hqueue] at h ⊢
      split_ifs at h ⊢
      · exact doneNext_inserts valid h
      · cases h
        exact .nil fun fits => fits.congr rfl rfl hqueue.symm

theorem step_inserts (valid : p.Valid) {action : Action}
    (h : step p now action s = some (.ok s')) :
    Inserts p now (insertions p now action s) s s' := by
  cases action with
  | request request => exact dmaWrite_inserts valid (Option.some.inj h)
  | insertDone handler =>
      obtain ⟨-, h⟩ := Option.ite_none_right_eq_some.1 h
      unfold insertWriteDone at h
      split_ifs at h
      · cases Option.some.inj h
      · apply (insertNext_inserts valid (Option.some.inj h)).of_kept
        exact fun fits => fits.congr rfl rfl rfl
  | beginTransfer =>
      obtain ⟨-, h⟩ := Option.ite_none_right_eq_some.1 h
      refine .nil fun fits => transferWrite_fits (Option.some.inj h) ?_
      exact fits.congr rfl rfl rfl
  | submitCompletion handler =>
      obtain ⟨-, h⟩ := Option.ite_none_right_eq_some.1 h
      apply (doneNext_inserts valid (Option.some.inj h)).of_kept
      exact fun fits => fits.congr rfl rfl rfl
  | transferDone handler =>
      unfold step at h
      cases waits : s.outstanding with
      | zero => simp [waits] at h
      | succ outstanding =>
          simp only [waits] at h
          simp only [insertions, waits, Nat.add_sub_cancel]
          apply (done_inserts valid (Option.some.inj h)).of_kept
          exact fun fits => fits.congr rfl rfl rfl

end Write

/-! ## Transfers of reads -/

namespace Read

variable (p now)

def requestTransfers (s : ReadSide) (request : Request) : List ReadSide :=
  if request.size = 0 then []
  else [{ s with
    waitQueue := s.waitQueue ++ [s.entry request]
    requests := s.requests ++ [request] }]

def nextTransfers (s : ReadSide) : List ReadSide := if s.waitQueue = [] then [] else [s]

def callTransfers (handler : List Request) (iter : FIFOEntry) (s : ReadSide) : List ReadSide :=
  if iter.last then
    (visits (dmaRead p now) handler { s with calls := s.calls ++ [iter.func] }).flatMap
      fun v => requestTransfers v.1 v.2
  else []

def doneNextTransfers (handler : List Request) (s : ReadSide) : List ReadSide :=
  match s.transferQueue with
  | [] => []
  | iter :: _ =>
      callTransfers p now handler iter s ++
        match call p now handler iter s with
        | .error _ => []
        | .ok s =>
            match insertNext p now {
              s with
              usage := sub64 s.usage (p.calcSize iter.size)
              insertPending := false
              transferQueue := s.transferQueue.tail } with
            | .error _ => []
            | .ok s => nextTransfers s

def mergeTransfers (handler : List Request) (comp : ReadEntry) (s : ReadSide) : List ReadSide :=
  if comp.dmaEndAt + comp.latency ≤ now then doneNextTransfers p now handler s else []

def insertDoneTransfers (handler : List Request) (s : ReadSide) : List ReadSide :=
  match s.transferQueue with
  | [] => []
  | iter :: _ =>
      match find iter.id s.readCompletion with
      | none => []
      | some comp => mergeTransfers p now handler comp s

def saveEndTransfers (handler : List Request) (iter : FIFOEntry) (s : ReadSide) :
    List ReadSide :=
  match find iter.id s.readCompletion with
  | none => []
  | some comp => mergeTransfers p now handler { comp with dmaEndAt := now } s

def doneTransfers (handler : List Request) (s : ReadSide) : List ReadSide :=
  match s.waitQueue with
  | [] => []
  | iter :: _ =>
      saveEndTransfers p now handler iter s ++
        match saveEnd p now handler iter s with
        | .error _ => []
        | .ok s => nextTransfers { s with waitQueue := s.waitQueue.tail, transferPending := false }

def transfers (action : Action) (s : ReadSide) : List ReadSide :=
  match action with
  | .request request => requestTransfers s request
  | .insertDone handler => insertDoneTransfers p now handler { s with insertDone := none }
  | .beginTransfer => []
  | .submitCompletion handler =>
      doneNextTransfers p now handler { s with submitCompletion := none }
  | .transferDone handler =>
      doneTransfers p now handler { s with outstanding := s.outstanding - 1 }

def Bounded (s : ReadSide) : Prop := ∀ s', transferRead p now s = .ok s' → s'.usage ≤ p.rqSize

variable {p now}

/-- The condition on the transfers between two states is exact. -/
abbrev Transfers (p : FIFOParam) (now : Tick) (calls : List ReadSide) (s s' : ReadSide) : Prop :=
  Exact (fun s : ReadSide => Fits p p.rqSize s.toQueue) (Bounded p now)
    (fun s : ReadSide => Roomy p p.rqSize s.toQueue) calls s s'

variable {s s' : ReadSide} {handler : List Request}

theorem transferRead_transfers (valid : p.Valid) (h : transferRead p now s = .ok s') :
    Transfers p now [s] s s' := by
  intro fits
  have once : ∀ s'', transferRead p now s = .ok s'' → s'' = s' := by
    intro s'' h'
    exact Except.ok.inj (h'.symm.trans h)
  have bounded : Bounded p now s ↔ s'.usage ≤ p.rqSize :=
    ⟨fun h' => h' s' h, fun hle s'' h' => (once s'' h').symm ▸ hle⟩
  simp only [List.forall_mem_singleton, bounded]
  unfold transferRead at h
  obtain ⟨entered, henter, h⟩ := bind_eq_ok.1 h
  cases entered with
  | none =>
      cases h
      have roomy := enter_none henter
      exact ⟨⟨fun _ => roomy, fun _ => fits.bounded⟩, fun _ => fits⟩
  | some entered =>
      obtain ⟨iter, q⟩ := entered
      cases h
      obtain ⟨hiff, hfits⟩ := enter_some valid.unit (by simp) fits henter
      exact ⟨hiff, fun roomy => (hfits roomy).congr rfl rfl rfl⟩

theorem transferNext_transfers (valid : p.Valid) (h : transferNext p now s = .ok s') :
    Transfers p now (nextTransfers s) s s' := by
  unfold transferNext at h
  unfold nextTransfers
  split_ifs at h ⊢
  · cases h
    exact .nil id
  · exact transferRead_transfers valid h

theorem dmaRead_transfers (valid : p.Valid) {request : Request}
    (h : dmaRead p now s request = .ok s') :
    Transfers p now (requestTransfers s request) s s' := by
  unfold dmaRead at h
  unfold requestTransfers
  split_ifs at h ⊢
  · cases h
    exact .nil id
  · exact (transferRead_transfers valid h).of_kept fun fits => fits.congr rfl rfl rfl

theorem call_transfers (valid : p.Valid) {iter : FIFOEntry}
    (h : call p now handler iter s = .ok s') :
    Transfers p now (callTransfers p now handler iter s) s s' := by
  unfold call at h
  unfold callTransfers
  split_ifs at h ⊢
  · apply Exact.of_kept (Exact.foldlM (fun s request s' => dmaRead_transfers valid) h)
    exact fun fits => fits.congr rfl rfl rfl
  · cases h
    exact .nil id

theorem transferRead_queue (h : transferRead p now s = .ok s') :
    s.transferQueue <+: s'.transferQueue := by
  unfold transferRead at h
  obtain ⟨entered, henter, h⟩ := bind_eq_ok.1 h
  cases entered with
  | none =>
      cases h
      exact List.prefix_rfl
  | some entered =>
      have queued := enter_queue henter
      cases h
      exact queued

theorem dmaRead_queue {request : Request} (h : dmaRead p now s request = .ok s') :
    s.transferQueue <+: s'.transferQueue := by
  unfold dmaRead at h
  split_ifs at h
  · cases h
    exact List.prefix_rfl
  · have queued := transferRead_queue h
    exact queued

theorem call_queue {iter : FIFOEntry} (h : call p now handler iter s = .ok s') :
    s.transferQueue <+: s'.transferQueue := by
  unfold call at h
  split_ifs at h
  · exact foldlM_invariant_mem (fun mid : ReadSide => s.transferQueue <+: mid.transferQueue)
      (fun request _ mid mid' queued hmid => queued.trans (dmaRead_queue hmid)) h
      List.prefix_rfl
  · cases h
    exact List.prefix_rfl

theorem insertRead_fits (h : insertRead p now s = .ok s') (fits : Fits p p.rqSize s.toQueue) :
    Fits p p.rqSize s'.toQueue := by
  unfold insertRead at h
  cases hqueue : s.transferQueue with
  | nil => simp [hqueue] at h
  | cons iter rest =>
      simp only [hqueue] at h
      have husage := fits.usage
      rw [hqueue] at husage
      split at h
      · cases h
        exact fits
      · cases h
        exact ⟨fits.capacity, husage, fits.bounded⟩

theorem insertNext_fits (h : insertNext p now s = .ok s') (fits : Fits p p.rqSize s.toQueue) :
    Fits p p.rqSize s'.toQueue := by
  unfold insertNext at h
  split_ifs at h
  · exact insertRead_fits h fits
  · cases h
    exact fits

theorem doneNext_transfers (valid : p.Valid) (h : insertReadDoneNext p now handler s = .ok s') :
    Transfers p now (doneNextTransfers p now handler s) s s' := by
  unfold insertReadDoneNext at h
  unfold doneNextTransfers
  cases hqueue : s.transferQueue with
  | nil => simp [hqueue] at h
  | cons iter rest =>
      simp only [hqueue] at h ⊢
      obtain ⟨s₁, hcall, h⟩ := bind_eq_ok.1 h
      obtain ⟨s₂, hinsert, hnext⟩ := bind_eq_ok.1 h
      simp only [hcall, hinsert]
      apply (call_transfers valid hcall).trans
      apply (transferNext_transfers valid hnext).of_kept
      intro fits
      have front := call_queue hcall
      rw [hqueue] at front
      exact insertNext_fits hinsert ((fits.finish front).congr rfl rfl rfl)

theorem merge_transfers (valid : p.Valid) {comp : ReadEntry}
    (h : insertReadDoneMerge p now handler comp s = .ok s') :
    Transfers p now (mergeTransfers p now handler comp s) s s' := by
  unfold insertReadDoneMerge at h
  obtain ⟨s₁, hfinish, h⟩ := bind_eq_ok.1 h
  cases h
  unfold finishAt at hfinish
  unfold mergeTransfers
  split_ifs at hfinish ⊢
  · exact (doneNext_transfers valid hfinish).then_nil fun fits => fits.congr rfl rfl rfl
  · cases hfinish
    exact .nil fun fits => fits.congr rfl rfl rfl

theorem insertDone_transfers (valid : p.Valid) (h : insertReadDone p now handler s = .ok s') :
    Transfers p now (insertDoneTransfers p now handler s) s s' := by
  unfold insertReadDone at h
  unfold insertDoneTransfers
  cases hqueue : s.transferQueue with
  | nil => simp [hqueue] at h
  | cons iter rest =>
      simp only [hqueue] at h ⊢
      cases hfind : find iter.id s.readCompletion with
      | none =>
          simp only [hfind] at h
          cases h
          exact .nil fun fits => fits.congr rfl rfl rfl
      | some comp =>
          simp only [hfind] at h ⊢
          exact merge_transfers valid h

theorem saveEnd_transfers (valid : p.Valid) {iter : FIFOEntry}
    (h : saveEnd p now handler iter s = .ok s') :
    Transfers p now (saveEndTransfers p now handler iter s) s s' := by
  unfold saveEnd at h
  unfold saveEndTransfers
  cases hfind : find iter.id s.readCompletion with
  | none =>
      simp only [hfind] at h
      cases h
      exact .nil fun fits => fits.congr rfl rfl rfl
  | some comp =>
      simp only [hfind] at h ⊢
      exact merge_transfers valid h

theorem done_transfers (valid : p.Valid) (h : transferReadDone p now handler s = .ok s') :
    Transfers p now (doneTransfers p now handler s) s s' := by
  unfold transferReadDone at h
  unfold doneTransfers
  cases hqueue : s.waitQueue with
  | nil => simp [hqueue] at h
  | cons iter rest =>
      simp only [hqueue] at h ⊢
      obtain ⟨s₁, hsave, hnext⟩ := bind_eq_ok.1 h
      simp only [hsave]
      apply (saveEnd_transfers valid hsave).trans
      exact (transferNext_transfers valid hnext).of_kept fun fits => fits.congr rfl rfl rfl

theorem step_transfers (valid : p.Valid) {action : Action}
    (h : step p now action s = some (.ok s')) :
    Transfers p now (transfers p now action s) s s' := by
  cases action with
  | request request => exact dmaRead_transfers valid (Option.some.inj h)
  | insertDone handler =>
      obtain ⟨-, h⟩ := Option.ite_none_right_eq_some.1 h
      apply (insertDone_transfers valid (Option.some.inj h)).of_kept
      exact fun fits => fits.congr rfl rfl rfl
  | beginTransfer =>
      obtain ⟨-, h⟩ := Option.ite_none_right_eq_some.1 h
      refine .nil fun fits => insertRead_fits (Option.some.inj h) ?_
      exact fits.congr rfl rfl rfl
  | submitCompletion handler =>
      obtain ⟨-, h⟩ := Option.ite_none_right_eq_some.1 h
      apply (doneNext_transfers valid (Option.some.inj h)).of_kept
      exact fun fits => fits.congr rfl rfl rfl
  | transferDone handler =>
      unfold step at h
      cases waits : s.outstanding with
      | zero => simp [waits] at h
      | succ outstanding =>
          simp only [waits] at h
          simp only [transfers, waits, Nat.add_sub_cancel]
          apply (done_transfers valid (Option.some.inj h)).of_kept
          exact fun fits => fits.congr rfl rfl rfl

end Read

/-! ## Runs -/

inductive Move where
  | write (now : Tick) (action : Action)
  | read (now : Tick) (action : Action)

def move (p : FIFOParam) (fifo : FIFO) : Move → Option FIFO
  | .write now action =>
      match Write.step p now action fifo.write with
      | some (.ok s) => some { fifo with write := s }
      | _ => none
  | .read now action =>
      match Read.step p now action fifo.read with
      | some (.ok s) => some { fifo with read := s }
      | _ => none

def Occupied (p : FIFOParam) (fifo : FIFO) : Prop :=
  fifo.write.usage ≤ p.wqSize ∧ fifo.read.usage ≤ p.rqSize

def Move.Bounded (p : FIFOParam) (fifo : FIFO) : Move → Prop
  | .write now action => ∀ s ∈ Write.insertions p now action fifo.write, Write.Bounded p now s
  | .read now action => ∀ s ∈ Read.transfers p now action fifo.read, Read.Bounded p now s

/-- A request that is too large is inserted only where there is room for a unit. -/
def Move.Roomy (p : FIFOParam) (fifo : FIFO) : Move → Prop
  | .write now action =>
      ∀ s ∈ Write.insertions p now action fifo.write, FIFO.Roomy p p.wqSize s.toQueue
  | .read now action =>
      ∀ s ∈ Read.transfers p now action fifo.read, FIFO.Roomy p p.rqSize s.toQueue

instance (p : FIFOParam) (fifo : FIFO) (m : Move) : Decidable (m.Roomy p fifo) :=
  match m with
  | .write now action => inferInstanceAs (Decidable
      (∀ s ∈ Write.insertions p now action fifo.write, FIFO.Roomy p p.wqSize s.toQueue))
  | .read now action => inferInstanceAs (Decidable
      (∀ s ∈ Read.transfers p now action fifo.read, FIFO.Roomy p p.rqSize s.toQueue))

variable {fifo fifo' : FIFO}

theorem move_run {n : Nat} {m : Move} (run : Run p fifo n) (h : move p fifo m = some fifo') :
    ∃ n', Run p fifo' n' := by
  unfold move at h
  cases m with
  | write now action =>
      simp only at h
      split at h
      · rename_i s hstep
        cases h
        exact ⟨_, run.write now action hstep⟩
      · cases h
  | read now action =>
      simp only at h
      split at h
      · rename_i s hstep
        cases h
        exact ⟨_, run.read now action hstep⟩
      · cases h

theorem move_exactly (valid : p.Valid) {n : Nat} {m : Move} (run : Run p fifo n)
    (occupied : Occupied p fifo) (h : move p fifo m = some fifo') :
    m.Roomy p fifo ↔ m.Bounded p fifo ∧ Occupied p fifo' := by
  obtain ⟨⟨finished, write⟩, ⟨finished', read⟩, -⟩ := run_inv valid run
  unfold move at h
  cases m with
  | write now action =>
      simp only at h
      split at h
      · rename_i s hstep
        cases h
        have fits : Fits p p.wqSize fifo.write.toQueue :=
          ⟨write.kept.capacity, write.kept.usage, occupied.1⟩
        obtain ⟨same, kept⟩ := Write.step_inserts valid hstep fits
        constructor
        · intro roomy
          exact ⟨same.2 roomy, (kept roomy).bounded, occupied.2⟩
        · rintro ⟨bounded, -⟩
          exact same.1 bounded
      · cases h
  | read now action =>
      simp only at h
      split at h
      · rename_i s hstep
        cases h
        have fits : Fits p p.rqSize fifo.read.toQueue :=
          ⟨read.kept.capacity, read.kept.usage, occupied.2⟩
        obtain ⟨same, kept⟩ := Read.step_transfers valid hstep fits
        constructor
        · intro roomy
          exact ⟨same.2 roomy, occupied.1, (kept roomy).bounded⟩
        · rintro ⟨bounded, -⟩
          exact same.1 bounded
      · cases h

/-- Over every run, no queue ever holds more than its size exactly if no request that is too
large is inserted without room for a unit of it. -/
theorem occupancy_bounded (valid : p.Valid) (moves : List Move) :
    (EachAction (move p) (fun fifo m => m.Bounded p fifo) (.new p) moves ∧
        Throughout (move p) (Occupied p) (.new p) moves) ↔
      EachAction (move p) (fun fifo m => m.Roomy p fifo) (.new p) moves := by
  have empty : Occupied p (.new p) := ⟨Nat.zero_le _, Nat.zero_le _⟩
  have kept : ∀ fifo m fifo', (∃ n, Run p fifo n) → move p fifo m = some fifo' →
      ∃ n, Run p fifo' n := fun fifo m fifo' ⟨n, run⟩ h => move_run run h
  have exactly : ∀ fifo m fifo', (∃ n, Run p fifo n) → Occupied p fifo →
      move p fifo m = some fifo' → (m.Roomy p fifo ↔ m.Bounded p fifo ∧ Occupied p fifo') :=
    fun fifo m fifo' ⟨n, run⟩ occupied h => move_exactly valid run occupied h
  exact (good_iff_eachAction kept exactly ⟨0, .start⟩ moves).trans (and_iff_right empty)

/-- A request of six bytes is cut, and its rest waits for the first unit. -/
theorem occupancy_bounded_six_bytes :
    Throughout (move narrow) (Occupied narrow) (.new narrow)
      [.write 0 (.request ⟨0, 6, some 100⟩), .write 4 (.insertDone [])] := by
  have valid : narrow.Valid := ⟨by decide, by decide, by decide⟩
  have roomy : EachAction (move narrow) (fun fifo m => m.Roomy narrow fifo) (.new narrow)
      [.write 0 (.request ⟨0, 6, some 100⟩), .write 4 (.insertDone [])] :=
    EachAction.cons rfl (by decide) (EachAction.cons rfl (by decide) trivial)
  exact ((occupancy_bounded valid _).2 roomy).2

def twoUnits : FIFOParam where
  rqSize := 4
  wqSize := 4
  transferUnit := 2
  latency := fun size => size

/-- A request of ten bytes, of which the upstream has taken nothing yet. -/
theorem occupancy_exceeded :
    ∃ fifo, runActions (move twoUnits) (.new twoUnits)
        [.write 0 (.request ⟨0, 10, none⟩), .write 2 (.insertDone []),
          .write 4 (.insertDone [])] = some fifo ∧
      twoUnits.Valid ∧ fifo.write.usage = 6 ∧ twoUnits.wqSize = 4 :=
  ⟨_, rfl, ⟨by decide, by decide, by decide⟩, rfl, rfl⟩

end SimpleSSD.FIFO
