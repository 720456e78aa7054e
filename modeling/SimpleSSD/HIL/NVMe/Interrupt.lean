import Mathlib.Data.List.Dedup
import Mathlib.Data.List.Sort
import SimpleSSD.Foundation.Fallible
import SimpleSSD.HIL.NVMe.Controller

/-!
# Interrupts and their coalescing

Completion entries are written to their queues in batches.  A batch raises its interrupts
once all of its writes have ended; the interrupt of a vector that coalesces may be put off
to `nextTime`.
-/

namespace SimpleSSD.HIL.NVMe

open SimpleSSD.Foundation

structure CompletionQueue extends CQueue where
  head : Nat
  tail : Nat
  size : Nat
  phase : Bool
  ien : Bool
  deriving DecidableEq, Repr

namespace CompletionQueue

def new (iv size id : Nat) (ien : Bool) : CompletionQueue where
  id := id
  head := 0
  tail := 0
  size := size
  phase := true
  ien := ien
  interruptVector := iv

def getItemCount (q : CompletionQueue) : Nat :=
  if q.head ≤ q.tail then q.tail - q.head
  else (q.size + 2 ^ 16 - q.head + q.tail) % 2 ^ 16

def setData (q : CompletionQueue) : Except Fault CompletionQueue :=
  let tail := (q.tail + 1) % 2 ^ 16
  let q := if tail = q.size then { q with tail := 0, phase := !q.phase }
      else { q with tail := tail }
  if q.head = q.tail then .error (.panic "Completion queue overflow") else .ok q

def setHead (q : CompletionQueue) (newHead : Nat) : CompletionQueue := { q with head := newHead }

end CompletionQueue

structure AggregationInfo where
  nextTime : Nat
  requestCount : Nat
  valid : Bool
  pending : Bool
  deriving DecidableEq, Repr

namespace AggregationInfo

def waits (info : AggregationInfo) : Bool := info.valid && info.pending

def isDue (tick : Tick) (info : AggregationInfo) : Bool :=
    info.waits && decide (info.nextTime ≤ tick)

def reset : AggregationInfo := ⟨0, 0, false, false⟩

def enable (valid : Bool) : AggregationInfo := ⟨0, 0, valid, false⟩

def flush (tick aggregationTime : Nat) (info : AggregationInfo) : AggregationInfo :=
  if info.isDue tick then
    { info with nextTime := add64 tick aggregationTime, requestCount := 0, pending := false }
  else info

end AggregationInfo

structure AggregationMap where
  vectors : List Nat
  info : Nat → Option AggregationInfo
  mem : ∀ iv, (info iv).isSome = true → iv ∈ vectors

namespace AggregationMap

def empty : AggregationMap where
  vectors := []
  info := fun _ => none
  mem := by simp

def insert (iv : Nat) (new : AggregationInfo) (m : AggregationMap) : AggregationMap where
  vectors := List.insert iv m.vectors
  info := fun v => if v = iv then some new else m.info v
  mem := by
    intro v h
    by_cases heq : v = iv
    · simp [heq]
    · rw [if_neg heq] at h
      exact List.mem_insert_of_mem (m.mem v h)

def modify (f : Nat → AggregationInfo → AggregationInfo) (m : AggregationMap) : AggregationMap where
  vectors := m.vectors
  info := fun v => (m.info v).map (f v)
  mem := by
    intro v h
    rw [Option.isSome_map] at h
    exact m.mem v h

def set (iv : Nat) (new : AggregationInfo) (m : AggregationMap) : AggregationMap :=
  m.modify fun v info => if v = iv then new else info

def erase (iv : Nat) (m : AggregationMap) : AggregationMap where
  vectors := m.vectors.filter fun v => v ≠ iv
  info := fun v => if v = iv then none else m.info v
  mem := by
    intro v h
    by_cases heq : v = iv
    · simp [heq] at h
    · rw [if_neg heq] at h
      exact List.mem_filter.2 ⟨m.mem v h, by simpa using heq⟩

def filter (f : AggregationInfo → Bool) (m : AggregationMap) : List Nat :=
  m.vectors.filter fun iv => (m.info iv).any f

def nextTimes (m : AggregationMap) : List Nat :=
  m.vectors.filterMap fun iv => (m.info iv).bind fun info =>
    if info.waits then some info.nextTime else none

def Pending (m : AggregationMap) (iv : Nat) : Prop :=
  ∃ info, m.info iv = some info ∧ info.waits = true

end AggregationMap

/-- Entries that are being written, `counter` of them still, and the interrupts to raise
then. -/
structure Batch where
  number : Nat
  entryToPost : List CQEntryWrapper
  ivToPost : List Nat
  counter : Nat
  deriving DecidableEq, Repr

/-- A call of `updateInterrupt`, with the batch it was made for if any. -/
structure Interrupt where
  batch : Option Nat
  vector : Nat
  post : Bool
  deriving DecidableEq, Repr

/-- The completion side of the controller.  `completions` counts the batches, `posted` has
the batch and the vector of each entry posted to a queue with interrupts. -/
structure Completions where
  tick : Tick
  ppCQueue : List (Option CompletionQueue)
  lCQFIFO : List CQEntryWrapper
  aggregationTime : Nat
  aggregationThreshold : Nat
  aggregationMap : AggregationMap
  completionEvent : Option Tick
  batches : List Batch
  completions : Nat
  posted : List (Nat × Nat)
  interrupts : List Interrupt

namespace Completions

def start (queues : List (Option CompletionQueue)) : Completions where
  tick := 0
  ppCQueue := queues
  lCQFIFO := []
  aggregationTime := 0
  aggregationThreshold := 0
  aggregationMap := .empty
  completionEvent := none
  batches := []
  completions := 0
  posted := []
  interrupts := []

def queue? (s : Completions) (cqid : Nat) : Option CompletionQueue := s.ppCQueue[cqid]?.join

def updateInterrupt (batch : Option Nat) (iv : Nat) (post : Bool) (s : Completions) : Completions :=
  { s with interrupts := s.interrupts ++ [⟨batch, iv, post⟩] }

def clearInterrupt (interruptVector : Nat) (s : Completions) : Completions :=
  let notFinished := ((s.ppCQueue.filterMap id).filter fun q =>
    q.interruptVector = interruptVector).foldl (fun n q => (n + q.getItemCount) % 2 ^ 16) 0
  s.updateInterrupt none interruptVector (0 < notFinished)

def ringCQHeadDoorbell (qid head : Nat) (s : Completions) : Except Fault Completions :=
  match s.ppCQueue[qid]? with
  | none => .error .undefined
  | some none => .ok s
  | some (some q) =>
      let s := { s with ppCQueue := s.ppCQueue.set qid (some (q.setHead head)) }
      .ok (if q.ien then s.clearInterrupt q.interruptVector else s)

def reserveCompletion (s : Completions) : Completions :=
  match ((s.lCQFIFO.head?.map CQEntryWrapper.submitAt).toList ++
      s.aggregationMap.nextTimes).min? with
  | none => s
  | some tick => { s with completionEvent := some tick }

def submit (entry : CQEntryWrapper) (s : Completions) : Except Fault Completions :=
  match s.ppCQueue[entry.cqID]? with
  | none => .error .undefined
  | some none => .error (.panic "nvme_ctrl: Completion Queue not created!")
  | some (some _) =>
      .ok { s with
        lCQFIFO := Controller.insertBySubmitAt { entry with submitAt := s.tick } s.lCQFIFO
        }.reserveCompletion

/-- `createCQueue` for an id that is free. -/
def createCQueue (cqid size iv : Nat) (ien : Bool) (s : Completions) : Except Fault Completions :=
  match s.ppCQueue[cqid]? with
  | none => .error .undefined
  | some (some _) => .ok s
  | some none =>
      .ok { s with
        ppCQueue := s.ppCQueue.set cqid (some (.new iv size cqid ien))
        aggregationMap := s.aggregationMap.insert iv .reset }

def coalescingTime (time : Nat) : Nat :=
  let product := time * 100000000 % 2 ^ 32
  if product < 2 ^ 31 then product else product + (2 ^ 64 - 2 ^ 32)

def setCoalescingParameter (time thres : Nat) (s : Completions) : Completions :=
  { s with aggregationTime := coalescingTime time, aggregationThreshold := thres }

def setCoalescing (iv : Nat) (enable : Bool) (s : Completions) : Completions :=
  { s with aggregationMap := s.aggregationMap.set iv (.enable enable) }

/-! ## Batches -/

structure Posting where
  ppCQueue : List (Option CompletionQueue)
  aggregationMap : AggregationMap
  ivToPost : List Nat
  vectors : List Nat

def Posting.post (iv : Nat) (p : Posting) : Posting :=
  { p with ivToPost := p.ivToPost ++ [iv], vectors := p.vectors ++ [iv] }

def collectVector (s : Completions) (iter : CQEntryWrapper) (iv : Nat) (p : Posting) : Posting :=
  if iter.cqID = 0 then p.post iv
  else
    match p.aggregationMap.info iv with
    | none => p.post iv
    | some info =>
        if info.valid then
          let info := { info with requestCount := (info.requestCount + 1) % 2 ^ 32 }
          if iter.submitAt < info.nextTime ∧ info.requestCount ≤ s.aggregationThreshold then
            { p with
              aggregationMap := p.aggregationMap.set iv { info with pending := true }
              vectors := p.vectors ++ [iv] }
          else
            { p with aggregationMap := p.aggregationMap.set iv { info with
                nextTime := add64 s.tick s.aggregationTime
                requestCount := 0 } }.post iv
        else p.post iv

def postEntry (s : Completions) (p : Posting) (iter : CQEntryWrapper) : Except Fault Posting :=
  match p.ppCQueue[iter.cqID]?.join with
  | none => .error .undefined
  | some pQueue => do
      let pQueue ← pQueue.setData
      let p := { p with ppCQueue := p.ppCQueue.set iter.cqID (some pQueue) }
      .ok (if pQueue.ien then s.collectVector iter pQueue.interruptVector p else p)

def due (s : Completions) : List CQEntryWrapper :=
    s.lCQFIFO.filter fun iter => iter.submitAt ≤ s.tick

/-- Without an entry to write there is no batch, whatever interrupts are to be raised. -/
def completion (s : Completions) : Except Fault Completions := do
  let p ← s.due.foldlM s.postEntry ⟨s.ppCQueue, s.aggregationMap, [], []⟩
  let written : Completions := { s with
    lCQFIFO := s.lCQFIFO.filter fun iter => s.tick < iter.submitAt
    ppCQueue := p.ppCQueue
    aggregationMap := p.aggregationMap.modify fun _ => .flush s.tick s.aggregationTime }
  let ivToPost := p.ivToPost ++ p.aggregationMap.filter fun info => info.isDue s.tick
  if s.due = [] then .ok written
  else .ok { written with
    batches := s.batches ++ [⟨s.completions, s.due, ivToPost, s.due.length⟩]
    completions := s.completions + 1
    posted := s.posted ++ p.vectors.map fun iv => (s.completions, iv) }

def dmaDone (batch : Batch) (s : Completions) : Completions :=
  { s with batches := s.batches.map fun other =>
      if other = batch then { batch with counter := batch.counter - 1 } else other }

def send (batch : Batch) (s : Completions) : Completions :=
  let s := ((batch.ivToPost.insertionSort (· ≤ ·)).dedup).foldl
    (fun s iv => s.updateInterrupt (some batch.number) iv true)
    { s with batches := s.batches.erase batch }
  s.reserveCompletion

inductive Action where
  | submit (entry : CQEntryWrapper)
  | completion
  | dmaDone (batch : Batch)
  | send (batch : Batch)
  | ringCQHeadDoorbell (qid head : Nat)
  | setCoalescing (iv : Nat) (enable : Bool)
  | setCoalescingParameter (time thres : Nat)
  | createCQueue (cqid size iv : Nat) (ien : Bool)
  | advance (tick : Tick)

/-- The event runs at the time it is scheduled for or, when that has passed, at once. -/
def step (action : Action) (s : Completions) : Option (Except Fault Completions) :=
  match action with
  | .submit entry => some (s.submit entry)
  | .completion =>
      if s.completionEvent.any fun tick => tick ≤ s.tick then
        some { s with completionEvent := none }.completion
      else none
  | .dmaDone batch =>
      if batch ∈ s.batches ∧ 0 < batch.counter then some (.ok (s.dmaDone batch)) else none
  | .send batch =>
      if batch ∈ s.batches ∧ batch.counter = 0 then some (.ok (s.send batch)) else none
  | .ringCQHeadDoorbell qid head => some (s.ringCQHeadDoorbell qid head)
  | .setCoalescing iv enable => some (.ok (s.setCoalescing iv enable))
  | .setCoalescingParameter time thres => some (.ok (s.setCoalescingParameter time thres))
  | .createCQueue cqid size iv ien => some (s.createCQueue cqid size iv ien)
  | .advance tick => if s.tick ≤ tick then some (.ok { s with tick := tick }) else none

/-! ## Delivery -/

inductive Run (queues : List (Option CompletionQueue)) (Condition : Action → Completions → Prop) :
    Completions → Prop
  | start : Run queues Condition (.start queues)
  | step {s s' : Completions} (run : Run queues Condition s) (action : Action)
      (condition : Condition action s) (h : s.step action = some (.ok s')) :
      Run queues Condition s'

/-- The interrupt for an entry has been raised, is to be raised by a batch that is being
written, or waits. -/
def Covered (s : Completions) (entry : Nat × Nat) : Prop :=
  (∃ number, entry.1 ≤ number ∧ ⟨some number, entry.2, true⟩ ∈ s.interrupts) ∨
    (∃ batch ∈ s.batches, entry.1 ≤ batch.number ∧ entry.2 ∈ batch.ivToPost) ∨
      s.aggregationMap.Pending entry.2

/-- An interrupt that waits has its event, or a batch that will schedule it. -/
def Scheduled (s : Completions) : Prop :=
  ∀ iv info, s.aggregationMap.info iv = some info → info.waits = true →
    s.batches ≠ [] ∨ ∃ tick, s.completionEvent = some tick ∧ tick ≤ info.nextTime

structure Delivers (s : Completions) : Prop where
  covered : ∀ entry ∈ s.posted, s.Covered entry
  scheduled : s.Scheduled

/-- The event has an entry to write when an interrupt waits, and no interrupt that waits
is reset. -/
def Calm (action : Action) (s : Completions) : Prop :=
  match action with
  | .completion => s.due ≠ [] ∨ ∀ iv, ¬s.aggregationMap.Pending iv
  | .setCoalescing iv _ => ¬s.aggregationMap.Pending iv
  | .createCQueue cqid _ iv _ => s.queue? cqid = none → ¬s.aggregationMap.Pending iv
  | _ => True

structure Inv (s : Completions) : Prop extends Delivers s where
  posted : ∀ entry ∈ s.posted, entry.1 < s.completions

variable {s s' : Completions}

theorem mem_nextTimes {m : AggregationMap} {iv : Nat} {info : AggregationInfo}
    (h : m.info iv = some info) (waits : info.waits = true) : info.nextTime ∈ m.nextTimes := by
  refine List.mem_filterMap.2 ⟨iv, m.mem iv (by simp [h]), ?_⟩
  simp [h, waits]

theorem reserveCompletion_scheduled (s : Completions) {iv : Nat} {info : AggregationInfo}
    (h : s.aggregationMap.info iv = some info) (waits : info.waits = true) :
    ∃ tick, s.reserveCompletion.completionEvent = some tick ∧ tick ≤ info.nextTime := by
  have hmem : info.nextTime ∈ (s.lCQFIFO.head?.map CQEntryWrapper.submitAt).toList ++
      s.aggregationMap.nextTimes := List.mem_append_right _ (mem_nextTimes h waits)
  unfold reserveCompletion
  split
  · rename_i hnone
    rw [List.min?_eq_none_iff.1 hnone] at hmem
    cases hmem
  · rename_i tick hmin
    exact ⟨tick, rfl, (List.min?_eq_some_iff.1 hmin).2 _ hmem⟩

theorem reserveCompletion_frame (s : Completions) :
    s.reserveCompletion = { s with completionEvent := s.reserveCompletion.completionEvent } := by
  unfold reserveCompletion
  split <;> rfl

theorem Inv.of_same (inv : Inv s) (posted : s'.posted = s.posted)
    (completions : s'.completions = s.completions)
    (interrupts : ∀ interrupt ∈ s.interrupts, interrupt ∈ s'.interrupts)
    (batches : s'.batches = s.batches)
    (pending : ∀ iv, s.aggregationMap.Pending iv → s'.aggregationMap.Pending iv)
    (scheduled : s'.Scheduled) : Inv s' := by
  refine ⟨⟨?_, scheduled⟩, by rw [posted, completions]; exact inv.posted⟩
  rw [posted]
  intro entry hentry
  rcases inv.covered entry hentry with ⟨number, hle, hmem⟩ | hbatch | hpending
  · exact .inl ⟨number, hle, interrupts _ hmem⟩
  · exact .inr (.inl (by rwa [batches]))
  · exact .inr (.inr (pending _ hpending))

theorem reserveCompletion_inv (covered : ∀ entry ∈ s.posted, s.Covered entry)
    (posted : ∀ entry ∈ s.posted, entry.1 < s.completions) : Inv s.reserveCompletion := by
  have hscheduled : s.reserveCompletion.Scheduled := by
    intro iv info hinfo hwaits
    rw [reserveCompletion_frame] at hinfo
    exact .inr (reserveCompletion_scheduled s hinfo hwaits)
  refine ⟨⟨?_, hscheduled⟩, ?_⟩
  · rw [reserveCompletion_frame]
    exact covered
  · rw [reserveCompletion_frame]
    exact posted

/-! ## Vectors -/

theorem info_set {m : AggregationMap} {iv : Nat} {info new : AggregationInfo}
    (h : m.info iv = some info) : (m.set iv new).info iv = some new := by
  simp [AggregationMap.set, AggregationMap.modify, h]

theorem pending_set {m : AggregationMap} {iv v : Nat} {new : AggregationInfo}
    (keeps : m.Pending iv → new.waits = true) (h : m.Pending v) : (m.set iv new).Pending v := by
  obtain ⟨info, hinfo, hwaits⟩ := h
  by_cases heq : v = iv
  · subst heq
    exact ⟨new, info_set hinfo, keeps ⟨info, hinfo, hwaits⟩⟩
  · exact ⟨info, by simp [AggregationMap.set, AggregationMap.modify, hinfo, heq], hwaits⟩

theorem pending_flush {m : AggregationMap} {iv : Nat} (tick time : Nat) (h : m.Pending iv) :
    (m.modify fun _ => .flush tick time).Pending iv ∨
      iv ∈ m.filter fun info => info.isDue tick := by
  obtain ⟨info, hinfo, hwaits⟩ := h
  by_cases hdue : info.isDue tick = true
  · refine .inr (List.mem_filter.2 ⟨m.mem iv (by simp [hinfo]), ?_⟩)
    simp [hinfo, hdue]
  · refine .inl ⟨info, ?_, hwaits⟩
    simp [AggregationMap.modify, hinfo, AggregationInfo.flush, hdue]

/-- An entry has its interrupt posted or put off, and no other interrupt is dropped. -/
structure Collects (iv : Nat) (p p' : Posting) : Prop where
  pending : ∀ v, p.aggregationMap.Pending v → p'.aggregationMap.Pending v
  ivToPost : ∀ v ∈ p.ivToPost, v ∈ p'.ivToPost
  vectors : p'.vectors = p.vectors ++ [iv]
  collected : iv ∈ p'.ivToPost ∨ p'.aggregationMap.Pending iv

theorem Posting.post_collects (iv : Nat) (p : Posting) : Collects iv p (p.post iv) where
  pending := fun _ h => h
  ivToPost := fun _ h => List.mem_append_left _ h
  vectors := rfl
  collected := .inl (List.mem_append_right _ List.mem_cons_self)

theorem collectVector_collects (s : Completions) (iter : CQEntryWrapper) (iv : Nat) (p : Posting) :
    Collects iv p (s.collectVector iter iv p) := by
  unfold collectVector
  by_cases hadmin : iter.cqID = 0
  · rw [if_pos hadmin]
    exact p.post_collects iv
  · rw [if_neg hadmin]
    cases hinfo : p.aggregationMap.info iv with
    | none => exact p.post_collects iv
    | some info =>
        cases hvalid : info.valid with
        | false =>
            simp only [hvalid, Bool.false_eq_true, if_false]
            exact p.post_collects iv
        | true =>
            simp only [hvalid, if_true]
            by_cases hput : iter.submitAt < info.nextTime ∧
                (info.requestCount + 1) % 2 ^ 32 ≤ s.aggregationThreshold
            · rw [if_pos hput]
              refine ⟨fun v h => pending_set (fun _ => ?_) h, fun _ h => h, rfl, .inr ?_⟩
              · simp [AggregationInfo.waits]
              · exact ⟨_, info_set hinfo, rfl⟩
            · rw [if_neg hput]
              obtain ⟨-, hposts, hvectors, hcollected⟩ :=
                Posting.post_collects iv { p with aggregationMap := p.aggregationMap.set iv {
                  nextTime := add64 s.tick s.aggregationTime
                  requestCount := 0
                  valid := true
                  pending := info.pending } }
              refine ⟨fun v h => pending_set (fun hpending => ?_) h, hposts, hvectors, hcollected⟩
              obtain ⟨info', hinfo', hwaits⟩ := hpending
              rw [hinfo] at hinfo'
              cases hinfo'
              simpa [AggregationInfo.waits, hvalid] using hwaits

/-- The vectors of the entries written so far have their interrupt posted or put off, and
no other interrupt is dropped. -/
structure Collected (s : Completions) (p : Posting) : Prop where
  pending : ∀ v, s.aggregationMap.Pending v → p.aggregationMap.Pending v
  vectors : ∀ v ∈ p.vectors, v ∈ p.ivToPost ∨ p.aggregationMap.Pending v

theorem postEntry_collected (s : Completions) {iter : CQEntryWrapper} {p p' : Posting}
    (collected : Collected s p) (h : s.postEntry p iter = .ok p') : Collected s p' := by
  unfold postEntry at h
  cases hqueue : p.ppCQueue[iter.cqID]?.join with
  | none =>
      rw [hqueue] at h
      cases h
  | some pQueue =>
      rw [hqueue] at h
      obtain ⟨pQueue', -, hok⟩ := bind_eq_ok.1 h
      by_cases hien : pQueue'.ien = true
      · simp only [if_pos hien, Except.ok.injEq] at hok
        subst hok
        obtain ⟨hpending, hposts, hvectors, hiv⟩ := s.collectVector_collects iter
          pQueue'.interruptVector { p with ppCQueue := p.ppCQueue.set iter.cqID (some pQueue') }
        refine ⟨fun v hv => hpending v (collected.pending v hv), ?_⟩
        rw [hvectors]
        intro v hv
        rcases List.mem_append.1 hv with hv | hv
        · exact (collected.vectors v hv).imp (hposts v) (hpending v)
        · rw [List.mem_singleton.1 hv]
          exact hiv
      · simp only [if_neg hien, Except.ok.injEq] at hok
        subst hok
        exact ⟨collected.pending, collected.vectors⟩

theorem completion_eq_ok (h : s.completion = .ok s') : ∃ p, Collected s p ∧
    s'.aggregationMap = p.aggregationMap.modify (fun _ => .flush s.tick s.aggregationTime) ∧
    s'.interrupts = s.interrupts ∧
    ((s.due = [] ∧ p.aggregationMap = s.aggregationMap ∧ s'.batches = s.batches ∧
        s'.completions = s.completions ∧ s'.posted = s.posted) ∨
      (s.due ≠ [] ∧ s'.completions = s.completions + 1 ∧
        s'.posted = s.posted ++ p.vectors.map (fun iv => (s.completions, iv)) ∧
        s'.batches = s.batches ++ [⟨s.completions, s.due, p.ivToPost ++ p.aggregationMap.filter
          (fun info => info.isDue s.tick), s.due.length⟩])) := by
  obtain ⟨p, hfold, hrest⟩ := bind_eq_ok.1 h
  have hcollected : Collected s p := foldlM_invariant_mem (Collected s)
    (fun iter _ b b' hb hstep => s.postEntry_collected hb hstep) hfold
    ⟨fun _ hv => hv, by simp⟩
  refine ⟨p, hcollected, ?_⟩
  by_cases hdue : s.due = []
  · simp only [if_pos hdue] at hrest
    cases hrest
    rw [hdue] at hfold
    cases hfold
    exact ⟨rfl, rfl, .inl ⟨hdue, rfl, rfl, rfl, rfl⟩⟩
  · simp only [if_neg hdue] at hrest
    cases hrest
    exact ⟨rfl, rfl, .inr ⟨hdue, rfl, rfl, rfl⟩⟩

/-! ## Steps -/

theorem not_waits_flush {info : AggregationInfo} {tick time : Nat} (h : info.waits = false) :
    (info.flush tick time).waits = false := by
  have hdue : info.isDue tick = false := by simp [AggregationInfo.isDue, h]
  simp [AggregationInfo.flush, hdue, h]

/-- A vector whose interrupt no longer waits has it raised by the new batch. -/
def Raises (s s' : Completions) : Prop :=
  ∀ iv, s.aggregationMap.Pending iv → s'.aggregationMap.Pending iv ∨
    ∃ batch ∈ s'.batches, batch.number = s.completions ∧ iv ∈ batch.ivToPost

theorem completion_inv (covered : ∀ entry ∈ s.posted, s.Covered entry)
    (posted : ∀ entry ∈ s.posted, entry.1 < s.completions)
    (calm : s.due ≠ [] ∨ ∀ iv, ¬s.aggregationMap.Pending iv) (h : s.completion = .ok s') :
    Inv s' ∧ Raises s s' := by
  obtain ⟨p, collected, hmap, hinterrupts, hcases⟩ := completion_eq_ok h
  rcases hcases with ⟨hdue, hsame, hbatches, hcompletions, hposted⟩ |
    ⟨hdue, hcompletions, hposted, hbatches⟩
  · have hnone := calm.resolve_left (not_not.2 hdue)
    refine ⟨⟨⟨?_, ?_⟩, ?_⟩, fun iv hpending => absurd hpending (hnone iv)⟩
    · rw [hposted]
      intro entry hentry
      rcases covered entry hentry with hsignal | hbatch | hpending
      · exact .inl (by rwa [hinterrupts])
      · exact .inr (.inl (by rwa [hbatches]))
      · exact absurd hpending (hnone _)
    · intro iv info hinfo hwaits
      rw [hmap, hsame] at hinfo
      obtain ⟨info', hinfo', rfl⟩ := Option.map_eq_some_iff.1 hinfo
      have hquiet : info'.waits = false := by
        cases hw : info'.waits with
        | false => rfl
        | true => exact absurd ⟨info', hinfo', hw⟩ (hnone iv)
      rw [not_waits_flush hquiet] at hwaits
      cases hwaits
    · rw [hposted, hcompletions]
      exact posted
  · have hraised : ∀ iv, p.aggregationMap.Pending iv → s'.aggregationMap.Pending iv ∨
        ∃ batch ∈ s'.batches, batch.number = s.completions ∧ iv ∈ batch.ivToPost := by
      intro iv hpending
      rcases pending_flush s.tick s.aggregationTime hpending with hstays | hpost
      · exact .inl (by rwa [hmap])
      · refine .inr ⟨_, by rw [hbatches]; exact List.mem_append_right _ List.mem_cons_self, rfl, ?_⟩
        exact List.mem_append_right _ hpost
    have hcovers : ∀ n iv, n ≤ s.completions → p.aggregationMap.Pending iv →
        s'.Covered (n, iv) := by
      intro n iv hle hpending
      rcases hraised iv hpending with hstays | ⟨batch, hmem, hnumber, hiv⟩
      · exact .inr (.inr hstays)
      · exact .inr (.inl ⟨batch, hmem, by rwa [hnumber], hiv⟩)
    refine ⟨⟨⟨?_, ?_⟩, ?_⟩, fun iv hpending => hraised iv (collected.pending iv hpending)⟩
    · rw [hposted]
      intro entry hentry
      rcases List.mem_append.1 hentry with hentry | hentry
      · rcases covered entry hentry with hsignal | ⟨batch, hmem, hold⟩ | hpending
        · exact .inl (by rwa [hinterrupts])
        · exact .inr (.inl ⟨batch, by rw [hbatches]; exact List.mem_append_left _ hmem, hold⟩)
        · exact hcovers _ _ (posted entry hentry).le (collected.pending _ hpending)
      · obtain ⟨iv, hiv, rfl⟩ := List.mem_map.1 hentry
        rcases collected.vectors iv hiv with hpost | hpending
        · refine .inr (.inl ⟨_, by rw [hbatches]; exact List.mem_append_right _ List.mem_cons_self,
            le_rfl, List.mem_append_left _ hpost⟩)
        · exact hcovers _ _ le_rfl hpending
    · intro iv info _ _
      exact .inl (by simp [hbatches])
    · rw [hposted, hcompletions]
      intro entry hentry
      rcases List.mem_append.1 hentry with hentry | hentry
      · exact Nat.lt_succ_of_lt (posted entry hentry)
      · obtain ⟨iv, -, rfl⟩ := List.mem_map.1 hentry
        exact Nat.lt_succ_self _

theorem foldl_updateInterrupt (number : Nat) (vectors : List Nat) (s : Completions) :
    vectors.foldl (fun s iv => s.updateInterrupt (some number) iv true) s =
      { s with interrupts := s.interrupts ++ vectors.map fun iv => ⟨some number, iv, true⟩ } := by
  induction vectors generalizing s with
  | nil => simp
  | cons iv rest ih =>
      rw [List.foldl_cons, ih]
      simp [updateInterrupt]

theorem send_inv (inv : Inv s) (batch : Batch) :
    Inv (s.send batch) ∧ (s.send batch).aggregationMap = s.aggregationMap := by
  unfold send
  rw [foldl_updateInterrupt]
  refine ⟨reserveCompletion_inv ?_ inv.posted, by rw [reserveCompletion_frame]⟩
  intro entry hentry
  rcases inv.covered entry hentry with ⟨number, hle, hmem⟩ | ⟨other, hmem, hle, hiv⟩ | hpending
  · exact .inl ⟨number, hle, List.mem_append_left _ hmem⟩
  · by_cases heq : other = batch
    · subst heq
      refine .inl ⟨other.number, hle, List.mem_append_right _ (List.mem_map.2 ⟨entry.2, ?_, rfl⟩)⟩
      rw [List.mem_dedup, (List.perm_insertionSort _ _).mem_iff]
      exact hiv
    · exact .inr (.inl ⟨other, (List.mem_erase_of_ne heq).2 hmem, hle, hiv⟩)
  · exact .inr (.inr hpending)

theorem dmaDone_inv (inv : Inv s) (batch : Batch) : Inv (s.dmaDone batch) := by
  refine ⟨⟨?_, ?_⟩, inv.posted⟩
  · intro entry hentry
    rcases inv.covered entry hentry with hsignal | ⟨other, hmem, hle, hiv⟩ | hpending
    · exact .inl hsignal
    · refine .inr (.inl ⟨_, List.mem_map.2 ⟨other, hmem, rfl⟩, ?_⟩)
      by_cases heq : other = batch
      · subst heq
        rw [if_pos rfl]
        exact ⟨hle, hiv⟩
      · rw [if_neg heq]
        exact ⟨hle, hiv⟩
    · exact .inr (.inr hpending)
  · intro iv info hinfo hwaits
    refine (inv.scheduled iv info hinfo hwaits).imp_left fun hne => ?_
    simpa [dmaDone] using hne

theorem submit_inv (inv : Inv s) {entry : CQEntryWrapper} (h : s.submit entry = .ok s') :
    Inv s' ∧ s'.aggregationMap = s.aggregationMap := by
  unfold submit at h
  split at h
  · cases h
  · cases h
  · cases h
    exact ⟨reserveCompletion_inv inv.covered inv.posted, by rw [reserveCompletion_frame]⟩

theorem ringCQHeadDoorbell_inv (inv : Inv s) {qid head : Nat}
    (h : s.ringCQHeadDoorbell qid head = .ok s') :
    Inv s' ∧ s'.aggregationMap = s.aggregationMap := by
  unfold ringCQHeadDoorbell at h
  split at h
  · cases h
  · cases h
    exact ⟨inv, rfl⟩
  · rename_i q _
    cases h
    by_cases hien : q.ien = true
    · simp only [if_pos hien]
      refine ⟨inv.of_same rfl rfl (fun _ h => List.mem_append_left _ h) rfl (fun _ h => h) ?_, rfl⟩
      exact inv.scheduled
    · simp only [if_neg hien]
      exact ⟨inv.of_same rfl rfl (fun _ h => h) rfl (fun _ h => h) inv.scheduled, trivial⟩

theorem replace_inv (inv : Inv s) {iv : Nat} {m : AggregationMap}
    (calm : ¬s.aggregationMap.Pending iv)
    (others : ∀ v, v ≠ iv → m.info v = s.aggregationMap.info v)
    (reset : ∀ info, m.info iv = some info → info.waits = false)
    (queues : List (Option CompletionQueue)) :
    Inv { s with ppCQueue := queues, aggregationMap := m } ∧
      Raises s { s with ppCQueue := queues, aggregationMap := m } := by
  have hpending : ∀ v, s.aggregationMap.Pending v → m.Pending v := by
    intro v hv
    have hne : v ≠ iv := fun heq => calm (heq ▸ hv)
    obtain ⟨info, hinfo, hwaits⟩ := hv
    exact ⟨info, by rw [others v hne, hinfo], hwaits⟩
  refine ⟨inv.of_same rfl rfl (fun _ h => h) rfl hpending ?_, fun v hv => .inl (hpending v hv)⟩
  intro v info hinfo hwaits
  by_cases heq : v = iv
  · subst heq
    rw [reset info hinfo] at hwaits
    cases hwaits
  · exact inv.scheduled v info (by rw [← others v heq]; exact hinfo) hwaits

theorem Raises.of_eq (h : s'.aggregationMap = s.aggregationMap) : Raises s s' :=
  fun _ hpending => .inl (by rwa [h])

theorem setAggregation_inv (inv : Inv s) (time thres : Nat) :
    Inv { s with aggregationTime := time, aggregationThreshold := thres } ∧
      Raises s { s with aggregationTime := time, aggregationThreshold := thres } :=
  ⟨inv.of_same rfl rfl (fun _ h => h) rfl (fun _ h => h) inv.scheduled, .of_eq rfl⟩

theorem step_inv (inv : Inv s) {action : Action} (calm : Calm action s)
    (h : s.step action = some (.ok s')) : Inv s' ∧ Raises s s' := by
  cases action with
  | submit entry =>
      obtain ⟨hinv, hmap⟩ := submit_inv inv (Option.some.inj h)
      exact ⟨hinv, .of_eq hmap⟩
  | completion =>
      obtain ⟨-, heq⟩ := Option.ite_none_right_eq_some.1 h
      exact completion_inv (s := { s with completionEvent := none }) inv.covered inv.posted calm
        (Option.some.inj heq)
  | dmaDone batch =>
      obtain ⟨-, heq⟩ := Option.ite_none_right_eq_some.1 h
      cases heq
      exact ⟨dmaDone_inv inv batch, .of_eq rfl⟩
  | send batch =>
      obtain ⟨-, heq⟩ := Option.ite_none_right_eq_some.1 h
      cases heq
      obtain ⟨hinv, hmap⟩ := send_inv inv batch
      exact ⟨hinv, .of_eq hmap⟩
  | ringCQHeadDoorbell qid head =>
      obtain ⟨hinv, hmap⟩ := ringCQHeadDoorbell_inv inv (Option.some.inj h)
      exact ⟨hinv, .of_eq hmap⟩
  | setCoalescing iv enable =>
      cases h
      refine replace_inv inv calm ?_ ?_ s.ppCQueue
      · intro v hne
        simp [AggregationMap.set, AggregationMap.modify, hne]
      · intro info hinfo
        obtain ⟨info', -, rfl⟩ := Option.map_eq_some_iff.1 hinfo
        simp [AggregationInfo.enable, AggregationInfo.waits]
  | setCoalescingParameter time thres =>
      cases h
      exact setAggregation_inv inv (coalescingTime time) thres
  | createCQueue cqid size iv ien =>
      have hok := Option.some.inj h
      unfold createCQueue at hok
      split at hok
      · cases hok
      · cases hok
        exact ⟨inv, .of_eq rfl⟩
      · rename_i hfree
        cases hok
        have hpending := calm (by rw [queue?, hfree, Option.join_some])
        refine replace_inv inv hpending ?_ ?_ _
        · intro v hne
          simp [AggregationMap.insert, hne]
        · intro info hinfo
          have heq : some AggregationInfo.reset = some info := by
            simpa [AggregationMap.insert] using hinfo
          cases heq
          rfl
  | advance tick =>
      obtain ⟨-, heq⟩ := Option.ite_none_right_eq_some.1 h
      cases heq
      exact ⟨inv.of_same rfl rfl (fun _ h => h) rfl (fun _ h => h) inv.scheduled, .of_eq rfl⟩

theorem start_inv (queues : List (Option CompletionQueue)) : Inv (.start queues) where
  covered := by simp [start]
  scheduled := by
    intro iv info hinfo
    cases hinfo
  posted := by simp [start]

theorem run_inv {queues : List (Option CompletionQueue)} (run : Run queues Calm s) : Inv s := by
  induction run with
  | start => exact start_inv queues
  | step run action calm h ih => exact (step_inv ih calm h).1

/-- In a calm run every entry has its interrupt, and none that waits is dropped. -/
theorem no_interrupt_lost {queues : List (Option CompletionQueue)} (run : Run queues Calm s) :
    Delivers s ∧ ∀ action s', Calm action s → s.step action = some (.ok s') → Raises s s' := by
  have inv := run_inv run
  exact ⟨inv.toDelivers, fun action s' calm h => (step_inv inv calm h).2⟩

def sample : CQEntryWrapper where
  cqID := 1
  sqUID := 0
  sqHead := 1
  sqID := 1
  commandID := 7
  status := 0
  submitAt := 0
  ticket := 0

/-- The interrupt of the second entry waits for the third one or its time. -/
theorem no_interrupt_lost_put_off : ∃ s : Completions, s.posted = [(0, 1), (1, 1)] ∧
    s.interrupts = [⟨some 0, 1, true⟩] ∧ Delivers s := by
  have begun : Run [none, none] Calm (Completions.start [none, none]) := .start
  have created := begun.step (.createCQueue 1 16 1 true) (fun _ ⟨_, h, _⟩ => by cases h) rfl
  have enabled := created.step (.setCoalescing 1 true)
    (fun ⟨_, h, hwaits⟩ => by cases h; cases hwaits) rfl
  have configured := enabled.step (.setCoalescingParameter 1 10) trivial rfl
  have submitted := configured.step (.submit sample) trivial rfl
  have completed := submitted.step .completion (.inl (List.cons_ne_nil _ _)) rfl
  have written := completed.step (.dmaDone ⟨0, [sample], [1], 1⟩) trivial rfl
  have sent := written.step (.send ⟨0, [sample], [1], 0⟩) trivial rfl
  have later := sent.step (.advance 10) trivial rfl
  have submitted' := later.step (.submit sample) trivial rfl
  have completed' := submitted'.step .completion (.inl (List.cons_ne_nil _ _)) rfl
  exact ⟨_, rfl, rfl, (no_interrupt_lost completed').1⟩

/-- The event at `nextTime` finds no entry to write and takes the interrupt with it. -/
theorem interrupt_lost_without_entries :
    ∃ s, Run [none, none] (fun _ _ => True) s ∧ ¬Delivers s := by
  have begun : Run [none, none] (fun _ _ => True) (Completions.start [none, none]) := .start
  have created := begun.step (.createCQueue 1 16 1 true) trivial rfl
  have enabled := created.step (.setCoalescing 1 true) trivial rfl
  have configured := enabled.step (.setCoalescingParameter 1 10) trivial rfl
  have submitted := configured.step (.submit sample) trivial rfl
  have completed := submitted.step .completion trivial rfl
  have written := completed.step (.dmaDone ⟨0, [sample], [1], 1⟩) trivial rfl
  have sent := written.step (.send ⟨0, [sample], [1], 0⟩) trivial rfl
  have later := sent.step (.advance 10) trivial rfl
  have submitted' := later.step (.submit sample) trivial rfl
  have completed' := submitted'.step .completion trivial rfl
  have written' :=
    completed'.step (.dmaDone ⟨1, [{ sample with submitAt := 10 }], [], 1⟩) trivial rfl
  have sent' := written'.step (.send ⟨1, [{ sample with submitAt := 10 }], [], 0⟩) trivial rfl
  have quiet := sent'.step (.advance 100000000) trivial rfl
  have lost := quiet.step .completion trivial rfl
  refine ⟨_, lost, fun delivers => ?_⟩
  have hposted : ((1, 1) : Nat × Nat) ∈ [((0, 1) : Nat × Nat), (1, 1)] := by simp
  rcases delivers.covered (1, 1) hposted with
    ⟨number, hle, hmem⟩ | ⟨batch, hmem, -⟩ | ⟨info, h, hwaits⟩
  · change _ ∈ [(⟨some 0, 1, true⟩ : Interrupt)] at hmem
    cases List.mem_singleton.1 hmem
    exact absurd hle (by decide)
  · cases hmem
  · cases h
    cases hwaits

end Completions

end SimpleSSD.HIL.NVMe
