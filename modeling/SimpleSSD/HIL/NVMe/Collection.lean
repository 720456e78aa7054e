import SimpleSSD.HIL.NVMe.Arbitration
import SimpleSSD.HIL.NVMe.ExactlyOnce

/-!
# When a collection is complete

The weighted method looks at no queue of low priority, and the head of a queue never meets
a tail behind the end of its ring.  Otherwise a collection fetches every entry once and
ends.
-/

namespace SimpleSSD.HIL.NVMe

open SimpleSSD.Foundation

namespace Controller

variable {p : Arbitration} {c c' : Controller} {i fuel : Nat} {q : SQueue}
variable {fetches : List Fetch}

/-- One fetch for every entry between head and tail of every queue, in the order of the
queue, and no entry left. -/
def CollectsAll (p : Arbitration) (c : Controller) : Prop :=
  ∃ fuel c' fetches, c.collectSQueue p fuel = some c' ∧ c'.fault = c.fault ∧
    c'.fetching = c.fetching ++ fetches ∧
    ∀ i, match c.queue? i with
      | none => headsOf i fetches = []
      | some q => headsOf i fetches = q.waiting ∧
          ∃ q', c'.queue? i = some q' ∧ q'.getItemCount = 0

theorem collectSQueue_done (rings : c.Rings) (run : c.collectSQueue p fuel = some c')
    (fetching : c'.fetching = c.fetching ++ fetches) :
    Fetches p.Looks fetches c c' ∧ Idle p.Looks c' := by
  obtain ⟨others, done, idle⟩ := collectSQueue_collects rings run
  have same := (done.done rings).fetching
  rw [fetching, List.append_cancel_left_eq] at same
  rw [same]
  exact ⟨done, idle⟩

/-- The entries of a queue are all fetched exactly when its tail is in its ring and the
arbitration looks at the queue, or there are none. -/
theorem collectsAll_iff (rings : c.Rings) : CollectsAll p c ↔
    ∀ i q, c.queue? i = some q → q.InRange ∧ (p.Looks i q.priority ∨ q.head = q.tail) := by
  constructor
  · rintro ⟨fuel, c', fetches, run, -, fetching, all⟩ i q object
    obtain ⟨done, idle⟩ := collectSQueue_done rings run fetching
    by_cases looked : p.Looks i q.priority
    · exact ⟨((done.done rings).headsOf_eq idle object looked).1, .inl looked⟩
    · have sound := rings.sound i q object
      have heads := all i
      rw [object] at heads
      have empty : q.head = q.tail := by
        rw [← SQueue.waiting_eq_nil_iff sound, ← heads.1]
        exact done.headsOf_eq_nil rings object looked
      exact ⟨sound.inRange_of_eq empty, .inr empty⟩
  · intro kept
    obtain ⟨c', run⟩ := collectSQueue_ends rings
      (fun i q object (_ : p.Looks i q.priority) => (kept i q object).1)
    obtain ⟨fetches, fetched, idle⟩ := collectSQueue_collects rings run
    have done := fetched.done rings
    refine ⟨_, c', fetches, run, done.fault, done.fetching, fun i => ?_⟩
    cases object : c.queue? i with
    | none => exact (done.noQueue i object).2
    | some q =>
        obtain ⟨q', object', read⟩ := done.queue i q object
        have empty : q'.head = q'.tail := by
          rcases (kept i q object).2 with looked | empty
          · exact idle i q' object' (read.priority.symm ▸ looked)
          · exact read.empty (rings.sound i q object) empty
        exact ⟨(read.heads_eq empty).2, q', object',
          read.sound.getItemCount_eq_zero_iff.2 empty⟩

def weightedArbitration : Arbitration :=
  ⟨true, .weightedRoundRobin, 2, 2, 4, 12500000, 50000000⟩

/-- An admin queue and one I/O queue of the priority, whose three entries are at the end and
the beginning of its ring. -/
def oneQueue (priority : Nat) : Controller :=
  { threeQueues with
    ppSQueue := [some ⟨0, 0, 0, 0, 1, 8⟩, some ⟨1, 1, priority, 6, 1, 8⟩] }

theorem oneQueue_rings (priority : Nat) : (oneQueue priority).Rings where
  few := (by decide : 2 < 2 ^ 16)
  admin := rfl
  sound := by
    intro i q object
    match i, object with
    | 0, rfl => exact ⟨by decide, by decide, by decide⟩
    | 1, rfl =>
        exact ⟨(by decide : 8 < 2 ^ 16), (by decide : 1 < 2 ^ 16), (by decide : 6 < 8)⟩

theorem collectsAll_medium : CollectsAll weightedArbitration (oneQueue PRIORITY_MEDIUM) := by
  refine (collectsAll_iff (oneQueue_rings PRIORITY_MEDIUM)).2 fun i q object => ?_
  match i, object with
  | 0, rfl => exact ⟨by decide, .inl ⟨rfl, .inr (.inl rfl)⟩⟩
  | 1, rfl => exact ⟨by decide, .inl ⟨rfl, .inr (.inr (.inr (.inr rfl)))⟩⟩

/-- A queue of low priority keeps its entries. -/
theorem low_not_collected : ¬ CollectsAll weightedArbitration (oneQueue 3) := by
  rintro ⟨fuel, c', fetches, run, -, fetching, all⟩
  have rings := oneQueue_rings 3
  obtain ⟨fetched, -⟩ := collectSQueue_done rings run fetching
  have object : (oneQueue 3).queue? 1 = some ⟨1, 1, 3, 6, 1, 8⟩ := rfl
  have heads := all 1
  rw [object] at heads
  have missed : headsOf 1 fetches = [] := by
    apply fetched.headsOf_eq_nil rings object
    rintro ⟨-, robin | zero | urgent | high | medium⟩
    · cases robin
    · cases zero
    · cases urgent
    · cases high
    · cases medium
  have waits := heads.1.symm.trans missed
  revert waits
  decide

/-- The loops end without a fault, after at most as many fetches from a queue as it has
slots. -/
def EndsWithin (p : Arbitration) (c : Controller) : Prop :=
  ∃ fuel c' fetches, c.collectSQueue p fuel = some c' ∧ c'.fault = none ∧
    c'.fetching = c.fetching ++ fetches ∧
    ∀ i q, c.queue? i = some q → (headsOf i fetches).length ≤ q.size

theorem endsWithin_iff (rings : c.Rings) : EndsWithin p c ↔ c.fault = none ∧
    ∀ i q, c.queue? i = some q → p.Looks i q.priority → q.tail < q.size ∨ q.tail = q.head := by
  constructor
  · rintro ⟨fuel, c', fetches, run, healthy, fetching, bound⟩
    obtain ⟨fetched, idle⟩ := collectSQueue_done rings run fetching
    have done := fetched.done rings
    refine ⟨done.fault.symm.trans healthy, fun i q object looked => ?_⟩
    obtain ⟨inRange, heads⟩ := done.headsOf_eq idle object looked
    have few := bound i q object
    have sound := rings.sound i q object
    by_cases none : q.size = 0
    · rw [none, heads] at few
      have empty := List.eq_nil_of_length_eq_zero (Nat.le_zero.1 few)
      exact .inr ((SQueue.waiting_eq_nil_iff sound).1 empty).symm
    · rw [SQueue.InRange, SQueue.slotCount, if_neg none] at inRange
      exact .inl inRange
  · rintro ⟨healthy, fits⟩
    have slots : ∀ i q, c.queue? i = some q → p.Looks i q.priority →
        q.InRange ∧ q.waiting.length ≤ q.size := by
      intro i q object looked
      have sound := rings.sound i q object
      rcases fits i q object looked with lt | empty
      · have count : q.slotCount = q.size := if_neg (by omega)
        have inRange : q.InRange := by
          rw [SQueue.InRange, count]
          exact lt
        have few := Ring.length_waiting_lt sound.head inRange
        rw [count] at few
        refine ⟨inRange, ?_⟩
        rw [SQueue.waiting, count]
        exact few.le
      · rw [(SQueue.waiting_eq_nil_iff sound).2 empty.symm]
        exact ⟨sound.inRange_of_eq empty.symm, Nat.zero_le _⟩
    obtain ⟨c', run⟩ := collectSQueue_ends rings fun i q object looked =>
      (slots i q object looked).1
    obtain ⟨fetches, fetched, idle⟩ := collectSQueue_collects rings run
    have done := fetched.done rings
    refine ⟨_, c', fetches, run, done.fault.trans healthy, done.fetching,
      fun i q object => ?_⟩
    by_cases looked : p.Looks i q.priority
    · rw [(done.headsOf_eq idle object looked).2]
      exact (slots i q object looked).2
    · rw [fetched.headsOf_eq_nil rings object looked]
      exact Nat.zero_le _

/-! ## Doorbells -/

theorem Rings.doorbell {qid tail : Nat} (rings : c.Rings) (word : tail < 2 ^ 16)
    (object : c.queue? qid = some q) :
    (c.setQueue qid (some (q.setTail tail))).Rings := by
  have lt := lt_of_queue? object
  have sound := rings.sound qid q object
  constructor
  · rw [setQueue, List.length_set]
    exact rings.few
  · rw [queue?_setQueue lt]
    split
    · rfl
    · exact rings.admin
  · intro i other hi
    rw [queue?_setQueue lt] at hi
    split at hi
    · cases hi
      exact ⟨sound.size, word, sound.head⟩
    · exact rings.sound i other hi

/-- After a doorbell the collection ends exactly when the doorbell is one of the controller
and the tail of every queue it looks at is smaller than the size, or is where the head is. -/
theorem endsWithin_doorbell_iff {qid tail : Nat} (rings : c.Rings) (healthy : c.fault = none)
    (word : tail < 2 ^ 16) : EndsWithin p (c.ringSQTailDoorbell qid tail) ↔
      qid < c.ppSQueue.length ∧ ∀ i q, c.queue? i = some q → p.Looks i q.priority →
        (if i = qid then tail else q.tail) < q.size ∨
          (if i = qid then tail else q.tail) = q.head := by
  unfold ringSQTailDoorbell
  split
  next absent =>
    have outside := List.getElem?_eq_none_iff.1 absent
    have rings' : (c.fail .undefined).Rings := ⟨rings.few, rings.admin, rings.sound⟩
    rw [endsWithin_iff rings']
    constructor
    · rintro ⟨none, -⟩
      cases none
    · rintro ⟨inside, -⟩
      omega
  next absent =>
    have inside := (List.getElem?_eq_some_iff.1 absent).1
    rw [endsWithin_iff rings, and_iff_right healthy, and_iff_right inside]
    apply forall_congr' fun i => forall_congr' fun q => forall_congr' fun object => ?_
    have other : i ≠ qid := by
      rintro rfl
      rw [queue?, absent] at object
      cases object
    rw [if_neg other]
  next q present =>
    have inside := (List.getElem?_eq_some_iff.1 present).1
    have object : c.queue? qid = some q := by simp [queue?, present]
    rw [endsWithin_iff (rings.doorbell word object), and_iff_right inside]
    constructor
    · rintro ⟨-, fits⟩ i other hi looked
      by_cases same : i = qid
      · subst same
        cases object.symm.trans hi
        rw [if_pos rfl]
        exact fits i (q.setTail tail) (by rw [queue?_setQueue inside, if_pos rfl]) looked
      · simpa [same] using fits i other (by rw [queue?_setQueue inside, if_neg same, hi]) looked
    · intro fits
      refine ⟨healthy, fun i other hi looked => ?_⟩
      rw [queue?_setQueue inside] at hi
      split at hi
      next same =>
        cases hi
        subst same
        have met := fits i q object looked
        rw [if_pos rfl] at met
        exact met
      next same => simpa [same] using fits i other hi looked

/-- A doorbell of a controller with two queues of eight slots. -/
theorem endsWithin_doorbell_small :
    EndsWithin weightedArbitration ((oneQueue PRIORITY_HIGH).ringSQTailDoorbell 1 5) := by
  refine (endsWithin_doorbell_iff (oneQueue_rings PRIORITY_HIGH) rfl (by decide)).2
    ⟨by decide, fun i q object _ => ?_⟩
  match i, object with
  | 0, rfl => decide
  | 1, rfl => decide

/-- Eight is no slot of a queue of eight, and the head runs forever. -/
theorem doorbell_never_ends :
    ¬ EndsWithin weightedArbitration ((oneQueue PRIORITY_HIGH).ringSQTailDoorbell 1 8) := by
  rintro ⟨fuel, c', fetches, run, -, -, -⟩
  have object : (oneQueue PRIORITY_HIGH).queue? 1 = some ⟨1, 1, PRIORITY_HIGH, 6, 1, 8⟩ := rfl
  have rings := (oneQueue_rings PRIORITY_HIGH).doorbell (by decide : 8 < 2 ^ 16) object
  obtain ⟨others, fetched, idle⟩ := collectSQueue_collects rings run
  have inRange := ((fetched.done rings).headsOf_eq idle (i := 1)
    (q := ⟨1, 1, PRIORITY_HIGH, 6, 8, 8⟩) rfl ⟨rfl, .inr (.inr (.inr (.inl rfl)))⟩).1
  revert inRange
  decide

/-! ## Runs -/

structure Fitting (c : Controller) : Prop where
  rings : c.Rings
  tails : ∀ i q, c.queue? i = some q → q.tail < q.size ∨ q.tail = q.head

/-- A doorbell writes a slot of its queue, or where the head is. -/
def DoorbellFits (c : Controller) : Action → Prop
  | .doorbell qid tail =>
      tail < 2 ^ 16 ∧ ∀ q, c.queue? qid = some q → tail < q.size ∨ tail = q.head
  | _ => True

@[simp] theorem ppSQueue_submit (entry : CQEntryWrapper) (c : Controller) :
    (c.submit entry).ppSQueue = c.ppSQueue := by
  unfold submit
  split
  · rfl
  · rfl
  · rfl

theorem ppSQueue_abortQueue (sqid sqHead : Nat) (l : List SQEntryWrapper) (c : Controller) :
    (abortQueue sqid sqHead l c).2.ppSQueue = c.ppSQueue := by
  induction l, c using abortQueue.induct sqid sqHead with
  | case1 c => rfl
  | case2 req c here => simp [abortQueue, here, fail, submitAborted]
  | case3 req c here mid next rest left c' heq ih =>
      rw [abortQueue, if_pos here]
      exact ih.trans (ppSQueue_submit _ _)
  | case4 req rest c other left c' heq ih =>
      rw [abortQueue, if_neg other]
      exact ih

theorem ppSQueue_abort (sqid cid : Nat) (c : Controller) :
    (c.abort sqid cid).2.ppSQueue = c.ppSQueue := by
  unfold abort
  split
  · rfl
  · split
    · rfl
    · exact ppSQueue_submit _ _

theorem ppSQueue_doRead (fetch : Fetch) (entry : SQEntry) (c : Controller) :
    (c.doRead fetch entry).ppSQueue = c.ppSQueue := by
  unfold doRead
  split
  · rfl
  · split
    · rfl
    · rfl

theorem ppSQueue_reschedule (p : Arbitration) (now : Tick) (selected : Bool) (c : Controller) :
    (c.reschedule p now selected).ppSQueue = c.ppSQueue := by
  unfold reschedule
  dsimp only
  split
  · rfl
  · rfl

theorem ppSQueue_handleRequest (p : Arbitration) (now : Tick) (canServe : UserID → Nat → Bool)
    (lbaSize : Nat → Nat) (c : Controller) :
    (c.handleRequest p now canServe lbaSize).ppSQueue = c.ppSQueue := by
  have takes := selectRequest_takes canServe lbaSize c
  unfold handleRequest
  split
  next req c' selected =>
    rw [selected] at takes
    obtain ⟨uid, rest, b, last, hget, rfl⟩ := takes
    exact ppSQueue_reschedule _ _ _ _
  next c' selected =>
    rw [selected] at takes
    obtain ⟨b, rfl⟩ := takes
    exact ppSQueue_reschedule _ _ _ _

theorem ppSQueue_deleteSQueue (sqid : Nat) (c : Controller) :
    (c.deleteSQueue sqid).2.ppSQueue = c.ppSQueue ∨
      0 < sqid ∧ (c.deleteSQueue sqid).2.ppSQueue = c.ppSQueue.set sqid none := by
  unfold deleteSQueue
  split
  · exact .inl rfl
  · exact .inl rfl
  next q _ =>
    split
    next pos =>
      refine .inr ⟨pos, ?_⟩
      change (abortQueue sqid q.head c.lSQFIFO c).2.ppSQueue.set sqid none = _
      rw [ppSQueue_abortQueue]
    next => exact .inl rfl

theorem Fitting.of_eq (fitting : c.Fitting) (same : c'.ppSQueue = c.ppSQueue) : c'.Fitting := by
  have queues : ∀ i, c'.queue? i = c.queue? i := by
    intro i
    rw [queue?, same]
    rfl
  exact
    { rings :=
        { few := same ▸ fitting.rings.few
          admin := (queues 0).symm ▸ fitting.rings.admin
          sound := fun i q object => fitting.rings.sound i q (queues i ▸ object) }
      tails := fun i q object => fitting.tails i q (queues i ▸ object) }

theorem Fitting.delete {sqid : Nat} (fitting : c.Fitting) (pos : 0 < sqid) :
    (c.setQueue sqid none).Fitting := by
  have queues : ∀ i q, (c.setQueue sqid none).queue? i = some q → c.queue? i = some q := by
    intro i q object
    simp only [queue?, setQueue, List.getElem?_set] at object ⊢
    split at object
    · split at object
      · cases object
      · cases object
    · exact object
  have admin : (c.setQueue sqid none).queue? 0 = c.queue? 0 := by
    simp [queue?, setQueue, pos.ne']
  exact
    { rings :=
        { few := by
            rw [setQueue, List.length_set]
            exact fitting.rings.few
          admin := by
            rw [admin]
            exact fitting.rings.admin
          sound := fun i q object => fitting.rings.sound i q (queues i q object) }
      tails := fun i q object => fitting.tails i q (queues i q object) }

theorem Fitting.collect {fuel : Nat} (fitting : c.Fitting)
    (run : c.collectSQueue p fuel = some c') : c'.Fitting := by
  obtain ⟨fetches, fetched, -⟩ := collectSQueue_collects fitting.rings run
  have done := fetched.done fitting.rings
  refine ⟨done.rings fitting.rings, fun i q' object' => ?_⟩
  cases object : c.queue? i with
  | none => cases (done.noQueue i object).1.symm.trans object'
  | some q =>
      obtain ⟨q₁, object₁, read⟩ := done.queue i q object
      cases object₁.symm.trans object'
      rcases fitting.tails i q object with lt | empty
      · left
        rw [read.same]
        exact lt
      · exact .inr (read.empty (fitting.rings.sound i q object) empty.symm).symm

theorem Fitting.doorbell {qid tail : Nat} (fitting : c.Fitting)
    (fits : c.DoorbellFits (.doorbell qid tail)) : (c.ringSQTailDoorbell qid tail).Fitting := by
  unfold ringSQTailDoorbell
  split
  · exact fitting.of_eq rfl
  · exact fitting
  next q present =>
    have inside := (List.getElem?_eq_some_iff.1 present).1
    have object : c.queue? qid = some q := by simp [queue?, present]
    refine ⟨fitting.rings.doorbell fits.1 object, fun i other hi => ?_⟩
    rw [queue?_setQueue inside] at hi
    split at hi
    · cases hi
      exact fits.2 q object
    · exact fitting.tails i other hi

theorem Fitting.step {a : Action} (fitting : c.Fitting) (fits : c.DoorbellFits a)
    (hstep : step p c a = some c') : c'.Fitting := by
  obtain ⟨-, hstep⟩ := Option.ite_none_left_eq_some.1 hstep
  cases a with
  | doorbell qid tail =>
      cases hstep
      exact fitting.doorbell fits
  | collect fuel => exact fitting.collect hstep
  | fetchDone fetch entry =>
      obtain ⟨-, same⟩ := Option.ite_none_right_eq_some.1 hstep
      cases same
      exact fitting.of_eq (ppSQueue_doRead _ _ _)
  | queueFunction now =>
      cases hstep
      exact fitting.of_eq rfl
  | handleRequest now canServe lbaSize =>
      cases hstep
      exact fitting.of_eq (ppSQueue_handleRequest _ _ _ _ _)
  | complete req status =>
      obtain ⟨-, same⟩ := Option.ite_none_right_eq_some.1 hstep
      cases same
      exact fitting.of_eq (ppSQueue_submit _ _)
  | abort sqid cid =>
      cases hstep
      exact fitting.of_eq (ppSQueue_abort _ _ _)
  | deleteSQueue sqid =>
      cases hstep
      rcases ppSQueue_deleteSQueue sqid c with same | ⟨pos, same⟩
      · exact fitting.of_eq same
      · exact (fitting.delete pos).of_eq same
  | advance tick =>
      obtain ⟨-, same⟩ := Option.ite_none_right_eq_some.1 hstep
      cases same
      exact fitting.of_eq rfl

/-- As long as the doorbells fit, every collection ends. -/
theorem collections_end (fitting : c.Fitting) {actions : List Action}
    (each : EachAction (step p) DoorbellFits c actions) :
    Throughout (step p) (fun c => c.fault = none → EndsWithin p c) c actions :=
  throughout_of_invariant (fun _ _ _ fitting fits hstep => fitting.step fits hstep)
    (fun _ fitting healthy => (endsWithin_iff fitting.rings).2
      ⟨healthy, fun i q object _ => fitting.tails i q object⟩) fitting each

theorem collections_end_small : Throughout (step weightedArbitration)
    (fun c => c.fault = none → EndsWithin weightedArbitration c) (oneQueue PRIORITY_HIGH)
    [.doorbell 1 5, .collect 9, .deleteSQueue 1] := by
  refine collections_end ⟨oneQueue_rings PRIORITY_HIGH, fun i q object => ?_⟩ fun _ _ =>
    ⟨⟨by decide, fun q object => ?_⟩, fun _ _ => ⟨trivial, fun _ _ => ⟨trivial, trivial⟩⟩⟩
  · match i, object with
    | 0, rfl => decide
    | 1, rfl => decide
  · cases object
    decide

end Controller

end SimpleSSD.HIL.NVMe
