import Mathlib.Algebra.Order.BigOperators.Group.List
import SimpleSSD.Foundation.Ring
import SimpleSSD.HIL.NVMe.Accounting

/-!
# What the arbitration collects

The entries between head and tail of a submission queue are the slots of a ring.  Each loop
of `collectSQueue` fetches from the queues of one kind until they are idle, and ends when
their tails are in their rings.
-/

namespace SimpleSSD.HIL.NVMe

open SimpleSSD.Foundation

namespace SQueue

/-- Behind a size of zero the head runs through all 16-bit words. -/
def slotCount (q : SQueue) : Nat := if q.size = 0 then 2 ^ 16 else q.size

def waiting (q : SQueue) : List Nat := Ring.waiting q.slotCount q.head q.tail

structure Sound (q : SQueue) : Prop where
  size : q.size < 2 ^ 16
  tail : q.tail < 2 ^ 16
  head : q.head < q.slotCount

def InRange (q : SQueue) : Prop := q.tail < q.slotCount

instance (q : SQueue) : Decidable q.InRange := inferInstanceAs (Decidable (_ < _))

variable {q : SQueue}

theorem Sound.slotCount_le (sound : q.Sound) : q.slotCount ≤ 2 ^ 16 := by
  have := sound.size
  unfold slotCount
  split
  · exact Nat.le_refl _
  · omega

theorem Sound.getItemCount_eq_zero_iff (sound : q.Sound) :
    q.getItemCount = 0 ↔ q.head = q.tail := by
  have head := sound.head
  have tail := sound.tail
  have size := sound.size
  unfold slotCount at head
  unfold getItemCount
  split
  · omega
  · split at head
    · omega
    · omega

theorem waiting_eq_nil_iff (sound : q.Sound) : q.waiting = [] ↔ q.head = q.tail :=
  Ring.waiting_eq_nil_iff sound.head

theorem getData_of_eq (empty : q.head = q.tail) : q.getData = q := if_neg (not_not.2 empty)

theorem Sound.getData_eq (sound : q.Sound) (apart : q.head ≠ q.tail) :
    q.getData = { q with head := Ring.next q.slotCount q.head } := by
  have head := sound.head
  have le := sound.slotCount_le
  have moved : (if (q.head + 1) % 2 ^ 16 = q.size then 0 else (q.head + 1) % 2 ^ 16) =
      Ring.next q.slotCount q.head := by
    unfold Ring.next
    by_cases none : q.size = 0
    · have all : q.slotCount = 2 ^ 16 := if_pos none
      rw [all] at head ⊢
      rw [none]
      split
      · split
        · rfl
        · omega
      · split
        · omega
        · omega
    · have all : q.slotCount = q.size := if_neg none
      rw [all] at head le ⊢
      split
      · split
        · rfl
        · omega
      · split
        · omega
        · omega
  unfold getData
  rw [if_pos apart, ← moved]

theorem Sound.getData (sound : q.Sound) : q.getData.Sound := by
  by_cases empty : q.head = q.tail
  · rw [getData_of_eq empty]
    exact sound
  · rw [sound.getData_eq empty]
    exact ⟨sound.size, sound.tail, Ring.next_lt sound.head⟩

theorem Sound.waiting_eq_cons (sound : q.Sound) (inRange : q.InRange)
    (apart : q.head ≠ q.tail) : q.waiting = q.head :: q.getData.waiting := by
  rw [sound.getData_eq apart]
  exact Ring.waiting_cons sound.head inRange apart

theorem Sound.inRange_of_eq (sound : q.Sound) (empty : q.head = q.tail) : q.InRange := by
  unfold InRange
  rw [← empty]
  exact sound.head

/-- What fetches from a queue do to it: the heads they read are the first of the waiting
slots. -/
structure Read (q : SQueue) (heads : List Nat) (q' : SQueue) : Prop where
  same : q' = { q with head := q'.head }
  sound : q'.Sound
  waiting : q.InRange → q.waiting = heads ++ q'.waiting

theorem Read.refl (sound : q.Sound) : Read q [] q := ⟨rfl, sound, fun _ => rfl⟩

variable {q' q'' : SQueue} {heads more : List Nat}

theorem Read.slotCount (read : Read q heads q') : q'.slotCount = q.slotCount := by
  rw [read.same]
  rfl

theorem Read.tail (read : Read q heads q') : q'.tail = q.tail := by
  rw [read.same]

theorem Read.priority (read : Read q heads q') : q'.priority = q.priority := by
  rw [read.same]

theorem Read.inRange_iff (read : Read q heads q') : q'.InRange ↔ q.InRange := by
  unfold InRange
  rw [read.tail, read.slotCount]

theorem Read.trans (first : Read q heads q') (second : Read q' more q'') :
    Read q (heads ++ more) q'' where
  same := by
    rw [second.same, first.same]
  sound := second.sound
  waiting := by
    intro inRange
    rw [first.waiting inRange, second.waiting (first.inRange_iff.2 inRange), List.append_assoc]

theorem Read.heads_eq (read : Read q heads q') (empty : q'.head = q'.tail) :
    q.InRange ∧ heads = q.waiting := by
  have inRange := read.inRange_iff.1 (read.sound.inRange_of_eq empty)
  have split := read.waiting inRange
  rw [(waiting_eq_nil_iff read.sound).2 empty, List.append_nil] at split
  exact ⟨inRange, split.symm⟩

theorem Read.empty (read : Read q heads q') (sound : q.Sound) (empty : q.head = q.tail) :
    q'.head = q'.tail := by
  have split := read.waiting (sound.inRange_of_eq empty)
  rw [(waiting_eq_nil_iff sound).2 empty] at split
  exact (waiting_eq_nil_iff read.sound).1 (List.append_eq_nil_iff.1 split.symm).2

theorem Sound.read (sound : q.Sound) (apart : q.head ≠ q.tail) : Read q [q.head] q.getData where
  same := by rw [sound.getData_eq apart]
  sound := sound.getData
  waiting := fun inRange => sound.waiting_eq_cons inRange apart

end SQueue

def Arbitration.Looks (p : Arbitration) (i priority : Nat) : Prop :=
  p.ready ∧ (p.method = .roundRobin ∨ i = 0 ∨ priority = PRIORITY_URGENT ∨
    priority = PRIORITY_HIGH ∨ priority = PRIORITY_MEDIUM)

namespace Controller

/-! ## Fetches -/

/-- The slots of one queue that a list of fetches reads, in order. -/
def headsOf (i : Nat) (fetches : List Fetch) : List Nat :=
  (fetches.filter fun f => f.sqID = i).map Fetch.oldhead

/-- Fetches that follow each other, from queues whose index and priority are of one kind. -/
inductive Fetches (kind : Nat → Nat → Prop) : List Fetch → Controller → Controller → Prop where
  | nil (c : Controller) : Fetches kind [] c c
  | cons {i : Nat} {q : SQueue} {later : List Fetch} {c c₁ c' : Controller}
      (object : c.queue? i = some q) (looked : kind i q.priority) (first : c.checkQueue i = some c₁)
      (more : Fetches kind later c₁ c') :
      Fetches kind (⟨c.fetched, i, q.head, false⟩ :: later) c c'

structure Rings (c : Controller) : Prop where
  few : c.ppSQueue.length < 2 ^ 16
  admin : (c.queue? 0).isSome
  sound : ∀ i q, c.queue? i = some q → q.Sound

structure FetchesFrom (fetches : List Fetch) (c c' : Controller) : Prop where
  fetching : c'.fetching = c.fetching ++ fetches
  fault : c'.fault = c.fault
  length : c'.ppSQueue.length = c.ppSQueue.length
  queue : ∀ i q, c.queue? i = some q →
    ∃ q', c'.queue? i = some q' ∧ q.Read (headsOf i fetches) q'
  noQueue : ∀ i, c.queue? i = none → c'.queue? i = none ∧ headsOf i fetches = []

variable {p : Arbitration} {c c₁ c' : Controller} {i : Nat} {q : SQueue}
variable {kind kind' : Nat → Nat → Prop} {fetches earlier later : List Fetch}

theorem headsOf_append (i : Nat) (earlier later : List Fetch) :
    headsOf i (earlier ++ later) = headsOf i earlier ++ headsOf i later := by
  simp [headsOf]

theorem checkQueue_eq_none_iff (sound : q.Sound) (object : c.queue? i = some q) :
    c.checkQueue i = none ↔ q.head = q.tail := by
  rw [← sound.getItemCount_eq_zero_iff]
  simp [checkQueue, object]

theorem Rings.checkQueue (rings : c.Rings) (object : c.queue? i = some q)
    (run : c.checkQueue i = some c') :
    FetchesFrom [⟨c.fetched, i, q.head, false⟩] c c' := by
  have sound := rings.sound i q object
  have apart : q.head ≠ q.tail := by
    intro empty
    rw [(checkQueue_eq_none_iff sound object).2 empty] at run
    cases run
  have lt := lt_of_queue? object
  have counted : 0 < q.getItemCount :=
    Nat.pos_of_ne_zero fun zero => apart (sound.getItemCount_eq_zero_iff.1 zero)
  unfold Controller.checkQueue at run
  rw [object] at run
  simp only [counted, if_true] at run
  cases run
  have queues : ∀ j, Controller.queue? { c.setQueue i q.getData with
      fetching := c.fetching ++ [⟨c.fetched, i, q.head, false⟩]
      fetched := c.fetched + 1 } j = if j = i then some q.getData else c.queue? j :=
    fun _ => queue?_setQueue lt
  constructor
  · rfl
  · rfl
  · exact List.length_set
  · intro j other hj
    rw [queues]
    by_cases same : j = i
    · subst same
      cases object.symm.trans hj
      rw [if_pos rfl]
      refine ⟨q.getData, rfl, ?_⟩
      simpa [headsOf] using sound.read apart
    · rw [if_neg same]
      refine ⟨other, hj, ?_⟩
      simpa [headsOf, Ne.symm same] using SQueue.Read.refl (rings.sound j other hj)
  · intro j none
    have other : j ≠ i := by
      rintro rfl
      cases object.symm.trans none
    rw [queues, if_neg other]
    simpa [headsOf, Ne.symm other] using none

theorem FetchesFrom.refl (rings : c.Rings) : FetchesFrom [] c c := by
  constructor
  · simp
  · rfl
  · rfl
  · intro i q object
    exact ⟨q, object, .refl (rings.sound i q object)⟩
  · intro i none
    exact ⟨none, rfl⟩

theorem FetchesFrom.trans (first : FetchesFrom earlier c c₁)
    (second : FetchesFrom later c₁ c') : FetchesFrom (earlier ++ later) c c' := by
  constructor
  · rw [second.fetching, first.fetching, List.append_assoc]
  · exact second.fault.trans first.fault
  · exact second.length.trans first.length
  · intro i q object
    obtain ⟨q₁, object₁, read₁⟩ := first.queue i q object
    obtain ⟨q₂, object₂, read₂⟩ := second.queue i q₁ object₁
    rw [headsOf_append]
    exact ⟨q₂, object₂, read₁.trans read₂⟩
  · intro i none
    obtain ⟨none₁, heads₁⟩ := first.noQueue i none
    obtain ⟨none₂, heads₂⟩ := second.noQueue i none₁
    rw [headsOf_append, heads₁, heads₂]
    exact ⟨none₂, rfl⟩

theorem FetchesFrom.rings (done : FetchesFrom fetches c c') (rings : c.Rings) : c'.Rings where
  few := by
    rw [done.length]
    exact rings.few
  admin := by
    obtain ⟨q, object⟩ := Option.isSome_iff_exists.1 rings.admin
    obtain ⟨q', object', -⟩ := done.queue 0 q object
    rw [object']
    rfl
  sound := by
    intro i q' object'
    cases object : c.queue? i with
    | none =>
        cases (done.noQueue i object).1.symm.trans object'
    | some q =>
        obtain ⟨q₁, object₁, read⟩ := done.queue i q object
        cases object₁.symm.trans object'
        exact read.sound

theorem Fetches.done (run : Fetches kind fetches c c') (rings : c.Rings) :
    FetchesFrom fetches c c' := by
  induction run with
  | nil c => exact .refl rings
  | cons object looked first more ih =>
      have one := rings.checkQueue object first
      exact one.trans (ih (one.rings rings))

theorem Fetches.trans (first : Fetches kind earlier c c₁) (second : Fetches kind later c₁ c') :
    Fetches kind (earlier ++ later) c c' := by
  induction first with
  | nil c => exact second
  | cons object looked first more ih => exact .cons object looked first (ih second)

theorem Fetches.mono (run : Fetches kind fetches c c')
    (weaker : ∀ i priority, kind i priority → kind' i priority) : Fetches kind' fetches c c' := by
  induction run with
  | nil c => exact .nil c
  | cons object looked first more ih => exact .cons object (weaker _ _ looked) first ih

theorem Fetches.eq_of_nil (run : Fetches kind [] c c') : c' = c := by
  cases run
  rfl

theorem Fetches.headsOf_eq_nil (run : Fetches kind fetches c c') (rings : c.Rings)
    (object : c.queue? i = some q) (other : ¬ kind i q.priority) : headsOf i fetches = [] := by
  induction run generalizing q with
  | nil c => rfl
  | @cons j read later c c₁ c' objectRead looked first more ih =>
      have one := rings.checkQueue objectRead first
      obtain ⟨q₁, object₁, step⟩ := one.queue i q object
      have apart : j ≠ i := by
        rintro rfl
        cases objectRead.symm.trans object
        exact other looked
      rw [headsOf, List.filter_cons_of_neg (by simpa using apart)]
      exact ih (one.rings rings) object₁ (step.priority ▸ other)

/-! ## Idle queues -/

def Idle (kind : Nat → Nat → Prop) (c : Controller) : Prop :=
  ∀ i q, c.queue? i = some q → kind i q.priority → q.head = q.tail

def InRange (kind : Nat → Nat → Prop) (c : Controller) : Prop :=
  ∀ i q, c.queue? i = some q → kind i q.priority → q.InRange

theorem FetchesFrom.inRange_iff (done : FetchesFrom fetches c c') :
    InRange kind c' ↔ InRange kind c := by
  constructor
  · intro inRange i q object looked
    obtain ⟨q', object', read⟩ := done.queue i q object
    exact read.inRange_iff.1 (inRange i q' object' (read.priority.symm ▸ looked))
  · intro inRange i q' object' looked
    cases object : c.queue? i with
    | none => cases (done.noQueue i object).1.symm.trans object'
    | some q =>
        obtain ⟨q₁, object₁, read⟩ := done.queue i q object
        cases object₁.symm.trans object'
        exact read.inRange_iff.2 (inRange i q object (read.priority ▸ looked))

theorem FetchesFrom.idle (done : FetchesFrom fetches c c') (rings : c.Rings)
    (idle : Idle kind c) : Idle kind c' := by
  intro i q' object' looked
  cases object : c.queue? i with
  | none => cases (done.noQueue i object).1.symm.trans object'
  | some q =>
      obtain ⟨q₁, object₁, read⟩ := done.queue i q object
      cases object₁.symm.trans object'
      exact read.empty (rings.sound i q object) (idle i q object (read.priority ▸ looked))

theorem FetchesFrom.headsOf_eq (done : FetchesFrom fetches c c') (idle : Idle kind c')
    (object : c.queue? i = some q) (looked : kind i q.priority) :
    q.InRange ∧ headsOf i fetches = q.waiting := by
  obtain ⟨q', object', read⟩ := done.queue i q object
  exact read.heads_eq (idle i q' object' (read.priority.symm ▸ looked))

/-- Fetches from the queues of a kind until they are all idle. -/
def Collects (kind : Nat → Nat → Prop) (c c' : Controller) : Prop :=
  ∃ fetches, Fetches kind fetches c c' ∧ Idle kind c'

theorem Collects.rings (collects : Collects kind c c') (rings : c.Rings) : c'.Rings := by
  obtain ⟨fetches, run, -⟩ := collects
  exact (run.done rings).rings rings

theorem Collects.trans (rings : c.Rings) (first : Collects kind c c₁)
    (second : Collects kind' c₁ c') :
    Collects (fun i priority => kind i priority ∨ kind' i priority) c c' := by
  obtain ⟨earlier, run, idle⟩ := first
  obtain ⟨later, run', idle'⟩ := second
  have still := (run'.done ((run.done rings).rings rings)).idle ((run.done rings).rings rings) idle
  refine ⟨earlier ++ later, (run.mono fun _ _ => .inl).trans (run'.mono fun _ _ => .inr), ?_⟩
  rintro i q object (looked | looked)
  · exact still i q object looked
  · exact idle' i q object looked

theorem Collects.of_iff (collects : Collects kind c c') (rings : c.Rings)
    (weaker : ∀ i priority, kind i priority → kind' i priority)
    (covered : ∀ i priority, i < c.ppSQueue.length → kind' i priority → kind i priority) :
    Collects kind' c c' := by
  obtain ⟨fetches, run, idle⟩ := collects
  refine ⟨fetches, run.mono weaker, fun i q object looked => idle i q object ?_⟩
  have lt := lt_of_queue? object
  rw [(run.done rings).length] at lt
  exact covered i q.priority lt looked

def backlogAt (c : Controller) (i : Nat) : Nat :=
  match c.queue? i with
  | none => 0
  | some q => if q.InRange then q.waiting.length else 0

def backlog (c : Controller) : Nat :=
  ((List.range c.ppSQueue.length).map c.backlogAt).sum

theorem FetchesFrom.backlogAt_le (done : FetchesFrom fetches c c') (i : Nat) :
    c'.backlogAt i ≤ c.backlogAt i := by
  unfold backlogAt
  cases object : c.queue? i with
  | none => rw [(done.noQueue i object).1]
  | some q =>
      obtain ⟨q', object', read⟩ := done.queue i q object
      simp only [object', read.inRange_iff]
      split
      next inRange =>
        rw [read.waiting inRange, List.length_append]
        exact Nat.le_add_left _ _
      next => exact Nat.le_refl _

theorem FetchesFrom.backlog_le (done : FetchesFrom fetches c c') : c'.backlog ≤ c.backlog := by
  unfold backlog
  rw [done.length]
  exact List.sum_le_sum fun i _ => done.backlogAt_le i

theorem Rings.backlog_lt (rings : c.Rings) (object : c.queue? i = some q)
    (inRange : q.InRange) (run : c.checkQueue i = some c') : c'.backlog < c.backlog := by
  have done := rings.checkQueue object run
  obtain ⟨q', object', read⟩ := done.queue i q object
  have fewer : c'.backlogAt i < c.backlogAt i := by
    have split := congrArg List.length (read.waiting inRange)
    simp only [headsOf, List.filter_cons, List.filter_nil, decide_true, if_true, List.map_cons,
      List.map_nil, List.length_append, List.length_singleton] at split
    simp only [backlogAt, object, object', read.inRange_iff, if_pos inRange]
    omega
  unfold backlog
  rw [done.length]
  exact List.sum_lt_sum _ _ (fun j _ => done.backlogAt_le j)
    ⟨i, List.mem_range.2 (lt_of_queue? object), fewer⟩

theorem Fetches.backlog_lt (run : Fetches kind fetches c c') (rings : c.Rings)
    (inRange : InRange kind c) (some : fetches ≠ []) : c'.backlog < c.backlog := by
  cases run with
  | nil c => exact absurd rfl some
  | cons object looked first more =>
      have one := rings.checkQueue object first
      have less := rings.backlog_lt object (inRange _ _ object looked) first
      exact ((more.done (one.rings rings)).backlog_le).trans_lt less

/-! ## Passes -/

/-- A pass over the queues of a kind starts no fetch only when they are all idle. -/
structure Pass (kind : Nat → Nat → Prop) (fetches : List Fetch) (c c' : Controller) : Prop where
  run : Fetches kind fetches c c'
  idle : fetches = [] → ∀ i q, c.queue? i = some q → kind i q.priority → c.checkQueue i = none

theorem Pass.idle_of_nil (pass : Pass kind [] c c') (rings : c.Rings) : Idle kind c' := by
  rw [pass.run.eq_of_nil]
  intro i q object looked
  exact (checkQueue_eq_none_iff (rings.sound i q object) object).1
    (pass.idle rfl i q object looked)

theorem Pass.trans (first : Pass kind earlier c c₁) (second : Pass kind' later c₁ c') :
    Pass (fun i priority => kind i priority ∨ kind' i priority) (earlier ++ later) c c' where
  run := (first.run.mono fun _ _ => .inl).trans (second.run.mono fun _ _ => .inr)
  idle := by
    intro none i q object looked
    obtain ⟨rfl, rfl⟩ := List.append_eq_nil_iff.1 none
    cases first.run
    rcases looked with looked | looked
    · exact first.idle rfl i q object looked
    · exact second.idle rfl i q object looked

def listed (indices : List Nat) (wanted : Nat → Bool) (i priority : Nat) : Prop :=
  i ∈ indices ∧ wanted priority

variable {indices : List Nat} {wanted : Nat → Bool} {fuel priority weight : Nat}

theorem Pass.cons (pass : Pass (listed indices wanted) fetches c c')
    (passed : ∀ q, c.queue? i = some q → wanted q.priority → c.checkQueue i = none) :
    Pass (listed (i :: indices) wanted) fetches c c' where
  run := pass.run.mono fun _ _ looked => ⟨List.mem_cons_of_mem _ looked.1, looked.2⟩
  idle := by
    rintro none j q object ⟨hmem, want⟩
    rcases List.mem_cons.1 hmem with rfl | later
    · exact passed q object want
    · exact pass.idle none j q object ⟨later, want⟩

theorem Pass.absent (pass : Pass (listed indices wanted) fetches c c')
    (object : c.queue? i = none) : Pass (listed (i :: indices) wanted) fetches c c' :=
  pass.cons fun _ present => by cases object.symm.trans present

theorem Pass.refused (pass : Pass (listed indices wanted) fetches c c')
    (object : c.queue? i = some q) (idle : wanted q.priority → c.checkQueue i = none) :
    Pass (listed (i :: indices) wanted) fetches c c' := by
  refine pass.cons fun other present want => ?_
  cases object.symm.trans present
  exact idle want

theorem Pass.fetch (object : c.queue? i = some q) (want : wanted q.priority)
    (first : c.checkQueue i = some c₁) (more : Fetches (listed indices wanted) later c₁ c') :
    Pass (listed (i :: indices) wanted) (⟨c.fetched, i, q.head, false⟩ :: later) c c' where
  run := .cons object ⟨List.mem_cons_self, want⟩ first
    (more.mono fun _ _ looked => ⟨List.mem_cons_of_mem _ looked.1, looked.2⟩)
  idle := fun none => by cases none

theorem Pass.nil (c : Controller) : Pass (listed [] wanted) [] c c where
  run := .nil c
  idle := fun _ _ _ _ looked => by cases looked.1

theorem sweep_pass (wanted : Nat → Bool) (indices : List Nat) (c : Controller) {updated : Nat}
    (word : updated < 2 ^ 16) :
    ∃ fetches, Pass (listed indices wanted) fetches c
        (sweep (fun q => wanted q.priority) indices (c, updated)).1 ∧
      fetches.length ≤ indices.length ∧
      (sweep (fun q => wanted q.priority) indices (c, updated)).2 =
        (updated + fetches.length) % 2 ^ 16 := by
  induction indices generalizing c updated with
  | nil => exact ⟨[], .nil c, Nat.le_refl _, (Nat.mod_eq_of_lt word).symm⟩
  | cons i rest ih =>
      unfold sweep
      cases object : c.queue? i with
      | none =>
          obtain ⟨fetches, pass, few, count⟩ := ih c word
          exact ⟨fetches, pass.absent object, few.trans (Nat.le_succ _), count⟩
      | some q =>
          dsimp only
          cases run : if wanted q.priority then c.checkQueue i else none with
          | none =>
              obtain ⟨fetches, pass, few, count⟩ := ih c word
              have passed := pass.refused object fun want => (if_pos want).symm.trans run
              exact ⟨fetches, passed, few.trans (Nat.le_succ _), count⟩
          | some c₁ =>
              obtain ⟨want, first⟩ := Option.ite_none_right_eq_some.1 run
              obtain ⟨fetches, pass, few, count⟩ :=
                ih c₁ (Nat.mod_lt (updated + 1) (Nat.two_pow_pos 16))
              refine ⟨_, .fetch object want first pass.run, Nat.succ_le_succ few, ?_⟩
              rw [count, List.length_cons]
              omega

theorem sweepUntilIdle_collects (wanted : Nat → Bool) (few : indices.length < 2 ^ 16)
    (rings : c.Rings)
    (run : sweepUntilIdle (fun q => wanted q.priority) indices fuel c = some c') :
    Collects (listed indices wanted) c c' := by
  induction fuel generalizing c with
  | zero => cases run
  | succ fuel ih =>
      obtain ⟨fetches, pass, le, count⟩ := sweep_pass wanted indices c (Nat.two_pow_pos 16)
      unfold sweepUntilIdle at run
      dsimp only at run
      split at run
      next zero =>
        cases run
        rw [zero] at count
        have none : fetches = [] := by
          apply List.eq_nil_of_length_eq_zero
          omega
        subst none
        exact ⟨[], pass.run, pass.idle_of_nil rings⟩
      next =>
        obtain ⟨later, more, idle⟩ := ih ((pass.run.done rings).rings rings) run
        exact ⟨_, pass.run.trans more, idle⟩

theorem sweepUntilIdle_ends (wanted : Nat → Bool) (indices : List Nat) (rings : c.Rings)
    (inRange : InRange (listed indices wanted) c) (enough : c.backlog < fuel) :
    ∃ c', sweepUntilIdle (fun q => wanted q.priority) indices fuel c = some c' := by
  induction fuel generalizing c with
  | zero => cases enough
  | succ fuel ih =>
      obtain ⟨fetches, pass, le, count⟩ := sweep_pass wanted indices c (Nat.two_pow_pos 16)
      unfold sweepUntilIdle
      dsimp only
      split
      · exact ⟨_, rfl⟩
      next nonzero =>
        have done := pass.run.done rings
        apply ih (done.rings rings) (done.inRange_iff.2 inRange)
        have less := pass.run.backlog_lt rings inRange ?_
        · omega
        · rintro rfl
          exact nonzero count

theorem drainQueue_collects (rings : c.Rings) (run : drainQueue i fuel c = some c') :
    Collects (fun j _ => j = i) c c' := by
  induction fuel generalizing c with
  | zero => cases run
  | succ fuel ih =>
      unfold drainQueue at run
      cases first : c.checkQueue i with
      | none =>
          rw [first] at run
          cases run
          refine ⟨[], .nil _, ?_⟩
          rintro _ q object rfl
          exact (checkQueue_eq_none_iff (rings.sound _ q object) object).1 first
      | some c₁ =>
          rw [first] at run
          have object : ∃ q, c.queue? i = some q := by
            rw [← Option.isSome_iff_exists]
            unfold checkQueue at first
            split at first
            · cases first
            next q object =>
              rw [object]
              rfl
          obtain ⟨q, object⟩ := object
          obtain ⟨later, more, idle⟩ := ih ((rings.checkQueue object first).rings rings) run
          exact ⟨_, .cons object rfl first more, idle⟩

theorem drainQueue_ends (rings : c.Rings) (object : c.queue? i = some q) (inRange : q.InRange)
    (enough : c.backlog < fuel) : ∃ c', drainQueue i fuel c = some c' := by
  induction fuel generalizing c q with
  | zero => cases enough
  | succ fuel ih =>
      unfold drainQueue
      cases first : c.checkQueue i with
      | none => exact ⟨c, rfl⟩
      | some c₁ =>
          have one := rings.checkQueue object first
          obtain ⟨q₁, object₁, read⟩ := one.queue i q object
          have less := rings.backlog_lt object inRange first
          exact ih (one.rings rings) object₁ (read.inRange_iff.2 inRange) (by omega)

def Counts (kind : Nat → Nat → Prop) (s s' : Sweep) : Prop :=
  ∃ fetches, Pass kind fetches s.c s'.c ∧ s'.total = s.total + fetches.length

theorem Counts.trans {s₁ s₂ s₃ : Sweep} (first : Counts kind s₁ s₂)
    (second : Counts kind' s₂ s₃) :
    Counts (fun i priority => kind i priority ∨ kind' i priority) s₁ s₃ := by
  obtain ⟨earlier, pass, count⟩ := first
  obtain ⟨later, pass', count'⟩ := second
  refine ⟨earlier ++ later, pass.trans pass', ?_⟩
  rw [count', count, List.length_append, Nat.add_assoc]

theorem weightedSweep_counts (priority weight : Nat) (indices : List Nat) (s : Sweep) :
    Counts (listed indices fun pri => pri = priority) s
      (weightedSweep priority weight indices s) := by
  induction indices generalizing s with
  | nil => exact ⟨[], .nil s.c, rfl⟩
  | cons i rest ih =>
      unfold weightedSweep
      cases object : s.c.queue? i with
      | none =>
          obtain ⟨fetches, pass, count⟩ := ih s
          exact ⟨fetches, pass.absent object, count⟩
      | some q =>
          dsimp only
          cases run : if q.priority = priority then s.c.checkQueue i else none with
          | none =>
              obtain ⟨fetches, pass, count⟩ := ih s
              have passed := pass.refused object fun want =>
                (if_pos (of_decide_eq_true want)).symm.trans run
              exact ⟨fetches, passed, count⟩
          | some c₁ =>
              obtain ⟨want, first⟩ := Option.ite_none_right_eq_some.1 run
              dsimp only
              split
              · exact ⟨_, .fetch object (decide_eq_true want) first (.nil c₁), rfl⟩
              · obtain ⟨fetches, pass, count⟩ := ih ⟨c₁, (s.updated + 1) % 2 ^ 16, s.total + 1⟩
                refine ⟨_, .fetch object (decide_eq_true want) first pass.run, count.trans ?_⟩
                rw [List.length_cons, Nat.add_right_comm, Nat.add_assoc]

theorem singleSweep_counts (priority : Nat) (indices : List Nat) (s : Sweep) :
    Counts (listed indices fun pri => pri = priority) s (singleSweep priority indices s) := by
  induction indices with
  | nil => exact ⟨[], .nil s.c, rfl⟩
  | cons i rest ih =>
      unfold singleSweep
      cases object : s.c.queue? i with
      | none =>
          obtain ⟨fetches, pass, count⟩ := ih
          exact ⟨fetches, pass.absent object, count⟩
      | some q =>
          dsimp only
          cases run : if q.priority = priority then s.c.checkQueue i else none with
          | none =>
              obtain ⟨fetches, pass, count⟩ := ih
              have passed := pass.refused object fun want =>
                (if_pos (of_decide_eq_true want)).symm.trans run
              exact ⟨fetches, passed, count⟩
          | some c₁ =>
              obtain ⟨want, first⟩ := Option.ite_none_right_eq_some.1 run
              exact ⟨_, .fetch object (decide_eq_true want) first (.nil c₁), rfl⟩

def weighted (indices : List Nat) (i priority : Nat) : Prop :=
  i ∈ indices ∧ (priority = PRIORITY_HIGH ∨ priority = PRIORITY_MEDIUM)

theorem weightedRound_pass (p : Arbitration) (indices : List Nat) (s : Sweep) :
    ∃ fetches, Pass (weighted indices) fetches s.c (weightedRound p indices s).c ∧
      (weightedRound p indices s).total = s.total + fetches.length := by
  obtain ⟨fetches, pass, count⟩ :=
    (weightedSweep_counts PRIORITY_HIGH p.wrrHigh indices s).trans
      ((weightedSweep_counts PRIORITY_MEDIUM p.wrrMedium indices _).trans
        (singleSweep_counts PRIORITY_MEDIUM indices _))
  refine ⟨fetches, ⟨?_, ?_⟩, count⟩
  · apply pass.run.mono
    rintro i priority (looked | looked | looked)
    · exact ⟨looked.1, .inl (of_decide_eq_true looked.2)⟩
    · exact ⟨looked.1, .inr (of_decide_eq_true looked.2)⟩
    · exact ⟨looked.1, .inr (of_decide_eq_true looked.2)⟩
  · rintro none i q object ⟨hmem, high | medium⟩
    · exact pass.idle none i q object (.inl ⟨hmem, decide_eq_true high⟩)
    · exact pass.idle none i q object (.inr (.inl ⟨hmem, decide_eq_true medium⟩))

theorem weightedRoundRobin_collects {s : Sweep} (rings : s.c.Rings) (fresh : s.total = 0)
    (run : weightedRoundRobin p indices fuel s = some c') :
    Collects (weighted indices) s.c c' := by
  induction fuel generalizing s with
  | zero => cases run
  | succ fuel ih =>
      obtain ⟨fetches, pass, count⟩ := weightedRound_pass p indices s
      unfold weightedRoundRobin at run
      dsimp only at run
      split at run
      next zero =>
        cases run
        have none : fetches = [] := by
          apply List.eq_nil_of_length_eq_zero
          omega
        subst none
        exact ⟨[], pass.run, pass.idle_of_nil rings⟩
      next =>
        obtain ⟨later, more, idle⟩ := ih
          (s := { weightedRound p indices s with total := 0 })
          ((pass.run.done rings).rings rings) rfl run
        exact ⟨_, pass.run.trans more, idle⟩

theorem weightedRoundRobin_ends (indices : List Nat) {s : Sweep} (rings : s.c.Rings)
    (fresh : s.total = 0) (inRange : InRange (weighted indices) s.c) (enough : s.c.backlog < fuel) :
    ∃ c', weightedRoundRobin p indices fuel s = some c' := by
  induction fuel generalizing s with
  | zero => cases enough
  | succ fuel ih =>
      obtain ⟨fetches, pass, count⟩ := weightedRound_pass p indices s
      unfold weightedRoundRobin
      dsimp only
      split
      · exact ⟨_, rfl⟩
      next nonzero =>
        have done := pass.run.done rings
        have some : fetches ≠ [] := by
          rintro rfl
          exact nonzero (count.trans fresh)
        have less := pass.run.backlog_lt rings inRange some
        exact ih (s := { weightedRound p indices s with total := 0 }) (done.rings rings) rfl
          (done.inRange_iff.2 inRange) (less.trans_le (Nat.le_of_lt_succ enough))

/-! ## Collecting the submission queues -/

theorem mem_tail_range {n : Nat} : i ∈ (List.range n).tail ↔ i ≠ 0 ∧ i < n := by
  cases n with
  | zero => simp
  | succ n =>
      rw [List.range_succ_eq_map, List.tail_cons, List.mem_map]
      constructor
      · rintro ⟨j, hmem, rfl⟩
        exact ⟨Nat.succ_ne_zero j, Nat.succ_lt_succ (List.mem_range.1 hmem)⟩
      · rintro ⟨nonzero, lt⟩
        exact ⟨i - 1, List.mem_range.2 (by omega), by omega⟩

/-- Behind the admin queue come the urgent queues and then those of the other priorities. -/
theorem Arbitration.Looks.phase {n : Nat} (looked : p.Looks i priority)
    (method : p.method = .weightedRoundRobin) (lt : i < n) :
    i = 0 ∨ listed (List.range n).tail (fun pri => pri = PRIORITY_URGENT) i priority ∨
      weighted (List.range n).tail i priority := by
  by_cases zero : i = 0
  · exact .inl zero
  · have hmem := mem_tail_range.2 ⟨zero, lt⟩
    rcases looked.2 with robin | here | urgent | other
    · rw [method] at robin
      cases robin
    · exact absurd here zero
    · exact .inr (.inl ⟨hmem, decide_eq_true urgent⟩)
    · exact .inr (.inr ⟨hmem, other⟩)

/-- Whatever the collection returns, it has fetched from the queues it looks at until they
were idle. -/
theorem collectSQueue_collects (rings : c.Rings) (run : c.collectSQueue p fuel = some c') :
    Collects p.Looks c c' := by
  have few : (List.range c.ppSQueue.length).length < 2 ^ 16 := by
    rw [List.length_range]
    exact rings.few
  unfold collectSQueue at run
  dsimp only at run
  split at run
  next ready =>
    split at run
    next method =>
      have all := sweepUntilIdle_collects (fun _ => true) few rings run
      apply all.of_iff rings
      · intro i priority _
        exact ⟨ready, .inl method⟩
      · intro i priority lt _
        exact ⟨List.mem_range.2 lt, rfl⟩
    next method =>
      cases admin : c.queue? 0 with
      | none => exact absurd rings.admin (by simp [admin])
      | some q =>
          rw [admin] at run
          obtain ⟨c₁, run₁, run⟩ := Option.bind_eq_some_iff.1 run
          obtain ⟨c₂, run₂, run₃⟩ := Option.bind_eq_some_iff.1 run
          have few₁ : (List.range c.ppSQueue.length).tail.length < 2 ^ 16 :=
            (List.tail_sublist _).length_le.trans_lt few
          have admins := drainQueue_collects rings run₁
          have rings₁ := admins.rings rings
          have urgents := sweepUntilIdle_collects (fun pri => pri = PRIORITY_URGENT)
            few₁ rings₁ run₂
          have others := weightedRoundRobin_collects (s := ⟨c₂, 0, 0⟩) (urgents.rings rings₁)
            rfl run₃
          apply (admins.trans rings (urgents.trans rings₁ others)).of_iff rings
          · rintro i priority (zero | urgent | other)
            · exact ⟨ready, .inr (.inl zero)⟩
            · exact ⟨ready, .inr (.inr (.inl (of_decide_eq_true urgent.2)))⟩
            · exact ⟨ready, .inr (.inr (.inr other.2))⟩
          · intro i priority lt looked
            exact Arbitration.Looks.phase looked method lt
  next idle =>
    cases run
    exact ⟨[], .nil _, fun _ _ _ looked => absurd looked.1 idle⟩

theorem Collects.inRange (collects : Collects kind c c') (rings : c.Rings)
    (inRange : InRange kind' c) : InRange kind' c' := by
  obtain ⟨fetches, run, -⟩ := collects
  exact (run.done rings).inRange_iff.2 inRange

theorem Collects.backlog_le (collects : Collects kind c c') (rings : c.Rings) :
    c'.backlog ≤ c.backlog := by
  obtain ⟨fetches, run, -⟩ := collects
  exact (run.done rings).backlog_le

theorem InRange.mono (inRange : InRange kind c)
    (weaker : ∀ i priority, kind' i priority → kind i priority) : InRange kind' c :=
  fun i q object looked => inRange i q object (weaker i q.priority looked)

/-- The collection ends when the tails of the queues it looks at are in their rings. -/
theorem collectSQueue_ends (rings : c.Rings) (inRange : InRange p.Looks c) :
    ∃ c', c.collectSQueue p (c.backlog + 1) = some c' := by
  have enough := Nat.lt_succ_self c.backlog
  unfold collectSQueue
  dsimp only
  split
  next ready =>
    split
    next method =>
      apply sweepUntilIdle_ends (fun _ => true) _ rings _ enough
      exact inRange.mono fun _ _ _ => ⟨ready, .inl method⟩
    next method =>
      cases admin : c.queue? 0 with
      | none => exact absurd rings.admin (by simp [admin])
      | some q =>
          obtain ⟨c₁, run₁⟩ := drainQueue_ends rings admin
            (inRange 0 q admin ⟨ready, .inr (.inl rfl)⟩) enough
          have admins := drainQueue_collects rings run₁
          have rings₁ := admins.rings rings
          have inRange₁ := admins.inRange rings inRange
          have enough₁ := (admins.backlog_le rings).trans_lt enough
          obtain ⟨c₂, run₂⟩ := sweepUntilIdle_ends (fun pri => pri = PRIORITY_URGENT)
            (List.range c.ppSQueue.length).tail rings₁
            (inRange₁.mono fun _ _ urgent =>
              ⟨ready, .inr (.inr (.inl (of_decide_eq_true urgent.2)))⟩) enough₁
          have few₁ : (List.range c.ppSQueue.length).tail.length < 2 ^ 16 := by
            apply (List.tail_sublist _).length_le.trans_lt
            rw [List.length_range]
            exact rings.few
          have urgents := sweepUntilIdle_collects (fun pri => pri = PRIORITY_URGENT)
            few₁ rings₁ run₂
          obtain ⟨c₃, run₃⟩ := weightedRoundRobin_ends (p := p)
            (List.range c.ppSQueue.length).tail (s := ⟨c₂, 0, 0⟩) (urgents.rings rings₁) rfl
            ((urgents.inRange rings₁ inRange₁).mono fun _ _ other =>
              ⟨ready, .inr (.inr (.inr other.2))⟩)
            ((urgents.backlog_le rings₁).trans_lt enough₁)
          exact ⟨c₃, Option.bind_eq_some_iff.2
            ⟨c₁, run₁, Option.bind_eq_some_iff.2 ⟨c₂, run₂, run₃⟩⟩⟩
  next => exact ⟨c, rfl⟩

end Controller

end SimpleSSD.HIL.NVMe
