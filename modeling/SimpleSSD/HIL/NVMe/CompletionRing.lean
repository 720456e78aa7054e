import SimpleSSD.Util.Def
import SimpleSSD.Foundation.Fallible
import SimpleSSD.Foundation.Laps

/-!
# Completion queues in host memory

The device writes completion entries to a ring in the memory of the host, with a phase tag that
changes each time around.  The host tells a new entry by that tag, and the device learns from the
head doorbell how far the host has come.
-/

namespace SimpleSSD.HIL.NVMe.CompletionRing

open Foundation

structure CQEntry where
  dword0 : BitVec 32
  reserved : BitVec 32
  sqHead : BitVec 16
  sqID : BitVec 16
  commandID : BitVec 16
  status : BitVec 16
  deriving DecidableEq, Repr

namespace CQEntry

def tag (entry : CQEntry) : Bool := entry.status.getLsbD 0

def tagged (entry : CQEntry) (phase : Bool) : CQEntry :=
  { entry with status := entry.status &&& 0xFFFE#16 ||| if phase then 0x0001#16 else 0x0000#16 }

@[simp] theorem tag_tagged (entry : CQEntry) (phase : Bool) : (entry.tagged phase).tag = phase := by
  cases phase <;> simp [tag, tagged]

def body (entry : CQEntry) : CQEntry := { entry with status := entry.status &&& 0xFFFE#16 }

@[simp] theorem body_tagged (entry : CQEntry) (phase : Bool) :
    (entry.tagged phase).body = entry.body := by
  have outside : (if phase then 0x0001#16 else 0x0000#16) &&& 0xFFFE#16 = 0#16 := by
    cases phase <;> rfl
  rw [body, tagged, BitVec.and_or_distrib_right, outside, BitVec.and_assoc, BitVec.and_self,
    BitVec.or_zero, body]

end CQEntry

structure CQueue where
  head : Nat
  tail : Nat
  size : Nat
  phase : Bool
  deriving DecidableEq, Repr

namespace CQueue

def new (size : Nat) : CQueue where
  head := 0
  tail := 0
  size := size
  phase := true

def getItemCount (q : CQueue) : Nat :=
  if q.head ≤ q.tail then q.tail - q.head
  else (q.size + 2 ^ 16 - q.head + q.tail) % 2 ^ 16

def setData (q : CQueue) : Option CQEntry → Except Fault (CQueue × Option (Nat × CQEntry))
  | none => .ok (q, none)
  | some entry =>
      let write := (q.tail, entry.tagged q.phase)
      let q := { q with tail := (q.tail + 1) % 2 ^ 16 }
      let q := if q.tail = q.size then { q with tail := 0, phase := !q.phase } else q
      -- a full ring keeps one slot free, and the write above has been started by now
      if q.head = q.tail then .error (.panic "Completion queue overflow")
      else .ok (q, some write)

def setHead (q : CQueue) (newHead : Nat) : CQueue := { q with head := newHead }

end CQueue

/-- The host with the slot it looks at, the tag it knows of each slot, and the entries it took. -/
structure Host where
  head : Nat
  known : Nat → Bool
  seen : List CQEntry

/-- The device and the host with the slots they share.  `underWay` has the numbers of the writes
that have not reached the slots, `acknowledged` is how many entries the last doorbell was about. -/
structure World where
  queue : CQueue
  slots : Nat → CQEntry
  host : Host
  writes : List (Nat × CQEntry)
  underWay : List Nat
  posted : List CQEntry
  acknowledged : Nat

/-- Slots as the host makes them ready for a queue, with no tag set. -/
structure Memory where
  slots : Nat → CQEntry
  clear : ∀ slot, (slots slot).tag = false

def World.new (size : Nat) (memory : Memory) : World where
  queue := .new size
  slots := memory.slots
  host := ⟨0, fun slot => (memory.slots slot).tag, []⟩
  writes := []
  underWay := []
  posted := []
  acknowledged := 0

inductive Action where
  | post (entry : Option CQEntry)
  | land (write : Nat)
  | consume
  | doorbell (upTo : Nat)
  deriving DecidableEq, Repr

def World.post (w : World) (entry : Option CQEntry) : Except Fault World := do
  let (queue, write) ← w.queue.setData entry
  .ok { w with
    queue := queue
    writes := w.writes ++ write.toList
    underWay := w.underWay ++ write.toList.map fun _ => w.writes.length
    posted := w.posted ++ entry.toList }

def World.land (w : World) (write : Nat) : Except Fault World :=
  match w.writes[write]? with
  | none => .error .undefined
  | some (slot, entry) => .ok { w with
      slots := Function.update w.slots slot entry
      underWay := w.underWay.erase write }

def World.consume (w : World) : World :=
  let entry := w.slots w.host.head
  { w with host :=
    { head := Ring.next w.queue.size w.host.head
      known := Function.update w.host.known w.host.head entry.tag
      seen := w.host.seen ++ [entry] } }

def World.doorbell (w : World) (upTo : Nat) : World :=
  { w with queue := w.queue.setHead (upTo % w.queue.size), acknowledged := upTo }

def act (w : World) : Action → Except Fault World
  | .post entry => w.post entry
  | .land write => w.land write
  | .consume => .ok w.consume
  | .doorbell upTo => .ok (w.doorbell upTo)

/-- Whether the tag of the slot that the host looks at is not the one it knows. -/
def World.Flipped (w : World) : Prop := (w.slots w.host.head).tag ≠ w.host.known w.host.head

instance (w : World) : Decidable w.Flipped := inferInstanceAs (Decidable (_ ≠ _))

/-- Writes reach their slots once and in any order, the host goes past a flipped tag only, and its
doorbells do not go back and are about entries it has taken. -/
def Enabled (w : World) : Action → Prop
  | .post _ => True
  | .land write => write ∈ w.underWay
  | .consume => w.Flipped
  | .doorbell upTo => w.acknowledged ≤ upTo ∧ upTo ≤ w.host.seen.length

instance (w : World) : (action : Action) → Decidable (Enabled w action)
  | .post _ => inferInstanceAs (Decidable True)
  | .land write => inferInstanceAs (Decidable (write ∈ w.underWay))
  | .consume => inferInstanceAs (Decidable w.Flipped)
  | .doorbell upTo =>
      inferInstanceAs (Decidable (w.acknowledged ≤ upTo ∧ upTo ≤ w.host.seen.length))

theorem CQueue.setData_some {q : CQueue} {entry : CQEntry} (inside : q.tail < q.size)
    (word : q.size < 2 ^ 16) : q.setData (some entry) =
      if q.head = Ring.next q.size q.tail then .error (.panic "Completion queue overflow")
      else .ok ({ q with
        tail := Ring.next q.size q.tail
        phase := if q.tail + 1 = q.size then !q.phase else q.phase },
        some (q.tail, entry.tagged q.phase)) := by
  have within : (q.tail + 1) % 2 ^ 16 = q.tail + 1 := Nat.mod_eq_of_lt (by omega)
  simp only [setData, within, Ring.next]
  by_cases full : q.tail + 1 = q.size
  · simp only [full, if_true]
  · simp only [full, if_false]

def placed (size i : Nat) (entry : CQEntry) : Nat × CQEntry :=
  (i % size, entry.tagged (Ring.evenLap size i))

structure Inv (size : Nat) (w : World) : Prop where
  queueSize : w.queue.size = size
  head : w.queue.head = w.acknowledged % size
  tail : w.queue.tail = w.posted.length % size
  phase : w.queue.phase = Ring.evenLap size w.posted.length
  looks : w.host.head = w.host.seen.length % size
  told : w.acknowledged ≤ w.host.seen.length
  taken : w.host.seen.length ≤ w.posted.length
  room : w.posted.length < w.acknowledged + size
  written : w.writes = w.posted.mapIdx (placed size)
  seen : w.host.seen = (w.writes.map Prod.snd).take w.host.seen.length
  flying : ∀ i ∈ w.underWay, w.host.seen.length ≤ i ∧ i < w.posted.length
  nodup : w.underWay.Nodup
  /-- What has reached its slot stays there until the host takes it. -/
  landed : ∀ i entry, w.host.seen.length ≤ i → i ∉ w.underWay → w.posted[i]? = some entry →
    w.slots (i % size) = (placed size i entry).2
  /-- The other slots have the tag of the lap before. -/
  stale : ∀ i, w.host.seen.length ≤ i → i < w.host.seen.length + size →
    w.posted.length ≤ i ∨ i ∈ w.underWay → (w.slots (i % size)).tag = !Ring.evenLap size i
  known : ∀ i, w.host.seen.length ≤ i → i < w.host.seen.length + size →
    w.host.known (i % size) = !Ring.evenLap size i

variable {size : Nat} {w w' : World}

theorem inv_new (memory : Memory) (positive : 0 < size) : Inv size (World.new size memory) := by
  have first : ∀ i, i < size → Ring.evenLap size i = true := by
    intro i inside
    simp [Ring.evenLap, Nat.div_eq_of_lt inside]
  constructor
  case room => simpa [World.new] using positive
  case phase => exact (first 0 positive).symm
  case stale =>
    intro i _ inside _
    rw [first i (by simpa [World.new] using inside)]
    exact memory.clear _
  case known =>
    intro i _ inside
    rw [first i (by simpa [World.new] using inside)]
    exact memory.clear _
  all_goals simp [World.new, CQueue.new]

/-- The tag that the host looks at is new exactly if the next entry has been written. -/
theorem Inv.flipped_iff (inv : Inv size w) (positive : 0 < size) : w.Flipped ↔
    w.host.seen.length < w.posted.length ∧ w.host.seen.length ∉ w.underWay := by
  have known := inv.known w.host.seen.length le_rfl (by omega)
  rw [World.Flipped, inv.looks, known]
  by_cases waits : w.posted.length ≤ w.host.seen.length ∨ w.host.seen.length ∈ w.underWay
  · rw [inv.stale w.host.seen.length le_rfl (by omega) waits]
    simp only [ne_eq, not_true, false_iff, not_and, not_not]
    exact fun before => waits.resolve_left (by omega)
  · obtain ⟨before, landed⟩ := not_or.1 waits
    have entry := List.getElem?_eq_getElem (Nat.lt_of_not_le before)
    rw [inv.landed _ _ le_rfl landed entry]
    simp [placed, landed, Nat.lt_of_not_le before]

theorem Inv.next_tail (inv : Inv size w) (positive : 0 < size) :
    Ring.next w.queue.size w.queue.tail = (w.posted.length + 1) % size := by
  rw [inv.queueSize, inv.tail, Ring.next_mod positive]

/-- The slot behind the next entry is the one of the head only when the ring is full. -/
theorem Inv.full_iff (inv : Inv size w) (positive : 0 < size) :
    w.queue.head = Ring.next w.queue.size w.queue.tail ↔
      w.posted.length + 1 = w.acknowledged + size := by
  rw [inv.head, inv.next_tail positive]
  have ordered := inv.told.trans inv.taken
  have room := inv.room
  constructor
  · intro meets
    by_contra free
    exact Ring.mod_ne_mod (by omega) (by omega) meets
  · intro full
    rw [full, Nat.add_mod_right]

def World.afterPost (size : Nat) (w : World) (entry : CQEntry) : World :=
  { w with
    queue := { w.queue with
      tail := (w.posted.length + 1) % size
      phase := Ring.evenLap size (w.posted.length + 1) }
    writes := w.writes ++ [placed size w.posted.length entry]
    underWay := w.underWay ++ [w.posted.length]
    posted := w.posted ++ [entry] }

theorem World.post_some {entry : CQEntry} (inv : Inv size w) (positive : 0 < size)
    (word : size < 2 ^ 16) : w.post (some entry) =
      if w.posted.length + 1 = w.acknowledged + size then
        .error (.panic "Completion queue overflow")
      else .ok (w.afterPost size entry) := by
  have inside : w.queue.tail < w.queue.size := by
    rw [inv.tail, inv.queueSize]
    exact Nat.mod_lt _ positive
  have written : w.writes.length = w.posted.length := by rw [inv.written, List.length_mapIdx]
  have lap : (if w.queue.tail + 1 = w.queue.size then !w.queue.phase else w.queue.phase) =
      Ring.evenLap size (w.posted.length + 1) := by
    rw [inv.tail, inv.queueSize, inv.phase, ← Ring.evenLap_succ positive]
  rw [post, CQueue.setData_some inside (inv.queueSize ▸ word)]
  simp only [inv.full_iff positive]
  split
  case isTrue full => rfl
  case isFalse room =>
    simp only [ok_bind, inv.next_tail positive, lap]
    simp only [inv.tail, inv.phase, written]
    rfl

theorem World.post_none : w.post none = .ok w := by simp [post, CQueue.setData, ok_bind]

theorem Inv.afterPost {entry : CQEntry} (inv : Inv size w)
    (room : w.posted.length + 1 < w.acknowledged + size) : Inv size (w.afterPost size entry) := by
  have taken := inv.taken
  rw [World.afterPost]
  refine { inv with
    tail := ?tail, phase := ?phase, taken := ?taken, room := ?room, written := ?written,
    seen := ?seen, flying := ?flying, nodup := ?nodup, landed := ?landed, stale := ?stale }
  case tail => simp
  case phase => simp
  case taken => simp only [List.length_append, List.length_singleton]; omega
  case room => simpa using room
  case written => simp [inv.written]
  case seen =>
    have covers : w.host.seen.length ≤ (w.writes.map Prod.snd).length := by
      simpa [inv.written] using taken
    simp only [List.map_append, List.take_append_of_le_length covers]
    exact inv.seen
  case flying =>
    simp only [List.mem_append, List.mem_singleton, List.length_append, List.length_singleton]
    rintro i (earlier | rfl)
    · have bounds := inv.flying i earlier
      omega
    · omega
  case nodup =>
    have unused : ∀ i ∈ w.underWay, i ≠ w.posted.length := fun i flies =>
      (inv.flying i flies).2.ne
    exact List.nodup_append.2 ⟨inv.nodup, by simp, by simpa using unused⟩
  case landed =>
    intro i posted behind landed stands
    simp only [List.mem_append, List.mem_singleton, not_or] at landed
    rcases Nat.lt_or_ge i w.posted.length with before | after
    · rw [List.getElem?_append_left before] at stands
      exact inv.landed i posted behind landed.1 stands
    · have inside := (List.getElem?_eq_some_iff.1 stands).1
      simp only [List.length_append, List.length_singleton] at inside
      exact absurd (Nat.le_antisymm (Nat.le_of_lt_succ inside) after) landed.2
  case stale =>
    simp only [List.mem_append, List.mem_singleton, List.length_append, List.length_singleton]
    rintro i behind inside (later | earlier | rfl)
    · exact inv.stale i behind inside (.inl (by omega))
    · exact inv.stale i behind inside (.inr earlier)
    · exact inv.stale _ behind inside (.inl le_rfl)

theorem World.land_flying {write : Nat} (inv : Inv size w) (flies : write ∈ w.underWay) :
    ∃ entry, w.posted[write]? = some entry ∧ w.land write = .ok { w with
      slots := Function.update w.slots (write % size) (placed size write entry).2
      underWay := w.underWay.erase write } := by
  have before := (inv.flying write flies).2
  have stands : w.writes[write]? = some (placed size write w.posted[write]) := by
    rw [inv.written, List.getElem?_mapIdx, List.getElem?_eq_getElem before, Option.map_some]
  refine ⟨_, List.getElem?_eq_getElem before, ?_⟩
  simp only [World.land, stands]
  rfl

/-- The writes that are still under way, and those that the host has to take, are to other
slots. -/
theorem Inv.land {write : Nat} (inv : Inv size w) (flies : write ∈ w.underWay)
    (run : w.land write = .ok w') : Inv size w' := by
  obtain ⟨entry, posted, landed⟩ := World.land_flying inv flies
  obtain rfl := Except.ok.inj (run.symm.trans landed)
  have told := inv.told
  have room := inv.room
  have bounds := inv.flying write flies
  have apart : ∀ i, w.host.seen.length ≤ i → i < w.host.seen.length + size → i ≠ write →
      i % size ≠ write % size := by
    intro i behind inside other
    rcases Nat.lt_or_gt_of_ne other with before | after
    · exact Ring.mod_ne_mod before (by omega)
    · exact (Ring.mod_ne_mod after (by omega)).symm
  refine { inv with
    flying := ?flying, nodup := inv.nodup.erase write, landed := ?landed, stale := ?stale }
  case flying => exact fun i flies => inv.flying i (List.mem_of_mem_erase flies)
  case landed =>
    intro i other behind reached stands
    dsimp only at behind reached stands ⊢
    by_cases same : i = write
    · rw [same, posted] at stands
      rw [same, Function.update_self, Option.some.inj stands]
    · have inside := (List.getElem?_eq_some_iff.1 stands).1
      rw [Function.update_of_ne (apart i behind (by omega) same)]
      refine inv.landed i other behind (fun flies => reached ?_) stands
      exact (List.mem_erase_of_ne same).2 flies
  case stale =>
    intro i behind inside waits
    dsimp only at behind inside waits ⊢
    have other : i ≠ write := by
      rintro rfl
      rcases waits with later | flies
      · exact absurd bounds.2 (Nat.not_lt.2 later)
      · exact inv.nodup.not_mem_erase flies
    rw [Function.update_of_ne (apart i behind inside other)]
    exact inv.stale i behind inside (waits.imp_right List.mem_of_mem_erase)

theorem World.seen_succ (inv : Inv size w) (before : w.host.seen.length < w.posted.length)
    (landed : w.host.seen.length ∉ w.underWay) :
    w.consume.host.seen = (w.writes.map Prod.snd).take (w.host.seen.length + 1) := by
  have entry := List.getElem?_eq_getElem before
  have next : (w.writes.map Prod.snd)[w.host.seen.length]? =
      some (w.slots (w.host.seen.length % size)) := by
    rw [inv.landed _ _ le_rfl landed entry, inv.written, List.getElem?_map, List.getElem?_mapIdx,
      entry, Option.map_some, Option.map_some]
  rw [List.take_add_one, ← inv.seen, next]
  simp [World.consume, inv.looks]

theorem Inv.consume (inv : Inv size w) (positive : 0 < size) (flipped : w.Flipped) :
    Inv size w.consume := by
  obtain ⟨before, landed⟩ := (inv.flipped_iff positive).1 flipped
  have told := inv.told
  have room := inv.room
  have entry := List.getElem?_eq_getElem before
  have tag : (w.slots (w.host.seen.length % size)).tag = Ring.evenLap size w.host.seen.length := by
    rw [inv.landed _ _ le_rfl landed entry]
    simp [placed]
  have seen := World.seen_succ inv before landed
  have grows : w.consume.host.seen.length = w.host.seen.length + 1 := by simp [World.consume]
  have slot : (w.host.seen.length + size) % size = w.host.seen.length % size :=
    Nat.add_mod_right ..
  have parity := Ring.evenLap_add (n := w.host.seen.length) positive
  refine { inv with
    looks := ?looks, told := ?told, taken := ?taken, seen := ?seen, flying := ?flying,
    landed := ?landed, stale := ?stale, known := ?known }
  case looks =>
    rw [grows, ← Ring.next_mod positive, ← inv.looks, ← inv.queueSize]
    rfl
  case told => rw [grows]; exact told.trans (Nat.le_succ _)
  case taken => rw [grows]; exact before
  case seen => rw [grows]; exact seen
  case flying =>
    intro i flies
    have bounds := inv.flying i flies
    have other : i ≠ w.host.seen.length := fun same => landed (same ▸ flies)
    rw [grows]
    exact ⟨by omega, bounds.2⟩
  case landed =>
    intro i posted behind reached stands
    rw [grows] at behind
    exact inv.landed i posted (by omega) reached stands
  case stale =>
    intro i behind inside waits
    rw [grows] at behind inside
    -- the slot just taken is the last of the window, with the tag of the lap before
    rcases Nat.lt_or_ge i (w.host.seen.length + size) with same | lap
    · exact inv.stale i (by omega) same waits
    · obtain rfl : i = w.host.seen.length + size := by omega
      rw [parity, Bool.not_not, slot]
      exact tag
  case known =>
    intro i behind inside
    rw [grows] at behind inside
    simp only [World.consume, inv.looks]
    rcases Nat.lt_or_ge i (w.host.seen.length + size) with same | lap
    · rw [Function.update_of_ne (Ring.mod_ne_mod (by omega) same).symm]
      exact inv.known i (by omega) same
    · obtain rfl : i = w.host.seen.length + size := by omega
      rw [slot, Function.update_self, parity, Bool.not_not]
      exact tag

theorem Inv.doorbell {upTo : Nat} (inv : Inv size w) (ahead : w.acknowledged ≤ upTo)
    (seen : upTo ≤ w.host.seen.length) : Inv size (w.doorbell upTo) := by
  have room := inv.room
  refine { inv with head := ?head, told := seen, room := ?room }
  case head => simp [World.doorbell, CQueue.setHead, inv.queueSize]
  case room => simp only [World.doorbell]; omega

theorem Inv.getItemCount (inv : Inv size w) (positive : 0 < size) (word : size < 2 ^ 16) :
    w.queue.getItemCount = w.posted.length - w.acknowledged := by
  have ordered := inv.told.trans inv.taken
  obtain ⟨ahead, around⟩ := Ring.slots_between positive ordered inv.room
  have inside := Nat.mod_lt w.acknowledged positive
  have room := inv.room
  rw [CQueue.getItemCount, inv.head, inv.tail, inv.queueSize]
  split
  case isTrue same => exact ahead same
  case isFalse overflow =>
    have count := around (Nat.lt_of_not_le overflow)
    have wide : size + 2 ^ 16 - w.acknowledged % size + w.posted.length % size =
        w.posted.length - w.acknowledged + 2 ^ 16 := by omega
    rw [wide, Nat.add_mod_right, Nat.mod_eq_of_lt (by omega)]

structure Follows (size : Nat) (w : World) : Prop where
  written : w.writes = w.posted.mapIdx (placed size)
  tags : ∀ i write, w.writes[i]? = some write → (write.2.tag = true ↔ i / size % 2 = 0)
  once : w.host.seen.length ≤ w.posted.length
  inOrder : w.host.seen.map CQEntry.body =
    (w.posted.take w.host.seen.length).map CQEntry.body
  next : w.Flipped ↔
    w.host.seen.length < w.posted.length ∧ w.host.seen.length ∉ w.underWay
  count : w.queue.getItemCount = w.posted.length - w.acknowledged
  told : w.acknowledged ≤ w.host.seen.length

theorem map_body_placed (posted : List CQEntry) :
    ((posted.mapIdx (placed size)).map Prod.snd).map CQEntry.body = posted.map CQEntry.body := by
  apply List.ext_getElem?
  intro i
  simp only [List.getElem?_map, List.getElem?_mapIdx]
  cases posted[i]? with
  | none => rfl
  | some entry => simp [placed]

theorem Inv.follows (inv : Inv size w) (positive : 0 < size) (word : size < 2 ^ 16) :
    Follows size w where
  written := inv.written
  tags := by
    intro i write stands
    rw [inv.written, List.getElem?_mapIdx] at stands
    obtain ⟨entry, -, rfl⟩ := Option.map_eq_some_iff.1 stands
    simp [placed, Ring.evenLap]
  once := inv.taken
  inOrder := by
    conv_lhs => rw [inv.seen, inv.written, List.map_take, map_body_placed]
    rw [List.map_take]
  next := inv.flipped_iff positive
  count := inv.getItemCount positive word
  told := inv.told

def Action.posted : Action → Option CQEntry
  | .post entry => entry
  | _ => none

theorem act_cases {action : Action} (inv : Inv size w) (positive : 0 < size)
    (word : size < 2 ^ 16) (enabled : Enabled w action) :
    act w action = .error (.panic "Completion queue overflow") ∨
      ∃ w', act w action = .ok w' ∧ Inv size w' ∧
        w'.posted = w.posted ++ action.posted.toList := by
  cases action with
  | post entry =>
      cases entry with
      | none => exact .inr ⟨w, World.post_none, inv, by simp [Action.posted]⟩
      | some entry =>
          rw [act, World.post_some inv positive word]
          split
          case isTrue full => exact .inl rfl
          case isFalse free =>
            have room : w.posted.length + 1 < w.acknowledged + size :=
              Nat.lt_of_le_of_ne (Nat.succ_le_of_lt inv.room) free
            exact .inr ⟨_, rfl, inv.afterPost room, rfl⟩
  | land write =>
      obtain ⟨entry, -, landed⟩ := World.land_flying inv enabled
      exact .inr ⟨_, landed, inv.land enabled landed, by simp [Action.posted]⟩
  | consume =>
      refine .inr ⟨_, rfl, inv.consume positive enabled, ?_⟩
      simp [World.consume, Action.posted]
  | doorbell upTo =>
      refine .inr ⟨_, rfl, inv.doorbell enabled.1 enabled.2, ?_⟩
      simp [World.doorbell, Action.posted]

theorem run_cases {actions : List Action} (inv : Inv size w) (positive : 0 < size)
    (word : size < 2 ^ 16) (possible : ∀ v ∈ visits act actions w, Enabled v.1 v.2) :
    actions.foldlM act w = .error (.panic "Completion queue overflow") ∨
      ∃ w', actions.foldlM act w = .ok w' ∧ Inv size w' ∧
        w'.posted = w.posted ++ actions.filterMap Action.posted := by
  induction actions generalizing w with
  | nil => exact .inr ⟨w, rfl, inv, by simp⟩
  | cons action rest ih =>
      have enabled : Enabled w action := possible (w, action) (by simp [visits])
      rcases act_cases inv positive word enabled with overflow | ⟨mid, first, inv', posted⟩
      · left
        rw [List.foldlM_cons, overflow]
        rfl
      · simp only [visits, first, List.forall_mem_cons] at possible
        rw [List.foldlM_cons, first, ok_bind]
        refine (ih inv' possible.2).imp_right ?_
        rintro ⟨w', later, inv'', more⟩
        refine ⟨w', later, inv'', ?_⟩
        rw [more, posted, List.append_assoc]
        congr 1
        cases hposted : action.posted <;> simp [hposted]

def World.left (w : World) : Nat := w.underWay.length + (w.posted.length - w.host.seen.length)

theorem exists_seen_all (inv : Inv size w) (positive : 0 < size) :
    ∃ later w', (∀ v ∈ visits act later w, Enabled v.1 v.2) ∧ later.foldlM act w = .ok w' ∧
      Inv size w' ∧ w'.posted = w.posted ∧ w'.host.seen.length = w'.posted.length := by
  induction hleft : w.left using Nat.strong_induction_on generalizing w with
  | _ left ih =>
      have step : ∀ action mid, Enabled w action → act w action = .ok mid → Inv size mid →
          mid.posted = w.posted → mid.left < left → ∃ later w',
            (∀ v ∈ visits act later w, Enabled v.1 v.2) ∧ later.foldlM act w = .ok w' ∧
              Inv size w' ∧ w'.posted = w.posted ∧ w'.host.seen.length = w'.posted.length := by
        intro action mid enabled first inv' posted less
        obtain ⟨later, w', possible, run, inv'', same, all⟩ := ih mid.left less inv' rfl
        refine ⟨action :: later, w', ?_, ?_, inv'', same.trans posted, all⟩
        · simp only [visits, first, List.forall_mem_cons]
          exact ⟨enabled, possible⟩
        · rw [List.foldlM_cons, first, ok_bind, run]
      -- the writes under way come first, then the host takes one entry after the other
      cases flying : w.underWay with
      | cons write rest =>
          have flies : write ∈ w.underWay := by simp [flying]
          obtain ⟨entry, -, landed⟩ := World.land_flying inv flies
          refine step (.land write) _ flies landed (inv.land flies landed) rfl ?_
          simp only [← hleft, World.left, flying, List.erase_cons_head, List.length_cons]
          omega
      | nil =>
          rcases Nat.lt_or_ge w.host.seen.length w.posted.length with before | behind
          · have flipped : w.Flipped := (inv.flipped_iff positive).2 ⟨before, by simp [flying]⟩
            refine step .consume _ flipped rfl (inv.consume positive flipped) rfl ?_
            simp only [← hleft, World.left, World.consume, List.length_append,
              List.length_singleton]
            omega
          · exact ⟨[], w, by simp [visits], rfl, inv, rfl, Nat.le_antisymm inv.taken behind⟩

/-- Whatever comes first, the posts, the writes, the host and its doorbells: unless a post
overflows the queue, the host has seen the first of the entries in their order, and can come to
see them all. -/
theorem host_follows {memory : Memory} {actions : List Action} (positive : 0 < size)
    (word : size < 2 ^ 16)
    (possible : ∀ v ∈ visits act actions (World.new size memory), Enabled v.1 v.2) :
    actions.foldlM act (World.new size memory) = .error (.panic "Completion queue overflow") ∨
      ∃ w, actions.foldlM act (World.new size memory) = .ok w ∧ Follows size w ∧
        w.posted = actions.filterMap Action.posted ∧
        ∃ later w', (∀ v ∈ visits act later w, Enabled v.1 v.2) ∧ later.foldlM act w = .ok w' ∧
          Follows size w' ∧ w'.posted = w.posted ∧ w'.host.seen.length = w'.posted.length := by
  refine (run_cases (inv_new memory positive) positive word possible).imp_right ?_
  rintro ⟨w, run, inv, posted⟩
  obtain ⟨later, w', enabled, drained, inv', same, all⟩ := exists_seen_all inv positive
  exact ⟨w, run, inv.follows positive word, by simpa [World.new] using posted, later, w', enabled,
    drained, inv'.follows positive word, same, all⟩

private def zeroed : Memory where
  slots := fun _ => ⟨0, 0, 0, 0, 0, 0⟩
  clear := fun _ => rfl

/-- Three slots, two writes that land in the wrong order, and the same again. -/
private def outOfOrder : List Action :=
  let entry : BitVec 16 → Option CQEntry := fun commandID => some ⟨0, 0, 1, 1, commandID, 0x4280⟩
  [.post (entry 7), .post (entry 8), .land 1, .land 0, .consume, .consume, .doorbell 2,
    .post (entry 9), .post (entry 10), .land 3, .land 2, .consume, .consume]

theorem host_follows_out_of_order :
    (∀ v ∈ visits act outOfOrder (World.new 3 zeroed), Enabled v.1 v.2) ∧
      ∃ w, outOfOrder.foldlM act (World.new 3 zeroed) = .ok w ∧ Follows 3 w ∧
        w.host.seen.map CQEntry.commandID = [7, 8, 9, 10] ∧
        w.writes.map Prod.fst = [0, 1, 2, 0] ∧
        w.host.seen.map CQEntry.tag = [true, true, true, false] := by
  have possible : ∀ v ∈ visits act outOfOrder (World.new 3 zeroed), Enabled v.1 v.2 := by
    decide +kernel
  have ends : (outOfOrder.foldlM act (World.new 3 zeroed)).toOption.map (fun w =>
      (w.host.seen.map CQEntry.commandID, w.writes.map Prod.fst, w.host.seen.map CQEntry.tag)) =
      some ([7, 8, 9, 10], [0, 1, 2, 0], [true, true, true, false]) := by
    decide +kernel
  rcases host_follows (by decide) (by decide) possible with overflow | ⟨w, run, follows, -⟩
  · rw [overflow] at ends
    cases ends
  · rw [run] at ends
    exact ⟨possible, w, run, follows, by simpa [Except.toOption] using ends⟩

end SimpleSSD.HIL.NVMe.CompletionRing
