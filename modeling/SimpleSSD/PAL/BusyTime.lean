import Mathlib.Data.Finset.Card
import Mathlib.Order.Interval.Finset.Nat
import SimpleSSD.Foundation.Transition
import SimpleSSD.PAL.Booking

/-!
# The list of busy time

`PAL2` keeps the times its dies are taken in `MergedTimeSlots`.  A new interval is merged
in at the end of `TimelineScheduling`; `FlushATimeSlotBusyTime` takes slots off the front
and adds up their lengths.  An iterator is a position in the list.
-/

namespace SimpleSSD.PAL.PAL2

open SimpleSSD.Foundation Finset

/-! ## Merging -/

/-- Where a tick lies: the position of a slot, and whether the tick is inside it or at its
right side. -/
def findPosition (tick : Nat) : Slots → Nat → Option (Nat × Bool)
  | [], _ => none
  | cur :: rest, pos =>
      if cur.1 ≤ tick ∧ tick ≤ cur.2 then some (pos, true)
      else
        match rest with
        | [] => some (pos, false)
        | next :: _ => if tick < next.1 then some (pos, false) else findPosition tick rest (pos + 1)

/-- The end of the slot at `spos` is set, and the slots behind it up to `epos` erased.  The
loop that erases them passes the end of the list when `epos` is not behind `spos`. -/
def absorb (slots : Slots) (spos epos endTick : Nat) : Except Fault Slots :=
  if spos < epos ∧ epos < slots.length then
    .ok ((slots.modify spos fun slot => (slot.1, endTick)).take (spos + 1) ++
      slots.drop (epos + 1))
  else .error .undefined

def mergeTimeSlot (tsMEM : Nat × Nat) (slots : Slots) : Except Fault Slots :=
  if slots.length = 0 then .ok [tsMEM]
  else
    let spos := findPosition tsMEM.1 slots 0
    let epos := findPosition tsMEM.2 slots 0
    match spos, epos with
    | some (s, sInside), some (e, eInside) =>
        if s = e ∧ sInside = true ∧ eInside = true then .ok slots
        else if sInside = false then
          -- the slot is inserted behind `spos`, which is then moved back to where it was
          let inserted := slots.insertIdx (s + 1) tsMEM
          let epos := if s = e then s + 1 else if s < e then e + 1 else e
          let eSlot := inserted.getD epos (0, 0)
          absorb inserted s epos (if eInside then eSlot.2 else tsMEM.2)
        else
          -- the slot is inserted at the front of the list
          let inserted := (tsMEM.1, tsMEM.1 + 999 - 1) :: slots
          let eSlot := inserted.getD (e + 1) (0, 0)
          absorb inserted 0 (e + 1) (if eInside then eSlot.2 else tsMEM.2)
    | some (s, false), none => .ok (slots.insertIdx (s + 1) tsMEM)
    | _, none => .ok (tsMEM :: slots)
    | none, some (e, eInside) =>
        let inserted := (tsMEM.1, tsMEM.1 + 999 - 1) :: slots
        let eSlot := inserted.getD (e + 1) (0, 0)
        absorb inserted 0 (e + 1) (if eInside then eSlot.2 else tsMEM.2)

def flushATimeSlotBusyTime (currentTick : Nat) : Slots → Nat → Slots × Nat
  | [], timeSum => ([], timeSum)
  | cur :: rest, timeSum =>
      if cur.2 < currentTick then
        flushATimeSlotBusyTime currentTick rest (timeSum + (sub64 cur.2 cur.1 + 1))
      else (cur :: rest, timeSum)

theorem mergeTimeSlot_single (a b s e : Nat) : mergeTimeSlot (s, e) [(a, b)] =
    .ok [if a ≤ s ∧ s ≤ b then if a ≤ e ∧ e ≤ b then (a, b) else (s, e) else (a, e)] := by
  by_cases sIn : a ≤ s ∧ s ≤ b <;> by_cases eIn : a ≤ e ∧ e ≤ b <;>
    simp [mergeTimeSlot, findPosition, absorb, sIn, eIn]

/-! ## Books -/

structure Interval where
  first : Nat
  last : Nat
  le : first ≤ last

def Interval.ticks (i : Interval) : Finset Nat := Icc i.first i.last

def slotTicks (slot : Nat × Nat) : Finset Nat := Icc slot.1 slot.2

def ticksOf (slots : Slots) : Finset Nat := slots.toFinset.biUnion slotTicks

def lengthOf (slot : Nat × Nat) : Nat := sub64 slot.2 slot.1 + 1

inductive BusyAction where
  | schedule (mem : Interval)
  | flush (currentTick : Nat)

/-- The list and the time counted, with the ticks that have been scheduled and those of
them that have not been flushed. -/
structure BusyTime where
  mergedTimeSlots : Slots
  exactBusyTime : Nat
  scheduled : Finset Nat
  pending : Finset Nat

namespace BusyTime

def new : BusyTime := ⟨[], 0, ∅, ∅⟩

def step (s : BusyTime) : BusyAction → Option BusyTime
  | .schedule mem =>
      match mergeTimeSlot (mem.first, mem.last) s.mergedTimeSlots with
      | .error _ => none
      | .ok slots => some { s with
          mergedTimeSlots := slots
          scheduled := s.scheduled ∪ mem.ticks
          pending := s.pending ∪ mem.ticks }
  | .flush currentTick =>
      let flushed := flushATimeSlotBusyTime currentTick s.mergedTimeSlots s.exactBusyTime
      some { s with
        mergedTimeSlots := flushed.1
        exactBusyTime := flushed.2
        pending := s.pending \ ticksOf (s.mergedTimeSlots.takeWhile (·.2 < currentTick)) }

structure Exact (s : BusyTime) : Prop where
  sorted : s.mergedTimeSlots.Pairwise fun slot next => slot.2 < next.1
  union : ticksOf s.mergedTimeSlots = s.pending
  total : s.exactBusyTime + (s.mergedTimeSlots.map lengthOf).sum = s.scheduled.card

/-- A new interval fits the list if there is no slot, if it lies in the slot, or begins
with it or right behind it; and what it adds has not been flushed before. -/
def Fits (s : BusyTime) : BusyAction → Prop
  | .schedule mem =>
      (∀ slot ∈ s.mergedTimeSlots, slot.1 ≤ mem.first ∧ mem.last ≤ slot.2 ∨
        mem.first = slot.1 ∨ mem.first = slot.2 + 1) ∧
      Disjoint mem.ticks (s.scheduled \ s.pending)
  | .flush _ => True

structure Ready (s : BusyTime) : Prop where
  exact : Exact s
  single : s.mergedTimeSlots.length ≤ 1
  ordered : ∀ slot ∈ s.mergedTimeSlots, slot.1 ≤ slot.2
  within : s.pending ⊆ s.scheduled

variable {s s' : BusyTime} {mem : Interval} {slot : Nat × Nat}

@[simp] theorem ticksOf_nil : ticksOf [] = ∅ := rfl

@[simp] theorem ticksOf_single : ticksOf [slot] = slotTicks slot := by
  simp [ticksOf]

theorem lengthOf_eq (ordered : slot.1 ≤ slot.2) : lengthOf slot = (slotTicks slot).card := by
  unfold lengthOf slotTicks
  rw [sub64_of_le ordered, Nat.card_Icc]
  omega

def mergedSlot (slot : Nat × Nat) (mem : Interval) : Nat × Nat :=
  if slot.1 ≤ mem.first ∧ mem.first ≤ slot.2 then
    if slot.1 ≤ mem.last ∧ mem.last ≤ slot.2 then slot else (mem.first, mem.last)
  else (slot.1, mem.last)

theorem mergedSlot_ticks_iff (ordered : slot.1 ≤ slot.2) (mem : Interval) :
    slotTicks (mergedSlot slot mem) = slotTicks slot ∪ mem.ticks ↔
      slot.1 ≤ mem.first ∧ mem.last ≤ slot.2 ∨ mem.first = slot.1 ∨
        mem.first = slot.2 + 1 := by
  have le := mem.le
  unfold mergedSlot slotTicks Interval.ticks
  constructor
  · intro same
    have points : ∀ x, x ∈ _ ↔ x ∈ _ := Finset.ext_iff.1 same
    have atFirst := points mem.first
    have atStart := points slot.1
    have atGap := points (slot.2 + 1)
    simp only [mem_union, mem_Icc] at atFirst atStart atGap
    split_ifs at atFirst atStart atGap <;> omega
  · intro fits
    ext x
    simp only [mem_union, mem_Icc]
    split_ifs <;> omega

theorem mergedSlot_ordered (ordered : slot.1 ≤ slot.2)
    (fits : slot.1 ≤ mem.first ∧ mem.last ≤ slot.2 ∨ mem.first = slot.1 ∨
      mem.first = slot.2 + 1) : (mergedSlot slot mem).1 ≤ (mergedSlot slot mem).2 := by
  have le := mem.le
  unfold mergedSlot
  split_ifs <;> omega

theorem Ready.counted (h : Ready s) :
    s.exactBusyTime = (s.scheduled \ s.pending).card := by
  have parts := card_sdiff_add_card_eq_card h.within
  have total := h.exact.total
  have lengths : (s.mergedTimeSlots.map lengthOf).sum = s.pending.card := by
    rw [← h.exact.union]
    match slots : s.mergedTimeSlots, h.single, h.ordered with
    | [], _, _ => rfl
    | [slot], _, ordered =>
        rw [ticksOf_single, ← lengthOf_eq (ordered slot (List.mem_singleton_self slot))]
        simp
  omega

/-- Counting apart what was flushed and what is pending is right if they are apart. -/
theorem counted_iff {pending scheduled ticks : Finset Nat} (within : pending ⊆ scheduled) :
    (scheduled \ pending).card + (pending ∪ ticks).card = (scheduled ∪ ticks).card ↔
      Disjoint ticks (scheduled \ pending) := by
  have whole : scheduled ∪ ticks = (scheduled \ pending) ∪ (pending ∪ ticks) := by
    rw [← union_assoc, sdiff_union_of_subset within]
  rw [whole, eq_comm, card_union_eq_card_add_card, disjoint_union_right]
  rw [and_iff_right sdiff_disjoint, disjoint_comm]

/-- A list of one slot is good when the slot is the pending time and all is counted. -/
theorem exact_single_iff (h : Ready s) (merged : s'.mergedTimeSlots = [slot])
    (time : s'.exactBusyTime = s.exactBusyTime)
    (scheduled : s'.scheduled = s.scheduled ∪ mem.ticks)
    (pending : s'.pending = s.pending ∪ mem.ticks)
    (ordered : slotTicks slot = s.pending ∪ mem.ticks → slot.1 ≤ slot.2) :
    Exact s' ↔ slotTicks slot = s.pending ∪ mem.ticks ∧
      Disjoint mem.ticks (s.scheduled \ s.pending) := by
  constructor
  · intro exact
    have union := exact.union
    have total := exact.total
    rw [merged, ticksOf_single, pending] at union
    rw [merged, time, scheduled, h.counted, List.map_singleton, List.sum_singleton,
      lengthOf_eq (ordered union), union] at total
    exact ⟨union, (counted_iff h.within).1 total⟩
  · rintro ⟨union, apart⟩
    refine ⟨?_, ?_, ?_⟩
    · rw [merged]
      exact List.pairwise_singleton _ _
    · rw [merged, ticksOf_single, pending, union]
    · rw [merged, time, scheduled, h.counted, List.map_singleton, List.sum_singleton,
        lengthOf_eq (ordered union), union]
      exact (counted_iff h.within).2 apart

theorem step_schedule (single : s.mergedTimeSlots.length ≤ 1) (mem : Interval) :
    ∃ slot s', s.step (.schedule mem) = some s' ∧ s'.mergedTimeSlots = [slot] ∧
      s'.exactBusyTime = s.exactBusyTime ∧ s'.scheduled = s.scheduled ∪ mem.ticks ∧
      s'.pending = s.pending ∪ mem.ticks ∧
      (s.mergedTimeSlots = [] ∧ slot = (mem.first, mem.last) ∨
        ∃ old, s.mergedTimeSlots = [old] ∧ slot = mergedSlot old mem) := by
  unfold step
  match slots : s.mergedTimeSlots, single with
  | [], _ => exact ⟨_, _, rfl, rfl, rfl, rfl, rfl, .inl ⟨rfl, rfl⟩⟩
  | [old], _ =>
      have merged := mergeTimeSlot_single old.1 old.2 mem.first mem.last
      rw [Prod.mk.eta] at merged
      dsimp only
      rw [merged]
      exact ⟨_, _, rfl, rfl, rfl, rfl, rfl, .inr ⟨old, rfl, rfl⟩⟩

theorem step_flush (single : s.mergedTimeSlots.length ≤ 1) (currentTick : Nat) :
    ∃ s', s.step (.flush currentTick) = some s' ∧ s'.scheduled = s.scheduled ∧
      (s'.mergedTimeSlots = s.mergedTimeSlots ∧ s'.exactBusyTime = s.exactBusyTime ∧
          s'.pending = s.pending ∨
        ∃ slot, s.mergedTimeSlots = [slot] ∧ s'.mergedTimeSlots = [] ∧
          s'.exactBusyTime = s.exactBusyTime + lengthOf slot ∧
          s'.pending = s.pending \ slotTicks slot) := by
  unfold step
  match slots : s.mergedTimeSlots, single with
  | [], _ => exact ⟨_, rfl, rfl, .inl ⟨rfl, rfl, sdiff_empty⟩⟩
  | [slot], _ =>
      by_cases ends : slot.2 < currentTick
      · refine ⟨_, rfl, rfl, .inr ⟨slot, rfl, ?_, ?_, ?_⟩⟩
        · simp [flushATimeSlotBusyTime, ends]
        · simp [flushATimeSlotBusyTime, ends, lengthOf]
        · simp [ends]
      · refine ⟨_, rfl, rfl, .inl ⟨?_, ?_, ?_⟩⟩
        · simp [flushATimeSlotBusyTime, ends]
        · simp [flushATimeSlotBusyTime, ends]
        · simp [ends]

theorem Ready.schedule_iff (h : Ready s) (hstep : s.step (.schedule mem) = some s') :
    (Exact s' ↔ Fits s (.schedule mem)) ∧ (Fits s (.schedule mem) → Ready s') := by
  obtain ⟨slot, t, stepped, merged, time, scheduled, pending, shape⟩ :=
    step_schedule h.single mem
  obtain rfl := Option.some.inj (stepped.symm.trans hstep)
  have union := h.exact.union
  have subset : t.pending ⊆ t.scheduled := by
    rw [pending, scheduled]
    exact union_subset_union_left h.within
  -- the slot is right exactly if the interval fits the old one, and then it is in order
  have listed : (slotTicks slot = s.pending ∪ mem.ticks ↔
      ∀ old ∈ s.mergedTimeSlots, old.1 ≤ mem.first ∧ mem.last ≤ old.2 ∨
        mem.first = old.1 ∨ mem.first = old.2 + 1) ∧
      (slotTicks slot = s.pending ∪ mem.ticks → slot.1 ≤ slot.2) := by
    rcases shape with ⟨none, rfl⟩ | ⟨old, one, rfl⟩
    · rw [none] at union ⊢
      rw [← union, ticksOf_nil, empty_union]
      exact ⟨⟨fun _ _ none => absurd none List.not_mem_nil, fun _ => rfl⟩, fun _ => mem.le⟩
    · have ordered := h.ordered old (one ▸ List.mem_singleton_self old)
      rw [one] at union ⊢
      rw [← union, ticksOf_single, mergedSlot_ticks_iff ordered]
      exact ⟨by simp only [List.mem_singleton, forall_eq], mergedSlot_ordered ordered⟩
  have exactly : Exact t ↔ Fits s (.schedule mem) :=
    (exact_single_iff h merged time scheduled pending listed.2).trans
      (and_congr_left' listed.1)
  refine ⟨exactly, fun fits => ⟨exactly.2 fits, ?_, fun other mem' => ?_, subset⟩⟩
  · rw [merged]
    exact le_refl 1
  · rw [merged, List.mem_singleton] at mem'
    rw [mem']
    exact listed.2 (listed.1.2 fits.1)

theorem Ready.flush (h : Ready s) {currentTick : Nat}
    (hstep : s.step (.flush currentTick) = some s') : Ready s' := by
  obtain ⟨t, stepped, scheduled, outcome⟩ := step_flush h.single currentTick
  obtain rfl := Option.some.inj (stepped.symm.trans hstep)
  rcases outcome with ⟨merged, time, pending⟩ | ⟨slot, one, merged, time, pending⟩
  · refine ⟨⟨?_, ?_, ?_⟩, ?_, ?_, ?_⟩
    · rw [merged]
      exact h.exact.sorted
    · rw [merged, pending]
      exact h.exact.union
    · rw [merged, time, scheduled]
      exact h.exact.total
    · rw [merged]
      exact h.single
    · rw [merged]
      exact h.ordered
    · rw [pending, scheduled]
      exact h.within
  · have union := h.exact.union
    have total := h.exact.total
    rw [one, ticksOf_single] at union
    rw [one, List.map_singleton, List.sum_singleton] at total
    rw [← union, sdiff_self] at pending
    refine ⟨⟨?_, ?_, ?_⟩, ?_, ?_, ?_⟩
    · rw [merged]
      exact List.Pairwise.nil
    · rw [merged, pending]
      rfl
    · rw [merged, time, scheduled, List.map_nil, List.sum_nil, Nat.add_zero]
      exact total
    · rw [merged]
      exact Nat.zero_le 1
    · rw [merged]
      exact fun _ none => absurd none List.not_mem_nil
    · rw [pending]
      exact empty_subset _

theorem new_ready : Ready new :=
  ⟨⟨List.Pairwise.nil, rfl, rfl⟩, Nat.zero_le 1, fun _ none => absurd none List.not_mem_nil,
    empty_subset _⟩

theorem steps_total (single : s.mergedTimeSlots.length ≤ 1) (actions : List BusyAction) :
    ∃ t, runActions step s actions = some t := by
  induction actions generalizing s with
  | nil => exact ⟨s, rfl⟩
  | cons action rest ih =>
      obtain ⟨s', stepped, single'⟩ : ∃ s', s.step action = some s' ∧
          s'.mergedTimeSlots.length ≤ 1 := by
        cases action with
        | schedule mem =>
            obtain ⟨slot, s', stepped, merged, -⟩ := step_schedule single mem
            exact ⟨s', stepped, by rw [merged]; exact le_refl 1⟩
        | flush currentTick =>
            obtain ⟨s', stepped, -, outcome⟩ := step_flush single currentTick
            refine ⟨s', stepped, ?_⟩
            rcases outcome with ⟨merged, -⟩ | ⟨slot, -, merged, -⟩
            · rw [merged]
              exact single
            · rw [merged]
              exact Nat.zero_le 1
      obtain ⟨t, run⟩ := ih single'
      exact ⟨t, Option.bind_eq_some_iff.2 ⟨s', stepped, run⟩⟩

/-- Over any sequence of intervals and flushes, the list stays right as long as every new
interval fits it, and no longer. -/
theorem exact_iff_fits (actions : List BusyAction) :
    (∃ t, runActions step new actions = some t) ∧
      (Throughout step Exact new actions ↔ EachAction step Fits new actions) := by
  refine ⟨steps_total new_ready.single actions,
    throughout_iff_eachAction ?_ (fun s h => h.exact) ?_ new_ready actions⟩
  · intro s action s' h fits hstep
    cases action with
    | schedule mem => exact (h.schedule_iff hstep).2 fits
    | flush currentTick => exact h.flush hstep
  · intro s action s' h hstep exact
    cases action with
    | schedule mem => exact (h.schedule_iff hstep).1.1 exact
    | flush currentTick => trivial

end BusyTime

/-! ## Runs of PAL2 -/

/-- A run with what it does to the list: each command schedules the time it takes its die,
both flushes flush the list. -/
inductive Measured (lat : Latency) (param : Parameter) :
    List BusyAction → List Entry → PAL2 → Prop where
  | start {s} : new param = .ok s → Measured lat param [] [] s
  | submit {actions log s s' scheduled} (fuel : Nat) (cmd : Command) (addr : CPDPBP)
      (mem : Interval) : Measured lat param actions log s →
      timelineScheduling lat param fuel cmd addr s = some (.ok (s', scheduled)) →
      scheduled.tsMEM = (mem.first, mem.last) →
      Measured lat param (actions ++ [.schedule mem]) (⟨addr, cmd, scheduled⟩ :: log) s'
  | flushFreeSlots {actions log s} (currentTick : Nat) : Measured lat param actions log s →
      Measured lat param (actions ++ [.flush currentTick]) log (s.flushFreeSlots currentTick)
  | flushTimeSlots {actions log s} (currentTick : Nat) : Measured lat param actions log s →
      Measured lat param (actions ++ [.flush currentTick]) log s

variable {lat : Latency} {param : Parameter} {actions : List BusyAction} {log : List Entry}
  {s : PAL2}

theorem Run.measured (positive : ∀ page operation busy, 1 ≤ lat page operation busy)
    (run : Run lat param log s) : ∃ actions, Measured lat param actions log s := by
  induction run with
  | start hnew => exact ⟨[], .start hnew⟩
  | @submit log s s' scheduled fuel cmd addr before hsubmit ih =>
      obtain ⟨actions, measured⟩ := ih
      have kept := (Run.submit fuel cmd addr before hsubmit).booked positive |>.dies
        (CPDPBPtoDieIdx param addr)
      have whole : scheduled.tsMEM.1 ≤ scheduled.tsMEM.2 := by
        apply kept.whole
        rw [memSlots_cons, if_pos rfl]
        exact List.mem_append_right _ List.mem_cons_self
      exact ⟨_, .submit fuel cmd addr ⟨_, _, whole⟩ measured hsubmit rfl⟩
  | flushFreeSlots currentTick _ ih =>
      obtain ⟨actions, measured⟩ := ih
      exact ⟨_, .flushFreeSlots currentTick measured⟩
  | flushTimeSlots currentTick _ ih =>
      obtain ⟨actions, measured⟩ := ih
      exact ⟨_, .flushTimeSlots currentTick measured⟩

def intervals : List BusyAction → List (Nat × Nat)
  | [] => []
  | .schedule mem :: rest => (mem.first, mem.last) :: intervals rest
  | .flush _ :: rest => intervals rest

theorem intervals_append (actions later : List BusyAction) :
    intervals (actions ++ later) = intervals actions ++ intervals later := by
  induction actions with
  | nil => rfl
  | cons action rest ih => cases action <;> simp [intervals, ih]

theorem Measured.intervals_eq (h : Measured lat param actions log s) :
    intervals actions = (log.map (·.scheduled.tsMEM)).reverse := by
  induction h with
  | start => rfl
  | submit _ _ _ _ _ _ same ih =>
      rw [intervals_append, ih, List.map_cons, List.reverse_cons, same]
      rfl
  | flushFreeSlots _ _ ih => rw [intervals_append, ih, intervals, intervals, List.append_nil]
  | flushTimeSlots _ _ ih => rw [intervals_append, ih, intervals, intervals, List.append_nil]

/-- In a run of commands and flushes the list holds the times the dies are taken, and the
time counted is their measure, as long as each fits the list, and no longer. -/
theorem Measured.busy_time_exact_iff (h : Measured lat param actions log s) :
    intervals actions = (log.map (·.scheduled.tsMEM)).reverse ∧
      (∃ t, runActions BusyTime.step BusyTime.new actions = some t) ∧
      (Throughout BusyTime.step BusyTime.Exact BusyTime.new actions ↔
        EachAction BusyTime.step BusyTime.Fits BusyTime.new actions) :=
  ⟨h.intervals_eq, BusyTime.exact_iff_fits actions⟩

theorem measured_two_reads : ∃ log s,
    Measured (fun _ _ _ => 10) oneDie
      [.schedule ⟨0, 39, by decide⟩, .schedule ⟨1000, 1039, by decide⟩] log s :=
  ⟨_, _, .submit 2 ⟨1000, .read⟩ firstPage _
    (.submit 2 ⟨0, .read⟩ firstPage _ (.start rfl) rfl rfl) rfl rfl⟩

theorem busy_time_exact_iff_two_reads : ∃ log s,
    Measured (fun _ _ _ => 10) oneDie
      [.schedule ⟨0, 39, by decide⟩, .schedule ⟨40, 79, by decide⟩] log s ∧
      Throughout BusyTime.step BusyTime.Exact BusyTime.new
        [.schedule ⟨0, 39, by decide⟩, .schedule ⟨40, 79, by decide⟩] := by
  have measured : Measured (fun _ _ _ => 10) oneDie
      [.schedule ⟨0, 39, by decide⟩, .schedule ⟨40, 79, by decide⟩] _ _ :=
    .submit 2 ⟨0, .read⟩ firstPage _
      (.submit 2 ⟨0, .read⟩ firstPage _ (.start rfl) rfl rfl) rfl rfl
  have first : BusyTime.Fits BusyTime.new (.schedule ⟨0, 39, by decide⟩) :=
    ⟨fun _ none => absurd none List.not_mem_nil, disjoint_empty_right _⟩
  refine ⟨_, _, measured, measured.busy_time_exact_iff.2.2.2 (.cons rfl first (.cons rfl ?_
    trivial))⟩
  exact ⟨by decide, disjoint_left.2 fun _ _ flushed =>
    absurd (mem_sdiff.1 flushed).1 (mem_sdiff.1 flushed).2⟩

/-- The time between the two reads is taken as busy. -/
theorem busy_time_of_gap : ¬ ∀ (lat : Latency) (param : Parameter) (actions : List BusyAction)
    (log : List Entry) (s : PAL2), (∀ page operation busy, 1 ≤ lat page operation busy) →
      Measured lat param actions log s →
        Throughout BusyTime.step BusyTime.Exact BusyTime.new actions := by
  intro all
  obtain ⟨log, s, measured⟩ := measured_two_reads
  have exact := all _ _ _ log s (fun _ _ _ => by decide) measured
  have fits := (((BusyTime.exact_iff_fits _).2.1 exact _ rfl).2 _ rfl).1.1 (0, 39)
    (List.mem_singleton_self _)
  revert fits
  decide

end SimpleSSD.PAL.PAL2
