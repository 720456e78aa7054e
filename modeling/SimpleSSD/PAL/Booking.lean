import SimpleSSD.PAL.Loops

/-!
# No double booking

What the loops settle on was free, so a command is booked where nothing else is.
-/

namespace SimpleSSD.PAL.PAL2

open SimpleSSD.Foundation

section Assign

variable {lat : Latencies} {ch die : Timeline} {bookedCh bookedDie : Slots}
  {arrived : Nat} {plan : Plan}

structure Latencies.Positive (lat : Latencies) : Prop where
  dma0 : 1 ≤ lat.dma0
  mem : 1 ≤ lat.mem
  dma1 : 1 ≤ lat.dma1
  anti : 1 ≤ lat.anti

theorem anticipate_eq_ok (keptCh : ch.Kept bookedCh) (positive : 1 ≤ lat.anti) (tmpTick : Nat) :
    ∃ ch', anticipate lat ch tmpTick = .ok ch' ∧ ch'.Kept bookedCh := by
  unfold anticipate
  simp only
  split_ifs
  · obtain ⟨fits, -, -⟩ := Timeline.earliest_fits keptCh (lat.anti * 2) tmpTick
    exact Timeline.insertFreeSlot_eq_ok keptCh (by omega) fits true
  · exact ⟨ch, rfl, keptCh⟩

theorem assign_eq_ok (keptCh : ch.Kept bookedCh) (keptDie : die.Kept bookedDie)
    (positive : lat.Positive) (suits : plan.Suits lat ch die arrived) :
    ∃ ch' die' scheduled, assign lat ch die plan = .ok (ch', die', scheduled) ∧
      ch'.Kept (scheduled.tsDMA1 :: scheduled.tsDMA0 :: bookedCh) ∧
      die'.Kept (scheduled.tsMEM :: bookedDie) ∧
      arrived + lat.dma0 + lat.mem + lat.dma1 ≤ scheduled.finished := by
  obtain ⟨ch₁, hdma0, kept₁⟩ := Timeline.insertFreeSlot_eq_ok keptCh positive.dma0
    suits.channel false
  obtain ⟨fits₁, later, -⟩ := Timeline.earliest_fits kept₁ (lat.dma1 + lat.anti)
    plan.dma1TickFrom
  have fitsDMA1 := fits₁.shorter (Nat.le_add_right lat.dma1 lat.anti)
  rw [Nat.add_sub_cancel_left, ← max_eq_left fits₁.start_le] at fitsDMA1
  obtain ⟨ch₂, hdma1, kept₂⟩ := Timeline.insertFreeSlot_eq_ok kept₁ positive.dma1 fitsDMA1 false
  have total := suits.total
  have last := suits.last
  obtain ⟨die', hmem, keptDie'⟩ := Timeline.insertFreeSlot_eq_ok keptDie
    (show 1 ≤ plan.totalLat by have := positive.dma0; omega) suits.die false
  obtain ⟨ch₃, hnext, kept₃⟩ := anticipate_eq_ok kept₂ positive.anti
    (max plan.dma0TickFrom plan.tickDMA0 + lat.dma0)
  refine ⟨ch₃, die', _, bind_eq_ok.2 ⟨ch₁, hdma0, bind_eq_ok.2 ⟨ch₂, hdma1,
    bind_eq_ok.2 ⟨die', hmem, bind_eq_ok.2 ⟨ch₃, hnext, rfl⟩⟩⟩⟩, ?_, ?_, ?_⟩
  · rw [max_eq_left suits.channel.start_le]
    exact kept₃
  · rw [max_eq_left suits.die.start_le]
    exact keptDie'
  · have le := suits.le
    have anti := positive.anti
    simp only [timeSlot]
    omega

end Assign

/-! ## Runs -/

variable {lat : Latency} {param : Parameter} {log : List Entry} {s s' : PAL2}
  {cmd : Command} {addr : CPDPBP} {scheduled : Scheduled} {fuel : Nat}

/-- What is booked is kept clear on every channel and every die, and no command ends
before its latencies have passed. -/
structure Booked (lat : Latency) (param : Parameter) (log : List Entry) (s : PAL2) : Prop where
  channels : ∀ reqCh, (s.channels reqCh).Kept (dmaSlots reqCh log)
  dies : ∀ reqDieIdx, (s.dies reqDieIdx).Kept (memSlots param reqDieIdx log)
  finished : ∀ entry ∈ log, entry.cmd.arrived + lat entry.addr.page entry.cmd.operation .dma0 +
    lat entry.addr.page entry.cmd.operation .mem + lat entry.addr.page entry.cmd.operation .dma1 ≤
      entry.scheduled.finished

theorem latencies_positive (positive : ∀ page operation busy, 1 ≤ lat page operation busy)
    (cmd : Command) (addr : CPDPBP) : (latencies lat cmd addr).Positive :=
  ⟨positive .., positive .., positive .., positive ..⟩

theorem Booked.new (h : PAL2.new param = .ok s) : Booked lat param [] s := by
  unfold PAL2.new at h
  split_ifs at h
  cases h
  exact ⟨fun _ => Timeline.kept_empty _, fun _ => Timeline.kept_empty _, by simp⟩

theorem Booked.flushFreeSlots (h : Booked lat param log s) (currentTick : Nat) :
    Booked lat param log (s.flushFreeSlots currentTick) :=
  ⟨fun reqCh => (h.channels reqCh).flushFreeSlots currentTick,
    fun reqDieIdx => (h.dies reqDieIdx).flushFreeSlots currentTick, h.finished⟩

theorem dmaSlots_cons (entry : Entry) (reqCh : Nat) : dmaSlots reqCh (entry :: log) =
    if entry.addr.channel = reqCh then
      entry.scheduled.tsDMA1 :: entry.scheduled.tsDMA0 :: dmaSlots reqCh log
    else dmaSlots reqCh log := by
  by_cases here : entry.addr.channel = reqCh <;> simp [dmaSlots, here]

theorem memSlots_cons (entry : Entry) (reqDieIdx : Nat) :
    memSlots param reqDieIdx (entry :: log) =
      if CPDPBPtoDieIdx param entry.addr = reqDieIdx then
        entry.scheduled.tsMEM :: memSlots param reqDieIdx log
      else memSlots param reqDieIdx log := by
  by_cases here : CPDPBPtoDieIdx param entry.addr = reqDieIdx <;> simp [memSlots, here]

theorem timelineScheduling_eq_ok (positive : ∀ page operation busy, 1 ≤ lat page operation busy)
    (booked : Booked lat param log s) {result : Except Fault (PAL2 × Scheduled)}
    (h : timelineScheduling lat param fuel cmd addr s = some result) :
    ∃ s' scheduled, result = .ok (s', scheduled) ∧
      Booked lat param (⟨addr, cmd, scheduled⟩ :: log) s' := by
  obtain ⟨plan, hplan, hresult⟩ := Option.map_eq_some_iff.1 h
  have keptCh := booked.channels addr.channel
  have keptDie := booked.dies (CPDPBPtoDieIdx param addr)
  have hpositive := latencies_positive positive cmd addr
  have suits := loop0_suits keptCh keptDie hpositive.dma0 hplan
  obtain ⟨ch, die, scheduled, hassign, keptCh', keptDie', hfinished⟩ :=
    assign_eq_ok keptCh keptDie hpositive suits
  refine ⟨_, scheduled, hresult.symm.trans (bind_eq_ok.2 ⟨_, hassign, rfl⟩), ?_, ?_, ?_⟩
  · intro reqCh
    rw [dmaSlots_cons]
    by_cases here : addr.channel = reqCh
    · subst here
      simpa using keptCh'
    · simpa [here, Function.update_of_ne (Ne.symm here)] using booked.channels reqCh
  · intro reqDieIdx
    rw [memSlots_cons]
    by_cases here : CPDPBPtoDieIdx param addr = reqDieIdx
    · subst here
      simpa using keptDie'
    · simpa [here, Function.update_of_ne (Ne.symm here)] using booked.dies reqDieIdx
  · exact List.forall_mem_cons.2 ⟨hfinished, booked.finished⟩

theorem Run.booked (positive : ∀ page operation busy, 1 ≤ lat page operation busy)
    (run : Run lat param log s) : Booked lat param log s := by
  induction run with
  | start hnew => exact Booked.new hnew
  | submit _ _ _ _ hsubmit ih =>
      obtain ⟨s', scheduled, hresult, hbooked⟩ := timelineScheduling_eq_ok positive ih hsubmit
      cases hresult
      exact hbooked
  | flushFreeSlots currentTick _ ih => exact ih.flushFreeSlots currentTick
  | flushTimeSlots _ _ ih => exact ih

/-- The free slots of a timeline are clear of each other and of what is booked, and end
before its start point. -/
def FreeTime (t : Timeline) (booked : Slots) : Prop :=
  t.free.slots.Pairwise Clear ∧
    ∀ slot ∈ t.free.slots, (∀ taken ∈ booked, Clear slot taken) ∧ slot.2 < t.startPoint

theorem freeTime_of_kept {t : Timeline} {booked : Slots} (kept : t.Kept booked) :
    FreeTime t booked := by
  obtain ⟨hfree, -, hboth⟩ := List.pairwise_append.1 kept.apart
  exact ⟨hfree, fun slot hslot => ⟨hboth slot hslot, kept.ends_slots hslot⟩⟩

theorem booked_of_kept {t : Timeline} {booked : Slots} (kept : t.Kept booked) :
    booked.Pairwise Clear := (List.pairwise_append.1 kept.apart).2.1

/-- Over any run, transfers on a channel and operations of a die are pairwise disjoint,
free time is recorded apart from them, and no command ends early. -/
theorem no_double_booking (positive : ∀ page operation busy, 1 ≤ lat page operation busy)
    (run : Run lat param log s) :
    (∀ reqCh, (dmaSlots reqCh log).Pairwise Clear) ∧
      (∀ reqDieIdx, (memSlots param reqDieIdx log).Pairwise Clear) ∧
      (∀ reqCh, FreeTime (s.channels reqCh) (dmaSlots reqCh log)) ∧
      (∀ reqDieIdx, FreeTime (s.dies reqDieIdx) (memSlots param reqDieIdx log)) ∧
      ∀ entry ∈ log, entry.cmd.arrived + lat entry.addr.page entry.cmd.operation .dma0 +
        lat entry.addr.page entry.cmd.operation .mem +
        lat entry.addr.page entry.cmd.operation .dma1 ≤ entry.scheduled.finished := by
  have booked := run.booked positive
  refine ⟨?_, ?_, ?_, ?_, booked.finished⟩
  · exact fun reqCh => booked_of_kept (booked.channels reqCh)
  · exact fun reqDieIdx => booked_of_kept (booked.dies reqDieIdx)
  · exact fun reqCh => freeTime_of_kept (booked.channels reqCh)
  · exact fun reqDieIdx => freeTime_of_kept (booked.dies reqDieIdx)

def oneDie : Parameter := ⟨1, 1, 1, 400, 16384⟩

def firstPage : CPDPBP := ⟨0, 0, 0, 0, 0, 0⟩

theorem no_double_booking_two_reads : ∃ first second s,
    Run (fun _ _ _ => 10) oneDie
      [⟨firstPage, ⟨0, .read⟩, first⟩, ⟨firstPage, ⟨0, .read⟩, second⟩] s ∧
      (dmaSlots 0 [⟨firstPage, ⟨0, .read⟩, first⟩, ⟨firstPage, ⟨0, .read⟩, second⟩]).Pairwise
        Clear := by
  have run : Run (fun _ _ _ => 10) oneDie _ _ :=
    .submit 2 ⟨0, .read⟩ firstPage (.submit 2 ⟨0, .read⟩ firstPage (.start rfl) rfl) rfl
  exact ⟨_, _, _, run, (no_double_booking (by simp) run).1 0⟩

end SimpleSSD.PAL.PAL2
