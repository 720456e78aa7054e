import SimpleSSD.PAL.Scheduling

/-!
# The scheduling loops

LOOP1 and LOOP0 settle on a start with room on the channel and on the die.  A retry
leaves a slot behind that has no room from there on.
-/

namespace SimpleSSD.PAL.PAL2

open SimpleSSD.Foundation

section Loops

variable {lat : Latencies} {ch die : Timeline} {bookedCh bookedDie : Slots}
  {dma0TickFrom next fuel : Nat} {start : Start} {plan : Plan}

/-- A start from `dma0TickFrom` on that suits the channel and the die. -/
structure Start.Suits (lat : Latencies) (ch die : Timeline) (dma0TickFrom : Nat)
    (start : Start) : Prop where
  le : dma0TickFrom ≤ start.dma0TickFrom
  channel : ch.Fits lat.dma0 start.dma0TickFrom start.tickDMA0
  die : die.Fits (lat.dma0 + lat.mem) start.dma0TickFrom start.tickMEM

theorem Start.Suits.mono {earlier : Nat} (h : start.Suits lat ch die dma0TickFrom)
    (le : earlier ≤ dma0TickFrom) : start.Suits lat ch die earlier :=
  ⟨le.trans h.le, h.channel, h.die⟩

theorem loop1_done (keptCh : ch.Kept bookedCh) (keptDie : die.Kept bookedDie)
    (h : loop1 lat ch die dma0TickFrom = .done start) :
    start.Suits lat ch die dma0TickFrom := by
  obtain ⟨fitsCh, leCh, -⟩ := Timeline.earliest_fits keptCh lat.dma0 dma0TickFrom
  unfold loop1 at h
  simp only at h
  generalize ch.earliest lat.dma0 dma0TickFrom = dma0 at h fitsCh leCh
  obtain ⟨fitsDie, leDie, -⟩ := Timeline.earliest_fits keptDie (lat.dma0 + lat.mem) dma0.2
  have moves := Timeline.earliest_moves (lat.dma0 + lat.mem) dma0.2 die
  generalize die.earliest (lat.dma0 + lat.mem) dma0.2 = mem at h fitsDie leDie moves
  by_cases same : mem.1 = dma0.1
  · rw [if_pos same] at h
    cases h
    have hstays : mem.2 = dma0.2 := by
      rcases moves with hstays | hmoves
      · exact hstays
      · have hle := fitsCh.start_le
        omega
    exact ⟨leCh, fitsCh, hstays ▸ fitsDie⟩
  · rw [if_neg same] at h
    by_cases hverify : ch.verify lat.dma0 mem.2 = dma0.1
    · rw [if_pos hverify] at h
      cases h
      have hle : ch.verify lat.dma0 mem.2 ≤ mem.2 := by
        rw [hverify]
        exact fitsCh.start_le.trans leDie
      exact ⟨leCh.trans leDie, hverify ▸ Timeline.verify_fits keptCh hle, fitsDie⟩
    · rw [if_neg hverify] at h
      cases h

/-- There is a slot that has started by `tick` and has no room from there on. -/
def Passed (t : Timeline) (tickLen tick : Nat) : Prop :=
  ∃ slot ∈ t.free.slots, slot.1 ≤ tick ∧ slot.2 + 1 < tick + tickLen

theorem loop1_retry (keptCh : ch.Kept bookedCh) (keptDie : die.Kept bookedDie)
    (positive : 1 ≤ lat.dma0) (h : loop1 lat ch die dma0TickFrom = .retry next) :
    dma0TickFrom < next ∧ next ≤ max dma0TickFrom (max ch.startPoint die.startPoint) ∧
      Passed ch lat.dma0 next := by
  obtain ⟨fitsCh, leCh, upCh⟩ := Timeline.earliest_fits keptCh lat.dma0 dma0TickFrom
  unfold loop1 at h
  simp only at h
  generalize ch.earliest lat.dma0 dma0TickFrom = dma0 at h fitsCh leCh upCh
  obtain ⟨-, leDie, upDie⟩ := Timeline.earliest_fits keptDie (lat.dma0 + lat.mem) dma0.2
  generalize die.earliest (lat.dma0 + lat.mem) dma0.2 = mem at h leDie upDie
  by_cases same : mem.1 = dma0.1
  · rw [if_pos same] at h
    cases h
  · rw [if_neg same] at h
    by_cases hverify : ch.verify lat.dma0 mem.2 = dma0.1
    · rw [if_pos hverify] at h
      cases h
    · rw [if_neg hverify] at h
      cases h
      have hnot : ¬ ch.Fits lat.dma0 mem.2 dma0.1 := fun fits =>
        hverify (Timeline.verify_of_fits keptCh positive fits)
      have hmoved : mem.2 ≠ dma0.2 := fun heq => hnot (heq ▸ fitsCh)
      refine ⟨by omega, by omega, ?_⟩
      rcases fitsCh with ⟨hstart, hle⟩ | ⟨stop, hslot, hstarted, hroom⟩
      · exact absurd (.inl ⟨hstart, hle.trans leDie⟩) hnot
      · refine ⟨_, FreeSlots.mem_of_mem_searched hslot, hstarted.trans leDie, ?_⟩
        by_contra hlong
        refine hnot (.inr ⟨stop, hslot, hstarted.trans leDie, ?_⟩)
        simp only at hlong ⊢
        omega

theorem loop1_suits (keptCh : ch.Kept bookedCh) (keptDie : die.Kept bookedDie)
    (positive : 1 ≤ lat.dma0)
    (h : retryLoop (fun tick => some (loop1 lat ch die tick)) fuel dma0TickFrom = some start) :
    start.Suits lat ch die dma0TickFrom := by
  refine retryLoop_result (fun tick => dma0TickFrom ≤ tick) ?_ ?_ le_rfl h
  · intro tick start hle hdone
    exact (loop1_done keptCh keptDie (Option.some.inj hdone)).mono hle
  · intro tick next hle hretry
    have hlt := (loop1_retry keptCh keptDie positive (Option.some.inj hretry)).1
    omega

/-- A plan that also leaves the die free until the last transfer has ended. -/
structure Plan.Suits (lat : Latencies) (ch die : Timeline) (dma0TickFrom : Nat)
    (plan : Plan) : Prop where
  le : dma0TickFrom ≤ plan.dma0TickFrom
  channel : ch.Fits lat.dma0 plan.dma0TickFrom plan.tickDMA0
  die : die.Fits plan.totalLat plan.dma0TickFrom plan.tickMEM
  last : plan.dma0TickFrom + lat.dma0 + lat.mem ≤ plan.dma1TickFrom
  total : plan.dma0TickFrom + plan.totalLat = plan.dma1TickFrom + lat.dma1 + lat.anti

theorem totalLat_eq (keptCh : ch.Kept bookedCh) (lat : Latencies) (tick : Nat) :
    tick + lat.dma0 + lat.mem ≤ findDMA1 lat ch tick ∧
      tick + totalLat lat ch tick = findDMA1 lat ch tick + lat.dma1 + lat.anti := by
  obtain ⟨-, le, -⟩ := Timeline.earliest_fits keptCh (lat.dma1 + lat.anti)
    (tick + (lat.dma0 + lat.mem))
  unfold totalLat findDMA1
  omega

theorem loop0_done (keptCh : ch.Kept bookedCh) (keptDie : die.Kept bookedDie)
    (positive : 1 ≤ lat.dma0) (h : loop0 lat ch die fuel dma0TickFrom = some (.done plan)) :
    plan.Suits lat ch die dma0TickFrom := by
  obtain ⟨start, hstart, h⟩ := Option.map_eq_some_iff.1 h
  have suits := loop1_suits keptCh keptDie positive hstart
  obtain ⟨hlast, htotal⟩ := totalLat_eq keptCh lat start.dma0TickFrom
  simp only at h
  split_ifs at h with hverify
  cases h
  have hle : start.tickMEM ≤ start.dma0TickFrom := suits.die.start_le
  exact ⟨suits.le, suits.channel, hverify ▸ Timeline.verify_fits keptDie (hverify.le.trans hle),
    hlast, htotal⟩

/-- A free slot of the die that ends before `next` and is too short for the command. -/
def TooShort (lat : Latencies) (ch die : Timeline) (dma0TickFrom next : Nat) : Prop :=
  ∃ tick, dma0TickFrom ≤ tick ∧ ∃ slot ∈ die.free.slots,
    slot.1 ≤ tick ∧ slot.2 + 1 < tick + totalLat lat ch tick ∧ slot.2 < next

theorem loop0_retry (keptCh : ch.Kept bookedCh) (keptDie : die.Kept bookedDie)
    (positive : 1 ≤ lat.dma0) (h : loop0 lat ch die fuel dma0TickFrom = some (.retry next)) :
    dma0TickFrom < next ∧ next ≤ die.startPoint ∧ TooShort lat ch die dma0TickFrom next := by
  obtain ⟨start, hstart, h⟩ := Option.map_eq_some_iff.1 h
  have suits := loop1_suits keptCh keptDie positive hstart
  obtain ⟨hlast, htotal⟩ := totalLat_eq keptCh lat start.dma0TickFrom
  have hlong : 1 ≤ totalLat lat ch start.dma0TickFrom := by omega
  simp only at h
  split_ifs at h with hverify
  cases h
  have hnot : ¬ die.Fits (totalLat lat ch start.dma0TickFrom) start.dma0TickFrom start.tickMEM :=
    fun fits => hverify (Timeline.verify_of_fits keptDie hlong fits)
  rcases suits.die with ⟨hstartPoint, hle⟩ | ⟨stop, hslot, hstarted, hroom⟩
  · exact absurd (.inl ⟨hstartPoint, hle⟩) hnot
  · have hin := FreeSlots.mem_of_mem_searched hslot
    have contains : start.dma0TickFrom ≤ stop := by
      simp only at hroom
      omega
    obtain ⟨hshort, hbehind⟩ := Timeline.verify_behind keptDie hlong hin hstarted contains hnot
    have hle := suits.le
    simp only at hshort hbehind
    exact ⟨by omega, Timeline.verify_le keptDie _ _, _, hle, _, hin, hstarted, hshort, hbehind⟩

theorem loop0_suits (keptCh : ch.Kept bookedCh) (keptDie : die.Kept bookedDie)
    (positive : 1 ≤ lat.dma0)
    (h : retryLoop (loop0 lat ch die fuel) fuel dma0TickFrom = some plan) :
    plan.Suits lat ch die dma0TickFrom := by
  refine retryLoop_result (fun tick => dma0TickFrom ≤ tick) ?_ ?_ le_rfl h
  · intro tick plan hle hdone
    have suits := loop0_done keptCh keptDie positive hdone
    exact ⟨hle.trans suits.le, suits.channel, suits.die, suits.last, suits.total⟩
  · intro tick next hle hretry
    have hlt := (loop0_retry keptCh keptDie positive hretry).1
    omega

end Loops

end SimpleSSD.PAL.PAL2
