import SimpleSSD.PAL.Booking

/-!
# The scheduling loops end

A retry moves the candidate up and never past the start points, so both loops end.
Without latencies a retry may propose the candidate itself.
-/

namespace SimpleSSD.PAL.PAL2

open SimpleSSD.Foundation

section Loops

variable {lat : Latencies} {ch die : Timeline} {bookedCh bookedDie : Slots} {bound : Nat}

theorem loop1_ends (keptCh : ch.Kept bookedCh) (keptDie : die.Kept bookedDie)
    (positive : 1 ≤ lat.dma0) (leCh : ch.startPoint ≤ bound) (leDie : die.startPoint ≤ bound)
    {tick : Nat} (le : tick ≤ bound) :
    ∃ start, retryLoop (fun tick => some (loop1 lat ch die tick)) (bound + 1) tick =
      some start := by
  have forward : ∀ tick next, tick ≤ bound → some (loop1 lat ch die tick) = some (.retry next) →
      next ≤ bound ∧ tick < next ∧ next ≤ bound := by
    intro tick next le h
    obtain ⟨lt, up, -⟩ := loop1_retry keptCh keptDie positive (Option.some.inj h)
    omega
  obtain ⟨start, run⟩ := retryLoop_finishes (fun tick => tick ≤ bound) bound
    (fun tick _ => ⟨loop1 lat ch die tick, rfl⟩) forward le
  exact ⟨start, retryLoop_mono (fun _ _ h => h) (by omega) run⟩

theorem loop0_ends (keptCh : ch.Kept bookedCh) (keptDie : die.Kept bookedDie)
    (positive : 1 ≤ lat.dma0) (leCh : ch.startPoint ≤ bound) (leDie : die.startPoint ≤ bound)
    {tick : Nat} (le : tick ≤ bound) :
    ∃ plan, retryLoop (loop0 lat ch die (bound + 1)) (bound + 1) tick = some plan := by
  have total : ∀ tick, tick ≤ bound → ∃ o, loop0 lat ch die (bound + 1) tick = some o := by
    intro tick le
    obtain ⟨start, hstart⟩ := loop1_ends keptCh keptDie positive leCh leDie le
    unfold loop0
    rw [hstart]
    exact ⟨_, rfl⟩
  have forward : ∀ tick next, tick ≤ bound →
      loop0 lat ch die (bound + 1) tick = some (.retry next) →
      next ≤ bound ∧ tick < next ∧ next ≤ bound := by
    intro tick next _ h
    obtain ⟨lt, up, -⟩ := loop0_retry keptCh keptDie positive h
    omega
  obtain ⟨plan, run⟩ := retryLoop_finishes (fun tick => tick ≤ bound) bound total forward le
  exact ⟨plan, retryLoop_mono (fun _ _ h => h) (by omega) run⟩

end Loops

variable {lat : Latency} {param : Parameter} {log : List Entry} {s : PAL2}

/-- In every state of a run, scheduling any command ends.  A retry of LOOP1 leaves a slot
of the channel behind that has no room for the first transfer from there on, a retry of
LOOP0 a slot of the die that is too short for the command. -/
theorem scheduling_ends (positive : ∀ page operation busy, 1 ≤ lat page operation busy)
    (run : Run lat param log s) (cmd : Command) (addr : CPDPBP) :
    (∃ fuel s' scheduled,
      timelineScheduling lat param fuel cmd addr s = some (.ok (s', scheduled))) ∧
      (∀ tick next, loop1 (latencies lat cmd addr) (s.channels addr.channel)
          (s.dies (CPDPBPtoDieIdx param addr)) tick = .retry next →
        tick < next ∧
          Passed (s.channels addr.channel) (latencies lat cmd addr).dma0 next) ∧
      ∀ fuel tick next, loop0 (latencies lat cmd addr) (s.channels addr.channel)
          (s.dies (CPDPBPtoDieIdx param addr)) fuel tick = some (.retry next) →
        tick < next ∧ TooShort (latencies lat cmd addr) (s.channels addr.channel)
          (s.dies (CPDPBPtoDieIdx param addr)) tick next := by
  have booked := run.booked positive
  have keptCh := booked.channels addr.channel
  have keptDie := booked.dies (CPDPBPtoDieIdx param addr)
  have hpositive := (latencies_positive positive cmd addr).dma0
  refine ⟨?_, fun tick next h => ?_, fun fuel tick next h => ?_⟩
  · obtain ⟨plan, hplan⟩ := loop0_ends keptCh keptDie hpositive
      (le_max_right cmd.arrived _ |>.trans (le_max_left _ _)) (le_max_right _ _)
      (le_max_left cmd.arrived _ |>.trans (le_max_left _ _))
    have hends : ∃ fuel result, timelineScheduling lat param fuel cmd addr s = some result := by
      unfold timelineScheduling
      exact ⟨_, _, Option.map_eq_some_iff.2 ⟨plan, hplan, rfl⟩⟩
    obtain ⟨fuel, result, hresult⟩ := hends
    obtain ⟨s', scheduled, heq, -⟩ := timelineScheduling_eq_ok positive booked hresult
    exact ⟨_, s', scheduled, hresult.trans (congrArg some heq)⟩
  · obtain ⟨lt, -, passed⟩ := loop1_retry keptCh keptDie hpositive h
    exact ⟨lt, passed⟩
  · obtain ⟨lt, -, short⟩ := loop0_retry keptCh keptDie hpositive h
    exact ⟨lt, short⟩

theorem scheduling_ends_one_read : ∃ first s,
    Run (fun _ _ _ => 10) oneDie [⟨firstPage, ⟨0, .read⟩, first⟩] s ∧
      ∃ fuel s' scheduled, timelineScheduling (fun _ _ _ => 10) oneDie fuel ⟨5, .erase⟩
        firstPage s = some (.ok (s', scheduled)) := by
  have run : Run (fun _ _ _ => 10) oneDie _ _ := .submit 2 ⟨0, .read⟩ firstPage (.start rfl) rfl
  exact ⟨_, _, run, (scheduling_ends (by simp) run ⟨5, .erase⟩ firstPage).1⟩

/-- A bus so wide that only whole pages take time, and operations of no time except for
programs. -/
def wideBus : Latency
  | _, .read, .dma1 => 976
  | _, .write, .dma0 => 976
  | _, .write, .mem => 500000000
  | _, _, _ => 0

/-- Between two erases the die keeps a free slot that ends where the read begins.  The
search for an operation of no time settles on it, the search for the whole command on the
slot behind, and the read is tried at the same tick for ever. -/
theorem scheduling_never_ends : ∃ log s, Run wideBus oneDie log s ∧
    ∀ fuel, timelineScheduling wideBus oneDie fuel ⟨50000000, .read⟩ firstPage s = none := by
  have run : Run wideBus oneDie _ _ := .submit 2 ⟨400000000, .erase⟩ firstPage
    (.submit 2 ⟨50000000, .erase⟩ firstPage (.start rfl) rfl) rfl
  refine ⟨_, _, run, fun fuel => ?_⟩
  unfold timelineScheduling
  simp only [Option.map_eq_none_iff]
  apply retryLoop_stuck
  cases fuel with
  | zero => exact .inl rfl
  | succ fuel => exact .inr rfl

end SimpleSSD.PAL.PAL2
