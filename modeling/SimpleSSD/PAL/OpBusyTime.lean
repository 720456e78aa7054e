import SimpleSSD.Foundation.Sweep
import SimpleSSD.PAL.Booking

/-!
# Busy time of an operation

At its end a command is filed under its operation in `OpTimeStamp`, by the start of its
first transfer, and `FlushOpTimeStamp` sweeps what is filed into `OpBusyTime`.
-/

namespace SimpleSSD.PAL.PAL2

open SimpleSSD.Foundation Finset

def noTick : Nat := 2 ^ 64 - 1

structure OpStatistics where
  /-- Ends by starts, in order. -/
  opTimeStamp : Oper → Slots
  opBusyTime : Oper → Nat

namespace OpStatistics

def new : OpStatistics := ⟨fun _ => [], fun _ => 0⟩

/-- File an end under its start; of two ends the later one stays. -/
def stamp (startTick endTick : Nat) : Slots → Slots
  | [] => [(startTick, endTick)]
  | e :: rest =>
      if startTick < e.1 then (startTick, endTick) :: e :: rest
      else if startTick = e.1 then (e.1, if e.2 < endTick then endTick else e.2) :: rest
      else e :: stamp startTick endTick rest

def categorize (cmd : Command) (scheduled : Scheduled) (stats : OpStatistics) : OpStatistics :=
  { stats with
    opTimeStamp := Function.update stats.opTimeStamp cmd.operation
      (stamp scheduled.tsDMA0.1 scheduled.tsDMA1.2 (stats.opTimeStamp cmd.operation)) }

def ticksOfOp (startTick endTick : Nat) : Nat := sub64 (endTick + 1) startTick

def sweepOp (startTick endTick opBusyTime : Nat) : Slots → Nat
  | [] => opBusyTime + ticksOfOp startTick endTick
  | e :: rest =>
      if startTick = noTick ∧ endTick = noTick then sweepOp e.1 e.2 opBusyTime rest
      else if e.1 < endTick ∧ e.2 ≤ endTick then sweepOp startTick endTick opBusyTime rest
      else if e.1 < endTick ∧ endTick < e.2 then sweepOp startTick e.2 opBusyTime rest
      else sweepOp e.1 e.2 (opBusyTime + ticksOfOp startTick endTick) rest

def flushOpTimeStamp (stats : OpStatistics) : OpStatistics where
  opTimeStamp _ := []
  opBusyTime oper := sweepOp noTick noTick (stats.opBusyTime oper) (stats.opTimeStamp oper)

/-- What a run leaves in the statistics; the log has the last command first. -/
def ofLog : List Entry → OpStatistics
  | [] => new
  | entry :: log => flushOpTimeStamp (categorize entry.cmd entry.scheduled (ofLog log))

variable {entry : Entry} {log : List Entry} {oper : Oper}

theorem opTimeStamp_ofLog (log : List Entry) (oper : Oper) :
    (ofLog log).opTimeStamp oper = [] := by
  cases log <;> rfl

theorem sweepOp_nil (opBusyTime : Nat) : sweepOp noTick noTick opBusyTime [] = opBusyTime + 1 :=
  rfl

theorem sweepOp_single (e : Nat × Nat) (opBusyTime : Nat) :
    sweepOp noTick noTick opBusyTime [e] = opBusyTime + ticksOfOp e.1 e.2 := by
  rw [sweepOp, if_pos ⟨rfl, rfl⟩, sweepOp]

theorem ofLog_cons (entry : Entry) (log : List Entry) : ofLog (entry :: log) =
    flushOpTimeStamp (categorize entry.cmd entry.scheduled (ofLog log)) := rfl

theorem opBusyTime_cons (entry : Entry) (log : List Entry) (oper : Oper) :
    (ofLog (entry :: log)).opBusyTime oper = (ofLog log).opBusyTime oper +
      if entry.cmd.operation = oper then
        ticksOfOp entry.scheduled.tsDMA0.1 entry.scheduled.tsDMA1.2
      else 1 := by
  rw [ofLog_cons]
  unfold flushOpTimeStamp categorize
  dsimp only
  by_cases own : entry.cmd.operation = oper
  · subst own
    rw [Function.update_self, opTimeStamp_ofLog, stamp, sweepOp_single, if_pos rfl]
  · rw [Function.update_of_ne (Ne.symm own), opTimeStamp_ofLog, sweepOp_nil, if_neg own]

end OpStatistics

/-! ## Runs -/

variable {lat : Latency} {param : Parameter} {log : List Entry} {s : PAL2}

def opIntervals (oper : Oper) (log : List Entry) : List (ℕ × ℕ) :=
  (log.filter fun entry => entry.cmd.operation = oper).map fun entry =>
    (entry.scheduled.tsDMA0.1, entry.scheduled.tsDMA1.2 + 1)

theorem opIntervals_cons (entry : Entry) (log : List Entry) (oper : Oper) :
    opIntervals oper (entry :: log) = if entry.cmd.operation = oper then
      (entry.scheduled.tsDMA0.1, entry.scheduled.tsDMA1.2 + 1) :: opIntervals oper log
    else opIntervals oper log := by
  by_cases own : entry.cmd.operation = oper <;> simp [opIntervals, own]

theorem assign_ordered {lat : Latencies} {ch die ch' die' : Timeline} {bookedCh : Slots}
    {arrived : Nat} {plan : Plan} {scheduled : Scheduled} (keptCh : ch.Kept bookedCh)
    (positive : lat.Positive) (suits : plan.Suits lat ch die arrived)
    (h : assign lat ch die plan = .ok (ch', die', scheduled)) :
    scheduled.tsDMA0.1 ≤ scheduled.tsDMA1.2 := by
  obtain ⟨ch₁, hdma0, h⟩ := bind_eq_ok.1 h
  obtain ⟨ch₁', hdma0', kept₁⟩ := Timeline.insertFreeSlot_eq_ok keptCh positive.dma0
    suits.channel false
  obtain rfl := Except.ok.inj (hdma0.symm.trans hdma0')
  obtain ⟨ch₂, -, h⟩ := bind_eq_ok.1 h
  obtain ⟨die₁, -, h⟩ := bind_eq_ok.1 h
  obtain ⟨ch₃, -, h⟩ := bind_eq_ok.1 h
  cases h
  obtain ⟨-, later, -⟩ := Timeline.earliest_fits kept₁ (lat.dma1 + lat.anti) plan.dma1TickFrom
  have start := suits.channel.start_le
  have last := suits.last
  have anti := positive.anti
  simp only [timeSlot]
  omega

theorem Run.ordered (positive : ∀ page operation busy, 1 ≤ lat page operation busy)
    (run : Run lat param log s) :
    ∀ entry ∈ log, entry.scheduled.tsDMA0.1 ≤ entry.scheduled.tsDMA1.2 := by
  induction run with
  | start => exact fun _ none => absurd none List.not_mem_nil
  | submit fuel cmd addr before hsubmit ih =>
      have booked := before.booked positive
      have hpositive := latencies_positive positive cmd addr
      obtain ⟨plan, hplan, hresult⟩ := Option.map_eq_some_iff.1 hsubmit
      have suits := loop0_suits (booked.channels addr.channel)
        (booked.dies (CPDPBPtoDieIdx param addr)) hpositive.dma0 hplan
      obtain ⟨⟨ch, die, scheduled⟩, hassign, hresult⟩ := bind_eq_ok.1 hresult
      cases hresult
      exact List.forall_mem_cons.2
        ⟨assign_ordered (booked.channels addr.channel) hpositive suits hassign, ih⟩
  | flushFreeSlots _ _ ih => exact ih
  | flushTimeSlots _ _ ih => exact ih

/-- The time counted is the length of the commands, and a tick for each other command. -/
theorem opBusyTime_eq (oper : Oper)
    (ordered : ∀ entry ∈ log, entry.scheduled.tsDMA0.1 ≤ entry.scheduled.tsDMA1.2) :
    (OpStatistics.ofLog log).opBusyTime oper =
      ((opIntervals oper log).map fun i => i.2 - i.1).sum +
        log.countP fun entry => entry.cmd.operation ≠ oper := by
  induction log with
  | nil => rfl
  | cons entry log ih =>
      have le := ordered entry List.mem_cons_self
      have before := ih fun other hmem => ordered other (List.mem_cons_of_mem _ hmem)
      rw [OpStatistics.opBusyTime_cons, opIntervals_cons, before]
      by_cases own : entry.cmd.operation = oper
      · rw [if_pos own, if_pos own, OpStatistics.ticksOfOp, sub64_of_le (by omega),
          List.countP_cons_of_neg (by simp [own]), List.map_cons, List.sum_cons]
        omega
      · rw [if_neg own, if_neg own, List.countP_cons_of_pos (by simp [own])]
        omega

/-- The time counted for an operation is right if every command has that operation and no
two overlap, and only then. -/
theorem opBusyTime_eq_card_iff (oper : Oper)
    (ordered : ∀ entry ∈ log, entry.scheduled.tsDMA0.1 ≤ entry.scheduled.tsDMA1.2) :
    (OpStatistics.ofLog log).opBusyTime oper = (covered (opIntervals oper log)).card ↔
      (∀ entry ∈ log, entry.cmd.operation = oper) ∧
        (opIntervals oper log).Pairwise fun i j => Disjoint (Ico i.1 i.2) (Ico j.1 j.2) := by
  have le := card_covered_le (opIntervals oper log)
  have others : log.countP (fun entry => entry.cmd.operation ≠ oper) = 0 ↔
      ∀ entry ∈ log, entry.cmd.operation = oper := by
    simp [List.countP_eq_zero]
  rw [opBusyTime_eq oper ordered, ← card_covered_eq_iff, ← others]
  omega

/-- Over any run the time counted for an operation is right if and only if every command
has that operation and no two overlap; for all operations it is right before the first
command only. -/
theorem op_busy_time_iff (positive : ∀ page operation busy, 1 ≤ lat page operation busy)
    (run : Run lat param log s) :
    (∀ oper, (OpStatistics.ofLog log).opBusyTime oper = (covered (opIntervals oper log)).card ↔
      (∀ entry ∈ log, entry.cmd.operation = oper) ∧
        (opIntervals oper log).Pairwise fun i j => Disjoint (Ico i.1 i.2) (Ico j.1 j.2)) ∧
      ((∀ oper, (OpStatistics.ofLog log).opBusyTime oper =
        (covered (opIntervals oper log)).card) ↔ log = []) := by
  have each := fun oper => opBusyTime_eq_card_iff oper (run.ordered positive)
  refine ⟨each, fun all => ?_, ?_⟩
  · by_contra some
    obtain ⟨entry, hentry⟩ := List.exists_mem_of_ne_nil log some
    have reads := ((each .read).1 (all .read)).1 entry hentry
    have writes := ((each .write).1 (all .write)).1 entry hentry
    cases reads.symm.trans writes
  · rintro rfl oper
    rfl

theorem op_busy_time_iff_two_reads : ∃ first second s,
    Run (fun _ _ _ => 10) oneDie
      [⟨firstPage, ⟨1000, .read⟩, second⟩, ⟨firstPage, ⟨0, .read⟩, first⟩] s ∧
      (OpStatistics.ofLog
        [⟨firstPage, ⟨1000, .read⟩, second⟩, ⟨firstPage, ⟨0, .read⟩, first⟩]).opBusyTime .read =
        (covered (opIntervals .read
          [⟨firstPage, ⟨1000, .read⟩, second⟩, ⟨firstPage, ⟨0, .read⟩, first⟩])).card := by
  have run : Run (fun _ _ _ => 10) oneDie
      [⟨firstPage, ⟨1000, .read⟩, _⟩, ⟨firstPage, ⟨0, .read⟩, _⟩] _ :=
    .submit 2 ⟨1000, .read⟩ firstPage (.submit 2 ⟨0, .read⟩ firstPage (.start rfl) rfl) rfl
  refine ⟨_, _, _, run, ((op_busy_time_iff (by simp) run).1 .read).2 ⟨?_, ?_⟩⟩
  · simp
  · exact List.pairwise_pair.2 (by decide)

/-- Writes that never occur are counted. -/
theorem op_busy_time_of_no_write : ¬ ∀ (lat : Latency) (param : Parameter) (log : List Entry)
    (s : PAL2) (oper : Oper), (∀ page operation busy, 1 ≤ lat page operation busy) →
      Run lat param log s →
        (OpStatistics.ofLog log).opBusyTime oper = (covered (opIntervals oper log)).card := by
  intro all
  have run : Run (fun _ _ _ => 10) oneDie [⟨firstPage, ⟨0, .read⟩, _⟩] _ :=
    .submit 2 ⟨0, .read⟩ firstPage (.start rfl) rfl
  have same := all _ _ _ _ .write (by simp) run
  cases same

end SimpleSSD.PAL.PAL2
