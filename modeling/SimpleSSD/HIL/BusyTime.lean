import SimpleSSD.Foundation.Sweep
import SimpleSSD.Util.Def

/-!
# Busy time

`updateBusyTime` of `hil/hil.cc` and the arrays of `stat` it works on: index 0 is for
reads, 1 for writes and 2 for both.
-/

namespace SimpleSSD.HIL

open SimpleSSD.Foundation

structure BusyStat where
  busy : Fin 3 → Nat
  lastBusyAt : Fin 3 → Tick

namespace BusyStat

def reset : BusyStat where
  busy _ := 0
  lastBusyAt _ := 0

def updateBusyTime (idx : Fin 3) (beginAt endAt : Tick) (s : BusyStat) : BusyStat :=
  if endAt ≤ s.lastBusyAt idx then s
  else
    { busy := Function.update s.busy idx (add64 (s.busy idx)
        (if beginAt < s.lastBusyAt idx then sub64 endAt (s.lastBusyAt idx)
          else sub64 endAt beginAt))
      lastBusyAt := Function.update s.lastBusyAt idx endAt }

structure Call where
  idx : Fin 3
  beginAt : Tick
  endAt : Tick
  deriving DecidableEq, Repr

def run (calls : List Call) (s : BusyStat) : BusyStat :=
  calls.foldl (fun s call => s.updateBusyTime call.idx call.beginAt call.endAt) s

def fed (idx : Fin 3) (calls : List Call) : List (Tick × Tick) :=
  (calls.filter fun call => call.idx = idx).map fun call => (call.beginAt, call.endAt)

/-- Intervals of 64-bit ticks, each begun before it ends and not before the earlier ones. -/
structure InOrder (intervals : List (Tick × Tick)) : Prop where
  ordered : ∀ i ∈ intervals, i.1 ≤ i.2
  word : ∀ i ∈ intervals, i.2 < wordSize
  sorted : intervals.Pairwise fun i j => i.1 ≤ j.1

/-- What the statistics of one index say of the time covered so far. -/
structure Measures (idx : Fin 3) (points : Finset ℕ) (since : Tick) (s : BusyStat) : Prop where
  swept : Swept points since (s.lastBusyAt idx)
  busy : s.busy idx = points.card
  word : s.lastBusyAt idx < wordSize

section Step

variable {idx other : Fin 3} {points : Finset ℕ} {since beginAt endAt : Tick} {s : BusyStat}

theorem updateBusyTime_other (beginAt endAt : Tick) (s : BusyStat) (h : idx ≠ other) :
    (s.updateBusyTime other beginAt endAt).busy idx = s.busy idx ∧
      (s.updateBusyTime other beginAt endAt).lastBusyAt idx = s.lastBusyAt idx := by
  unfold updateBusyTime
  split
  · exact ⟨rfl, rfl⟩
  · exact ⟨Function.update_of_ne h _ _, Function.update_of_ne h _ _⟩

theorem Measures.update (measures : Measures idx points since s) (from_ : since ≤ beginAt)
    (ordered : beginAt ≤ endAt) (word : endAt < wordSize) :
    Measures idx (points ∪ Finset.Ico beginAt endAt) beginAt
      (s.updateBusyTime idx beginAt endAt) := by
  unfold updateBusyTime
  split
  next ends =>
    rw [measures.swept.inside from_ ends]
    exact ⟨measures.swept.later from_, measures.busy, measures.word⟩
  next beyond =>
    have reach := not_le.1 beyond
    obtain ⟨card, swept⟩ := measures.swept.extend from_ reach
    have added : (if beginAt < s.lastBusyAt idx then sub64 endAt (s.lastBusyAt idx)
        else sub64 endAt beginAt) = endAt - max beginAt (s.lastBusyAt idx) := by
      split
      next early => rw [max_eq_right early.le, sub64_of_le reach.le]
      next late => rw [max_eq_left (not_lt.1 late), sub64_of_le ordered]
    have fits := swept.card_le.trans_lt word
    refine ⟨?_, ?_, ?_⟩
    · simpa only [Function.update_self] using swept
    · simp only [Function.update_self]
      rw [added, measures.busy, add64_of_lt (card ▸ fits), card]
    · simpa only [Function.update_self] using word

theorem Measures.elsewhere (measures : Measures idx points since s) (h : idx ≠ other) :
    Measures idx points since (s.updateBusyTime other beginAt endAt) := by
  obtain ⟨busy, last⟩ := updateBusyTime_other beginAt endAt s h
  refine ⟨?_, ?_, ?_⟩
  · rw [last]
    exact measures.swept
  · rw [busy]
    exact measures.busy
  · rw [last]
    exact measures.word

end Step

theorem run_append (calls : List Call) (call : Call) (s : BusyStat) :
    s.run (calls ++ [call]) =
      (s.run calls).updateBusyTime call.idx call.beginAt call.endAt := by
  simp [run]

theorem fed_append (idx : Fin 3) (calls : List Call) (call : Call) :
    fed idx (calls ++ [call]) =
      fed idx calls ++ if call.idx = idx then [(call.beginAt, call.endAt)] else [] := by
  by_cases h : call.idx = idx <;> simp [fed, h]

/-- The busy time of an index is the length of the union of the intervals fed for it. -/
theorem busy_eq_covered (idx : Fin 3) (calls : List Call) (inOrder : InOrder (fed idx calls)) :
    (reset.run calls).busy idx = (covered (fed idx calls)).card := by
  have measured : ∃ since, (∀ first, (∀ i ∈ fed idx calls, i.1 ≤ first) → since ≤ first) ∧
      Measures idx (covered (fed idx calls)) since (reset.run calls) := by
    induction calls using List.reverseRecOn with
    | nil => exact ⟨0, fun _ _ => Nat.zero_le _, Swept.empty, rfl, Nat.two_pow_pos 64⟩
    | append_singleton calls call ih =>
        rw [fed_append] at inOrder ⊢
        rw [run_append]
        by_cases mine : call.idx = idx
        · rw [if_pos mine] at inOrder ⊢
          subst mine
          have sorted := List.pairwise_append.1 inOrder.sorted
          obtain ⟨since, latest, measures⟩ := ih
            ⟨fun i hi => inOrder.ordered i (List.mem_append_left _ hi),
              fun i hi => inOrder.word i (List.mem_append_left _ hi), sorted.1⟩
          have from_ := latest call.beginAt fun i hi =>
            sorted.2.2 i hi _ (List.mem_singleton_self _)
          have last : (call.beginAt, call.endAt) ∈
              fed call.idx calls ++ [(call.beginAt, call.endAt)] := by simp
          refine ⟨call.beginAt, fun first after => after _ last, ?_⟩
          rw [covered_append]
          exact measures.update from_ (inOrder.ordered _ last) (inOrder.word _ last)
        · rw [if_neg mine, List.append_nil] at inOrder ⊢
          obtain ⟨since, latest, measures⟩ := ih inOrder
          exact ⟨since, latest, measures.elsewhere (Ne.symm mine)⟩
  obtain ⟨since, -, measures⟩ := measured
  exact measures.busy

/-- Two reads that overlap, a write, and a read after a gap. -/
theorem busy_eq_covered_small :
    (reset.run [⟨0, 0, 10⟩, ⟨1, 2, 4⟩, ⟨0, 5, 20⟩, ⟨0, 30, 35⟩]).busy 0 = 25 :=
  (busy_eq_covered 0 [⟨0, 0, 10⟩, ⟨1, 2, 4⟩, ⟨0, 5, 20⟩, ⟨0, 30, 35⟩]
    ⟨by decide, by decide, by decide⟩).trans (by decide)

end BusyStat

end SimpleSSD.HIL
