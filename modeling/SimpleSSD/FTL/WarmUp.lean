import Mathlib.Data.Rat.Floor
import Mathlib.Order.Interval.Set.Defs
import Mathlib.Tactic.Linarith
import SimpleSSD.Foundation.ListSum
import SimpleSSD.FTL.Serving

/-!
# Warm-up

`PageMapping::initialize` fills and invalidates pages before the first request.  A block is
opened when another one is full, so the pages written bound the blocks that leave the free
list; the counts of the warm-up are to stay below the threshold of the garbage collection.
-/

namespace SimpleSSD.FTL

open SimpleSSD.Foundation

/-! ## The counts -/

/-- The ratios of the configuration, without the rounding of the floats. -/
structure Ratios where
  fillingRatio : Set.Icc (0 : ℚ) 1
  invalidRatio : Set.Icc (0 : ℚ) 1
  gcThreshold : Set.Icc (0 : ℚ) 1

def Parameter.freeBlockRatio (param : Parameter) (nFreeBlocks : Nat) : ℚ :=
  nFreeBlocks / param.totalPhysicalBlocks

def Config.withThreshold (cfg : Config) (ratios : Ratios) : Config :=
  { cfg with belowThreshold := fun n => decide (cfg.param.freeBlockRatio n < ratios.gcThreshold) }

/-- The conversion of a float drops the fraction, and what does not fit is undefined. -/
def toUInt64 (x : ℚ) : Except Fault Nat :=
  if -1 < x ∧ x < wordSize then .ok ⌊x⌋₊ else .error .undefined

/-- What `PageMapping::initialize` computes before it writes, and the subtractions of 64-bit
words it makes for that. -/
structure PageCounts where
  nTotalLogicalPages : Nat
  nPagesToWarmup : Nat
  nPagesToInvalidate : Nat
  maxPagesBeforeGC : Nat
  subtractions : List (Nat × Nat)
  deriving DecidableEq

namespace PageMapping

def adjusted (mode : FillingMode)
    (nTotalLogicalPages nPagesToWarmup nPagesToInvalidate maxPagesBeforeGC : Nat) : PageCounts :=
  let adjusts := maxPagesBeforeGC < add64 nPagesToWarmup nPagesToInvalidate
  { nTotalLogicalPages := nTotalLogicalPages
    nPagesToWarmup := nPagesToWarmup
    nPagesToInvalidate :=
      if adjusts then sub64 maxPagesBeforeGC nPagesToWarmup else nPagesToInvalidate
    maxPagesBeforeGC := maxPagesBeforeGC
    subtractions := (if adjusts then [(maxPagesBeforeGC, nPagesToWarmup)] else []) ++
      -- the bounds of the random pages, for each of the two loops that draws them
      match mode with
      | .mode0 => []
      | .mode1 => [(nPagesToWarmup, 1)]
      | .mode2 => [(nTotalLogicalPages, 1), (nTotalLogicalPages, 1)] }

def pageCounts (param : Parameter) (ratios : Ratios) (mode : FillingMode) :
    Except Fault PageCounts := do
  let nTotalLogicalPages := mul64 param.totalLogicalBlocks param.pagesInBlock
  let nPagesToWarmup ← toUInt64 (nTotalLogicalPages * ratios.fillingRatio)
  let nPagesToInvalidate ← toUInt64 (nTotalLogicalPages * ratios.invalidRatio)
  let maxPagesBeforeGC ← toUInt64 (param.pagesInBlock *
    (param.totalPhysicalBlocks * (1 - ratios.gcThreshold) - param.pageCountToMaxPerf))
  .ok (adjusted mode nTotalLogicalPages nPagesToWarmup nPagesToInvalidate maxPagesBeforeGC)

def initializeMapping (cfg : Config) (ratios : Ratios) (mode : FillingMode) (choices : Choices)
    (warmupDraw invalidateDraw : Nat → Nat) (s : PageMapping) : Except Fault PageMapping := do
  let counts ← pageCounts cfg.param ratios mode
  initializeFTL (cfg.withThreshold ratios) choices
    ⟨mode, counts.nPagesToWarmup, counts.nPagesToInvalidate, warmupDraw, invalidateDraw⟩ s

end PageMapping

/-! ## Pages paid for -/

namespace Supply

variable {cfg : Config} {q q' : Supply} {iomap : List Bool} {fill : Nat → Nat} {n : Nat}

variable (cfg) in
def level (q : Supply) : Nat := (q.fills.map (highest cfg)).sum

variable (cfg) in
/-- `written` pages pay for the open blocks and for a whole block for each one that is
neither open nor free. -/
def Paid (written : Nat) (q : Supply) : Prop :=
  cfg.param.pagesInBlock * cfg.param.totalPhysicalBlocks + level cfg q ≤
    written + cfg.param.pagesInBlock * (q.free + cfg.param.pageCountToMaxPerf)

variable (cfg) in
theorem highest_advance_le (iomap : List Bool) (fill : Nat → Nat) :
    highest cfg (advance cfg iomap fill) ≤ highest cfg fill + 1 := by
  unfold highest
  induction List.range cfg.param.ioUnitInPage with
  | nil => simp
  | cons unit units ih =>
      have hunit : advance cfg iomap fill unit ≤ fill unit + 1 := by
        unfold advance
        split_ifs <;> omega
      simp only [List.map_cons, List.foldr_cons]
      omega

@[simp]
theorem highest_zero : highest cfg (fun _ => 0) = 0 := by
  unfold highest
  induction List.range cfg.param.ioUnitInPage with
  | nil => rfl
  | cons unit units ih => simp only [List.map_cons, List.foldr_cons, ih, max_self]

variable (cfg) in
@[simp]
theorem level_rotate (iomap : List Bool) (q : Supply) :
    level cfg (q.rotate cfg iomap) = level cfg q := by
  unfold level rotate
  split_ifs <;> rfl

@[simp]
theorem free_rotate (iomap : List Bool) (q : Supply) : (q.rotate cfg iomap).free = q.free := by
  unfold rotate
  split_ifs <;> rfl

/-- A page more pays for a page that is taken, from an open block or from a free one. -/
theorem Paid.take (h : Paid cfg n q) (htake : q.take cfg iomap = some q') :
    Paid cfg (n + 1) q' := by
  obtain ⟨fill, hfill, hcase⟩ := take_eq_some htake
  have hlevel := level_rotate cfg iomap q
  unfold Paid level at h hlevel ⊢
  rcases hcase with ⟨hfull, hfree, rfl⟩ | ⟨-, rfl⟩
  · have hset := sum_map_set hfill (highest cfg) (advance cfg iomap fun _ => 0)
    have hfresh := highest_advance_le cfg iomap fun _ => 0
    rw [free_rotate] at hfree
    obtain ⟨free, hsucc⟩ := Nat.exists_eq_succ_of_ne_zero hfree
    simp only [free_rotate, hsucc, highest_zero, Nat.succ_eq_add_one, Nat.add_sub_cancel,
      Nat.mul_add, Nat.mul_one] at h hfresh ⊢
    omega
  · have hset := sum_map_set hfill (highest cfg) (advance cfg iomap fill)
    have hnext := highest_advance_le cfg iomap fill
    simp only [free_rotate]
    omega

end Supply

namespace PageMapping

open Supply

variable {cfg : Config} {s s' : PageMapping} {b dst idx n i : Nat} {blk : Block} {tick : Tick}
  {iomap : List Bool} {req : Request cfg} {choices : Choices} {sendToPAL : Bool}
  {start : Nat × Tick × PageMapping} {done acc acc' : Tick × PageMapping} {q : Supply}
  {contents : Nat → Nat → Nat → Option Nat} {detached : Set (Nat × Nat)} {e : Fault}
  {limit lpn : Nat}

/-! ## A write takes a page of the supply -/

theorem getLastFreeBlock_take (hintact : Intact cfg contents detached s)
    (run : getLastFreeBlock cfg iomap s = .ok (dst, s')) :
    ∃ q, s.supply.take cfg iomap = some q := by
  obtain ⟨index, flags, hrotate⟩ := rotate_eq cfg iomap s
  simp only [getLastFreeBlock, hrotate] at run
  split at run
  · cases run
  · rename_i last hlast
    have hfill : (s.lastFreeBlock.map s.fillOf)[index]? = some (s.fillOf last) := by
      rw [List.getElem?_map, hlast, Option.map_some]
    split at run
    · cases run
    · rename_i blk hblk
      have hnext := getNextWritePageIndex_eq hintact hblk
      refine exists_take (by rw [← supply_rotate, hrotate]; exact hfill) fun hfull => ?_
      rw [← supply_rotate, hrotate]
      intro hfree
      rw [if_pos (hnext.trans hfull)] at run
      obtain ⟨fresh, hget, -⟩ := bind_eq_ok.1 run
      exact getFreeBlock_nonempty hget hfree

theorem writeStep_advanced (run : writeStep cfg req sendToPAL start acc idx = .ok acc') :
    Advanced start.1 (fun unit => unit = idx ∧ req.selects idx = true) acc.2 acc'.2 := by
  by_cases hsel : req.selects idx = true
  · obtain ⟨blk, blk', entries, page, accesses, rfl, hblk, -, hwrite, hacc⟩ :=
      writeUnit_eq_ok hsel run
    have hwritten : Advanced start.1 (fun unit => unit = idx ∧ req.selects idx = true) acc.2
        (acc.2.setBlock start.1 blk') := (Advanced.write hblk hwrite).congr (by simp [hsel])
    rw [hacc]
    exact ⟨hwritten.lastFreeBlock, hwritten.turn, hwritten.used, hwritten.free, hwritten.others,
      hwritten.moved, hwritten.stayed⟩
  · cases writeUnit_unselected hsel run
    exact (Advanced.refl start.1 acc.2).congr fun unit => ⟨False.elim, fun hunit => hsel hunit.2⟩

theorem writeSteps_advanced
    (hloop : (List.range cfg.bitsetSize).foldlM (writeStep cfg req sendToPAL start) acc =
      .ok done) :
    Advanced start.1 (fun unit => unit < cfg.bitsetSize ∧ req.selects unit = true)
      acc.2 done.2 := by
  have hdone := foldlM_invariant (fun rest mid => (∀ idx ∈ rest, idx < cfg.bitsetSize) ∧
    rest.Nodup ∧ Advanced start.1 (fun unit => (unit < cfg.bitsetSize ∧ unit ∉ rest) ∧
      req.selects unit = true) acc.2 mid.2) ?_ hloop
    ⟨fun _ => List.mem_range.1, List.nodup_range, (Advanced.refl start.1 acc.2).congr ?_⟩
  · exact hdone.2.2.congr fun unit => by simp
  · rintro idx rest mid mid' ⟨hbound, hnodup, hadvanced⟩ hstep
    obtain ⟨hnotin, hnodup⟩ := List.nodup_cons.1 hnodup
    have hidx := hbound idx List.mem_cons_self
    refine ⟨fun i hi => hbound i (List.mem_cons_of_mem idx hi), hnodup,
      (hadvanced.trans (writeStep_advanced hstep) ?_).congr fun unit => ?_⟩
    · rintro unit ⟨⟨-, hnot⟩, -⟩ ⟨rfl, -⟩
      exact hnot List.mem_cons_self
    · by_cases heq : unit = idx
      · subst heq
        simp [hidx, hnotin]
      · simp [heq]
  · simp only [List.mem_range]
    tauto

theorem write_takes (hintact : Intact cfg s.contents ∅ s) (hslots : OpenSlots s.lastFreeBlock s)
    (hstock : Stocking cfg cfg.param.pageCountToMaxPerf s)
    (hbegin : beginWrite cfg req tick sendToPAL s = .ok start)
    (hloop : (List.range cfg.bitsetSize).foldlM (writeStep cfg req sendToPAL start)
      (tick, recorded cfg req start.2.2) = .ok done) :
    s.supply.take cfg req.ioFlag = some done.2.supply := by
  have hopened := beginWrite_slots hslots hbegin
  obtain ⟨dst, s₁, s₂, hdetach, hopen, rfl⟩ := beginWrite_eq_ok hbegin
  obtain ⟨hdetached, -⟩ := hintact.detach hdetach
  have hsame := detach_sameSlots hdetach
  obtain ⟨q, htake⟩ := getLastFreeBlock_take hdetached hopen
  obtain ⟨dst', s₂', hopen', hslot, rfl⟩ := getLastFreeBlock_supplied hdetached
    (hsame.lastFreeBlock ▸ hslots.same hsame) (hstock.inside (detach_inside hdetach)) htake
  cases hopen.symm.trans hopen'
  rw [← detach_supply hdetach, htake]
  obtain ⟨accesses, hlooked⟩ := accessMapping_eq req tick sendToPAL s₂
  have hwritten := writeSteps_advanced hloop
  rw [hlooked] at hopened hwritten
  have hsupply := hwritten.supply (fun _ => Iff.rfl) (hopened.same (.of_eq rfl rfl rfl)) hslot
  exact congrArg some hsupply.symm

/-! ## The panic of the warm-up -/

def warmUpPanic : Fault := .panic "ftl: GC triggered while in initialization"

theorem beginWrite_ne_warmUp (run : beginWrite cfg req tick sendToPAL s = .error e) :
    e ≠ warmUpPanic := by
  have hopening : ∀ e ∈ openingFaults, e ≠ warmUpPanic := by decide
  rcases bind_eq_error.1 run with hdetach | ⟨s₁, -, run⟩
  · rcases detach_eq_error hdetach with rfl | rfl <;> decide
  · rcases bind_eq_error.1 run with hopen | ⟨opened, -, run⟩
    · exact hopening e (getLastFreeBlock_eq_error hopen)
    · dsimp only at run
      split_ifs at run
      cases run
      decide

theorem writeStep_ne_warmUp (run : writeStep cfg req sendToPAL start acc idx = .error e) :
    e ≠ warmUpPanic := by
  unfold writeStep writeUnit at run
  by_cases hsel : req.selects idx = true
  · rw [if_pos hsel] at run
    split at run
    · rcases bind_eq_error.1 run with hwrite | ⟨blk', -, hdone⟩
      · unfold Block.write at hwrite
        split_ifs at hwrite <;> cases hwrite <;> decide
      · cases hdone
    · cases run
      decide
  · rw [if_neg hsel] at run
    cases run

/-! ## Runs of the warm-up -/

variable (cfg) in
/-- As long as at most `limit` pages are written the threshold is not reached. -/
def Affords (limit : Nat) : Prop :=
  ∀ written q, 0 < written → written ≤ limit → Paid cfg written q →
    cfg.belowThreshold q.free = false

structure WarmingUp (cfg : Config) (written : Nat) (s : PageMapping) : Prop where
  intact : Intact cfg s.contents ∅ s
  slots : OpenSlots s.lastFreeBlock s
  stocking : Stocking cfg cfg.param.pageCountToMaxPerf s
  paid : Paid cfg written s.supply

namespace WarmingUp

theorem above (h : WarmingUp cfg n s) (hlimit : Affords cfg limit) (hn : n < limit)
    (hbegin : beginWrite cfg req tick sendToPAL s = .ok start)
    (hloop : (List.range cfg.bitsetSize).foldlM (writeStep cfg req sendToPAL start)
      (tick, recorded cfg req start.2.2) = .ok done) :
    Paid cfg (n + 1) done.2.supply ∧ cfg.belowThreshold done.2.nFreeBlocks = false := by
  have hpaid := h.paid.take (write_takes h.intact h.slots h.stocking hbegin hloop)
  exact ⟨hpaid, hlimit (n + 1) done.2.supply (Nat.succ_pos n) hn hpaid⟩

theorem step (h : WarmingUp cfg n s) (hlimit : Affords cfg limit) (hn : n < limit)
    (run : Call.apply s (.fill choices lpn : Call cfg) = .ok s') : WarmingUp cfg (n + 1) s' := by
  obtain ⟨⟨tick', mid⟩, hwrite, hpair⟩ := bind_eq_ok.1 run
  cases hpair
  have hstocking := h.stocking.writeInternal hwrite
  obtain ⟨start, done, hbegin, hloop, -, hcollect⟩ := writeInternal_eq_ok hwrite
  obtain ⟨hpaid, habove⟩ := h.above hlimit hn hbegin hloop
  rcases collectIfNeeded_eq_ok hcollect with ⟨-, rfl⟩ | ⟨hbelow, -⟩
  · obtain ⟨hwriting, -⟩ := h.intact.beginWrite hbegin
    obtain ⟨hintact, -⟩ := hwriting.writeUnits (merges_fill lpn _) hloop
    have hslots := written_slots h.slots hbegin hloop
    exact ⟨hintact, hslots, hstocking, hpaid⟩
  · rw [habove] at hbelow
    cases hbelow

theorem ne_warmUp (h : WarmingUp cfg n s) (hlimit : Affords cfg limit) (hn : n < limit)
    (run : Call.apply s (.fill choices lpn : Call cfg) = .error e) : e ≠ warmUpPanic := by
  rcases bind_eq_error.1 run with hwrite | ⟨done, -, hpair⟩
  · rw [writeInternal_eq] at hwrite
    rcases bind_eq_error.1 hwrite with hbegin | ⟨start, hbegin, hwrite⟩
    · exact beginWrite_ne_warmUp hbegin
    rcases bind_eq_error.1 hwrite with hloop | ⟨done, hloop, hwrite⟩
    · obtain ⟨v, -, herror⟩ := exists_visit_of_error hloop
      exact writeStep_ne_warmUp herror
    · obtain ⟨-, habove⟩ := h.above hlimit hn hbegin hloop
      unfold collectIfNeeded at hwrite
      rw [habove] at hwrite
      cases hwrite
  · cases hpair

theorem construct (h : construct cfg = .ok s) : WarmingUp cfg 0 s := by
  refine ⟨(construct_intact h).1, construct_slots h, construct_stocking h, ?_⟩
  have hdone := foldlM_invariant (fun rest (mid : PageMapping) =>
    (∀ blk ∈ mid.freeBlocks, ∀ unit, blk.nextWritePageIndex unit = 0) ∧
      (∀ b, mid.fillOf b = fun _ => 0) ∧
      mid.nFreeBlocks + cfg.param.pageCountToMaxPerf =
        cfg.param.totalPhysicalBlocks + rest.length) ?_ h ⟨?_, fun _ => rfl, by simp⟩
  · obtain ⟨-, hempty, hcount⟩ := hdone
    have hlevel : level cfg s.supply = 0 := by
      simp [level, supply, hempty, List.sum_eq_zero_iff]
    unfold Paid
    change _ ≤ 0 + cfg.param.pagesInBlock * (s.nFreeBlocks + _)
    simp [hlevel, hcount]
  · rintro i rest mid mid' ⟨hfresh, hempty, hcount⟩ hstep
    obtain ⟨⟨b, opened⟩, hget, hpair⟩ := bind_eq_ok.1 hstep
    cases hpair
    have hfree := getFreeBlock_nonempty hget
    obtain ⟨blk, free, hperm, -, -, rfl⟩ := getFreeBlock_eq_ok hget
    refine ⟨fun other hother => hfresh other (hperm.mem_iff.2 (List.mem_cons_of_mem blk hother)),
      fun b' => ?_, ?_⟩
    · have hopened := congrFun (fillOf_setBlock b blk mid) b'
      have hzero : blk.nextWritePageIndex = fun _ => 0 :=
        funext (hfresh blk (hperm.mem_iff.2 List.mem_cons_self))
      refine hopened.trans ?_
      by_cases heq : b' = b
      · rw [heq, Function.update_self, hzero]
      · rw [Function.update_of_ne heq, hempty]
    · rw [List.length_cons] at hcount
      change mid.nFreeBlocks - 1 + _ = _
      omega
  · intro blk hblk unit
    obtain ⟨idx, -, rfl⟩ := List.mem_map.1 hblk
    rfl

end WarmingUp

theorem lpns_length (filling : Filling) :
    filling.lpns.length = filling.nPagesToWarmup + filling.nPagesToInvalidate := by
  unfold Filling.lpns
  split <;> simp

theorem initializeFTL_ne_warmUp {filling : Filling} (hconstruct : PageMapping.construct cfg = .ok s)
    (hlimit : Affords cfg limit)
    (hpages : filling.nPagesToWarmup + filling.nPagesToInvalidate ≤ limit) :
    initializeFTL cfg choices filling s ≠ .error warmUpPanic := by
  intro herror
  obtain ⟨v, hv, hfail⟩ := exists_visit_of_error herror
  have hvisit := visits_invariant (fun rest mid =>
    ∃ n, n + rest.length = filling.lpns.length ∧ WarmingUp cfg n mid) ?_
      ⟨0, Nat.zero_add _, .construct hconstruct⟩ v hv
  · obtain ⟨rest, n, hcount, hwarming⟩ := hvisit
    rw [lpns_length, List.length_cons] at hcount
    exact hwarming.ne_warmUp hlimit (by omega) hfail rfl
  · rintro lpn rest mid mid' ⟨n, hcount, hwarming⟩ hstep
    rw [lpns_length, List.length_cons] at hcount
    exact ⟨n + 1, by rw [lpns_length]; omega, hwarming.step hlimit (by omega) hstep⟩

/-! ## The threshold and the counts -/

/-- The pages that can be written before the garbage collection, before they are counted. -/
def room (param : Parameter) (ratios : Ratios) : ℚ :=
  param.pagesInBlock *
    (param.totalPhysicalBlocks * (1 - ratios.gcThreshold) - param.pageCountToMaxPerf)

theorem affords_room (cfg : Config) (ratios : Ratios) :
    Affords (cfg.withThreshold ratios) ⌊room cfg.param ratios⌋₊ := by
  intro written q hpos hle hpaid
  have hroom := (Nat.le_floor_iff' hpos.ne').1 hle
  have hpaid : ((cfg.param.pagesInBlock * cfg.param.totalPhysicalBlocks : Nat) : ℚ) ≤
      (written + cfg.param.pagesInBlock * (q.free + cfg.param.pageCountToMaxPerf) : Nat) :=
    Nat.cast_le.2 (le_trans (Nat.le_add_right ..) hpaid)
  have hwritten : (0 : ℚ) < written := Nat.cast_pos.2 hpos
  unfold room at hroom
  push_cast at hpaid
  have hreserve : (0 : ℚ) ≤ cfg.param.pagesInBlock * cfg.param.pageCountToMaxPerf := by positivity
  have hpages : (0 : ℚ) < cfg.param.pagesInBlock := by
    refine lt_of_le_of_ne (Nat.cast_nonneg _) fun hzero => ?_
    rw [← hzero] at hroom
    linarith
  have hblocks : (0 : ℚ) < cfg.param.totalPhysicalBlocks := by
    refine lt_of_le_of_ne (Nat.cast_nonneg _) fun hzero => ?_
    rw [← hzero] at hroom
    linarith
  have hfree : (ratios.gcThreshold : ℚ) * cfg.param.totalPhysicalBlocks ≤ q.free := by
    refine le_of_mul_le_mul_left ?_ hpages
    linarith
  exact decide_eq_false (not_lt.2 ((le_div_iff₀ hblocks).2 hfree))

structure StaysBelow (cfg : Config) (ratios : Ratios) (mode : FillingMode) (counts : PageCounts) :
    Prop where
  total : counts.nPagesToWarmup + counts.nPagesToInvalidate ≤ counts.maxPagesBeforeGC
  unwrapped : ∀ sub ∈ counts.subtractions, sub.2 ≤ sub.1
  quiet : ∀ choices warmupDraw invalidateDraw start,
    PageMapping.construct (cfg.withThreshold ratios) = .ok start →
      initializeMapping cfg ratios mode choices warmupDraw invalidateDraw start ≠
        .error warmUpPanic

def logicalPages (param : Parameter) : Nat := mul64 param.totalLogicalBlocks param.pagesInBlock

/-- The filling alone fits, no number leaves its word, and there is a page to draw. -/
structure Affordable (param : Parameter) (ratios : Ratios) (mode : FillingMode) : Prop where
  representable : -1 < room param ratios ∧ room param ratios < wordSize
  filled : ⌊logicalPages param * (ratios.fillingRatio : ℚ)⌋₊ ≤ ⌊room param ratios⌋₊
  counted : ⌊logicalPages param * (ratios.fillingRatio : ℚ)⌋₊ +
    ⌊logicalPages param * (ratios.invalidRatio : ℚ)⌋₊ < wordSize
  drawn : (mode = .mode1 → 1 ≤ logicalPages param * (ratios.fillingRatio : ℚ)) ∧
    (mode = .mode2 → 0 < logicalPages param)

theorem share_fits (param : Parameter) (ratio : Set.Icc (0 : ℚ) 1) :
    -1 < logicalPages param * (ratio : ℚ) ∧ logicalPages param * (ratio : ℚ) < wordSize := by
  obtain ⟨ratio, hnonneg, hle⟩ := ratio
  have hpages : (logicalPages param : ℚ) < wordSize :=
    Nat.cast_lt.2 (Nat.mod_lt _ (by decide))
  have hshare : (0 : ℚ) ≤ logicalPages param * ratio := mul_nonneg (Nat.cast_nonneg _) hnonneg
  exact ⟨by linarith, lt_of_le_of_lt (mul_le_of_le_one_right (Nat.cast_nonneg _) hle) hpages⟩

theorem share_lt (param : Parameter) (ratio : Set.Icc (0 : ℚ) 1) :
    ⌊logicalPages param * (ratio : ℚ)⌋₊ < wordSize :=
  (Nat.floor_lt (mul_nonneg (Nat.cast_nonneg _) ratio.2.1)).2 (share_fits param ratio).2

variable {param : Parameter} {ratios : Ratios} {mode : FillingMode} {counts : PageCounts}

theorem toUInt64_eq_ok {x : ℚ} : toUInt64 x = .ok n ↔ (-1 < x ∧ x < wordSize) ∧ ⌊x⌋₊ = n := by
  unfold toUInt64
  by_cases h : -1 < x ∧ x < wordSize
  · rw [if_pos h, Except.ok.injEq, and_iff_right h]
  · rw [if_neg h]
    exact ⟨nofun, fun hfits => absurd hfits.1 h⟩

theorem pageCounts_eq_ok : pageCounts param ratios mode = .ok counts ↔
    (-1 < room param ratios ∧ room param ratios < wordSize) ∧
      adjusted mode (logicalPages param) ⌊logicalPages param * (ratios.fillingRatio : ℚ)⌋₊
        ⌊logicalPages param * (ratios.invalidRatio : ℚ)⌋₊ ⌊room param ratios⌋₊ = counts := by
  unfold pageCounts
  simp only [bind_eq_ok, toUInt64_eq_ok, Except.ok.injEq]
  constructor
  · rintro ⟨-, ⟨-, rfl⟩, -, ⟨-, rfl⟩, -, ⟨hroom, rfl⟩, rfl⟩
    exact ⟨hroom, rfl⟩
  · rintro ⟨hroom, rfl⟩
    exact ⟨_, ⟨share_fits param ratios.fillingRatio, rfl⟩, _,
      ⟨share_fits param ratios.invalidRatio, rfl⟩, _, ⟨hroom, rfl⟩, rfl⟩

theorem adjusted_fits {total warmup invalid : Nat} (hwarmup : warmup < wordSize)
    (hinvalid : invalid < wordSize) (hlimit : limit < wordSize) :
    ((adjusted mode total warmup invalid limit).nPagesToWarmup +
        (adjusted mode total warmup invalid limit).nPagesToInvalidate ≤ limit ∧
      ∀ sub ∈ (adjusted mode total warmup invalid limit).subtractions, sub.2 ≤ sub.1) ↔
    warmup ≤ limit ∧ warmup + invalid < wordSize ∧
      (mode = .mode1 → 1 ≤ warmup) ∧ (mode = .mode2 → 0 < total) := by
  have hdrawn : (∀ sub ∈ (adjusted mode total warmup invalid limit).subtractions,
      sub.2 ≤ sub.1) ↔ (limit < add64 warmup invalid → warmup ≤ limit) ∧
        (mode = .mode1 → 1 ≤ warmup) ∧ (mode = .mode2 → 0 < total) := by
    unfold adjusted
    by_cases hadjust : limit < add64 warmup invalid <;> cases mode <;> simp [hadjust]
    all_goals omega
  have hsum : add64 warmup invalid = warmup + invalid ∧ warmup + invalid < wordSize ∨
      add64 warmup invalid + wordSize = warmup + invalid := by
    simp only [add64, wordSize] at *
    omega
  rw [hdrawn]
  unfold adjusted
  dsimp only
  by_cases hadjust : limit < add64 warmup invalid
  · rw [if_pos hadjust]
    refine ⟨fun h => ?_, fun h => ?_⟩
    · have hle := h.2.1 hadjust
      exact ⟨hle, by omega, h.2.2⟩
    · have hle := sub64_of_le h.1
      exact ⟨by omega, fun _ => h.1, h.2.2⟩
  · rw [if_neg hadjust]
    exact ⟨fun h => ⟨by omega, by omega, h.2.2⟩, fun h => ⟨by omega, fun _ => h.1, h.2.2⟩⟩

/-- The warm-up stays below the limit of the garbage collection exactly when the filling alone
fits, the numbers fit in their words, and there is a page to draw at random. -/
theorem warm_up_stays_below (cfg : Config) (ratios : Ratios) (mode : FillingMode) :
    (∃ counts, pageCounts cfg.param ratios mode = .ok counts ∧
      StaysBelow cfg ratios mode counts) ↔ Affordable cfg.param ratios mode := by
  have hwarmup := share_lt cfg.param ratios.fillingRatio
  have hinvalid := share_lt cfg.param ratios.invalidRatio
  have hlimit : room cfg.param ratios < wordSize → ⌊room cfg.param ratios⌋₊ < wordSize :=
    fun h => (Nat.floor_lt' (by decide)).2 h
  have hdraw : 1 ≤ ⌊logicalPages cfg.param * (ratios.fillingRatio : ℚ)⌋₊ ↔
      1 ≤ logicalPages cfg.param * (ratios.fillingRatio : ℚ) :=
    Nat.one_le_floor_iff _
  constructor
  · rintro ⟨counts, hcounts, hbelow⟩
    obtain ⟨hroom, rfl⟩ := pageCounts_eq_ok.1 hcounts
    obtain ⟨hfilled, hcounted, hfirst, hsecond⟩ :=
      (adjusted_fits hwarmup hinvalid (hlimit hroom.2)).1 ⟨hbelow.total, hbelow.unwrapped⟩
    exact ⟨hroom, hfilled, hcounted, fun h => hdraw.1 (hfirst h), hsecond⟩
  · intro h
    have hcounts : pageCounts cfg.param ratios mode = .ok _ :=
      pageCounts_eq_ok.2 ⟨h.representable, rfl⟩
    obtain ⟨htotal, hunwrapped⟩ := (adjusted_fits hwarmup hinvalid
      (hlimit h.representable.2)).2
      ⟨h.filled, h.counted, fun hmode => hdraw.2 (h.drawn.1 hmode), h.drawn.2⟩
    refine ⟨_, hcounts, htotal, hunwrapped,
      fun choices warmupDraw invalidateDraw start hconstruct => ?_⟩
    unfold initializeMapping
    rw [hcounts]
    exact initializeFTL_ne_warmUp hconstruct (affords_room cfg ratios) htotal

/-! ## A filling that does not fit -/

def halfFree (filling : Set.Icc (0 : ℚ) 1) : Ratios where
  fillingRatio := filling
  invalidRatio := ⟨0, by norm_num⟩
  gcThreshold := ⟨1 / 2, by norm_num⟩

/-- Half of the logical pages fit. -/
example : Affordable smallConfig.param (halfFree ⟨1 / 2, by norm_num⟩) .mode1 :=
  ⟨by decide +kernel, by decide +kernel, by decide +kernel, by decide +kernel⟩

def fullRatios : Ratios := halfFree ⟨1, by norm_num⟩

theorem fullRatios_counts : pageCounts smallConfig.param fullRatios .mode0 =
    .ok ⟨4, 4, wordSize - 2, 2, [(2, 4)]⟩ := by
  decide +kernel

theorem fifth_page_panics {start : PageMapping}
    (hconstruct : PageMapping.construct (smallConfig.withThreshold fullRatios) = .ok start)
    (n : Nat) :
    initializeFTL (smallConfig.withThreshold fullRatios) plainChoices ⟨.mode0, 4, n + 1, id, id⟩
      start = .error warmUpPanic := by
  have hrun : (do
      let start ← PageMapping.construct (smallConfig.withThreshold fullRatios)
      let _ ← [0, 1, 2, 3, 0].foldlM (fun s lpn => Call.apply s
        (.fill plainChoices lpn : Call (smallConfig.withThreshold fullRatios))) start
      .ok ()) = (.error warmUpPanic : Except Fault Unit) := by
    decide +kernel
  have hlpns : Filling.lpns ⟨.mode0, 4, n + 1, id, id⟩ =
      [0, 1, 2, 3, 0] ++ (List.range n).map Nat.succ := by
    unfold Filling.lpns
    simp only [List.range_succ_eq_map]
    rfl
  rcases bind_eq_error.1 hrun with hfault | ⟨start', hstart, hrun⟩
  · rw [hconstruct] at hfault
    cases hfault
  · cases hconstruct.symm.trans hstart
    rcases bind_eq_error.1 hrun with hfault | ⟨done, -, hdone⟩
    · unfold initializeFTL
      rw [hlpns, List.foldlM_append]
      exact bind_eq_error.2 (.inl hfault)
    · cases hdone

/-- All logical pages do not fit: the number of pages to invalidate wraps, and the warm-up
panics. -/
theorem warm_up_overfilled :
    (¬ ∃ counts, pageCounts smallConfig.param fullRatios .mode0 = .ok counts ∧
      StaysBelow smallConfig fullRatios .mode0 counts) ∧
    ∃ start, PageMapping.construct (smallConfig.withThreshold fullRatios) = .ok start ∧
      initializeMapping smallConfig fullRatios .mode0 plainChoices id id start =
        .error warmUpPanic := by
  constructor
  · rintro ⟨counts, hcounts, hbelow⟩
    obtain rfl := Except.ok.inj (fullRatios_counts.symm.trans hcounts)
    exact absurd (hbelow.unwrapped (2, 4) List.mem_cons_self) (by decide)
  · obtain ⟨start, hconstruct⟩ := exists_of_isOk (x := PageMapping.construct
      (smallConfig.withThreshold fullRatios)) (by decide +kernel)
    obtain ⟨n, hn⟩ := Nat.exists_eq_succ_of_ne_zero (show wordSize - 2 ≠ 0 by decide)
    refine ⟨start, hconstruct, ?_⟩
    unfold initializeMapping
    rw [fullRatios_counts, hn]
    exact fifth_page_panics hconstruct n

end PageMapping

end SimpleSSD.FTL
