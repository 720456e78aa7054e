import Mathlib.Data.List.TakeWhile
import SimpleSSD.FTL.FormatRun

/-!
# Accounting of free blocks

Every physical block is in use, free or retired.  The free blocks are counted and stand in the
order of their erases, which an erased block that comes back keeps.
-/

namespace SimpleSSD.FTL.PageMapping

open SimpleSSD.Foundation

def Retired (cfg : Config) (s : PageMapping) (b : Nat) : Prop :=
  0 < s.erasesOf b ∧ cfg.badBlockThreshold ≤ s.erasesOf b

def ByErases (free : List Block) : Prop := free.Pairwise fun a b => a.eraseCount ≤ b.eraseCount

structure FreeAccount (cfg : Config) (s : PageMapping) : Prop where
  count : s.nFreeBlocks = s.freeBlocks.length
  sorted : ByErases s.freeBlocks
  distinct : (s.freeBlocks.map Block.idx).Nodup
  used : ∀ b blk, s.blocks b = some blk → b < cfg.param.totalPhysicalBlocks ∧ blk.idx = b ∧
    blk.eraseCount = s.erasesOf b ∧ ¬ Retired cfg s b
  free : ∀ blk ∈ s.freeBlocks, blk.idx < cfg.param.totalPhysicalBlocks ∧
    s.blocks blk.idx = none ∧ blk.eraseCount = s.erasesOf blk.idx ∧ ¬ Retired cfg s blk.idx
  retired : ∀ b < cfg.param.totalPhysicalBlocks, s.blocks b = none →
    b ∉ s.freeBlocks.map Block.idx → Retired cfg s b

variable {cfg : Config} {s s' : PageMapping} {b i : Nat} {blk : Block} {free : List Block}
  {tick tick' : Tick} {req : PALRequest}

/-! ## The place of an erased block -/

/-- Behind all blocks with no more erases, and before all others. -/
def InPlace (blk : Block) (free free' : List Block) : Prop :=
  ∃ early late, free = early ++ late ∧ free' = early ++ blk :: late ∧
    (∀ other ∈ early, other.eraseCount ≤ blk.eraseCount) ∧
    ∀ other ∈ late, blk.eraseCount < other.eraseCount

theorem insertFree_inPlace (blk : Block) (sorted : ByErases free) :
    InPlace blk free (insertFree blk free) := by
  have hwhole : free = (free.reverse.dropWhile fun other =>
        decide (blk.eraseCount < other.eraseCount)).reverse ++
      (free.reverse.takeWhile fun other => decide (blk.eraseCount < other.eraseCount)).reverse := by
    rw [← List.reverse_append, List.takeWhile_append_dropWhile, List.reverse_reverse]
  refine ⟨_, _, hwhole, rfl, fun other hother => ?_, fun other hother => ?_⟩
  · -- the last of the early blocks has no more erases, and the others have no more than it
    have descending : free.reverse.Pairwise fun a b => b.eraseCount ≤ a.eraseCount :=
      List.pairwise_reverse.2 sorted
    have suffix := descending.sublist (List.dropWhile_sublist
      fun other : Block => decide (blk.eraseCount < other.eraseCount))
    have stops := List.head?_dropWhile_not
      (fun other : Block => decide (blk.eraseCount < other.eraseCount)) free.reverse
    rw [List.mem_reverse] at hother
    generalize free.reverse.dropWhile
      (fun other => decide (blk.eraseCount < other.eraseCount)) = rest at hother suffix stops
    cases rest with
    | nil => cases hother
    | cons first rest =>
        have hfirst : first.eraseCount ≤ blk.eraseCount := by simpa using stops
        rcases List.mem_cons.1 hother with rfl | hother
        · exact hfirst
        · exact (List.rel_of_pairwise_cons suffix hother).trans hfirst
  · simpa using List.mem_takeWhile_imp (List.mem_reverse.1 hother)

theorem InPlace.sorted {free' : List Block} (h : InPlace blk free free') (sorted : ByErases free) :
    ByErases free' := by
  obtain ⟨early, late, rfl, rfl, before, behind⟩ := h
  obtain ⟨hearly, hlate, hacross⟩ := List.pairwise_append.1 sorted
  refine List.pairwise_append.2 ⟨hearly, List.pairwise_cons.2 ⟨fun other hother =>
    (behind other hother).le, hlate⟩, fun a ha other hother => ?_⟩
  rcases List.mem_cons.1 hother with rfl | hother
  · exact before a ha
  · exact hacross a ha other hother

/-! ## Steps -/

theorem takeFree_sublist {rest : List Block} (h : takeFree cfg i free = some (blk, rest)) :
    rest.Sublist free := by
  unfold takeFree at h
  split at h
  · cases h
    exact List.eraseP_sublist
  · split at h
    · cases h
    · cases h
      exact List.sublist_cons_self _ _

theorem getFreeBlock_sublist (h : getFreeBlock cfg i s = .ok (b, s')) :
    s'.freeBlocks.Sublist s.freeBlocks := by
  unfold getFreeBlock at h
  split_ifs at h
  split at h
  · cases h
  · rename_i blk rest htake
    split_ifs at h
    cases h
    exact takeFree_sublist htake

theorem FreeAccount.quiet (h : FreeAccount cfg s) (hquiet : Quiet s s') : FreeAccount cfg s' := by
  have hretired : ∀ b, Retired cfg s' b ↔ Retired cfg s b := by
    intro b
    simp only [Retired, hquiet.erasesOf]
  constructor
  · rw [hquiet.nFreeBlocks, hquiet.freeBlocks]
    exact h.count
  · rw [hquiet.freeBlocks]
    exact h.sorted
  · rw [hquiet.freeBlocks]
    exact h.distinct
  · intro b blk hblk
    obtain ⟨old, hold, hidx, hcount⟩ := hquiet.old hblk
    rw [hidx, hcount, hquiet.erasesOf, hretired]
    exact h.used b old hold
  · intro blk hblk
    rw [hquiet.freeBlocks] at hblk
    rw [hquiet.eq_none_iff, hquiet.erasesOf, hretired]
    exact h.free blk hblk
  · intro b hb hnone hfree
    rw [hquiet.eq_none_iff] at hnone
    rw [hquiet.freeBlocks] at hfree
    rw [hretired]
    exact h.retired b hb hnone hfree

theorem FreeAccount.getFreeBlock (h : FreeAccount cfg s)
    (run : getFreeBlock cfg i s = .ok (b, s')) : FreeAccount cfg s' := by
  have hsublist := getFreeBlock_sublist run
  obtain ⟨blk, rest, hperm, rfl, hnone, rfl⟩ := getFreeBlock_eq_ok run
  have hindices := hperm.map Block.idx
  have hdistinct := hindices.nodup_iff.1 h.distinct
  rw [List.map_cons, List.nodup_cons] at hdistinct
  constructor
  · have hlength := hperm.length_eq
    rw [List.length_cons, ← h.count] at hlength
    change s.nFreeBlocks - 1 = rest.length
    omega
  · exact h.sorted.sublist hsublist
  · exact hdistinct.2
  · intro b other hother
    rcases mem_update_blocks (s := s) hother with ⟨rfl, rfl⟩ | hold
    · obtain ⟨hlt, -, hcount, hretired⟩ := h.free other (hperm.mem_iff.2 List.mem_cons_self)
      exact ⟨hlt, rfl, hcount, hretired⟩
    · exact h.used b other hold
  · intro other hother
    obtain ⟨hlt, hunused, hcount⟩ := h.free other (hsublist.subset hother)
    refine ⟨hlt, ?_, hcount⟩
    have hne : other.idx ≠ blk.idx := fun heq =>
      hdistinct.1 (heq ▸ List.mem_map_of_mem hother)
    exact (Function.update_of_ne hne _ _).trans hunused
  · intro b hb hunused hfree
    have hne : b ≠ blk.idx := by
      rintro rfl
      simp at hunused
    refine h.retired b hb ((Function.update_of_ne hne _ _).symm.trans hunused) fun hmem => ?_
    rcases List.mem_cons.1 (hindices.mem_iff.1 hmem) with heq | hmem
    · exact hne heq
    · exact hfree hmem

theorem erasesOf_erase (req : PALRequest) (b : Nat) (accesses : List Access) :
    (Access.palErase req :: accesses).countP (Access.erases b) =
      accesses.countP (Access.erases b) + if b = req.blockIndex then 1 else 0 := by
  rw [List.countP_cons]
  by_cases heq : b = req.blockIndex
  · simp [Access.erases, heq]
  · simp [Access.erases, heq, Ne.symm heq]

theorem FreeAccount.eraseInternal (h : FreeAccount cfg s)
    (run : eraseInternal cfg req tick s = .ok (tick', s')) : FreeAccount cfg s' := by
  obtain ⟨blk, mid, hblk, -, hmid, rfl⟩ := eraseInternal_reinserts run
  obtain ⟨hlt, hidx, hcount, -⟩ := h.used _ blk hblk
  have hother : ∀ other ∈ s.freeBlocks, other.idx ≠ req.blockIndex := by
    intro other hmem heq
    have hunused := (h.free other hmem).2.1
    rw [heq, hblk] at hunused
    cases hunused
  -- the erase is counted for its own block only
  have hself : (Access.palErase req :: s.accesses).countP (Access.erases req.blockIndex) =
      blk.erase.eraseCount := by
    rw [erasesOf_erase, if_pos rfl]
    exact congrArg (· + 1) hcount.symm
  have hrest : ∀ b, b ≠ req.blockIndex →
      (Access.palErase req :: s.accesses).countP (Access.erases b) = s.erasesOf b := by
    intro b hne
    rw [erasesOf_erase, if_neg hne]
    rfl
  have hused : ∀ b other, Function.update s.blocks req.blockIndex none b = some other →
      b ≠ req.blockIndex ∧ s.blocks b = some other := by
    intro b other hmem
    by_cases heq : b = req.blockIndex
    · simp [heq] at hmem
    · exact ⟨heq, by simpa [heq] using hmem⟩
  rcases reinsert_eq_ok hmid with ⟨hfresh, -, rfl⟩ | ⟨hworn, rfl⟩
  · have hplace := insertFree_inPlace blk.erase h.sorted
    have hperm := insertFree_perm blk.erase s.freeBlocks
    have hindices := hperm.map Block.idx
    constructor
    · exact (congrArg (· + 1) h.count).trans hperm.length_eq.symm
    · exact hplace.sorted h.sorted
    · rw [hindices.nodup_iff, List.map_cons, List.nodup_cons]
      refine ⟨fun hmem => ?_, h.distinct⟩
      obtain ⟨other, hold, heq⟩ := List.mem_map.1 hmem
      exact hother other hold (heq.trans hidx)
    · intro b other hmem
      obtain ⟨hne, hold⟩ := hused b other hmem
      simp only [erasesOf, Retired, hrest b hne]
      exact h.used b other hold
    · intro other hmem
      rcases List.mem_cons.1 (hperm.mem_iff.1 hmem) with rfl | hold
      · have hidx : blk.erase.idx = req.blockIndex := hidx
        simp only [erasesOf, Retired, hidx, hself, Function.update_self]
        exact ⟨hlt, trivial, trivial, fun hretired => not_lt.2 hretired.2 hfresh⟩
      · have hne := hother other hold
        simp only [erasesOf, Retired, hrest _ hne, Function.update_of_ne hne]
        exact h.free other hold
    · intro b hb hnone hfree
      have hne : b ≠ req.blockIndex := by
        rintro rfl
        exact hfree (hindices.mem_iff.2 (List.mem_cons.2 (.inl hidx.symm)))
      simp only [erasesOf, Retired, hrest b hne]
      exact h.retired b hb ((Function.update_of_ne hne _ _).symm.trans hnone) fun hmem =>
        hfree (hindices.mem_iff.2 (List.mem_cons_of_mem _ hmem))
  · constructor
    · exact h.count
    · exact h.sorted
    · exact h.distinct
    · intro b other hmem
      obtain ⟨hne, hold⟩ := hused b other hmem
      simp only [erasesOf, Retired, hrest b hne]
      exact h.used b other hold
    · intro other hmem
      have hne := hother other hmem
      simp only [erasesOf, Retired, hrest _ hne, Function.update_of_ne hne]
      exact h.free other hmem
    · intro b hb hnone hfree
      by_cases heq : b = req.blockIndex
      · rw [heq]
        simp only [erasesOf, Retired, hself]
        exact ⟨Nat.succ_pos _, hworn⟩
      · simp only [erasesOf, Retired, hrest b heq]
        exact h.retired b hb ((Function.update_of_ne heq _ _).symm.trans hnone) hfree

theorem moves_freeAccount : Moves cfg (FreeAccount cfg) where
  quiet hquiet h := h.quiet hquiet
  getFreeBlock run h := h.getFreeBlock run
  eraseInternal run h := h.eraseInternal run

/-! ## Runs -/

theorem constructing_account (cfg : Config) : FreeAccount cfg (unopened cfg) := by
  constructor
  · simp [unopened]
  · exact List.pairwise_map.2 (List.pairwise_of_forall fun _ _ => le_refl 0)
  · simp [unopened, List.map_map, Function.comp_def, Block.new, Block.erase, List.nodup_range]
  · intro b blk hblk
    cases hblk
  · intro blk hblk
    obtain ⟨idx, hidx, rfl⟩ := List.mem_map.1 hblk
    exact ⟨List.mem_range.1 hidx, rfl, rfl, fun hretired => Nat.lt_irrefl 0 hretired.1⟩
  · intro b hb _ hfree
    refine absurd (List.mem_map.2 ⟨_, List.mem_map_of_mem (List.mem_range.2 hb), rfl⟩) hfree

theorem construct_account (h : construct cfg = .ok s) : FreeAccount cfg s := by
  refine foldlM_invariant_mem (FreeAccount cfg) (fun i _ s s' account hstep => ?_) h
    (constructing_account cfg)
  obtain ⟨⟨block, mid⟩, hget, hpair⟩ := bind_eq_ok.1 hstep
  cases hpair
  exact (account.getFreeBlock hget).quiet (.of_eq rfl rfl rfl rfl)

theorem FreeAccount.step {step : Step cfg} (h : FreeAccount cfg s)
    (run : step.apply s = .ok s') : FreeAccount cfg s' := by
  cases step with
  | call request => exact moves_freeAccount.apply run h
  | format choices range tick =>
      obtain ⟨⟨done, mid⟩, hformat, hpair⟩ := bind_eq_ok.1 run
      cases hpair
      obtain ⟨⟨t, list⟩, hpages, hformat⟩ := bind_eq_ok.1 hformat
      obtain ⟨⟨done', collected⟩, hgc, hpair⟩ := bind_eq_ok.1 hformat
      cases hpair
      exact moves_freeAccount.doGarbageCollection hgc (h.quiet (formatPages_quiet hpages))

namespace Step

def eraseCalls (s : PageMapping) : Step cfg → List ((Tick × PageMapping) × Nat)
  | .call request => (request.collections s).flatMap fun gc =>
      PageMapping.eraseCalls cfg gc.1 gc.2.1 gc.2.2
  | .format choices range tick => (collected cfg choices range s).flatMap fun gc =>
      PageMapping.eraseCalls cfg gc.2 tick gc.1

end Step

theorem FreeAccount.collected (h : FreeAccount cfg s) {choices : Choices} {range : LPNRange} :
    ∀ gc ∈ collected cfg choices range s, FreeAccount cfg gc.1 := by
  intro gc hgc
  unfold PageMapping.collected at hgc
  split at hgc
  · cases hgc
  · rename_i acc hpages
    have heq := List.mem_singleton.1 hgc
    subst heq
    have hquiet := formatPages_quiet hpages
    exact h.quiet hquiet

theorem FreeAccount.eraseCalls (h : FreeAccount cfg s) (step : Step cfg) :
    ∀ call ∈ step.eraseCalls s, FreeAccount cfg call.1.2 := by
  intro call hcall
  cases step with
  | call request =>
      obtain ⟨gc, hgc, hcall⟩ := List.mem_flatMap.1 hcall
      exact moves_freeAccount.eraseCalls
        (moves_freeAccount.callCollections h request gc hgc) call hcall
  | format choices range tick =>
      obtain ⟨gc, hgc, hcall⟩ := List.mem_flatMap.1 hcall
      exact moves_freeAccount.eraseCalls (h.collected gc hgc) call hcall

/-- An erase puts its block, unless that is worn out, in place exactly when there is a free
block to step back to. -/
def ErasesInPlace (cfg : Config) (s : PageMapping) : Prop :=
  ∀ (req : PALRequest) (tick : Tick) (blk : Block), s.blocks req.blockIndex = some blk →
    blk.getValidPageCount = 0 → blk.erase.eraseCount < cfg.badBlockThreshold →
      ((∃ done, eraseInternal cfg req tick s = .ok done ∧
          InPlace blk.erase s.freeBlocks done.2.freeBlocks) ↔ s.freeBlocks ≠ [])

structure Accounted (cfg : Config) (s : PageMapping) : Prop where
  count : s.nFreeBlocks = s.freeBlocks.length
  sorted : ByErases s.freeBlocks
  distinct : (s.freeBlocks.map Block.idx).Nodup
  places : ∀ b < cfg.param.totalPhysicalBlocks,
    (s.blocks b ≠ none ∧ b ∉ s.freeBlocks.map Block.idx ∧ ¬ Retired cfg s b) ∨
    (s.blocks b = none ∧ b ∈ s.freeBlocks.map Block.idx ∧ ¬ Retired cfg s b) ∨
    (s.blocks b = none ∧ b ∉ s.freeBlocks.map Block.idx ∧ Retired cfg s b)
  erases : ErasesInPlace cfg s

theorem FreeAccount.places (h : FreeAccount cfg s) (hb : b < cfg.param.totalPhysicalBlocks) :
    (s.blocks b ≠ none ∧ b ∉ s.freeBlocks.map Block.idx ∧ ¬ Retired cfg s b) ∨
    (s.blocks b = none ∧ b ∈ s.freeBlocks.map Block.idx ∧ ¬ Retired cfg s b) ∨
    (s.blocks b = none ∧ b ∉ s.freeBlocks.map Block.idx ∧ Retired cfg s b) := by
  have hfree : b ∈ s.freeBlocks.map Block.idx → s.blocks b = none ∧ ¬ Retired cfg s b := by
    intro hmem
    obtain ⟨blk, hblk, rfl⟩ := List.mem_map.1 hmem
    obtain ⟨-, hnone, -, hretired⟩ := h.free blk hblk
    exact ⟨hnone, hretired⟩
  cases hblk : s.blocks b with
  | some blk =>
      obtain ⟨-, -, -, hretired⟩ := h.used b blk hblk
      refine .inl ⟨by simp, fun hmem => ?_, hretired⟩
      rw [(hfree hmem).1] at hblk
      cases hblk
  | none =>
      by_cases hmem : b ∈ s.freeBlocks.map Block.idx
      · exact .inr (.inl ⟨rfl, hmem, (hfree hmem).2⟩)
      · exact .inr (.inr ⟨rfl, hmem, h.retired b hb hblk hmem⟩)

theorem FreeAccount.erasesInPlace (h : FreeAccount cfg s) : ErasesInPlace cfg s := by
  intro req tick blk hblk hvalid hfresh
  constructor
  · rintro ⟨⟨done, s'⟩, herase, -⟩
    obtain ⟨blk', mid, hblk', -, hmid, -⟩ := eraseInternal_reinserts herase
    cases Option.some.inj (hblk.symm.trans hblk')
    rcases reinsert_eq_ok hmid with ⟨-, hnonempty, -⟩ | ⟨hworn, -⟩
    · exact hnonempty
    · omega
  · intro hnonempty
    obtain ⟨⟨done, s'⟩, herase⟩ := eraseInternal_total req tick hblk hvalid (.inl hnonempty)
    refine ⟨(done, s'), herase, ?_⟩
    obtain ⟨blk', mid, hblk', -, hmid, rfl⟩ := eraseInternal_reinserts herase
    cases Option.some.inj (hblk.symm.trans hblk')
    rcases reinsert_eq_ok hmid with ⟨-, -, rfl⟩ | ⟨hworn, -⟩
    · exact insertFree_inPlace blk.erase h.sorted
    · omega

theorem FreeAccount.accounted (h : FreeAccount cfg s) : Accounted cfg s :=
  ⟨h.count, h.sorted, h.distinct, fun _ hb => h.places hb, h.erasesInPlace⟩

/-- Blocks are accounted for in every state between the steps of a run, and wherever a
collection of its next step erases a block. -/
theorem free_blocks_accounted {start : PageMapping} (hconstruct : construct cfg = .ok start)
    {steps : List (Step cfg)} (hrun : steps.foldlM Step.apply start = .ok s) :
    Accounted cfg s ∧ ∀ step : Step cfg, ∀ call ∈ step.eraseCalls s, Accounted cfg call.1.2 := by
  have account := foldlM_invariant_mem (FreeAccount cfg) (fun step _ s s' h hstep => h.step hstep)
    hrun (construct_account hconstruct)
  exact ⟨account.accounted, fun step call hcall => (account.eraseCalls step call hcall).accounted⟩

/-- The fifth write has erased two blocks, and the ninth erases again. -/
theorem free_blocks_accounted_small : ∃ start s, construct smallConfig = .ok start ∧
    (List.replicate 8 (smallWrite 0)).foldlM Step.apply start = .ok s ∧
      0 < s.erasesOf 0 ∧ Accounted smallConfig s ∧
      ∃ call ∈ (smallWrite 0).eraseCalls s, Accounted smallConfig call.1.2 ∧
        call.1.2.freeBlocks ≠ [] := by
  have hrun : (do
      let start ← construct smallConfig
      let s ← (List.replicate 8 (smallWrite 0)).foldlM Step.apply start
      .ok (decide (0 < s.erasesOf 0 ∧
        ∃ call ∈ (smallWrite 0).eraseCalls s, 0 < call.1.2.freeBlocks.length))) =
        (.ok true : Except Fault Bool) := by
    decide +kernel
  obtain ⟨start, hconstruct, hrun⟩ := bind_eq_ok.1 hrun
  obtain ⟨s, hsteps, hdecide⟩ := bind_eq_ok.1 hrun
  obtain ⟨herased, call, hcall, hfree⟩ := of_decide_eq_true (Except.ok.inj hdecide)
  obtain ⟨haccounted, herases⟩ := free_blocks_accounted hconstruct hsteps
  exact ⟨start, s, hconstruct, hsteps, herased, haccounted, call, hcall,
    herases _ call hcall, List.length_pos_iff.1 hfree⟩

/-! ## No free block is left -/

def lastBlockConfig : Config :=
  { smallConfig with belowThreshold := fun n => decide (n = 0) }

def lastBlockWrite : Call lastBlockConfig :=
  .op (.write plainChoices ⟨0, [true, true], .inl rfl⟩ 0)

theorem error_of_map {α : Type} {x : Except Fault α} {e : Fault}
    (h : x.map (fun _ => ()) = .error e) : x = .error e := by
  cases x with
  | ok a => cases h
  | error e' =>
      cases h
      rfl

/-- The seventh write takes the last free block, and the first block that it collects has nothing
to be put behind. -/
theorem erase_undefined :
    lastBlockConfig.param.totalLogicalBlocks + lastBlockConfig.param.pageCountToMaxPerf <
      lastBlockConfig.param.totalPhysicalBlocks ∧
    ∃ start s, construct lastBlockConfig = .ok start ∧
      (List.replicate 6 (Step.call lastBlockWrite)).foldlM Step.apply start = .ok s ∧
      (∃ call ∈ (Step.call lastBlockWrite).eraseCalls s, call.1.2.freeBlocks = [] ∧
        eraseStep lastBlockConfig 0 call.1 call.2 = .error .undefined) ∧
      lastBlockWrite.apply s = .error .undefined := by
  have hrun : (do
      let start ← construct lastBlockConfig
      let s ← (List.replicate 6 (Step.call lastBlockWrite)).foldlM Step.apply start
      .ok (decide ((∃ call ∈ (Step.call lastBlockWrite).eraseCalls s,
          call.1.2.freeBlocks.length = 0 ∧
          (eraseStep lastBlockConfig 0 call.1 call.2).map (fun _ => ()) = .error .undefined) ∧
        (lastBlockWrite.apply s).map (fun _ => ()) = .error .undefined))) =
        (.ok true : Except Fault Bool) := by
    decide +kernel
  obtain ⟨start, hconstruct, hrun⟩ := bind_eq_ok.1 hrun
  obtain ⟨s, hsteps, hdecide⟩ := bind_eq_ok.1 hrun
  obtain ⟨⟨call, hcall, hempty, herase⟩, hwrite⟩ := of_decide_eq_true (Except.ok.inj hdecide)
  exact ⟨by decide, start, s, hconstruct, hsteps,
    ⟨call, hcall, List.length_eq_zero_iff.1 hempty, error_of_map herase⟩, error_of_map hwrite⟩

end SimpleSSD.FTL.PageMapping
