import SimpleSSD.FTL.BlockCalls

/-!
# Collections keep the write discipline

The copies of a collection go to the next pages of their units, what it erases has
nothing valid, and the faults it ends in are not those of a violation.
-/

namespace SimpleSSD.FTL.PageMapping

open SimpleSSD.Foundation

variable {cfg : Config} {s s' s₀ : PageMapping} {list reclaimed rest : List Nat}
  {w w' : Collection} {block dst page idx b : Nat} {bit : Nat → Bool} {lpns : Nat → Nat}
  {tick tick' : Tick} {req : Request cfg}

/-! ## Faults -/

/-- The panics that a violation of the discipline ends in. -/
def disciplinePanics : List Fault :=
  [.panic "Write to non erased page", .panic "Write to block should sequential",
    .panic "There are valid pages in victim block", .panic "Invalid mapping table entry"]

def Harmless (e : Fault) : Prop := e ∉ disciplinePanics

instance (e : Fault) : Decidable (Harmless e) := inferInstanceAs (Decidable (e ∉ disciplinePanics))

/-- The faults that tell nothing about the state of the blocks. -/
def plainFaults : List Fault :=
  [.outOfRange, .undefined, .noDraw, .panic "I/O map size mismatch",
    .panic "Index out of range", .panic "No free block left", .panic "Invalid GC mode",
    .panic "Invalid evict policy", .panic "Block is not in use", .panic "No such block",
    .panic "Invalid block", .panic "ftl: GC triggered while in initialization"]

def Plain (e : Fault) : Prop := e ∈ plainFaults

instance (e : Fault) : Decidable (Plain e) := inferInstanceAs (Decidable (e ∈ plainFaults))

theorem Plain.harmless {e : Fault} (h : Plain e) : Harmless e := by
  simp only [Plain, plainFaults, List.mem_cons, List.not_mem_nil, or_false] at h
  rcases h with rfl | rfl | rfl | rfl | rfl | rfl | rfl | rfl | rfl | rfl | rfl | rfl <;> decide

theorem plain_of_bounds {e : Fault}
    (h : e = .outOfRange ∨ e = .panic "I/O map size mismatch") : Plain e := by
  rcases h with rfl | rfl <;> decide

variable {e : Fault} {iomap : List Bool} {choices : Choices} {i : Nat}

def openingFaults : List Fault :=
  [.panic "Corrupted", .outOfRange, .undefined, .panic "Index out of range",
    .panic "No free block left"]

theorem getFreeBlock_eq_error (h : getFreeBlock cfg i s = .error e) : e ∈ openingFaults := by
  unfold getFreeBlock at h
  split_ifs at h
  · cases h
    decide
  · cases h
    decide
  · split at h
    · cases h
      decide
    · split_ifs at h
      cases h
      decide

theorem getLastFreeBlock_eq_error (h : getLastFreeBlock cfg iomap s = .error e) :
    e ∈ openingFaults := by
  unfold getLastFreeBlock at h
  dsimp only at h
  split at h
  · cases h
    decide
  · split at h
    · cases h
      decide
    · split_ifs at h
      rcases bind_eq_error.1 h with hfresh | ⟨fresh, -, hdone⟩
      · exact getFreeBlock_eq_error hfresh
      · cases hdone

theorem openingFaults_harmless : ∀ e ∈ openingFaults, Harmless e := by decide

theorem drawCandidates_plain {wanted : Nat} {draws : List Nat}
    {weight : List (Option (Nat × ℚ))} (h : drawCandidates wanted draws weight = .error e) :
    Plain e := by
  induction draws generalizing wanted weight with
  | nil =>
      cases wanted with
      | zero => cases h
      | succ wanted =>
          cases h
          decide
  | cons idx draws ih =>
      cases wanted with
      | zero => cases h
      | succ wanted =>
          unfold drawCandidates at h
          split at h
          · cases h
            decide
          · exact ih h
          · rcases bind_eq_error.1 h with hlater | ⟨selected, -, hdone⟩
            · exact ih hlater
            · cases hdone

theorem selectVictimBlock_plain (h : selectVictimBlock cfg choices tick s = .error e) :
    Plain e := by
  rcases bind_eq_error.1 h with hcount | ⟨count, -, h⟩
  · unfold reclaimCount at hcount
    split at hcount
    · cases hcount
    · cases hcount
    · cases hcount
      decide
  rcases bind_eq_error.1 h with hweight | ⟨weight, -, h⟩
  · unfold calculateVictimWeight at hweight
    split_ifs at hweight
    cases hweight
    decide
  rcases bind_eq_error.1 h with hsample | ⟨candidates, -, hdone⟩
  · unfold sampleVictims at hsample
    split at hsample
    · exact drawCandidates_plain hsample
    · exact drawCandidates_plain hsample
    · cases hsample
  · cases hdone

/-! ## Copies -/

theorem disciplined_of_ready {blk : Block} (h : Ready cfg b (idx :: rest) s)
    (hblk : s.blocks b = some blk) (hsequential : blk.Sequential)
    (hsound : blk.Sound cfg.param.pagesInBlock cfg.param.ioUnitInPage)
    (hunit : idx < cfg.param.ioUnitInPage) :
    BlockWrite.Disciplined cfg ⟨blk, blk.nextWritePageIndex idx, idx⟩ := by
  obtain ⟨target, htarget, hnext⟩ := h
  cases Option.some.inj (hblk.symm.trans htarget)
  have hlt := hnext idx List.mem_cons_self
  refine ⟨hlt, ?_, rfl⟩
  exact hsequential.erased _ idx (hsound.pageCount ▸ hlt) (hsound.ioUnitInPage ▸ hunit)
    (le_refl _)

theorem RelocatingPage.writes {start : PageMapping}
    (h : RelocatingPage cfg reclaimed s₀ start block page dst bit lpns (idx :: rest) w)
    (hblock : block ∈ reclaimed) (hdst : dst ∉ reclaimed)
    (hunits : 2 ≤ cfg.param.ioUnitInPage) (hpages : 0 < cfg.param.pagesInBlock) :
    ∀ call ∈ relocationWrites block page dst bit lpns (w, idx), call.Disciplined cfg := by
  intro call hcall
  unfold relocationWrites at hcall
  dsimp only at hcall
  split_ifs at hcall
  · split at hcall
    · cases hcall
    · rename_i blk hblk
      split at hcall
      · cases hcall
      · rename_i blk' hinv
        split at hcall
        · cases hcall
        · split at hcall
          · cases hcall
          · rename_i free hfree
            rw [List.mem_singleton.1 hcall]
            have hsequential := h.sequential.setBlock (b := block)
              ((h.sequential.inUse block blk hblk).invalidate hinv)
            have hne : dst ≠ block := fun heq => hdst (heq ▸ hblock)
            have hold : w.mapping.blocks dst = some free := by
              simpa [PageMapping.setBlock, hne] using hfree
            obtain ⟨-, -, hsound⟩ := h.collecting.intact.inUse dst free hold
            exact disciplined_of_ready ((h.ready hpages).invalidate hblk hinv) hfree
              (hsequential.inUse dst free hfree) hsound
              (lt_of_lt_of_le (h.bound idx List.mem_cons_self) (bitsetSize_le (by omega)))
  · cases hcall

theorem RelocatingPage.harmless {start : PageMapping}
    (h : RelocatingPage cfg reclaimed s₀ start block page dst bit lpns (idx :: rest) w)
    (run : relocateUnit cfg block page dst bit lpns w idx = .error e) : Harmless e := by
  unfold relocateUnit at run
  split_ifs at run with hbit
  obtain ⟨old, hold, hlive⟩ := h.awaits
  rw [hold] at run
  dsimp only at run
  rcases bind_eq_error.1 run with hinv | ⟨blk', hinv, run⟩
  · exact Plain.harmless (plain_of_bounds (.inl (Block.invalidate_eq_error hinv)))
  · split at run
    · rename_i htable
      obtain ⟨hvalid, hlpn⟩ := hlive idx List.mem_cons_self hbit
      obtain ⟨hplace, -⟩ := h.collecting.intact.consistent.placed _ _
        (hlpn ▸ owner_eq_some hold hvalid)
      obtain ⟨entries, hentries, -⟩ := place_inv hplace
      have hnone : w.mapping.table (lpns idx) = none := htable
      cases hnone.symm.trans hentries
    · split at run
      · cases run
        decide
      · rename_i free hfree
        rcases bind_eq_error.1 run with hwrite | ⟨free', -, hdone⟩
        · have hsequential := h.sequential.setBlock (b := block)
            ((h.sequential.inUse block old hold).invalidate hinv)
          exact Plain.harmless (plain_of_bounds
              ((hsequential.inUse dst free hfree).write_eq_error hwrite))
        · cases hdone

theorem Reclaiming.pageWrites {p : Nat → Nat → Prop} (h : Reclaiming cfg reclaimed s₀ p w)
    (hblock : block ∈ reclaimed) (hunits : 2 ≤ cfg.param.ioUnitInPage)
    (hpages : 0 < cfg.param.pagesInBlock) :
    ∀ call ∈ pageWrites cfg block (w, page), call.Disciplined cfg := by
  intro call hcall
  unfold PageMapping.pageWrites at hcall
  dsimp only at hcall
  split at hcall
  · cases hcall
  · rename_i blk hblk
    split_ifs at hcall with hany
    · split at hcall
      · cases hcall
      · rename_i dst opened hopen
        obtain ⟨hdst, hstart⟩ := h.relocating hunits hblk hany hopen
          (w.reads ++ [⟨block, page, (List.range cfg.param.ioUnitInPage).map
            (liveUnits cfg (blk.getPageInfo page))⟩])
        obtain ⟨v, hv, hcall⟩ := List.mem_flatMap.1 hcall
        obtain ⟨rest, hinv⟩ := visits_invariant (RelocatingPage cfg reclaimed s₀ w.mapping block
          page dst _ _) (fun idx rest w₁ w₂ hinv hstep => hinv.step hblock hdst hstep) hstart v hv
        exact hinv.writes hblock hdst hunits hpages call hcall
    · cases hcall

theorem Reclaiming.relocatePage_harmless {p : Nat → Nat → Prop}
    (h : Reclaiming cfg reclaimed s₀ p w) (hblock : block ∈ reclaimed)
    (hunits : 2 ≤ cfg.param.ioUnitInPage)
    (run : PageMapping.relocatePage cfg block w page = .error e) : Harmless e := by
  unfold PageMapping.relocatePage at run
  split at run
  · cases run
    decide
  · rename_i blk hblk
    dsimp only at run
    split_ifs at run with hany
    rcases bind_eq_error.1 run with hopen | ⟨⟨dst, opened⟩, hopen, run⟩
    · exact openingFaults_harmless e (getLastFreeBlock_eq_error hopen)
    · obtain ⟨hdst, hstart⟩ := h.relocating hunits hblk hany hopen
        (w.reads ++ [⟨block, page, (List.range cfg.param.ioUnitInPage).map
          (liveUnits cfg (blk.getPageInfo page))⟩])
      obtain ⟨v, hv, herror⟩ := exists_visit_of_error run
      obtain ⟨rest, hinv⟩ := visits_invariant (RelocatingPage cfg reclaimed s₀ w.mapping block
        page dst _ _) (fun idx rest w₁ w₂ hinv hstep => hinv.step hblock hdst hstep) hstart v hv
      exact hinv.harmless herror

theorem CollectingVictims.blockWrites
    (h : CollectingVictims cfg reclaimed s₀ (block :: rest) w)
    (hunits : 2 ≤ cfg.param.ioUnitInPage) (hpages : 0 < cfg.param.pagesInBlock) :
    ∀ call ∈ blockWrites cfg (w, block), call.Disciplined cfg := by
  intro call hcall
  have hblock := h.1 block List.mem_cons_self
  unfold PageMapping.blockWrites at hcall
  dsimp only at hcall
  split at hcall
  · cases hcall
  · obtain ⟨v, hv, hcall⟩ := List.mem_flatMap.1 hcall
    obtain ⟨pages, hinv⟩ := visits_invariant
      (CollectingBlock cfg reclaimed s₀ (fun b => b ∉ block :: rest) block)
      (fun page pages w₁ w₂ hinv hstep => hinv.step hblock hunits hstep) h.2.collectingBlock v hv
    exact Reclaiming.pageWrites hinv hblock hunits hpages call hcall

theorem CollectingVictims.harmless (h : CollectingVictims cfg reclaimed s₀ (block :: rest) w)
    (hunits : 2 ≤ cfg.param.ioUnitInPage)
    (run : PageMapping.collectBlock cfg w block = .error e) : Harmless e := by
  have hblock := h.1 block List.mem_cons_self
  unfold PageMapping.collectBlock at run
  split at run
  · cases run
    decide
  · obtain ⟨v, hv, herror⟩ := exists_visit_of_error run
    obtain ⟨pages, hinv⟩ := visits_invariant
      (CollectingBlock cfg reclaimed s₀ (fun b => b ∉ block :: rest) block)
      (fun page pages w₁ w₂ hinv hstep => hinv.step hblock hunits hstep) h.2.collectingBlock v hv
    exact Reclaiming.relocatePage_harmless hinv hblock hunits herror

/-! ## Collections -/

theorem collectionWrites_disciplined (h : Intact cfg s.contents ∅ s)
    (hsequential : Sequential s) (hfull : ∀ b ∈ list, Full cfg s b)
    (hunits : 2 ≤ cfg.param.ioUnitInPage) (hpages : 0 < cfg.param.pagesInBlock) :
    ∀ call ∈ collectionWrites cfg list tick s, call.Disciplined cfg := by
  intro call hcall
  obtain ⟨v, hv, hcall⟩ := List.mem_flatMap.1 hcall
  obtain ⟨rest, hinv⟩ := visits_invariant (CollectingVictims cfg list s)
    (fun block rest w w' hinv hstep => hinv.step hunits hstep)
    (CollectingVictims.start tick h hsequential hfull) v hv
  exact hinv.blockWrites hunits hpages call hcall

variable (cfg) in
theorem carryOut_eq (tick : Tick) (w : Collection) :
    ∃ accesses contents, (carryOut cfg tick w).2.2 =
      { w.mapping with accesses := accesses, contents := contents } := by
  unfold carryOut
  dsimp only
  obtain ⟨readsDone, readAccesses, hreads⟩ :=
    issueAll_eq cfg w.tick tick (w.reads.map .palRead) w.mapping
  rw [hreads]
  obtain ⟨writesDone, writeAccesses, hwrites⟩ := issueAll_eq cfg readsDone tick
    (w.writes.map fun copy => .palWrite copy.req) { w.mapping with
      accesses := readAccesses
      contents := flush cfg w.mapping.contents w.writes }
  exact ⟨_, _, congrArg Prod.snd hwrites⟩

/-- The victims have nothing valid while they are erased. -/
def Erasing (list : List Nat) (acc : Tick × PageMapping) : Prop :=
  Sequential acc.2 ∧ ∀ b ∈ list, Drained b (fun _ _ => True) acc.2

theorem Erasing.step {acc acc' : Tick × PageMapping} (h : Erasing list acc)
    (run : eraseStep cfg tick acc block = .ok acc') : Erasing list acc' := by
  obtain ⟨⟨done, mid⟩, herase, hpair⟩ := bind_eq_ok.1 run
  cases hpair
  refine ⟨h.1.eraseInternal herase, fun b hb blk hblk => ?_⟩
  obtain ⟨old, free, nFree, -, -, -, rfl⟩ := eraseInternal_eq_ok herase
  by_cases heq : b = block
  · simp [heq] at hblk
  · simp only [Function.update_of_ne heq] at hblk
    exact h.2 b hb blk hblk

theorem Erasing.start (h : CollectingVictims cfg list s [] w) :
    Erasing list (tick, (carryOut cfg tick' w).2.2) := by
  obtain ⟨accesses, contents, heq⟩ := carryOut_eq cfg tick' w
  rw [Erasing, heq]
  refine ⟨h.2.sequential.congr rfl rfl, fun b hb blk hblk page unit _ => ?_⟩
  exact h.2.drained b hb blk hblk page unit List.not_mem_nil

theorem erasedBlocks_drained (h : Intact cfg s.contents ∅ s) (hsequential : Sequential s)
    (hfull : ∀ b ∈ list, Full cfg s b) (hunits : 2 ≤ cfg.param.ioUnitInPage) :
    ∀ blk ∈ erasedBlocks cfg list tick s, blk.getValidPageCount = 0 := by
  intro blk hblk
  obtain ⟨v, hv, hblk⟩ := List.mem_flatMap.1 hblk
  unfold eraseCalls at hv
  split at hv
  · cases hv
  · rename_i w hcollect
    have hcollected := foldlM_invariant (CollectingVictims cfg list s)
      (fun block rest w w' hinv hstep => hinv.step hunits hstep) hcollect
      (CollectingVictims.start tick h hsequential hfull)
    obtain ⟨hmem, herasing⟩ := visits_invariant_mem (Erasing list)
      (fun block _ acc acc' herasing hstep => herasing.step hstep) (.start hcollected) v hv
    exact Block.getValidPageCount_eq_zero fun page unit =>
      herasing.2 v.2 hmem blk (by simpa using hblk) page unit trivial

theorem Erasing.harmless {acc : Tick × PageMapping} (h : Erasing list acc)
    (hblock : block ∈ list) (run : eraseStep cfg tick acc block = .error e) : Harmless e := by
  rcases bind_eq_error.1 run with herase | ⟨done, -, hdone⟩
  · rcases eraseInternal_eq_error herase with rfl | rfl | ⟨rfl, blk, hblk, hcount⟩
    · decide
    · decide
    · exact absurd (Block.getValidPageCount_eq_zero fun page unit =>
        h.2 block hblock blk hblk page unit trivial) hcount
  · cases hdone

theorem doGarbageCollection_harmless (h : Intact cfg s.contents ∅ s)
    (hsequential : Sequential s) (hfull : ∀ b ∈ list, Full cfg s b)
    (hunits : 2 ≤ cfg.param.ioUnitInPage)
    (run : doGarbageCollection cfg list tick s = .error e) : Harmless e := by
  by_cases hempty : list = []
  · unfold doGarbageCollection at run
    rw [if_pos hempty] at run
    cases run
  · rw [doGarbageCollection_eq cfg tick s hempty] at run
    have hstart := CollectingVictims.start tick h hsequential hfull
    rcases bind_eq_error.1 run with hcollect | ⟨w, hcollect, run⟩
    · obtain ⟨v, hv, herror⟩ := exists_visit_of_error hcollect
      obtain ⟨rest, hinv⟩ := visits_invariant (CollectingVictims cfg list s)
        (fun block rest w w' hinv hstep => hinv.step hunits hstep) hstart v hv
      exact hinv.harmless hunits herror
    · have hcollected := foldlM_invariant (CollectingVictims cfg list s)
        (fun block rest w w' hinv hstep => hinv.step hunits hstep) hcollect hstart
      rcases bind_eq_error.1 run with herases | ⟨erases, -, hdone⟩
      · obtain ⟨v, hv, herror⟩ := exists_visit_of_error herases
        obtain ⟨hmem, herasing⟩ := visits_invariant_mem (Erasing list)
          (fun block _ acc acc' herasing hstep => herasing.step hstep) (.start hcollected) v hv
        exact herasing.harmless hmem herror
      · cases hdone

theorem Sequential.doGarbageCollection (h : Intact cfg s.contents ∅ s)
    (hsequential : Sequential s) (hfull : ∀ b ∈ list, Full cfg s b)
    (hunits : 2 ≤ cfg.param.ioUnitInPage)
    (run : doGarbageCollection cfg list tick s = .ok (tick', s')) : Sequential s' := by
  rcases doGarbageCollection_eq_ok cfg run with ⟨-, rfl⟩ | ⟨w, erases, hcollect, herases, rfl⟩
  · exact hsequential
  · have hcollected := foldlM_invariant (CollectingVictims cfg list s)
      (fun block rest w w' hinv hstep => hinv.step hunits hstep) hcollect
      (CollectingVictims.start tick h hsequential hfull)
    exact (foldlM_invariant_mem (Erasing list)
      (fun block _ acc acc' herasing hstep => herasing.step hstep) herases
      (.start hcollected)).1

end SimpleSSD.FTL.PageMapping
