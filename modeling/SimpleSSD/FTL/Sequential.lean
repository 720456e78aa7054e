import SimpleSSD.FTL.ReadYourWrites

/-!
# Units are written in order

From its next-write index on, a unit is erased.  Writes at the index keep this in
every block, and so do erases, which start the index again.
-/

namespace SimpleSSD.FTL

open SimpleSSD.Foundation

namespace Block

structure Sequential (blk : Block) : Prop where
  erased : ∀ page unit, page < blk.pageCount → unit < blk.ioUnitInPage →
    blk.nextWritePageIndex unit ≤ page → blk.erasedBits page unit = true
  bounded : ∀ unit < blk.ioUnitInPage, blk.nextWritePageIndex unit ≤ blk.pageCount

variable {blk blk' : Block} {pages units page unit lpn : Nat} {tick : Tick}

theorem Sequential.write (h : blk.Sequential)
    (hwrite : blk.write page lpn unit tick = .ok blk') : blk'.Sequential := by
  obtain ⟨-, hpage, -, hbehind, rfl⟩ := write_eq_ok hwrite
  constructor
  · intro p u hp hu hnext
    simp only [update₂_apply]
    by_cases heq : u = unit
    · subst heq
      simp only [Function.update_self] at hnext
      rw [if_neg (by omega)]
      exact h.erased p u hp hu (by omega)
    · simp only [Function.update_of_ne heq] at hnext
      rw [if_neg (by simp [heq])]
      exact h.erased p u hp hu hnext
  · intro u hu
    by_cases heq : u = unit
    · subst heq
      simpa [Nat.add_one_le_iff] using hpage
    · simpa [Function.update_of_ne heq] using h.bounded u hu

theorem Sequential.invalidate (h : blk.Sequential) (hinv : blk.invalidate page unit = .ok blk') :
    blk'.Sequential := by
  obtain ⟨-, rfl⟩ := invalidate_eq_ok hinv
  exact ⟨h.erased, h.bounded⟩

theorem Sequential.read (h : blk.Sequential) (hread : blk.read page unit tick = .ok blk') :
    blk'.Sequential := by
  obtain ⟨accessed, rfl⟩ := read_eq_ok hread
  exact ⟨h.erased, h.bounded⟩

theorem invalidate_eq_error {e : Fault} (h : blk.invalidate page unit = .error e) :
    e = .outOfRange := by
  unfold Block.invalidate at h
  split_ifs at h
  cases h
  rfl

theorem read_eq_error {e : Fault} (h : blk.read page unit tick = .error e) :
    e = .outOfRange ∨ e = .panic "I/O map size mismatch" := by
  unfold Block.read at h
  split_ifs at h
  · cases h
    exact .inr rfl
  · cases h
    exact .inl rfl

theorem Sequential.write_eq_error (h : blk.Sequential) {e : Fault}
    (hwrite : blk.write (blk.nextWritePageIndex unit) lpn unit tick = .error e) :
    e = .outOfRange ∨ e = .panic "I/O map size mismatch" := by
  unfold Block.write at hwrite
  split_ifs at hwrite with hunit hpage herased hnext
  · cases hwrite
    exact .inr rfl
  · cases hwrite
    exact .inl rfl
  · exact absurd hnext (lt_irrefl _)
  · exact absurd (h.erased _ unit (not_le.1 hpage) (not_le.1 hunit) (le_refl _)) herased

theorem erase_sequential (blk : Block) : blk.erase.Sequential := by
  constructor
  · intro p u hp hu _
    simp only [erase] at hp hu ⊢
    simp [hp, hu]
  · simp [erase]

theorem new_sequential (idx : Nat) : (new idx pages units).Sequential := by
  constructor
  · intro p u hp hu _
    simp only [new, erase] at hp hu ⊢
    simp [hp, hu]
  · simp [new, erase]

theorem le_getNextWritePageIndex (hunit : unit < blk.ioUnitInPage) :
    blk.nextWritePageIndex unit ≤ blk.getNextWritePageIndex := by
  have hmem : blk.nextWritePageIndex unit ∈
      (List.range blk.ioUnitInPage).map blk.nextWritePageIndex :=
    List.mem_map.2 ⟨unit, List.mem_range.2 hunit, rfl⟩
  unfold getNextWritePageIndex
  generalize (List.range blk.ioUnitInPage).map blk.nextWritePageIndex = list at hmem
  induction list with
  | nil => cases hmem
  | cons a rest ih =>
      rcases List.mem_cons.1 hmem with heq | hrest
      · simp [heq]
      · exact le_trans (ih hrest) (le_max_right _ _)

theorem getNextWritePageIndex_le {bound : Nat}
    (h : ∀ unit < blk.ioUnitInPage, blk.nextWritePageIndex unit ≤ bound) :
    blk.getNextWritePageIndex ≤ bound := by
  unfold getNextWritePageIndex
  have hall : ∀ a ∈ (List.range blk.ioUnitInPage).map blk.nextWritePageIndex, a ≤ bound := by
    intro a ha
    obtain ⟨unit, hunit, rfl⟩ := List.mem_map.1 ha
    exact h unit (List.mem_range.1 hunit)
  generalize (List.range blk.ioUnitInPage).map blk.nextWritePageIndex = list at hall
  induction list with
  | nil => simp
  | cons a rest ih =>
      rw [List.forall_mem_cons] at hall
      exact max_le hall.1 (ih hall.2)

theorem Sequential.unit_lt (h : blk.Sequential)
    (hroom : blk.getNextWritePageIndex ≠ blk.pageCount) (hunit : unit < blk.ioUnitInPage) :
    blk.nextWritePageIndex unit < blk.pageCount := by
  have hle := getNextWritePageIndex_le h.bounded
  have hunit_le := le_getNextWritePageIndex hunit
  omega

theorem getValidPageCount_eq_zero (h : ∀ page unit, blk.validBits page unit = false) :
    blk.getValidPageCount = 0 := by
  simp [getValidPageCount, List.countP_eq_zero, h]

end Block

namespace PageMapping

structure Sequential (s : PageMapping) : Prop where
  inUse : ∀ b blk, s.blocks b = some blk → blk.Sequential
  free : ∀ blk ∈ s.freeBlocks, blk.Sequential

variable {cfg : Config} {s s' : PageMapping} {contents : Nat → Nat → Nat → Option Nat}
  {detached : Set (Nat × Nat)} {blk blk' : Block} {b block dst i idx page lpn : Nat}
  {iomap : List Bool} {tick tick' : Tick} {rest : List Nat} {req : Request cfg}
  {entries : Nat → Nat × Nat}

theorem bitsetSize_le (hunits : 0 < cfg.param.ioUnitInPage) :
    cfg.bitsetSize ≤ cfg.param.ioUnitInPage := by
  unfold Config.bitsetSize
  split
  · exact le_refl _
  · exact hunits

/-- The units of `rest` can still be written in the block. -/
def Ready (cfg : Config) (dst : Nat) (rest : List Nat) (s : PageMapping) : Prop :=
  ∃ blk, s.blocks dst = some blk ∧
    ∀ idx ∈ rest, blk.nextWritePageIndex idx < cfg.param.pagesInBlock

theorem Ready.congr (h : Ready cfg dst rest s) (hb : s'.blocks = s.blocks) :
    Ready cfg dst rest s' := by
  unfold Ready
  rw [hb]
  exact h

theorem Ready.tail (h : Ready cfg dst (idx :: rest) s) : Ready cfg dst rest s := by
  obtain ⟨blk, hblk, hnext⟩ := h
  exact ⟨blk, hblk, fun i hi => hnext i (List.mem_cons_of_mem idx hi)⟩

theorem Ready.invalidate (h : Ready cfg dst rest s) (hblk : s.blocks b = some blk)
    (hinv : blk.invalidate page idx = .ok blk') : Ready cfg dst rest (s.setBlock b blk') := by
  obtain ⟨target, htarget, hnext⟩ := h
  obtain ⟨-, rfl⟩ := Block.invalidate_eq_ok hinv
  by_cases heq : dst = b
  · subst heq
    cases Option.some.inj (hblk.symm.trans htarget)
    exact ⟨_, Function.update_self .., hnext⟩
  · exact ⟨target, (Function.update_of_ne heq _ _).trans htarget, hnext⟩

theorem Ready.write (h : Ready cfg dst (idx :: rest) s) (hblk : s.blocks dst = some blk)
    (hnotin : idx ∉ rest) (hwrite : blk.write page lpn idx tick = .ok blk') :
    Ready cfg dst rest (s.setBlock dst blk') := by
  obtain ⟨target, htarget, hnext⟩ := h
  cases Option.some.inj (hblk.symm.trans htarget)
  obtain ⟨-, -, -, -, rfl⟩ := Block.write_eq_ok hwrite
  refine ⟨_, Function.update_self .., fun i hi => ?_⟩
  have hne : i ≠ idx := fun heq => hnotin (heq ▸ hi)
  simpa [Function.update_of_ne hne] using hnext i (List.mem_cons_of_mem idx hi)

namespace Sequential

theorem congr (h : Sequential s) (hb : s'.blocks = s.blocks) (hf : s'.freeBlocks = s.freeBlocks) :
    Sequential s' :=
  ⟨hb ▸ h.inUse, hf ▸ h.free⟩

theorem access (h : Sequential s) (a : Access) : Sequential (access cfg a tick s).2 :=
  h.congr rfl rfl

theorem setBlock (h : Sequential s) (hblk : blk.Sequential) : Sequential (s.setBlock b blk) := by
  constructor
  · intro b' blk' hblk'
    rcases mem_update_blocks hblk' with ⟨-, rfl⟩ | hold
    · exact hblk
    · exact h.inUse b' blk' hold
  · exact h.free

theorem getFreeBlock (h : Sequential s) (hget : getFreeBlock cfg i s = .ok (b, s')) :
    Sequential s' := by
  obtain ⟨blk, free, hperm, rfl, -, rfl⟩ := getFreeBlock_eq_ok hget
  constructor
  · exact (h.setBlock (h.free blk (hperm.mem_iff.2 List.mem_cons_self))).inUse
  · intro other hother
    exact h.free other (hperm.mem_iff.2 (List.mem_cons_of_mem blk hother))

theorem eraseInternal (h : Sequential s) {req : PALRequest}
    (herase : eraseInternal cfg req tick s = .ok (tick', s')) : Sequential s' := by
  obtain ⟨blk, free, nFree, -, -, hfree, rfl⟩ := eraseInternal_eq_ok herase
  constructor
  · intro b' other hother
    by_cases hb : b' = req.blockIndex
    · simp [hb] at hother
    · exact h.inUse b' other (by simpa [hb] using hother)
  · intro other hother
    rcases mem_erasedFree hfree hother with rfl | hold
    · exact blk.erase_sequential
    · exact h.free other hold

theorem invalidateAll {f : PageMapping → Nat → Except Fault PageMapping} {sel : Nat → Bool}
    (hf : Invalidates cfg entries sel f) (h : Sequential s) {list : List Nat}
    (run : list.foldlM f s = .ok s') : Sequential s' := by
  refine foldlM_invariant_mem Sequential (fun idx _ mid next hmid hstep => ?_) run h
  rcases hf mid idx next hstep with ⟨-, blk, blk', hblk, hinv, rfl⟩ | ⟨rfl, -⟩
  · exact hmid.setBlock ((hmid.inUse _ blk hblk).invalidate hinv)
  · exact hmid

theorem detach (h : Sequential s) (run : detach cfg req s = .ok s') : Sequential s' := by
  unfold PageMapping.detach at run
  split at run
  · cases run
    exact h.congr rfl rfl
  · exact h.invalidateAll invalidateUnit_invalidates run

end Sequential

theorem getLastFreeBlock_eq_ok (h : getLastFreeBlock cfg iomap s = .ok (b, s')) :
    (∃ blk, s.blocks b = some blk ∧ blk.getNextWritePageIndex ≠ cfg.param.pagesInBlock ∧
      s'.blocks = s.blocks ∧ s'.freeBlocks = s.freeBlocks ∧
      s'.lastFreeBlock = s.lastFreeBlock ∧
      s.lastFreeBlock[s'.lastFreeBlockIndex]? = some b) ∨
    ∃ mid mid', mid.blocks = s.blocks ∧ mid.freeBlocks = s.freeBlocks ∧
      getFreeBlock cfg s'.lastFreeBlockIndex mid = .ok (b, mid') ∧
      s'.blocks = mid'.blocks ∧ s'.freeBlocks = mid'.freeBlocks ∧
      (∃ last blk, s.lastFreeBlock[s'.lastFreeBlockIndex]? = some last ∧
        s.blocks last = some blk ∧ blk.getNextWritePageIndex = cfg.param.pagesInBlock) ∧
      s'.lastFreeBlock = s.lastFreeBlock.set s'.lastFreeBlockIndex b := by
  obtain ⟨index, flags, hrotate⟩ := rotate_eq cfg iomap s
  simp only [getLastFreeBlock, hrotate] at h
  split at h
  · cases h
  · rename_i last hlast
    split at h
    · cases h
    · rename_i blk hblk
      split_ifs at h with hfull
      · obtain ⟨⟨fresh, mid⟩, hget, hpair⟩ := bind_eq_ok.1 h
        obtain ⟨blk', rest, -, -, -, hmid⟩ := getFreeBlock_eq_ok hget
        have hindex : mid.lastFreeBlockIndex = index := by rw [hmid]
        have hslots : mid.lastFreeBlock = s.lastFreeBlock := by rw [hmid]
        cases hpair
        refine .inr ⟨_, mid, ?_, ?_, hindex.symm ▸ hget, rfl, rfl,
          ⟨last, blk, hindex.symm ▸ hlast, hblk, hfull⟩, ?_⟩
        · rfl
        · rfl
        · simp only [hslots]
      · cases h
        exact .inl ⟨blk, hblk, hfull, rfl, rfl, rfl, hlast⟩

theorem Sequential.getLastFreeBlock (h : Sequential s)
    (hget : getLastFreeBlock cfg iomap s = .ok (b, s')) : Sequential s' := by
  rcases getLastFreeBlock_eq_ok hget with ⟨blk, -, -, hb, hf, -, -⟩ |
    ⟨mid, mid', hb, hf, hfresh, hb', hf', -, -⟩
  · exact h.congr hb hf
  · exact ((h.congr hb hf).getFreeBlock hfresh).congr hb' hf'

theorem getLastFreeBlock_ready (h : Sequential s) (hintact : Intact cfg contents detached s)
    (hpages : 0 < cfg.param.pagesInBlock) (hunits : 0 < cfg.param.ioUnitInPage)
    (hget : getLastFreeBlock cfg iomap s = .ok (b, s')) :
    Ready cfg b (List.range cfg.bitsetSize) s' := by
  have hbits : ∀ idx ∈ List.range cfg.bitsetSize, idx < cfg.param.ioUnitInPage :=
    fun idx hidx => lt_of_lt_of_le (List.mem_range.1 hidx) (bitsetSize_le hunits)
  rcases getLastFreeBlock_eq_ok hget with ⟨blk, hblk, hroom, hb, -, -, -⟩ |
    ⟨mid, mid', hb, hf, hfresh, hb', -, -, -⟩
  · obtain ⟨-, -, hsound⟩ := hintact.inUse b blk hblk
    refine ⟨blk, hb ▸ hblk, fun idx hidx => ?_⟩
    have hlt := (h.inUse b blk hblk).unit_lt (hsound.pageCount ▸ hroom)
      (hsound.ioUnitInPage ▸ hbits idx hidx)
    rwa [hsound.pageCount] at hlt
  · obtain ⟨blk, rest, hperm, -, -, rfl⟩ := getFreeBlock_eq_ok hfresh
    obtain ⟨-, -, -, hnext⟩ := hintact.free blk (hf ▸ hperm.mem_iff.2 List.mem_cons_self)
    refine ⟨blk, ?_, fun idx _ => (hnext idx).symm ▸ hpages⟩
    rw [hb']
    exact Function.update_self ..

end PageMapping

end SimpleSSD.FTL
