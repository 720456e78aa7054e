import SimpleSSD.FTL.FormatRun

/-!
# Where the table leads

Every place in the table was written since the last erase of its block, and the block keeps
it for its entry unless the entry is being replaced.  Steps of every kind keep this, whatever
the number of units in a page.
-/

namespace SimpleSSD.FTL

open SimpleSSD.Foundation

namespace Block

def Programmed (blk : Block) (page unit : Nat) : Prop :=
  page < blk.pageCount ∧ unit < blk.ioUnitInPage ∧ blk.erasedBits page unit = false

/-- What lies before the next-write index of a unit is programmed. -/
def Tight (blk : Block) : Prop :=
  ∀ page unit, page < blk.nextWritePageIndex unit → blk.Programmed page unit

variable {blk blk' : Block} {pages units page unit lpn p u : Nat} {tick : Tick}

theorem Sound.programmed (sound : Sound pages units blk) (hvalid : blk.validBits page unit = true) :
    blk.Programmed page unit := by
  obtain ⟨hpage, hunit⟩ := sound.inRange page unit (.inl hvalid)
  refine ⟨sound.pageCount ▸ hpage, sound.ioUnitInPage ▸ hunit, ?_⟩
  cases herased : blk.erasedBits page unit with
  | false => rfl
  | true =>
      rw [sound.exclusive page unit herased] at hvalid
      cases hvalid

theorem write_programmed (hwrite : blk.write page lpn unit tick = .ok blk') :
    blk'.Programmed page unit := by
  obtain ⟨hunit, hpage, -, -, rfl⟩ := write_eq_ok hwrite
  exact ⟨hpage, hunit, by simp [update₂_apply]⟩

theorem Programmed.write (h : blk.Programmed p u)
    (hwrite : blk.write page lpn unit tick = .ok blk') : blk'.Programmed p u := by
  obtain ⟨-, -, -, -, rfl⟩ := write_eq_ok hwrite
  refine ⟨h.1, h.2.1, ?_⟩
  simp only [update₂_apply]
  split_ifs
  · rfl
  · exact h.2.2

theorem Programmed.invalidate (h : blk.Programmed p u)
    (hinv : blk.invalidate page unit = .ok blk') : blk'.Programmed p u := by
  obtain ⟨-, rfl⟩ := invalidate_eq_ok hinv
  exact h

theorem Programmed.read (h : blk.Programmed p u) (hread : blk.read page unit tick = .ok blk') :
    blk'.Programmed p u := by
  obtain ⟨accessed, rfl⟩ := read_eq_ok hread
  exact h

theorem Tight.write (h : blk.Tight)
    (hwrite : blk.write (blk.nextWritePageIndex unit) lpn unit tick = .ok blk') : blk'.Tight := by
  intro p u hp
  have hnew := write_programmed hwrite
  by_cases hbefore : p < blk.nextWritePageIndex u
  · exact (h p u hbefore).write hwrite
  · obtain ⟨-, -, -, -, rfl⟩ := write_eq_ok hwrite
    by_cases heq : u = unit
    · subst heq
      simp only [Function.update_self] at hp
      have hlast : p = blk.nextWritePageIndex u := by omega
      rw [hlast]
      exact hnew
    · simp only [Function.update_of_ne heq] at hp
      exact absurd hp hbefore

theorem Tight.invalidate (h : blk.Tight) (hinv : blk.invalidate page unit = .ok blk') :
    blk'.Tight := by
  obtain ⟨-, rfl⟩ := invalidate_eq_ok hinv
  exact h

theorem erase_tight (blk : Block) : blk.erase.Tight := fun _ _ h => absurd h (Nat.not_lt_zero _)

theorem new_tight (idx : Nat) : (new idx pages units).Tight :=
  fun _ _ h => absurd h (Nat.not_lt_zero _)

/-- A page that a collection copies is programmed, when the block is full or has several
units in a page. -/
theorem getPageInfo_programmed (sound : Sound pages units blk) (htight : blk.Tight)
    (hfull : units = 1 → blk.getNextWritePageIndex = pages) (hpage : page < pages)
    (hany : (List.range units).any (blk.getPageInfo page) = true) :
    ∃ unit, blk.Programmed page unit := by
  obtain ⟨unit, -, hinfo⟩ := List.any_eq_true.1 hany
  unfold getPageInfo at hinfo
  split_ifs at hinfo with hone
  · have hnext : blk.getNextWritePageIndex = blk.nextWritePageIndex 0 := by
      simp [getNextWritePageIndex, hone, List.range_one]
    refine ⟨0, htight page 0 ?_⟩
    rw [← hnext, hfull (sound.ioUnitInPage.symm.trans hone)]
    exact hpage
  · exact ⟨unit, sound.programmed hinfo⟩

end Block

namespace PageMapping

structure Grounded (cfg : Config) (detached : Set (Nat × Nat)) (s : PageMapping) : Prop where
  inUse : ∀ b blk, s.blocks b = some blk → b < cfg.param.totalPhysicalBlocks ∧ blk.idx = b ∧
    blk.Sound cfg.param.pagesInBlock cfg.param.ioUnitInPage ∧ blk.Tight
  free : ∀ blk ∈ s.freeBlocks, blk.idx < cfg.param.totalPhysicalBlocks ∧
    blk.Sound cfg.param.pagesInBlock cfg.param.ioUnitInPage ∧ blk.Tight
  programmed : ∀ l p, s.place cfg l = some p →
    ∃ blk, s.blocks p.1 = some blk ∧ blk.Programmed p.2.1 p.2.2
  kept : ∀ l p, l ∉ detached → s.place cfg l = some p → s.owner p = some l
  /-- without the tweak a page is mapped as a whole -/
  mapped : cfg.bRandomTweak = false → ∀ lpn, (lpn, 0) ∉ detached → s.table lpn ≠ none →
    s.place cfg (lpn, 0) ≠ none

variable {cfg : Config} {s s' : PageMapping} {detached detached' : Set (Nat × Nat)}
  {blk blk' : Block} {b block dst i idx page lpn : Nat} {tick tick' : Tick}
  {entries : Nat → Nat × Nat} {req : Request cfg} {iomap : List Bool} {rest list : List Nat}
  {bit : Nat → Bool} {lpns : Nat → Nat} {w w' : Collection} {choices : Choices}

theorem place_index {l : Nat × Nat} {p : Nat × Nat × Nat} (h : s.place cfg l = some p) :
    l.2 < cfg.bitsetSize ∧ p.2.2 = l.2 := by
  obtain ⟨entries, -, hidx, -, rfl⟩ := place_inv h
  exact ⟨hidx, rfl⟩

theorem owner_congr {p : Nat × Nat × Nat} (hb : s'.blocks p.1 = s.blocks p.1) :
    s'.owner p = s.owner p := by
  unfold owner
  rw [hb]

/-- The units of `rest` still belong to the pages they were read for. -/
def Captures (lpns : Nat → Nat) (block page : Nat) (rest : List Nat) (s : PageMapping) : Prop :=
  ∃ blk, s.blocks block = some blk ∧ ∀ idx ∈ rest, blk.lpns page idx = lpns idx

namespace Grounded

theorem congr (h : Grounded cfg detached s) (ht : s'.table = s.table) (hb : s'.blocks = s.blocks)
    (hf : s'.freeBlocks = s.freeBlocks) : Grounded cfg detached s' := by
  have hplace : s'.place cfg = s.place cfg := by
    funext l
    simp only [place, ht]
  have howner : s'.owner = s.owner := by
    funext p
    simp only [owner, hb]
  constructor
  · rw [hb]
    exact h.inUse
  · rw [hf]
    exact h.free
  · rw [hplace, hb]
    exact h.programmed
  · rw [hplace, howner]
    exact h.kept
  · rw [hplace, ht]
    exact h.mapped

theorem mono (h : Grounded cfg detached s)
    (hsub : ∀ l ∉ detached', l.2 < cfg.bitsetSize → l ∉ detached) :
    Grounded cfg detached' s where
  inUse := h.inUse
  free := h.free
  programmed := h.programmed
  kept l p hl hp := h.kept l p (hsub l hl (place_index hp).1) hp
  mapped htweak lpn hl := h.mapped htweak lpn (hsub _ hl (by simp [Config.bitsetSize, htweak]))

theorem inUse_setBlock (h : Grounded cfg detached s) (hblk : s.blocks b = some blk)
    (hidx : blk'.idx = blk.idx)
    (hsound : blk'.Sound cfg.param.pagesInBlock cfg.param.ioUnitInPage) (htight : blk'.Tight) :
    ∀ b' other, (s.setBlock b blk').blocks b' = some other →
      b' < cfg.param.totalPhysicalBlocks ∧ other.idx = b' ∧
        other.Sound cfg.param.pagesInBlock cfg.param.ioUnitInPage ∧ other.Tight := by
  intro b' other hother
  rcases mem_update_blocks hother with ⟨rfl, rfl⟩ | hold
  · obtain ⟨hlt, hown, -, -⟩ := h.inUse b' blk hblk
    exact ⟨hlt, hidx.trans hown, hsound, htight⟩
  · exact h.inUse b' other hold

theorem programmed_setBlock (hblk : s.blocks b = some blk)
    (hkeep : ∀ page unit, blk.Programmed page unit → blk'.Programmed page unit)
    {p : Nat × Nat × Nat}
    (hp : ∃ old, s.blocks p.1 = some old ∧ old.Programmed p.2.1 p.2.2) :
    ∃ other, (s.setBlock b blk').blocks p.1 = some other ∧ other.Programmed p.2.1 p.2.2 := by
  obtain ⟨old, hold, hprogrammed⟩ := hp
  by_cases heq : p.1 = b
  · rw [heq] at hold
    cases Option.some.inj (hblk.symm.trans hold)
    exact ⟨blk', by rw [heq]; exact Function.update_self .., hkeep _ _ hprogrammed⟩
  · exact ⟨old, (Function.update_of_ne heq _ _).trans hold, hprogrammed⟩

theorem readBlock (h : Grounded cfg detached s) (hblk : s.blocks b = some blk)
    (hread : blk.read page idx tick = .ok blk') : Grounded cfg detached (s.setBlock b blk') := by
  obtain ⟨-, -, hsound, htight⟩ := h.inUse b blk hblk
  have hprogrammed : ∀ l p, s.place cfg l = some p →
      ∃ other, (s.setBlock b blk').blocks p.1 = some other ∧ other.Programmed p.2.1 p.2.2 :=
    fun l p hp => programmed_setBlock hblk (fun _ _ hold => hold.read hread) (h.programmed l p hp)
  obtain ⟨accessed, rfl⟩ := Block.read_eq_ok hread
  have howner : (s.setBlock b { blk with lastAccessed := accessed }).owner = s.owner :=
    owner_setBlock hblk rfl rfl
  constructor
  · exact h.inUse_setBlock hblk rfl
      ⟨hsound.pageCount, hsound.ioUnitInPage, hsound.inRange, hsound.exclusive⟩ htight
  · exact h.free
  · exact hprogrammed
  · rw [howner]
    exact h.kept
  · exact h.mapped

theorem invalidate (h : Grounded cfg detached s) (hblk : s.blocks b = some blk)
    (hinv : blk.invalidate page idx = .ok blk') {l : Nat × Nat}
    (hown : ∀ other, s.owner (b, page, idx) = some other → other = l) :
    Grounded cfg (insert l detached) (s.setBlock b blk') := by
  obtain ⟨-, -, hsound, htight⟩ := h.inUse b blk hblk
  constructor
  · exact h.inUse_setBlock hblk (invalidate_idx hinv) (hsound.invalidate hinv)
      (htight.invalidate hinv)
  · exact h.free
  · exact fun l p hp =>
      programmed_setBlock hblk (fun _ _ hold => hold.invalidate hinv) (h.programmed l p hp)
  · intro other p hother hp
    rw [Set.mem_insert_iff, not_or] at hother
    have hkept := h.kept other p hother.2 hp
    rw [owner_invalidate hblk hinv, Function.update_of_ne]
    · exact hkept
    · rintro rfl
      exact hother.1 (hown other hkept)
  · intro htweak lpn hl
    rw [Set.mem_insert_iff, not_or] at hl
    exact h.mapped htweak lpn hl.2

theorem assign (h : Grounded cfg detached s) (ht : s.table lpn = some entries)
    (hidx : idx < cfg.bitsetSize) (hblk : s.blocks b = some blk)
    (hwrite : blk.write (blk.nextWritePageIndex idx) lpn idx tick = .ok blk') :
    Grounded cfg (detached \ {(lpn, idx)})
      ((s.setBlock b blk').setEntry lpn idx (b, blk.nextWritePageIndex idx)) := by
  obtain ⟨hb, -, hsound, htight⟩ := h.inUse b blk hblk
  obtain ⟨-, hpage, herased, -, -⟩ := Block.write_eq_ok hwrite
  rw [hsound.pageCount] at hpage
  have hplace := place_setEntry (s := s.setBlock b blk') ht hidx hb hpage
  have howner : ((s.setBlock b blk').setEntry lpn idx (b, blk.nextWritePageIndex idx)).owner = _ :=
    owner_write hblk hwrite
  constructor
  · exact h.inUse_setBlock hblk (write_idx hwrite) (hsound.write hwrite) (htight.write hwrite)
  · exact h.free
  · intro l p hp
    rw [hplace] at hp
    by_cases hl : l = (lpn, idx)
    · rw [hl, Function.update_self] at hp
      cases hp
      exact ⟨blk', Function.update_self .., Block.write_programmed hwrite⟩
    · rw [Function.update_of_ne hl] at hp
      exact programmed_setBlock hblk (fun _ _ hold => hold.write hwrite) (h.programmed l p hp)
  · intro l p hdetached hp
    rw [hplace] at hp
    rw [howner]
    by_cases hl : l = (lpn, idx)
    · rw [hl, Function.update_self] at hp
      cases hp
      rw [hl, Function.update_self]
    · rw [Function.update_of_ne hl] at hp
      rw [Function.update_of_ne]
      · exact h.kept l p (fun hmem => hdetached ⟨hmem, hl⟩) hp
      · -- the written page was erased, so no place is there
        rintro rfl
        obtain ⟨old, hold, -, -, hprogrammed⟩ := h.programmed l _ hp
        cases Option.some.inj (hblk.symm.trans hold)
        rw [herased] at hprogrammed
        cases hprogrammed
  · intro htweak other hother hmapped
    rw [hplace]
    by_cases hl : (other, 0) = (lpn, idx)
    · simp [hl]
    · rw [Function.update_of_ne hl]
      refine h.mapped htweak other (fun hmem => hother ⟨hmem, hl⟩) fun hnone => hmapped ?_
      by_cases heq : other = lpn
      · subst heq
        cases ht.symm.trans hnone
      · exact (Function.update_of_ne heq _ _).trans hnone

theorem elsewhere (h : Grounded cfg detached s) (ht : s'.table = s.table)
    (hb : ∀ b' ≠ b, s'.blocks b' = s.blocks b') (hother : ∀ l p, s.place cfg l = some p → p.1 ≠ b)
    (inUse : ∀ blk, s'.blocks b = some blk → b < cfg.param.totalPhysicalBlocks ∧ blk.idx = b ∧
      blk.Sound cfg.param.pagesInBlock cfg.param.ioUnitInPage ∧ blk.Tight)
    (free : ∀ blk ∈ s'.freeBlocks, blk.idx < cfg.param.totalPhysicalBlocks ∧
      blk.Sound cfg.param.pagesInBlock cfg.param.ioUnitInPage ∧ blk.Tight) :
    Grounded cfg detached s' := by
  have hplace : s'.place cfg = s.place cfg := by
    funext l
    simp only [place, ht]
  constructor
  · intro b' blk hblk
    by_cases heq : b' = b
    · subst heq
      exact inUse blk hblk
    · exact h.inUse b' blk (hb b' heq ▸ hblk)
  · exact free
  · intro l p hp
    rw [hplace] at hp
    rw [hb p.1 (hother l p hp)]
    exact h.programmed l p hp
  · intro l p hl hp
    rw [hplace] at hp
    rw [owner_congr (hb p.1 (hother l p hp))]
    exact h.kept l p hl hp
  · rw [hplace, ht]
    exact h.mapped

theorem getFreeBlock (h : Grounded cfg detached s) (run : getFreeBlock cfg i s = .ok (b, s')) :
    Grounded cfg detached s' := by
  obtain ⟨blk, rest, hperm, rfl, hnone, rfl⟩ := getFreeBlock_eq_ok run
  obtain ⟨hlt, hsound, htight⟩ := h.free blk (hperm.mem_iff.2 List.mem_cons_self)
  have hother : ∀ l p, s.place cfg l = some p → p.1 ≠ blk.idx := by
    rintro l p hp heq
    obtain ⟨old, hold, -⟩ := h.programmed l p hp
    rw [heq, hnone] at hold
    cases hold
  refine h.elsewhere rfl (fun _ hne => Function.update_of_ne hne _ _) hother (fun other hmem => ?_)
    fun other hmem => h.free other (hperm.mem_iff.2 (List.mem_cons_of_mem blk hmem))
  simp only [Function.update_self, Option.some.injEq] at hmem
  subst hmem
  exact ⟨hlt, rfl, hsound, htight⟩

theorem getLastFreeBlock (h : Grounded cfg detached s)
    (run : getLastFreeBlock cfg iomap s = .ok (b, s')) : Grounded cfg detached s' := by
  obtain ⟨index, flags, hrotate⟩ := rotate_eq cfg iomap s
  simp only [PageMapping.getLastFreeBlock, hrotate] at run
  have hrotated : Grounded cfg detached
      { s with lastFreeBlockIndex := index, lastFreeBlockIOMap := flags } := h.congr rfl rfl rfl
  split at run
  · cases run
  · split at run
    · cases run
    · split_ifs at run with hfull
      · obtain ⟨⟨fresh, mid⟩, hfresh, hpair⟩ := bind_eq_ok.1 run
        cases hpair
        exact (hrotated.getFreeBlock hfresh).congr rfl rfl rfl
      · cases run
        exact hrotated

theorem eraseInternal (h : Grounded cfg ∅ s) {pal : PALRequest}
    (run : eraseInternal cfg pal tick s = .ok (tick', s')) : Grounded cfg ∅ s' := by
  obtain ⟨blk, free, nFree, hblk, hcount, hfree, rfl⟩ := eraseInternal_eq_ok run
  obtain ⟨hlt, hidx, hsound, -⟩ := h.inUse _ blk hblk
  have hother : ∀ l p, s.place cfg l = some p → p.1 ≠ pal.blockIndex := by
    rintro l p hp heq
    obtain ⟨old, hold, hvalid, -⟩ := owner_inv (h.kept l p (Set.notMem_empty l) hp)
    rw [heq] at hold
    cases Option.some.inj (hblk.symm.trans hold)
    rw [hsound.not_valid hcount] at hvalid
    cases hvalid
  refine h.elsewhere rfl (fun _ hne => Function.update_of_ne hne _ _) hother (fun other hmem => ?_)
    fun other hmem => ?_
  · simp at hmem
  · rcases mem_erasedFree hfree hmem with rfl | hold
    · exact ⟨hidx.symm ▸ hlt, hsound.erase, blk.erase_tight⟩
    · exact h.free other hold

/-! ## Loops over the entries of a page -/

theorem place_of_invalidate (h : Grounded cfg detached s) (ht : s.table lpn = some entries)
    (hidx : idx < cfg.bitsetSize) (hblk : s.blocks (entries idx).1 = some blk)
    (hinv : blk.invalidate (entries idx).2 idx = .ok blk') :
    s.place cfg (lpn, idx) = some ((entries idx).1, (entries idx).2, idx) := by
  obtain ⟨hlt, -, hsound, -⟩ := h.inUse _ blk hblk
  have hpage := (Block.invalidate_eq_ok hinv).1
  rw [hsound.pageCount] at hpage
  exact place_eq_some ht hidx (by simp [Config.live, hlt, hpage])

theorem invalidateAll {f : PageMapping → Nat → Except Fault PageMapping} {sel : Nat → Bool}
    (hf : Invalidates cfg entries sel f) (h : Grounded cfg ∅ s) (ht : s.table lpn = some entries)
    (run : (List.range cfg.bitsetSize).foldlM f s = .ok s') :
    Grounded cfg (entriesOf lpn fun i => sel i = true) s' ∧ s'.table = s.table := by
  have hloop := foldlM_invariant (fun rest s' => (∀ i ∈ rest, i < cfg.bitsetSize) ∧
      rest.Nodup ∧ s'.table = s.table ∧
        Grounded cfg (entriesOf lpn fun i => sel i = true ∧ i ∉ rest) s') ?_ run ?_
  · obtain ⟨-, -, htable, hgrounded⟩ := hloop
    exact ⟨hgrounded.mono fun l hl _ hmem => hl ⟨hmem.1, hmem.2.1⟩, htable⟩
  · rintro idx rest mid next ⟨hlt, hnodup, htable, hmid⟩ hstep
    obtain ⟨hnotin, hnodup⟩ := List.nodup_cons.1 hnodup
    refine ⟨fun i hi => hlt i (List.mem_cons_of_mem idx hi), hnodup, ?_⟩
    rcases hf mid idx next hstep with ⟨hsel, blk, blk', hblk, hinv, rfl⟩ | ⟨rfl, -⟩
    · have hplace := hmid.place_of_invalidate (htable ▸ ht) (hlt idx List.mem_cons_self) hblk hinv
      have hkept := hmid.kept (lpn, idx) _ (fun hmem => hmem.2.2 List.mem_cons_self) hplace
      refine ⟨htable, (hmid.invalidate hblk hinv fun other hother =>
        Option.some.inj (hother.symm.trans hkept)).mono ?_⟩
      rintro ⟨lpn', i⟩ hl - hmem
      rcases Set.mem_insert_iff.1 hmem with heq | ⟨hlpn, hsel', hrest⟩
      · cases heq
        exact hl ⟨rfl, hsel, hnotin⟩
      · exact hl ⟨hlpn, hsel', fun hi => hrest (List.mem_cons_of_mem idx hi)⟩
    · refine ⟨htable, hmid.mono ?_⟩
      rintro l hl - ⟨hlpn, hsel, hrest⟩
      exact hl ⟨hlpn, hsel, fun hmem => hrest (List.mem_cons_of_mem idx hmem)⟩
  · refine ⟨fun i => List.mem_range.1, List.nodup_range, rfl, h.mono ?_⟩
    exact fun l _ _ => Set.notMem_empty l

theorem detach (h : Grounded cfg ∅ s) (run : PageMapping.detach cfg req s = .ok s') :
    Grounded cfg (entriesOf req.lpn fun i => req.selects i = true) s' ∧
      ∃ entries, s'.table req.lpn = some entries ∧
        (s.table req.lpn = some entries ∨
          s.table req.lpn = none ∧ entries = fun _ => cfg.unmapped) := by
  unfold PageMapping.detach at run
  split at run
  · rename_i htable
    cases run
    have hplace : place cfg { s with
        table := Function.update s.table req.lpn (some fun _ => cfg.unmapped) } = s.place cfg :=
      place_create htable
    refine ⟨?_, _, Function.update_self .., .inr ⟨htable, rfl⟩⟩
    constructor
    · exact h.inUse
    · exact h.free
    · rw [hplace]
      exact h.programmed
    · rw [hplace]
      exact fun l p _ hp => h.kept l p (Set.notMem_empty l) hp
    · intro htweak other hother hmapped
      rw [hplace]
      refine h.mapped htweak other (Set.notMem_empty _) fun hnone => hmapped ?_
      have hne : other ≠ req.lpn := fun heq =>
        hother ⟨heq, by simp [Request.selects, htweak]⟩
      exact (Function.update_of_ne hne _ _).trans hnone
  · rename_i entries htable
    obtain ⟨hgrounded, hsame⟩ := h.invalidateAll invalidateUnit_invalidates htable run
    exact ⟨hgrounded, entries, hsame ▸ htable, .inl htable⟩

theorem writeStep {sendToPAL : Bool} {start : Nat × Tick × PageMapping}
    {acc acc' : Tick × PageMapping}
    (h : Grounded cfg (entriesOf req.lpn fun i => req.selects i = true ∧ i ∈ idx :: rest) acc.2)
    (hidx : idx < cfg.bitsetSize)
    (run : PageMapping.writeStep cfg req sendToPAL start acc idx = .ok acc') :
    Grounded cfg (entriesOf req.lpn fun i => req.selects i = true ∧ i ∈ rest) acc'.2 := by
  by_cases hsel : req.selects idx = true
  · obtain ⟨blk, blk', entries, page, accesses, rfl, hblk, htable, hwrite, hacc⟩ :=
      writeUnit_eq_ok hsel run
    have hassigned := h.assign htable hidx hblk hwrite
    refine (hassigned.mono ?_).congr (by rw [hacc]) (by rw [hacc]) (by rw [hacc])
    rintro ⟨lpn, i⟩ hl - ⟨⟨hlpn, hsel', hmem⟩, hne⟩
    cases hlpn
    rcases List.mem_cons.1 hmem with rfl | hmem
    · exact hne rfl
    · exact hl ⟨rfl, hsel', hmem⟩
  · unfold PageMapping.writeStep writeUnit at run
    rw [if_neg hsel] at run
    cases run
    refine h.mono ?_
    rintro ⟨lpn, i⟩ hl - ⟨hlpn, hsel', hmem⟩
    rcases List.mem_cons.1 hmem with rfl | hmem
    · exact hsel hsel'
    · exact hl ⟨hlpn, hsel', hmem⟩

theorem readUnit {acc acc' : Tick × PageMapping} (h : Grounded cfg ∅ acc.2)
    (run : PageMapping.readUnit cfg req entries tick acc idx = .ok acc') :
    Grounded cfg ∅ acc'.2 := by
  rcases readUnit_eq_ok run with ⟨-, rfl⟩ | ⟨blk, blk', -, hblk, hread, _, rfl, rfl⟩
  · exact h
  · exact (h.readBlock hblk hread).congr rfl rfl rfl

theorem forget (h : Grounded cfg (entriesOf lpn fun _ => True) s)
    (ht : s'.table = Function.update s.table lpn none) (hb : s'.blocks = s.blocks)
    (hf : s'.freeBlocks = s.freeBlocks) : Grounded cfg ∅ s' := by
  have hplace : ∀ l p, s'.place cfg l = some p → l.1 ≠ lpn ∧ s.place cfg l = some p := by
    intro l p hp
    have hne : l.1 ≠ lpn := by
      rintro rfl
      simp [place, ht] at hp
    simp only [place, ht, Function.update_of_ne hne] at hp
    exact ⟨hne, hp⟩
  constructor
  · rw [hb]
    exact h.inUse
  · rw [hf]
    exact h.free
  · intro l p hp
    rw [hb]
    exact h.programmed l p (hplace l p hp).2
  · intro l p _ hp
    obtain ⟨hne, hold⟩ := hplace l p hp
    exact (owner_congr (congrFun hb p.1)).trans (h.kept l p (fun hmem => hne hmem.1) hold)
  · intro htweak other _ hmapped
    have hne : other ≠ lpn := by
      rintro rfl
      simp [ht] at hmapped
    rw [ht, Function.update_of_ne hne] at hmapped
    have hold := h.mapped htweak other (fun hmem => hne hmem.1) hmapped
    simpa only [place, ht, Function.update_of_ne hne] using hold

/-! ## Collections -/

theorem relocateUnit (h : Grounded cfg ∅ w.mapping) (hidx : idx < cfg.bitsetSize)
    (hnotin : idx ∉ rest) (hcaptured : Captures lpns block page (idx :: rest) w.mapping)
    (run : PageMapping.relocateUnit cfg block page dst bit lpns w idx = .ok w') :
    Grounded cfg ∅ w'.mapping ∧ Captures lpns block page rest w'.mapping := by
  obtain ⟨old, hold, hlpns⟩ := hcaptured
  by_cases hbit : bit idx = true
  · obtain ⟨blk, blk', entries, free, free', hblk, hinv, htable, hfree, hwrite, rfl⟩ :=
      relocateUnit_eq_ok hbit run
    cases Option.some.inj (hold.symm.trans hblk)
    have hinvalid : Grounded cfg (insert (lpns idx, idx) ∅) (w.mapping.setBlock block blk') := by
      refine h.invalidate hblk hinv fun other hother => ?_
      obtain ⟨found, hfound, -, rfl⟩ := owner_inv hother
      cases Option.some.inj (hblk.symm.trans hfound)
      rw [hlpns idx List.mem_cons_self]
    constructor
    · refine ((hinvalid.assign htable hidx hfree hwrite).mono ?_).congr rfl rfl rfl
      rintro l - - ⟨hmem, hne⟩
      exact (Set.mem_insert_iff.1 hmem).elim hne id
    · obtain ⟨-, rfl⟩ := Block.invalidate_eq_ok hinv
      obtain ⟨-, -, -, -, rfl⟩ := Block.write_eq_ok hwrite
      have hrest : ∀ i ∈ rest, i ≠ idx ∧ old.lpns page i = lpns i := fun i hi =>
        ⟨fun heq => hnotin (heq ▸ hi), hlpns i (List.mem_cons_of_mem idx hi)⟩
      by_cases heq : block = dst
      · subst heq
        refine ⟨_, Function.update_self .., fun i hi => ?_⟩
        cases Option.some.inj (hfree.symm.trans (Function.update_self ..))
        simpa [update₂_apply, (hrest i hi).1] using (hrest i hi).2
      · refine ⟨_, (Function.update_of_ne heq _ _).trans (Function.update_self ..), fun i hi => ?_⟩
        exact (hrest i hi).2
  · cases relocateUnit_unselected hbit run
    exact ⟨h, old, hold, fun i hi => hlpns i (List.mem_cons_of_mem idx hi)⟩

theorem relocatePage (h : Grounded cfg ∅ w.mapping)
    (run : PageMapping.relocatePage cfg block w page = .ok w') : Grounded cfg ∅ w'.mapping := by
  unfold PageMapping.relocatePage at run
  split at run
  · cases run
  · rename_i blk hblk
    dsimp only at run
    split_ifs at run
    · obtain ⟨⟨dst, opened⟩, hopen, run⟩ := bind_eq_ok.1 run
      have hstart := (getLastFreeBlock_opened hopen).blocks block blk hblk
      refine (foldlM_invariant (fun rest w => (∀ i ∈ rest, i < cfg.bitsetSize) ∧ rest.Nodup ∧
        Grounded cfg ∅ w.mapping ∧ Captures (blk.lpns page) block page rest w.mapping) ?_ run
        ⟨fun i => List.mem_range.1, List.nodup_range, h.getLastFreeBlock hopen,
          blk, hstart, fun _ _ => rfl⟩).2.2.1
      rintro idx rest w w' ⟨hlt, hnodup, hgrounded, hcaptured⟩ hstep
      obtain ⟨hnotin, hnodup⟩ := List.nodup_cons.1 hnodup
      exact ⟨fun i hi => hlt i (List.mem_cons_of_mem idx hi), hnodup,
        hgrounded.relocateUnit (hlt idx List.mem_cons_self) hnotin hcaptured hstep⟩
    · cases run
      exact h

theorem collectBlocks (h : Grounded cfg ∅ w.mapping)
    (run : list.foldlM (collectBlock cfg) w = .ok w') : Grounded cfg ∅ w'.mapping := by
  refine foldlM_invariant_mem (fun w : Collection => Grounded cfg ∅ w.mapping) ?_ run h
  intro block _ w w' h hstep
  unfold collectBlock at hstep
  split at hstep
  · cases hstep
  · exact foldlM_invariant_mem (fun w : Collection => Grounded cfg ∅ w.mapping)
      (fun page _ w w' h hstep => h.relocatePage hstep) hstep h

theorem carryOut (h : Grounded cfg ∅ w.mapping) (tick : Tick) :
    Grounded cfg ∅ (PageMapping.carryOut cfg tick w).2.2 := by
  obtain ⟨accesses, contents, heq⟩ := carryOut_eq cfg tick w
  rw [heq]
  exact h.congr rfl rfl rfl

theorem eraseStep {acc acc' : Tick × PageMapping} (h : Grounded cfg ∅ acc.2)
    (run : PageMapping.eraseStep cfg tick acc block = .ok acc') : Grounded cfg ∅ acc'.2 := by
  obtain ⟨⟨done, mid⟩, herase, hpair⟩ := bind_eq_ok.1 run
  cases hpair
  exact h.eraseInternal herase

theorem doGarbageCollection (h : Grounded cfg ∅ s)
    (run : PageMapping.doGarbageCollection cfg list tick s = .ok (tick', s')) :
    Grounded cfg ∅ s' := by
  rcases doGarbageCollection_eq_ok cfg run with ⟨-, rfl⟩ | ⟨w, erases, hcollect, herases, rfl⟩
  · exact h
  · exact foldlM_invariant_mem (fun acc : Tick × PageMapping => Grounded cfg ∅ acc.2)
      (fun _ _ _ _ h hstep => h.eraseStep hstep) herases ((h.collectBlocks hcollect).carryOut tick)

/-! ## Requests -/

theorem beginWrite {sendToPAL : Bool} {start : Nat × Tick × PageMapping}
    (h : Grounded cfg ∅ s) (run : PageMapping.beginWrite cfg req tick sendToPAL s = .ok start) :
    Grounded cfg (entriesOf req.lpn fun i => req.selects i = true) (recorded cfg req start.2.2) ∧
      ∃ entries, start.2.2.table req.lpn = some entries ∧
        (s.table req.lpn = some entries ∨
          s.table req.lpn = none ∧ entries = fun _ => cfg.unmapped) := by
  obtain ⟨opened, s₁, s₂, hdetach, hopen, rfl⟩ := beginWrite_eq_ok run
  obtain ⟨hdetached, entries, hentries, horigin⟩ := h.detach hdetach
  obtain ⟨accesses, hlooked⟩ := accessMapping_eq req tick sendToPAL s₂
  have htable := (getLastFreeBlock_opened hopen).table
  rw [hlooked]
  exact ⟨(hdetached.getLastFreeBlock hopen).congr rfl rfl rfl, entries, htable ▸ hentries, horigin⟩

theorem rewriting (h : Grounded cfg (entriesOf lpn fun i => req.selects i = true) s) :
    Grounded cfg (entriesOf lpn fun i => req.selects i = true ∧ i ∈ List.range cfg.bitsetSize) s :=
  h.mono fun _ hl hlt hmem => hl ⟨hmem.1, hmem.2, List.mem_range.2 hlt⟩

theorem writeUnits {sendToPAL : Bool} {start : Nat × Tick × PageMapping}
    {done : Tick × PageMapping}
    (h : Grounded cfg (entriesOf req.lpn fun i => req.selects i = true)
      (recorded cfg req start.2.2))
    (run : (List.range cfg.bitsetSize).foldlM (PageMapping.writeStep cfg req sendToPAL start)
      (tick, recorded cfg req start.2.2) = .ok done) : Grounded cfg ∅ done.2 := by
  have hdone := foldlM_invariant (fun rest (acc : Tick × PageMapping) =>
    (∀ i ∈ rest, i < cfg.bitsetSize) ∧
      Grounded cfg (entriesOf req.lpn fun i => req.selects i = true ∧ i ∈ rest) acc.2) ?_ run
    ⟨fun i => List.mem_range.1, h.rewriting⟩
  · refine hdone.2.mono ?_
    rintro l - - ⟨-, -, hmem⟩
    cases hmem
  · rintro idx rest acc acc' ⟨hlt, h⟩ hstep
    exact ⟨fun i hi => hlt i (List.mem_cons_of_mem idx hi),
      h.writeStep (hlt idx List.mem_cons_self) hstep⟩

theorem writeInternal {sendToPAL : Bool} (h : Grounded cfg ∅ s)
    (run : PageMapping.writeInternal cfg choices req tick sendToPAL s = .ok (tick', s')) :
    Grounded cfg ∅ s' := by
  obtain ⟨start, done, hbegin, hloop, rfl, hcollect⟩ := writeInternal_eq_ok run
  have hwritten := (h.beginWrite hbegin).1.writeUnits hloop
  rcases collectIfNeeded_eq_ok hcollect with
    ⟨-, rfl⟩ | ⟨-, -, list, beginAt, finished, -, -, hgc⟩
  · exact hwritten
  · have hselected : Grounded cfg ∅ { done.2 with bReclaimMore := false } :=
      hwritten.congr rfl rfl rfl
    exact hselected.doGarbageCollection hgc

theorem read (h : Grounded cfg ∅ s)
    (run : PageMapping.read cfg req tick s = .ok (tick', s')) : Grounded cfg ∅ s' := by
  rcases read_eq_ok run with rfl | ⟨entries, last, -, hloop, rfl⟩
  · exact h
  · exact foldlM_invariant_mem (fun acc : Tick × PageMapping => Grounded cfg ∅ acc.2)
      (fun _ _ _ _ h hstep => h.readUnit hstep) hloop (h.congr rfl rfl rfl)

theorem drop (h : Grounded cfg ∅ s) (ht : s.table lpn = some entries)
    (run : (List.range cfg.bitsetSize).foldlM (trimUnit entries) s = .ok s') (host : HostRecord) :
    Grounded cfg ∅ { s' with table := Function.update s'.table lpn none, host := host } := by
  have hinvalidates : Invalidates cfg entries (fun _ => true) (trimUnit entries) :=
    trimUnit_invalidates
  have htrimmed : Grounded cfg (entriesOf lpn fun _ => True) s' :=
    (h.invalidateAll hinvalidates ht run).1.mono fun l hl _ hmem => hl ⟨hmem.1, trivial⟩
  exact htrimmed.forget rfl rfl rfl

theorem trim (h : Grounded cfg ∅ s)
    (run : PageMapping.trim cfg req tick s = .ok (tick', s')) : Grounded cfg ∅ s' := by
  obtain ⟨⟨done, mid⟩, hinternal, hpair⟩ := bind_eq_ok.1 run
  cases hpair
  rcases trimInternal_eq_ok hinternal with ⟨-, hpair⟩ | ⟨entries, last, htable, hloop, hpair⟩
  · cases hpair
    exact h.congr rfl rfl rfl
  · cases hpair
    have hlooked : Grounded cfg ∅ (lookUp cfg req tick s).2 := h.congr rfl rfl rfl
    exact hlooked.drop htable hloop _

theorem formatPage {acc acc' : PageMapping × List Nat} (h : Grounded cfg ∅ acc.1)
    (run : PageMapping.formatPage cfg acc lpn = .ok acc') : Grounded cfg ∅ acc'.1 := by
  rcases formatPage_eq_ok run with ⟨-, rfl⟩ | ⟨entries, trimmed, htable, htrim, rfl⟩
  · exact h
  · exact h.drop htable htrim _

theorem formatPages {range : LPNRange} {done : PageMapping × List Nat} (h : Grounded cfg ∅ s)
    (run : PageMapping.formatPages cfg choices range s = .ok done) : Grounded cfg ∅ done.1 :=
  foldlM_invariant_mem (fun acc : PageMapping × List Nat => Grounded cfg ∅ acc.1)
    (fun _ _ _ _ h hstep => h.formatPage hstep) run h

theorem step {step : Step cfg} (h : Grounded cfg ∅ s) (run : step.apply s = .ok s') :
    Grounded cfg ∅ s' := by
  cases step with
  | format choices range tick =>
      obtain ⟨⟨done, mid⟩, hformat, hpair⟩ := bind_eq_ok.1 run
      cases hpair
      obtain ⟨⟨t, list⟩, hpages, hformat⟩ := bind_eq_ok.1 hformat
      obtain ⟨⟨done', collected⟩, hgc, hpair⟩ := bind_eq_ok.1 hformat
      cases hpair
      exact (h.formatPages hpages).doGarbageCollection hgc
  | call request =>
      rcases request.apply_eq_ok run with
        rfl | ⟨choices, req, tick, sendToPAL, tick', hwrite⟩ | ⟨req, tick, tick', hread⟩ |
          ⟨req, tick, tick', htrim⟩
      · exact h
      · exact h.writeInternal hwrite
      · exact h.read hread
      · exact h.trim htrim

end Grounded

theorem construct_grounded (h : construct cfg = .ok s) : Grounded cfg ∅ s := by
  refine foldlM_invariant_mem (Grounded cfg ∅) (fun i _ s s' grounded hstep => ?_) h ?_
  · obtain ⟨⟨block, mid⟩, hget, hpair⟩ := bind_eq_ok.1 hstep
    cases hpair
    exact (grounded.getFreeBlock hget).congr rfl rfl rfl
  · constructor
    · intro b blk hblk
      cases hblk
    · intro blk hblk
      obtain ⟨idx, hidx, rfl⟩ := List.mem_map.1 hblk
      exact ⟨List.mem_range.1 hidx, Block.new_sound idx, Block.new_tight idx⟩
    · intro l p hp
      cases hp
    · intro l p _ hp
      cases hp
    · exact fun _ lpn _ hmapped => absurd rfl hmapped

theorem run_grounded {start : PageMapping} (hconstruct : construct cfg = .ok start)
    {steps : List (Step cfg)} (hrun : steps.foldlM Step.apply start = .ok s) :
    Grounded cfg ∅ s :=
  foldlM_invariant_mem (Grounded cfg ∅) (fun _ _ _ _ h hstep => h.step hstep) hrun
    (construct_grounded hconstruct)

end PageMapping

end SimpleSSD.FTL
