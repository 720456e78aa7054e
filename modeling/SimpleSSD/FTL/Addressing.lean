import SimpleSSD.FTL.Issues

/-!
# Addresses of requests

Requests stay within flash and read pages that were written since the last erase, except
where a partial write reads a page that was never mapped, or a format collects a block that is
still open.
-/

namespace SimpleSSD.FTL.PageMapping

open SimpleSSD.Foundation

variable {cfg : Config} {s s' : PageMapping} {list rest : List Nat} {b block dst page idx : Nat}
  {tick tick' : Tick} {req : Request cfg} {entries : Nat → Nat × Nat} {choices : Choices}
  {w w' : Collection} {bit : Nat → Bool} {lpns : Nat → Nat} {iomap : List Bool}
  {acc acc' : Tick × PageMapping} {sendToPAL : Bool} {start : Nat × Tick × PageMapping}
  {detached : Set (Nat × Nat)} {blk : Block} {range : LPNRange} {call : Call cfg}

def OnFlash (cfg : Config) (pal : PALRequest) : Prop :=
  pal.blockIndex < cfg.param.totalPhysicalBlocks ∧ pal.pageIndex < cfg.param.pagesInBlock

/-- The page was written since the last erase of its block. -/
def Stored (blocks : Nat → Option Block) (b page : Nat) : Prop :=
  ∃ blk, blocks b = some blk ∧ ∃ unit, blk.Programmed page unit

def Issue.Addressed (cfg : Config) (issue : Issue) : Prop :=
  match issue.access with
  | .palRead pal => OnFlash cfg pal ∧ Stored issue.blocks pal.blockIndex pal.pageIndex
  | .palWrite pal | .palErase pal => OnFlash cfg pal
  | .dramRead _ | .dramWrite _ => True

/-! ## Reads -/

theorem Grounded.addressed (h : Grounded cfg detached s) {l : Nat × Nat} {p : Nat × Nat × Nat}
    (hp : s.place cfg l = some p) (flags : List Bool) :
    Issue.Addressed cfg ⟨s.blocks, .palRead ⟨p.1, p.2.1, flags⟩⟩ := by
  obtain ⟨blk, hblk, hprogrammed⟩ := h.programmed l p hp
  obtain ⟨entries, -, -, hlive, rfl⟩ := place_inv hp
  simp only [Config.live, Bool.and_eq_true, decide_eq_true_eq] at hlive
  exact ⟨hlive, blk, hblk, _, hprogrammed⟩

theorem readUnit_table (run : readUnit cfg req entries tick acc idx = .ok acc') :
    acc'.2.table = acc.2.table := by
  rcases readUnit_eq_ok run with ⟨-, rfl⟩ | ⟨blk, blk', -, -, -, _, rfl, rfl⟩
  · rfl
  · rfl

theorem Grounded.unitReads (h : Grounded cfg detached acc.2) (hidx : idx < cfg.bitsetSize)
    (htable : acc.2.table req.lpn = some entries) :
    ∀ issue ∈ PageMapping.unitReads cfg req entries tick (acc, idx), issue.Addressed cfg := by
  intro issue hissue
  unfold PageMapping.unitReads at hissue
  split_ifs at hissue with hsel
  · split at hissue
    · cases hissue
    · split at hissue
      · cases hissue
      · rw [List.mem_singleton.1 hissue]
        rw [Bool.and_eq_true] at hsel
        exact h.addressed (place_eq_some htable hidx hsel.2) _
  · cases hissue

theorem Grounded.readIssues (h : Grounded cfg ∅ s) (req : Request cfg) (tick : Tick) :
    ∀ issue ∈ PageMapping.readIssues cfg req tick s, issue.Addressed cfg := by
  intro issue hissue
  unfold PageMapping.readIssues at hissue
  split at hissue
  · cases hissue
  · rename_i entries htable
    obtain ⟨v, hv, hissue⟩ := List.mem_flatMap.1 hissue
    have hlooked : Grounded cfg ∅ (access cfg (.dramRead
        (if cfg.bRandomTweak then 8 * req.ioFlag.count true else 8)) tick s).2 :=
      h.congr rfl rfl rfl
    obtain ⟨hmem, hgrounded, hentries⟩ := visits_invariant_mem
      (fun acc : Tick × PageMapping => Grounded cfg ∅ acc.2 ∧ acc.2.table req.lpn = some entries)
      (fun _ _ _ _ hinv hstep => ⟨hinv.1.readUnit hstep, readUnit_table hstep ▸ hinv.2⟩)
      (b := (tick, _)) ⟨hlooked, htable⟩ v hv
    exact hgrounded.unitReads (List.mem_range.1 hmem) hentries issue hissue

/-! ## Writes -/

theorem writeStep_place (h : Grounded cfg detached acc.2) (hidx : idx < cfg.bitsetSize)
    (run : writeStep cfg req sendToPAL start acc idx = .ok acc') {l : Nat × Nat}
    (hplaced : acc.2.place cfg l ≠ none) : acc'.2.place cfg l ≠ none := by
  by_cases hsel : req.selects idx = true
  · obtain ⟨blk, blk', entries, page, accesses, rfl, hblk, htable, hwrite, hacc⟩ :=
      writeUnit_eq_ok hsel run
    obtain ⟨hb, -, hsound, -⟩ := h.inUse _ blk hblk
    have hpage := (Block.write_eq_ok hwrite).2.1
    rw [hsound.pageCount] at hpage
    have hplace := place_setEntry (s := acc.2.setBlock start.1 blk') htable hidx hb hpage
    have hsame : acc'.2.place cfg = Function.update (acc.2.place cfg) (req.lpn, idx)
        (some (start.1, blk.nextWritePageIndex idx, idx)) := by
      rw [hacc]
      exact hplace
    rw [hsame]
    by_cases hl : l = (req.lpn, idx)
    · simp [hl]
    · rw [Function.update_of_ne hl]
      exact hplaced
  · cases writeUnit_unselected hsel run
    exact hplaced

def Merged (cfg : Config) (req : Request cfg) (s : PageMapping) : Prop :=
  cfg.bRandomTweak = true ∨ req.ioFlag.all id = true ∨ s.table req.lpn ≠ none

theorem Grounded.unitIssues (h : Grounded cfg detached acc.2)
    (hmerged : (!cfg.bRandomTweak && !req.ioFlag.all id) = true →
      acc.2.place cfg (req.lpn, idx) ≠ none) :
    ∀ issue ∈ PageMapping.unitIssues cfg req sendToPAL start (acc, idx),
      issue.Addressed cfg := by
  intro issue hissue
  unfold PageMapping.unitIssues at hissue
  by_cases hsel : (sendToPAL && req.selects idx) = true
  · rw [if_pos hsel] at hissue
    split at hissue
    · rename_i blk entries hblk htable
      split at hissue
      · cases hissue
      · rename_i blk' hwrite
        rcases List.mem_append.1 hissue with hread | hwritten
        · split_ifs at hread with hmerge
          · rw [List.mem_singleton.1 hread]
            obtain ⟨p, hp⟩ := Option.ne_none_iff_exists'.1 (hmerged hmerge)
            have haddressed := h.addressed hp (req.ioFlag.map not)
            obtain ⟨found, hfound, -, -, rfl⟩ := place_inv hp
            cases Option.some.inj (htable.symm.trans hfound)
            exact haddressed
          · cases hread
        · rw [List.mem_singleton.1 hwritten]
          obtain ⟨hb, -, hsound, -⟩ := h.inUse _ blk hblk
          have hpage := (Block.write_eq_ok hwrite).2.1
          rw [hsound.pageCount] at hpage
          exact ⟨hb, hpage⟩
    · cases hissue
  · rw [if_neg hsel] at hissue
    cases hissue

theorem Grounded.writing (h : Grounded cfg ∅ s)
    (hbegin : PageMapping.beginWrite cfg req tick sendToPAL s = .ok start) (tick' : Tick) :
    ∀ v ∈ visits (PageMapping.writeStep cfg req sendToPAL start) (List.range cfg.bitsetSize)
      (tick', recorded cfg req start.2.2),
      (∃ detached, Grounded cfg detached v.1.2) ∧
        ((recorded cfg req start.2.2).place cfg (req.lpn, v.2) ≠ none →
          v.1.2.place cfg (req.lpn, v.2) ≠ none) := by
  intro v hv
  obtain ⟨hbegun, -⟩ := h.beginWrite hbegin
  have hvisited := visits_invariant
    (fun rest (acc : Tick × PageMapping) => (∀ i ∈ rest, i < cfg.bitsetSize) ∧
      Grounded cfg (entriesOf req.lpn fun i => req.selects i = true ∧ i ∈ rest) acc.2 ∧
        ∀ i, (recorded cfg req start.2.2).place cfg (req.lpn, i) ≠ none →
          acc.2.place cfg (req.lpn, i) ≠ none)
    ?_ (b := (tick', recorded cfg req start.2.2))
    ⟨fun i => List.mem_range.1, hbegun.rewriting, fun _ => id⟩ v hv
  · obtain ⟨rest, -, hgrounded, hplaced⟩ := hvisited
    exact ⟨⟨_, hgrounded⟩, hplaced v.2⟩
  · rintro idx rest acc acc' ⟨hlt, hgrounded, hplaced⟩ hstep
    have hidx := hlt idx List.mem_cons_self
    exact ⟨fun i hi => hlt i (List.mem_cons_of_mem idx hi), hgrounded.writeStep hidx hstep,
      fun i hi => writeStep_place hgrounded hidx hstep (hplaced i hi)⟩

theorem Grounded.hostIssues (h : Grounded cfg ∅ s) (hmerged : Merged cfg req s) (tick : Tick)
    (sendToPAL : Bool) :
    ∀ issue ∈ PageMapping.hostIssues cfg req tick sendToPAL s, issue.Addressed cfg := by
  intro issue hissue
  unfold PageMapping.hostIssues at hissue
  split at hissue
  · cases hissue
  · rename_i start hbegin
    obtain ⟨v, hv, hissue⟩ := List.mem_flatMap.1 hissue
    obtain ⟨⟨detached, hgrounded⟩, hplaced⟩ := h.writing hbegin tick v hv
    have hidx := List.mem_range.1 (visits_invariant_mem (fun _ => True)
      (fun _ _ _ _ _ _ => trivial) trivial v hv).1
    refine hgrounded.unitIssues (fun hmerge => hplaced ?_) issue hissue
    simp only [Bool.and_eq_true, Bool.not_eq_true'] at hmerge
    obtain ⟨htweak, hsome⟩ := hmerge
    have hmapped : s.table req.lpn ≠ none := by
      rcases hmerged with h | h | h
      · rw [htweak] at h
        cases h
      · rw [hsome] at h
        cases h
      · exact h
    -- without the tweak there is one entry, and it has a place
    have hzero : v.2 = 0 := by simpa [Config.bitsetSize, htweak] using hidx
    have hold := h.mapped htweak req.lpn (Set.notMem_empty _) hmapped
    obtain ⟨-, entries, hentries, hsame | ⟨hnone, -⟩⟩ := h.beginWrite hbegin
    · have htable : (recorded cfg req start.2.2).table req.lpn = s.table req.lpn :=
        hentries.trans hsame.symm
      simp only [place, hzero, htable] at hold ⊢
      exact hold
    · exact absurd hnone hmapped

/-! ## Collections -/

/-- Between two calls of a collection that began in `s`. -/
structure Gathering (cfg : Config) (list : List Nat) (s : PageMapping) (w : Collection) :
    Prop where
  grounded : Grounded cfg ∅ w.mapping
  victims : ∀ b ∈ list, ∃ old blk, s.blocks b = some old ∧ w.mapping.blocks b = some blk ∧
    blk.getNextWritePageIndex = cfg.param.pagesInBlock ∧
      ∀ page unit, blk.Programmed page unit → old.Programmed page unit
  reads : ∀ pal ∈ w.reads, OnFlash cfg pal ∧ Stored s.blocks pal.blockIndex pal.pageIndex
  writes : ∀ copy ∈ w.writes, OnFlash cfg copy.req

theorem Gathering.first (h : Grounded cfg ∅ s) (hfull : ∀ b ∈ list, Full cfg s b) (tick : Tick) :
    Gathering cfg list s ⟨s, tick, [], []⟩ := by
  refine ⟨h, fun b hb => ?_, by simp, by simp⟩
  obtain ⟨blk, hblk, hnext⟩ := hfull b hb
  exact ⟨blk, blk, hblk, hblk, hnext, fun _ _ hold => hold⟩

theorem Gathering.relocateUnit (h : Gathering cfg list s w) (hblock : block ∈ list)
    (hdst : dst ∉ list) (hidx : idx < cfg.bitsetSize) (hnotin : idx ∉ rest)
    (hcaptured : Captures lpns block page (idx :: rest) w.mapping)
    (run : relocateUnit cfg block page dst bit lpns w idx = .ok w') :
    Gathering cfg list s w' ∧ Captures lpns block page rest w'.mapping := by
  obtain ⟨hgrounded, hrest⟩ := h.grounded.relocateUnit hidx hnotin hcaptured run
  refine ⟨?_, hrest⟩
  by_cases hbit : bit idx = true
  · obtain ⟨blk, blk', entries, free, free', hblk, hinv, -, hfree, hwrite, rfl⟩ :=
      relocateUnit_eq_ok hbit run
    have hne : dst ≠ block := fun heq => hdst (heq ▸ hblock)
    have hopen : w.mapping.blocks dst = some free :=
      (Function.update_of_ne hne _ _).symm.trans hfree
    obtain ⟨hlt, -, hsound, -⟩ := h.grounded.inUse dst free hopen
    have hpage := (Block.write_eq_ok hwrite).2.1
    rw [hsound.pageCount] at hpage
    refine ⟨hgrounded, fun b hb => ?_, h.reads, fun copy hcopy => ?_⟩
    · obtain ⟨old, victim, hold, hvictim, hnext, hstored⟩ := h.victims b hb
      have hapart : b ≠ dst := fun heq => hdst (heq ▸ hb)
      by_cases heq : b = block
      · subst heq
        cases Option.some.inj (hblk.symm.trans hvictim)
        refine ⟨old, blk', hold,
          (Function.update_of_ne hapart _ _).trans (Function.update_self ..), ?_⟩
        obtain ⟨-, rfl⟩ := Block.invalidate_eq_ok hinv
        exact ⟨hnext, hstored⟩
      · exact ⟨old, victim, hold, (Function.update_of_ne hapart _ _).trans
          ((Function.update_of_ne heq _ _).trans hvictim), hnext, hstored⟩
    · rcases List.mem_append.1 hcopy with hcopy | hcopy
      · exact h.writes copy hcopy
      · rw [List.mem_singleton.1 hcopy]
        exact ⟨hlt, hpage⟩
  · cases relocateUnit_unselected hbit run
    exact h

theorem Gathering.relocatePage (h : Gathering cfg list s w) (hblock : block ∈ list)
    (hpage : page < cfg.param.pagesInBlock)
    (run : relocatePage cfg block w page = .ok w') : Gathering cfg list s w' := by
  unfold PageMapping.relocatePage at run
  split at run
  · cases run
  · rename_i blk hblk
    dsimp only at run
    split_ifs at run with hany
    · obtain ⟨⟨dst, opened⟩, hopen, run⟩ := bind_eq_ok.1 run
      have hopened := getLastFreeBlock_opened hopen
      have hdst : dst ∉ list := by
        intro hmem
        obtain ⟨-, victim, -, hvictim, hnext, -⟩ := h.victims dst hmem
        exact hopened.room victim hvictim hnext
      obtain ⟨hlt, -, hsound, htight⟩ := h.grounded.inUse block blk hblk
      obtain ⟨old, victim, hold, hvictim, hnext, hstored⟩ := h.victims block hblock
      cases Option.some.inj (hblk.symm.trans hvictim)
      obtain ⟨unit, hprogrammed⟩ :=
        Block.getPageInfo_programmed hsound htight (fun _ => hnext) hpage hany
      refine (foldlM_invariant (fun rest w => (∀ i ∈ rest, i < cfg.bitsetSize) ∧ rest.Nodup ∧
        Gathering cfg list s w ∧ Captures (blk.lpns page) block page rest w.mapping) ?_ run
        ⟨fun i => List.mem_range.1, List.nodup_range, ⟨h.grounded.getLastFreeBlock hopen,
          fun b hb => ?_, fun pal hpal => ?_, h.writes⟩,
          blk, hopened.blocks block blk hblk, fun _ _ => rfl⟩).2.2.1
      · rintro idx rest w w' ⟨hlt, hnodup, hgathering, hcaptured⟩ hstep
        obtain ⟨hnotin, hnodup⟩ := List.nodup_cons.1 hnodup
        exact ⟨fun i hi => hlt i (List.mem_cons_of_mem idx hi), hnodup,
          hgathering.relocateUnit hblock hdst (hlt idx List.mem_cons_self) hnotin hcaptured hstep⟩
      · obtain ⟨old, victim, hold, hvictim, hrest⟩ := h.victims b hb
        exact ⟨old, victim, hold, hopened.blocks b victim hvictim, hrest⟩
      · rcases List.mem_append.1 hpal with hpal | hpal
        · exact h.reads pal hpal
        · rw [List.mem_singleton.1 hpal]
          exact ⟨⟨hlt, hpage⟩, old, hold, unit, hstored page unit hprogrammed⟩
    · cases run
      exact h

theorem Gathering.collectBlock (h : Gathering cfg list s w) (hblock : block ∈ list)
    (run : collectBlock cfg w block = .ok w') : Gathering cfg list s w' := by
  unfold PageMapping.collectBlock at run
  split at run
  · cases run
  · exact foldlM_invariant_mem (Gathering cfg list s)
      (fun page hpage w w' h hstep => h.relocatePage hblock (List.mem_range.1 hpage) hstep) run h

theorem Grounded.collectionIssues (h : Grounded cfg ∅ s) (hfull : ∀ b ∈ list, Full cfg s b)
    (hpages : list ≠ [] → 0 < cfg.param.pagesInBlock) (tick : Tick) :
    ∀ issue ∈ PageMapping.collectionIssues cfg list tick s, issue.Addressed cfg := by
  intro issue hissue
  unfold PageMapping.collectionIssues at hissue
  split at hissue
  · cases hissue
  · rename_i w hcollect
    have hgathered := foldlM_invariant_mem (Gathering cfg list s)
      (fun block hblock w w' h hstep => h.collectBlock hblock hstep) hcollect
      (Gathering.first h hfull tick)
    rcases List.mem_append.1 hissue with hissue | herase
    · rcases List.mem_append.1 hissue with hread | hwritten
      · obtain ⟨pal, hpal, rfl⟩ := List.mem_map.1 hread
        exact hgathered.reads pal hpal
      · obtain ⟨copy, hcopy, rfl⟩ := List.mem_map.1 hwritten
        exact hgathered.writes copy hcopy
    · obtain ⟨call, hcall, hissue⟩ := List.mem_flatMap.1 herase
      simp only [eraseCalls, hcollect] at hcall
      obtain ⟨hmem, hgrounded⟩ := visits_invariant_mem
        (fun acc : Tick × PageMapping => Grounded cfg ∅ acc.2)
        (fun _ _ _ _ h hstep => h.eraseStep hstep) (b := (tick, _))
        (hgathered.grounded.carryOut tick) call hcall
      unfold eraseIssues at hissue
      split at hissue
      · cases hissue
      · rename_i blk hblk
        split_ifs at hissue
        · rw [List.mem_singleton.1 hissue]
          exact ⟨(hgrounded.inUse _ blk hblk).1, hpages (List.ne_nil_of_mem hmem)⟩
        · cases hissue

/-! ## Steps -/

theorem exists_selected (hcount : 0 < req.ioFlag.count true) :
    ∃ idx < cfg.bitsetSize, req.selects idx = true := by
  cases htweak : cfg.bRandomTweak with
  | false => exact ⟨0, by simp [Config.bitsetSize, htweak], by simp [Request.selects, htweak]⟩
  | true =>
      obtain ⟨idx, hidx, hflag⟩ := List.mem_iff_getElem.1 (List.count_pos_iff.1 hcount)
      have hlength : req.ioFlag.length = cfg.param.ioUnitInPage := by
        simpa [htweak] using req.sized
      exact ⟨idx, by simpa [Config.bitsetSize, htweak, ← hlength] using hidx,
        by simp [Request.selects, Request.test, List.getD_eq_getElem?_getD, hidx, hflag]⟩

theorem Grounded.pages_pos {done : Tick × PageMapping} (h : Grounded cfg ∅ s)
    (hcount : 0 < req.ioFlag.count true)
    (hbegin : PageMapping.beginWrite cfg req tick sendToPAL s = .ok start)
    (hloop : (List.range cfg.bitsetSize).foldlM (PageMapping.writeStep cfg req sendToPAL start)
      (tick', recorded cfg req start.2.2) = .ok done) : 0 < cfg.param.pagesInBlock := by
  obtain ⟨idx, hidx, hsel⟩ := exists_selected hcount
  obtain ⟨mid, hmid, next, hnext⟩ := exists_visit_of_ok hloop (List.mem_range.2 hidx)
  obtain ⟨⟨detached, hgrounded⟩, -⟩ := h.writing hbegin tick' _ hmid
  obtain ⟨blk, blk', _, _, _, -, hblk, -, hwrite, -⟩ := writeUnit_eq_ok hsel hnext
  obtain ⟨-, -, hsound, -⟩ := hgrounded.inUse _ blk hblk
  have hpage := (Block.write_eq_ok hwrite).2.1
  rw [hsound.pageCount] at hpage
  omega

theorem Grounded.collecting (h : Grounded cfg ∅ s)
    (hcount : sendToPAL = true → 0 < req.ioFlag.count true) :
    ∀ gc ∈ collections cfg choices req tick sendToPAL s, Grounded cfg ∅ gc.2.2 ∧
      (∀ b ∈ gc.1, Full cfg gc.2.2 b) ∧ 0 < cfg.param.pagesInBlock := by
  intro gc hgc
  unfold collections at hgc
  split at hgc
  · cases hgc
  · rename_i start hbegin
    split at hgc
    · cases hgc
    · rename_i done hloop
      split_ifs at hgc with hbelow
      · split at hgc
        · cases hgc
        · rename_i selected hselect
          rw [List.mem_singleton.1 hgc]
          obtain ⟨list, beginAt, mid⟩ := selected
          obtain ⟨hfull, rfl⟩ := selectVictimBlock_eq_ok hselect
          rw [Bool.and_eq_true] at hbelow
          have hwritten := (h.beginWrite hbegin).1.writeUnits hloop
          exact ⟨hwritten.congr rfl rfl rfl, hfull, h.pages_pos (hcount hbelow.2) hbegin hloop⟩
      · cases hgc

theorem Grounded.internalIssues (h : Grounded cfg ∅ s) (hmerged : Merged cfg req s)
    (hcount : sendToPAL = true → 0 < req.ioFlag.count true) (choices : Choices) (tick : Tick) :
    ∀ issue ∈ PageMapping.internalIssues cfg choices req tick sendToPAL s,
      issue.Addressed cfg := by
  intro issue hissue
  rcases List.mem_append.1 hissue with hhost | hcollect
  · exact h.hostIssues hmerged tick sendToPAL issue hhost
  · obtain ⟨gc, hgc, hissue⟩ := List.mem_flatMap.1 hcollect
    obtain ⟨hgrounded, hfull, hpages⟩ := h.collecting hcount gc hgc
    exact hgrounded.collectionIssues hfull (fun _ => hpages) gc.2.1 issue hissue

theorem invalidateAll_full {f : PageMapping → Nat → Except Fault PageMapping} {sel : Nat → Bool}
    (hf : Invalidates cfg entries sel f) (run : list.foldlM f s = .ok s') (h : Full cfg s b) :
    Full cfg s' b := by
  refine foldlM_invariant_mem (Full cfg · b) (fun idx _ mid next hmid hstep => ?_) run h
  rcases hf mid idx next hstep with ⟨-, blk, blk', hblk, hinv, rfl⟩ | ⟨rfl, -⟩
  · obtain ⟨full, hfull, hnext⟩ := hmid
    by_cases heq : b = (entries idx).1
    · subst heq
      cases Option.some.inj (hblk.symm.trans hfull)
      obtain ⟨-, rfl⟩ := Block.invalidate_eq_ok hinv
      exact ⟨_, Function.update_self .., hnext⟩
    · exact ⟨full, (Function.update_of_ne heq _ _).trans hfull, hnext⟩
  · exact hmid

/-- Between two pages of a format that began in `s`. -/
structure Listing (cfg : Config) (range : LPNRange) (s : PageMapping)
    (acc : PageMapping × List Nat) : Prop where
  grounded : Grounded cfg ∅ acc.1
  table : ∀ lpn entries, acc.1.table lpn = some entries → s.table lpn = some entries
  listed : ∀ b ∈ acc.2, b ∈ formatted cfg range s ∧ 0 < cfg.param.pagesInBlock
  full : ∀ b, Full cfg s b → Full cfg acc.1 b

theorem Listing.step {lpn : Nat} {acc acc' : PageMapping × List Nat}
    (h : Listing cfg range s acc) (hlpn : lpn ∈ pagesIn range s)
    (run : formatPage cfg acc lpn = .ok acc') : Listing cfg range s acc' := by
  rcases formatPage_eq_ok run with ⟨-, rfl⟩ | ⟨entries, trimmed, htable, htrim, rfl⟩
  · exact h
  · obtain ⟨hleads, -, hsame⟩ := trimUnits_eq_ok htrim
    have hinvalidates : Invalidates cfg entries (fun _ => true) (trimUnit entries) :=
      trimUnit_invalidates
    refine ⟨h.grounded.drop htable htrim _, fun other found hfound => ?_, fun b hb => ?_,
      fun b hb => (invalidateAll_full hinvalidates htrim (h.full b hb) :)⟩
    · by_cases heq : other = lpn
      · simp [heq] at hfound
      · exact h.table other found (by simpa [heq, hsame] using hfound)
    · rcases List.mem_append.1 hb with hb | hb
      · exact h.listed b hb
      · obtain ⟨idx, hidx, rfl⟩ := List.mem_map.1 hb
        obtain ⟨blk, hblk, hpage⟩ := hleads idx hidx
        obtain ⟨-, -, hsound, -⟩ := h.grounded.inUse _ blk hblk
        rw [hsound.pageCount] at hpage
        refine ⟨mem_formatted.2 ⟨lpn, hlpn, ?_⟩, by omega⟩
        simp only [blocksOf, h.table lpn entries htable]
        exact hb

theorem Grounded.formatIssues (h : Grounded cfg ∅ s)
    (hfull : ∀ b ∈ formatted cfg range s, Full cfg s b) (tick : Tick) :
    ∀ gc ∈ collected cfg choices range s,
      ∀ issue ∈ PageMapping.collectionIssues cfg gc.2 tick gc.1, issue.Addressed cfg := by
  intro gc hgc
  unfold PageMapping.collected at hgc
  split at hgc
  · cases hgc
  · rename_i acc hpages
    rw [List.mem_singleton.1 hgc]
    have hlisted := foldlM_invariant_mem (Listing cfg range s)
      (fun lpn hlpn acc acc' hinv hstep =>
        hinv.step ((choices.iterate_perm _).mem_iff.1 hlpn) hstep) hpages
      ⟨h, fun _ _ => id, by simp, fun _ => id⟩
    have hmem : ∀ b, b ∈ (acc.2.insertionSort (· ≤ ·)).dedup ↔ b ∈ acc.2 := by
      intro b
      rw [List.mem_dedup, List.mem_insertionSort]
    refine hlisted.grounded.collectionIssues (fun b hb => ?_) (fun hne => ?_) tick
    · exact hlisted.full b (hfull b (hlisted.listed b ((hmem b).1 hb)).1)
    · obtain ⟨b, hb⟩ := List.exists_mem_of_ne_nil _ hne
      exact (hlisted.listed b ((hmem b).1 hb)).2

/-- A write may merge, and a format collects full blocks only. -/
def Step.Covered (s : PageMapping) : Step cfg → Prop
  | .call (.op (.write _ req _)) => 0 < req.ioFlag.count true → Merged cfg req s
  | .call _ => True
  | .format _ range _ => ∀ b ∈ formatted cfg range s, Full cfg s b

theorem Grounded.issues {step : Step cfg} (h : Grounded cfg ∅ s) (hcovered : step.Covered s) :
    ∀ issue ∈ step.issues s, issue.Addressed cfg := by
  cases step with
  | format choices range tick =>
      intro issue hissue
      obtain ⟨gc, hgc, hissue⟩ := List.mem_flatMap.1 hissue
      exact h.formatIssues hcovered tick gc hgc issue hissue
  | call request =>
      cases request with
      | fill choices lpn =>
          exact h.internalIssues (.inr (.inl (by simp [fillRequest]))) (by simp) choices 0
      | op op =>
          cases op with
          | write choices req tick =>
              simp only [Step.issues]
              split_ifs with hcount
              · exact h.internalIssues (hcovered hcount) (fun _ => hcount) choices tick
              · simp
          | read req tick =>
              simp only [Step.issues]
              split_ifs
              · exact h.readIssues req tick
              · simp
          | trim req tick => simp [Step.issues]

theorem Grounded.unmapped_issue (h : Grounded cfg ∅ s) {done : Tick × PageMapping}
    (htweak : cfg.bRandomTweak = false) (hsome : req.ioFlag.all id = false)
    (hnone : s.table req.lpn = none)
    (run : PageMapping.writeInternal cfg choices req tick true s = .ok done) :
    ∃ issue ∈ PageMapping.internalIssues cfg choices req tick true s, ¬ issue.Addressed cfg := by
  rw [writeInternal_eq] at run
  obtain ⟨start, hbegin, run⟩ := bind_eq_ok.1 run
  obtain ⟨last, hloop, -⟩ := bind_eq_ok.1 run
  have hrange : List.range cfg.bitsetSize = [0] := by simp [Config.bitsetSize, htweak]
  have hsel : req.selects 0 = true := by simp [Request.selects, htweak]
  have hentries : (recorded cfg req start.2.2).table req.lpn = some fun _ => cfg.unmapped := by
    obtain ⟨-, entries, hentries, hsame | ⟨-, rfl⟩⟩ := h.beginWrite hbegin
    · rw [hnone] at hsame
      cases hsame
    · exact hentries
  rw [hrange] at hloop
  obtain ⟨next, hstep, -⟩ := bind_eq_ok.1 (List.foldlM_cons.symm.trans hloop)
  obtain ⟨blk, blk', entries, _, _, rfl, hblk, htable, hwrite, -⟩ := writeUnit_eq_ok hsel hstep
  cases Option.some.inj (hentries.symm.trans htable)
  refine ⟨⟨(recorded cfg req start.2.2).blocks, .palRead ⟨cfg.unmapped.1, cfg.unmapped.2,
    req.ioFlag.map not⟩⟩, List.mem_append_left _ ?_, fun haddressed => ?_⟩
  · simp only [PageMapping.hostIssues, hbegin, hrange]
    refine List.mem_flatMap.2 ⟨((tick, recorded cfg req start.2.2), 0), List.mem_cons_self, ?_⟩
    have hopen : (recorded cfg req start.2.2).blocks start.1 = some blk := hblk
    simp [PageMapping.unitIssues, hsel, hopen, hentries, hwrite, htweak, hsome]
  · exact Nat.lt_irrefl _ haddressed.1.1

/-- In every run the requests of a step stay within flash and read written pages when its
writes may merge and the blocks it formats are full, and a request of the host that returns
otherwise makes one that does not. -/
theorem requests_addressed {first : PageMapping} (hconstruct : construct cfg = .ok first)
    {steps : List (Step cfg)} (hrun : steps.foldlM Step.apply first = .ok s) (step : Step cfg) :
    (step.Covered s → ∀ issue ∈ step.issues s, issue.Addressed cfg) ∧
      (∀ s', step.apply s = .ok s' →
        s'.flashLog = ((step.issues s).map Issue.access).reverse ++ s.flashLog) ∧
      ∀ request s', step = .call request → step.apply s = .ok s' →
        (∀ issue ∈ step.issues s, issue.Addressed cfg) → step.Covered s := by
  refine ⟨(run_grounded hconstruct hrun).issues, fun s' => issues_logged, ?_⟩
  rintro request s' rfl hstep hall
  cases request with
  | fill choices lpn => trivial
  | op op =>
      cases op with
      | read req tick => trivial
      | trim req tick => trivial
      | write choices req tick =>
          intro hcount
          by_contra hmerged
          simp only [Merged, not_or, Bool.not_eq_true, not_not] at hmerged
          obtain ⟨htweak, hsome, hnone⟩ := hmerged
          obtain ⟨⟨done, mid⟩, hwrite, -⟩ := bind_eq_ok.1 hstep
          obtain ⟨⟨done', mid'⟩, hinternal, -⟩ := bind_eq_ok.1 hwrite
          rw [if_pos hcount] at hinternal
          obtain ⟨issue, hissue, hbad⟩ := (run_grounded hconstruct hrun).unmapped_issue htweak
            hsome hnone hinternal
          refine hbad (hall issue ?_)
          simp only [Step.issues, if_pos hcount]
          exact hissue

/-- Four blocks of two pages of two units, mapped in whole pages. -/
def wholeConfig : Config := { smallConfig with bRandomTweak := false }

def wholeWrite (lpn : Nat) (flags : List Bool) (h : flags.length = 2) : Call wholeConfig :=
  .op (.write plainChoices ⟨lpn, flags, .inl h⟩ 0)

theorem requests_addressed_small : ∃ start s, construct wholeConfig = .ok start ∧
    [Step.call (wholeWrite 0 [true, true] rfl)].foldlM Step.apply start = .ok s ∧
      ∀ issue ∈ (Step.call (wholeWrite 0 [true, false] rfl)).issues s,
        issue.Addressed wholeConfig := by
  have hrun : (do
      let start ← construct wholeConfig
      let s ← [Step.call (wholeWrite 0 [true, true] rfl)].foldlM Step.apply start
      .ok (s.table 0).isSome) = (.ok true : Except Fault Bool) := by
    decide +kernel
  obtain ⟨start, hconstruct, hrun⟩ := bind_eq_ok.1 hrun
  obtain ⟨s, hsteps, hmapped⟩ := bind_eq_ok.1 hrun
  refine ⟨start, s, hconstruct, hsteps, (requests_addressed hconstruct hsteps _).1 fun _ => ?_⟩
  exact .inr (.inr (Option.isSome_iff_ne_none.1 (Except.ok.inj hmapped)))

/-- The first write of a page covers one of its two units. -/
theorem unmapped_read : ¬ ∀ (cfg : Config) (start s : PageMapping) (steps : List (Step cfg))
    (step : Step cfg), construct cfg = .ok start → steps.foldlM Step.apply start = .ok s →
      ∀ issue ∈ step.issues s, issue.Addressed cfg := by
  intro h
  have hrun : (do
      let start ← construct wholeConfig
      .ok (((Step.call (wholeWrite 0 [true, false] rfl)).issues start).map Issue.access)) =
      (.ok [.palRead ⟨4, 2, [false, true]⟩, .palWrite ⟨0, 0, [true, true]⟩] :
        Except Fault (List Access)) := by
    decide +kernel
  obtain ⟨start, hconstruct, hissues⟩ := bind_eq_ok.1 hrun
  have hread : Access.palRead ⟨4, 2, [false, true]⟩ ∈
      ((Step.call (wholeWrite 0 [true, false] rfl)).issues start).map Issue.access := by
    rw [Except.ok.inj hissues]
    exact List.mem_cons_self
  obtain ⟨issue, hissue, haccess⟩ := List.mem_map.1 hread
  have haddressed := h wholeConfig start start [] _ hconstruct rfl issue hissue
  unfold Issue.Addressed at haddressed
  rw [haccess] at haddressed
  exact absurd haddressed.1.1 (by decide)

end SimpleSSD.FTL.PageMapping
