import Mathlib.Data.List.Induction
import SimpleSSD.FTL.OpenBlock

/-!
# Garbage collection

Victims are full blocks, copies go to blocks with room, and the flash requests
are carried out after all of them have been collected.  While they are being
collected, the mapping is consistent over the contents the flash will have.
-/

namespace SimpleSSD.FTL.PageMapping

open SimpleSSD.Foundation

variable {cfg : Config} {s s' s₀ : PageMapping} {b page idx unit : Nat} {tick tick' : Tick}

/-! ## Victims -/

def Full (cfg : Config) (s : PageMapping) (b : Nat) : Prop :=
  ∃ blk, s.blocks b = some blk ∧ blk.getNextWritePageIndex = cfg.param.pagesInBlock

theorem calculateVictimWeight_full {choices : Choices} {weight : List (Nat × ℚ)}
    (h : calculateVictimWeight cfg choices tick s = .ok weight) :
    ∀ candidate ∈ weight, Full cfg s candidate.1 := by
  unfold calculateVictimWeight at h
  split_ifs at h
  cases h
  intro candidate hmem
  obtain ⟨b, -, hb⟩ := List.mem_filterMap.1 hmem
  split at hb
  · cases hb
  · rename_i blk hblk
    split_ifs at hb with hfull
    cases hb
    exact ⟨blk, hblk, hfull⟩

theorem mem_drawCandidates {wanted : Nat} {draws : List Nat}
    {weight : List (Option (Nat × ℚ))} {selected : List (Nat × ℚ)}
    (h : drawCandidates wanted draws weight = .ok selected) :
    ∀ candidate ∈ selected, some candidate ∈ weight := by
  induction draws generalizing wanted weight selected with
  | nil =>
      cases wanted with
      | zero =>
          cases h
          exact fun _ hmem => absurd hmem List.not_mem_nil
      | succ wanted => cases h
  | cons idx draws ih =>
      cases wanted with
      | zero =>
          cases h
          exact fun _ hmem => absurd hmem List.not_mem_nil
      | succ wanted =>
          unfold drawCandidates at h
          split at h
          · cases h
          · exact ih h
          · rename_i drawn hdrawn
            obtain ⟨later, hlater, hcons⟩ := bind_eq_ok.1 h
            cases hcons
            intro candidate hmem
            rcases List.mem_cons.1 hmem with rfl | hmem
            · exact List.mem_of_getElem? hdrawn
            · rcases List.mem_or_eq_of_mem_set (ih hlater candidate hmem) with hold | hnone
              · exact hold
              · cases hnone

theorem selectVictimBlock_eq_ok {choices : Choices} {list : List Nat}
    (h : selectVictimBlock cfg choices tick s = .ok (list, tick', s')) :
    (∀ b ∈ list, Full cfg s b) ∧ s' = { s with bReclaimMore := false } := by
  obtain ⟨count, -, h⟩ := bind_eq_ok.1 h
  obtain ⟨weight, hweight, h⟩ := bind_eq_ok.1 h
  obtain ⟨candidates, hcandidates, h⟩ := bind_eq_ok.1 h
  cases h
  have hfull := calculateVictimWeight_full hweight
  have hsub : ∀ candidate ∈ candidates, candidate ∈ weight := by
    intro candidate hmem
    unfold sampleVictims at hcandidates
    split at hcandidates
    · simpa using mem_drawCandidates hcandidates candidate hmem
    · simpa using mem_drawCandidates hcandidates candidate hmem
    · cases hcandidates
      exact hmem
  refine ⟨fun b hb => ?_, rfl⟩
  obtain ⟨candidate, hmem, rfl⟩ := List.mem_map.1 hb
  exact hfull candidate (hsub candidate ((List.mem_insertionSort _).1 (List.mem_of_mem_take hmem)))

/-! ## Queued copies -/

theorem covers_unitFlags {size : Nat}
    (hsize : size = cfg.param.ioUnitInPage ∨ cfg.bRandomTweak = false)
    (hidx : idx < cfg.bitsetSize) (hunit : unit < cfg.param.ioUnitInPage) :
    PALRequest.covers cfg ⟨b, page, cfg.unitFlags size idx⟩ unit = true ↔
      cfg.slotOf unit = idx := by
  unfold PALRequest.covers Config.unitFlags Config.slotOf
  unfold Config.bitsetSize at hidx
  by_cases htweak : cfg.bRandomTweak
  · have hsize : size = cfg.param.ioUnitInPage := by simpa [htweak] using hsize
    simp [htweak, hsize, List.getD_eq_getElem?_getD, List.getElem?_range hunit]
  · have hidx : idx = 0 := by simpa [htweak] using hidx
    by_cases hsize : size = cfg.param.ioUnitInPage
    · simp [htweak, hsize, hidx, hunit]
    · simp [htweak, hsize, hidx]

theorem flush_append (before : Nat → Nat → Nat → Option Nat) (writes : List Copy)
    (copy : Copy) :
    flush cfg before (writes ++ [copy]) = fun b p u =>
      if b = copy.req.blockIndex ∧ p = copy.req.pageIndex ∧
          PALRequest.covers cfg copy.req u = true then
        before copy.source.1 copy.source.2 u
      else flush cfg before writes b p u := by
  unfold flush
  rw [List.foldl_append]
  rfl

theorem flush_of_apart (before : Nat → Nat → Nat → Option Nat) {writes : List Copy}
    (h : ∀ copy ∈ writes, copy.req.blockIndex ≠ b) :
    flush cfg before writes b = before b := by
  induction writes using List.reverseRecOn with
  | nil => rfl
  | append_singleton writes copy ih =>
      rw [List.forall_mem_append] at h
      funext p u
      simp only [flush_append]
      rw [if_neg fun heq => h.2 copy (List.mem_singleton_self copy) heq.1.symm]
      exact congrFun₂ (ih h.1) p u

/-! ## Collecting -/

/-- What holds while requests are collected: `s₀` is the state before. -/
structure Collecting (cfg : Config) (victims : List Nat) (s₀ : PageMapping)
    (w : Collection) : Prop where
  intact : Intact cfg (flush cfg s₀.contents w.writes) ∅ w.mapping
  contents : w.mapping.contents = s₀.contents
  host : w.mapping.host = s₀.host
  full : ∀ b ∈ victims, Full cfg w.mapping b
  apart : ∀ copy ∈ w.writes, copy.req.blockIndex ∉ victims

variable {victims : List Nat} {w w' : Collection} {block dst : Nat} {bit : Nat → Bool}
  {lpns : Nat → Nat}

def Awaits (bit : Nat → Bool) (lpns : Nat → Nat) (block page : Nat) (rest : List Nat)
    (s : PageMapping) : Prop :=
  ∃ blk, s.blocks block = some blk ∧
    ∀ idx ∈ rest, bit idx = true →
      blk.validBits page idx = true ∧ blk.lpns page idx = lpns idx

theorem covered_flush_append {before : Nat → Nat → Nat → Option Nat} {writes : List Copy}
    (hidx : idx < cfg.bitsetSize) (hsource : ∀ copy ∈ writes, copy.req.blockIndex ≠ block)
    (newPage : Nat) :
    (fun p : Nat × Nat × Nat => covered cfg p.2.2 (flush cfg before (writes ++
        [⟨(block, page), ⟨dst, newPage, cfg.unitFlags cfg.param.ioUnitInPage idx⟩⟩])
        p.1 p.2.1)) =
      Function.update
        (fun p : Nat × Nat × Nat => covered cfg p.2.2 (flush cfg before writes p.1 p.2.1))
        (dst, newPage, idx) (covered cfg idx (flush cfg before writes block page)) := by
  funext ⟨b', p', i'⟩
  simp only [Function.update_apply, Prod.mk.injEq, flush_append]
  funext u
  rw [flush_of_apart before hsource]
  unfold covered
  by_cases hunit : u < cfg.param.ioUnitInPage ∧ cfg.slotOf u = i'
  · obtain ⟨hu, rfl⟩ := hunit
    simp only [covers_unitFlags (.inl rfl) hidx hu, hu, true_and, if_true]
    by_cases hdst : b' = dst ∧ p' = newPage ∧ cfg.slotOf u = idx
    · rw [if_pos hdst, if_pos hdst, if_pos ⟨hu, hdst.2.2⟩]
    · rw [if_neg hdst, if_neg hdst, if_pos ⟨hu, rfl⟩]
  · rw [if_neg hunit]
    split_ifs with hdst
    · obtain ⟨-, -, rfl⟩ := hdst
      simp only [if_neg hunit]
    · simp only [if_neg hunit]

theorem relocateUnit_unselected (hbit : ¬ bit idx = true)
    (h : relocateUnit cfg block page dst bit lpns w idx = .ok w') : w' = w := by
  unfold relocateUnit at h
  rw [if_neg hbit] at h
  cases h
  rfl

theorem relocateUnit_eq_ok (hbit : bit idx = true)
    (h : relocateUnit cfg block page dst bit lpns w idx = .ok w') :
    ∃ blk blk' entries free free', w.mapping.blocks block = some blk ∧
      blk.invalidate page idx = .ok blk' ∧ w.mapping.table (lpns idx) = some entries ∧
      (w.mapping.setBlock block blk').blocks dst = some free ∧
      free.write (free.nextWritePageIndex idx) (lpns idx) idx 0 = .ok free' ∧
      w' = { w with
        mapping := (((access cfg (.dramRead (8 * cfg.param.ioUnitInPage)) w.tick
          (w.mapping.setBlock block blk')).2.setEntry (lpns idx) idx
            (dst, free.nextWritePageIndex idx)).setBlock dst free')
        tick := (access cfg (.dramRead (8 * cfg.param.ioUnitInPage)) w.tick
          (w.mapping.setBlock block blk')).1
        writes := w.writes ++ [⟨(block, page), ⟨dst, free.nextWritePageIndex idx,
          cfg.unitFlags cfg.param.ioUnitInPage idx⟩⟩] } := by
  unfold relocateUnit at h
  rw [if_pos hbit] at h
  split at h
  · cases h
  · rename_i blk hblk
    obtain ⟨blk', hinv, h⟩ := bind_eq_ok.1 h
    dsimp only at h
    split at h
    · cases h
    · rename_i entries htable
      split at h
      · cases h
      · rename_i free hfree
        obtain ⟨free', hwrite, h⟩ := bind_eq_ok.1 h
        cases h
        exact ⟨blk, blk', entries, free, free', hblk, hinv, htable, hfree, hwrite, rfl⟩

theorem Collecting.relocateUnit (h : Collecting cfg victims s₀ w) (hblock : block ∈ victims)
    (hdst : dst ∉ victims) (hidx : idx < cfg.bitsetSize) {rest : List Nat}
    (hnotin : idx ∉ rest) (hawait : Awaits bit lpns block page (idx :: rest) w.mapping)
    (run : relocateUnit cfg block page dst bit lpns w idx = .ok w') :
    Collecting cfg victims s₀ w' ∧ Awaits bit lpns block page rest w'.mapping := by
  obtain ⟨old, hold, hready⟩ := hawait
  by_cases hbit : bit idx = true
  · obtain ⟨blk, blk', entries, free, free', hblk, hinv, htable, hfree, hwrite, hw'⟩ :=
      relocateUnit_eq_ok hbit run
    cases Option.some.inj (hold.symm.trans hblk)
    have hblocks : w'.mapping.blocks =
        Function.update (Function.update w.mapping.blocks block (some blk')) dst
          (some free') := by
      rw [hw']
      rfl
    have hne : block ≠ dst := fun heq => hdst (heq ▸ hblock)
    have hvictim : w'.mapping.blocks block = some blk' := by
      rw [hblocks, Function.update_of_ne hne, Function.update_self]
    refine ⟨?_, blk', hvictim, fun i hi hbit' => ?_⟩
    · refine ⟨?_, ?_, ?_, fun b hb => ?_, fun copy hcopy => ?_⟩
      · have hready := hready idx List.mem_cons_self hbit
        have howner : w.mapping.owner (block, page, idx) = some (lpns idx, idx) :=
          hready.2 ▸ owner_eq_some hold hready.1
        have hinvalid := h.intact.invalidate hold hinv howner
        rw [insert_empty_eq] at hinvalid
        have hopen : Intact cfg (flush cfg s₀.contents w.writes) {(lpns idx, idx)}
            (access cfg (.dramRead (8 * cfg.param.ioUnitInPage)) w.tick
              (w.mapping.setBlock block blk')).2 :=
          hinvalid.congr rfl rfl rfl rfl
        have hsource : ∀ copy ∈ w.writes, copy.req.blockIndex ≠ block :=
          fun copy hcopy heq => h.apart copy hcopy (heq ▸ hblock)
        obtain ⟨hplace, -⟩ := h.intact.consistent.placed _ _ howner
        have hmoved := hopen.assign htable hidx hfree hwrite (Set.mem_singleton _)
          (h.intact.consistent.current _ _ (Set.notMem_empty _) hplace)
          (covered_flush_append hidx hsource (free.nextWritePageIndex idx))
        rw [Set.sdiff_self] at hmoved
        rw [hw']
        exact hmoved
      · rw [hw']
        exact h.contents
      · rw [hw']
        exact h.host
      · obtain ⟨full, hfull, hcount⟩ := h.full b hb
        by_cases heq : b = block
        · subst heq
          refine ⟨blk', hvictim, ?_⟩
          obtain ⟨-, rfl⟩ := Block.invalidate_eq_ok hinv
          cases Option.some.inj (hold.symm.trans hfull)
          exact hcount
        · refine ⟨full, ?_, hcount⟩
          have hb_ne : b ≠ dst := fun heq' => hdst (heq' ▸ hb)
          rw [hblocks, Function.update_of_ne hb_ne, Function.update_of_ne heq, hfull]
      · rw [hw'] at hcopy
        rcases List.mem_append.1 hcopy with hcopy | hcopy
        · exact h.apart copy hcopy
        · rw [List.mem_singleton.1 hcopy]
          exact hdst
    · obtain ⟨hvalid, hlpn⟩ := hready i (List.mem_cons_of_mem idx hi) hbit'
      obtain ⟨-, rfl⟩ := Block.invalidate_eq_ok hinv
      have hi_ne : i ≠ idx := fun heq => hnotin (heq ▸ hi)
      exact ⟨by simpa [update₂_apply, hi_ne] using hvalid, hlpn⟩
  · cases relocateUnit_unselected hbit run
    exact ⟨h, old, hold, fun i hi => hready i (List.mem_cons_of_mem idx hi)⟩

theorem Intact.valid_lt {contents : Nat → Nat → Nat → Option Nat} {detached : Set (Nat × Nat)}
    (h : Intact cfg contents detached s) {blk : Block} (hblk : s.blocks b = some blk)
    (hvalid : blk.validBits page idx = true) : idx < cfg.bitsetSize := by
  obtain ⟨hplace, -⟩ := h.consistent.placed _ _ (owner_eq_some hblk hvalid)
  change place cfg s _ = _ at hplace
  unfold place at hplace
  split at hplace
  · cases hplace
  · split_ifs at hplace with hlive
    exact hlive.1

theorem Intact.getPageInfo_eq {contents : Nat → Nat → Nat → Option Nat}
    {detached : Set (Nat × Nat)} (h : Intact cfg contents detached s)
    (hunits : 2 ≤ cfg.param.ioUnitInPage) {blk : Block} (hblk : s.blocks b = some blk)
    (page : Nat) : blk.getPageInfo page = blk.validBits page := by
  obtain ⟨-, -, hsound⟩ := h.inUse b blk hblk
  unfold Block.getPageInfo
  rw [if_neg (by rw [hsound.ioUnitInPage]; omega)]

/-- The block opened for a live page is no victim, and its live units are to be
relocated. -/
theorem Collecting.openBlock (h : Collecting cfg victims s₀ w)
    (hunits : 2 ≤ cfg.param.ioUnitInPage) {blk : Block}
    (hblk : w.mapping.blocks block = some blk)
    (hany : (List.range cfg.param.ioUnitInPage).any (blk.getPageInfo page) = true)
    {iomap : List Bool} {opened : PageMapping}
    (hopen : getLastFreeBlock cfg iomap w.mapping = .ok (dst, opened))
    (reads : List PALRequest) :
    dst ∉ victims ∧ Collecting cfg victims s₀ { w with mapping := opened, reads := reads } ∧
      Awaits (liveUnits cfg (blk.getPageInfo page)) (blk.lpns page) block page
        (List.range cfg.bitsetSize) opened := by
  have hopened := getLastFreeBlock_opened hopen
  have hinfo := h.intact.getPageInfo_eq hunits hblk page
  refine ⟨fun hmem => ?_, ⟨h.intact.getLastFreeBlock hopen, hopened.contents.trans h.contents,
    hopened.host.trans h.host, fun b hb => ?_, h.apart⟩,
    blk, hopened.blocks block blk hblk, fun idx hidx hbit => ⟨?_, rfl⟩⟩
  · obtain ⟨full, hfull, hcount⟩ := h.full dst hmem
    exact hopened.room full hfull hcount
  · obtain ⟨full, hfull, hcount⟩ := h.full b hb
    exact ⟨full, hopened.blocks b full hfull, hcount⟩
  · unfold liveUnits at hbit
    by_cases htweak : cfg.bRandomTweak
    · rwa [if_pos htweak, hinfo] at hbit
    · obtain ⟨unit, -, hvalid⟩ := List.any_eq_true.1 hany
      rw [hinfo] at hvalid
      have hunit := h.intact.valid_lt hblk hvalid
      rw [List.mem_range] at hidx
      simp only [Config.bitsetSize, htweak, Bool.false_eq_true, if_false,
        Nat.lt_one_iff] at hunit hidx
      rwa [hidx, ← hunit]

theorem Collecting.relocatePage (h : Collecting cfg victims s₀ w) (hblock : block ∈ victims)
    (hunits : 2 ≤ cfg.param.ioUnitInPage)
    (run : relocatePage cfg block w page = .ok w') : Collecting cfg victims s₀ w' := by
  unfold PageMapping.relocatePage at run
  split at run
  · cases run
  · rename_i blk hblk
    dsimp only at run
    split_ifs at run with hany
    · obtain ⟨⟨dst, opened⟩, hopen, run⟩ := bind_eq_ok.1 run
      dsimp only at run
      obtain ⟨hdst, hstart, hready⟩ := h.openBlock hunits hblk hany hopen _
      refine (foldlM_invariant (fun rest w => (∀ idx ∈ rest, idx < cfg.bitsetSize) ∧
        rest.Nodup ∧ Collecting cfg victims s₀ w ∧
          Awaits _ (blk.lpns page) block page rest w.mapping) ?_ run
        ⟨fun idx => List.mem_range.1, List.nodup_range, hstart, hready⟩).2.2.1
      rintro idx rest w₁ w₂ ⟨hlt, hnodup, hcollect, hawait⟩ hstep
      obtain ⟨hnotin, hnodup⟩ := List.nodup_cons.1 hnodup
      obtain ⟨hcollect, hawait⟩ := hcollect.relocateUnit hblock hdst
        (hlt idx List.mem_cons_self) hnotin hawait hstep
      exact ⟨fun i hi => hlt i (List.mem_cons_of_mem idx hi), hnodup, hcollect, hawait⟩
    · cases run
      exact h

theorem Collecting.collectBlock (h : Collecting cfg victims s₀ w) (hblock : block ∈ victims)
    (hunits : 2 ≤ cfg.param.ioUnitInPage)
    (run : collectBlock cfg w block = .ok w') : Collecting cfg victims s₀ w' := by
  unfold PageMapping.collectBlock at run
  split at run
  · cases run
  · exact foldlM_invariant_mem (Collecting cfg victims s₀)
      (fun page _ w w' h => h.relocatePage hblock hunits) run h

/-! ## The collection as a whole -/

theorem issueAll_eq (cfg : Config) (beginAt finishedAt : Tick) (requests : List Access)
    (s : PageMapping) :
    ∃ done accesses, issueAll cfg beginAt requests finishedAt s =
      (done, { s with accesses := accesses }) := by
  induction requests generalizing finishedAt s with
  | nil => exact ⟨finishedAt, s.accesses, rfl⟩
  | cons a rest ih =>
      obtain ⟨done, accesses, heq⟩ := ih (max finishedAt (access cfg a beginAt s).1)
        (access cfg a beginAt s).2
      exact ⟨done, accesses, heq⟩

theorem Intact.doGarbageCollection {list : List Nat} (h : Intact cfg s.contents ∅ s)
    (hfull : ∀ b ∈ list, Full cfg s b) (hunits : 2 ≤ cfg.param.ioUnitInPage)
    (run : doGarbageCollection cfg list tick s = .ok (tick', s')) :
    Intact cfg s'.contents ∅ s' ∧ s'.host = s.host := by
  unfold PageMapping.doGarbageCollection at run
  split_ifs at run with hempty
  · cases run
    exact ⟨h, rfl⟩
  · obtain ⟨w, hcollect, run⟩ := bind_eq_ok.1 run
    have hstart : Collecting cfg list s ⟨s, tick, [], []⟩ :=
      ⟨h, rfl, rfl, hfull, fun _ hcopy => absurd hcopy List.not_mem_nil⟩
    have hcollected : Collecting cfg list s w :=
      foldlM_invariant_mem (Collecting cfg list s)
        (fun block hblock w w' h => h.collectBlock hblock hunits) hcollect hstart
    obtain ⟨readsDone, readAccesses, hreads⟩ :=
      issueAll_eq cfg w.tick tick (w.reads.map .palRead) w.mapping
    obtain ⟨writesDone, writeAccesses, hwrites⟩ := issueAll_eq cfg readsDone tick
      (w.writes.map fun copy => .palWrite copy.req) { w.mapping with
        accesses := readAccesses
        contents := flush cfg w.mapping.contents w.writes }
    simp only [hreads, hwrites] at run
    obtain ⟨erases, herases, run⟩ := bind_eq_ok.1 run
    cases run
    refine foldlM_invariant_mem (fun acc : Tick × PageMapping =>
      Intact cfg acc.2.contents ∅ acc.2 ∧ acc.2.host = s.host) ?_ herases ?_
    · rintro block - acc acc' ⟨hacc, hhost⟩ hstep
      obtain ⟨⟨erased, mid⟩, herase, hpair⟩ := bind_eq_ok.1 hstep
      cases hpair
      refine ⟨hacc.eraseInternal herase, ?_⟩
      obtain ⟨blk, free, nFree, -, -, -, rfl⟩ := eraseInternal_eq_ok herase
      exact hhost
    · have hintact := hcollected.intact
      rw [← hcollected.contents] at hintact
      exact ⟨hintact.congr rfl rfl rfl rfl, hcollected.host⟩

end SimpleSSD.FTL.PageMapping
