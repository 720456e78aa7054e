import SimpleSSD.FTL.GarbageCollection

/-!
# Writes and trims of the host

A write detaches the entries it covers, records the new versions and attaches
the entries again one by one; a trim detaches all entries of its page and
forgets them.
-/

namespace SimpleSSD.FTL.PageMapping

open SimpleSSD.Foundation

variable {cfg : Config} {s s' s₁ : PageMapping} {contents : Nat → Nat → Nat → Option Nat}
  {detached : Set (Nat × Nat)} {lpn idx unit : Nat} {tick tick' : Tick}
  {entries : Nat → Nat × Nat} {req : Request cfg} {rest : List Nat}

def entriesOf (lpn : Nat) (p : Nat → Prop) : Set (Nat × Nat) := {l | l.1 = lpn ∧ p l.2}

theorem mem_entriesOf {p : Nat → Prop} : (lpn, idx) ∈ entriesOf lpn p ↔ p idx := by
  simp [entriesOf]

theorem entriesOf_congr {p q : Nat → Prop} (h : ∀ i, p i ↔ q i) :
    entriesOf lpn p = entriesOf lpn q := by
  ext l
  simp [entriesOf, h]

theorem insert_entriesOf (p : Nat → Prop) :
    insert (lpn, idx) (entriesOf lpn p) = entriesOf lpn fun i => i = idx ∨ p i := by
  ext ⟨lpn', i⟩
  simp only [entriesOf, Set.mem_insert_iff, Prod.mk.injEq, Set.mem_ofPred_eq]
  tauto

theorem entriesOf_sdiff (p : Nat → Prop) :
    entriesOf lpn p \ {(lpn, idx)} = entriesOf lpn fun i => p i ∧ i ≠ idx := by
  ext ⟨lpn', i⟩
  simp only [entriesOf, Set.mem_sdiff, Set.mem_ofPred_eq, Set.mem_singleton_iff, Prod.mk.injEq]
  constructor
  · rintro ⟨⟨rfl, hp⟩, hne⟩
    exact ⟨rfl, hp, fun heq => hne ⟨rfl, heq⟩⟩
  · rintro ⟨rfl, hp, hne⟩
    exact ⟨⟨rfl, hp⟩, fun heq => hne heq.2⟩

/-! ## Versions -/

theorem Intact.fetch_eq (h : Intact cfg s.contents ∅ s) (ht : s.table lpn = some entries)
    (hunit : unit < cfg.param.ioUnitInPage) :
    fetch cfg (entries (cfg.slotOf unit)) unit s = s.host.latest lpn unit := by
  have hslot := slotOf_lt hunit
  unfold fetch
  cases hlive : cfg.live (entries (cfg.slotOf unit)) with
  | true =>
      have hlatest := h.consistent.current _ _ (Set.notMem_empty _)
        (place_eq_some ht hslot hlive)
      simp only [remap] at hlatest
      split_ifs at hlatest with hwritten
      have hunits := congrFun (Option.some.inj hlatest) unit
      simp only [covered, hunit, true_and, if_true] at hunits
      exact hunits.symm
  | false =>
      have hplace : s.place cfg (lpn, cfg.slotOf unit) = none := place_eq_none ht hlive
      have hlatest : (s.remap cfg s.contents).latest (lpn, cfg.slotOf unit) = none :=
        not_not.1 fun hne => h.consistent.kept _ (Set.notMem_empty _) hne hplace
      have hwritten : s.host.written lpn (cfg.slotOf unit) = false := by
        simp only [remap] at hlatest
        split_ifs at hlatest with hwritten
        exact Bool.eq_false_of_not_eq_true hwritten
      simp [h.unwritten lpn unit hunit hwritten]

/-! ## Detaching -/

theorem Intact.invalidateEntry {blk blk' : Block} (h : Intact cfg contents detached s)
    (ht : s.table lpn = some entries) (hidx : idx < cfg.bitsetSize)
    (hblk : s.blocks (entries idx).1 = some blk)
    (hinv : blk.invalidate (entries idx).2 idx = .ok blk') (hnot : (lpn, idx) ∉ detached) :
    Intact cfg contents (insert (lpn, idx) detached) (s.setBlock (entries idx).1 blk') := by
  obtain ⟨hlt, -, hsound⟩ := h.inUse _ blk hblk
  have hpage := (Block.invalidate_eq_ok hinv).1
  rw [hsound.pageCount] at hpage
  have hlive : cfg.live (entries idx) = true := by
    simp [Config.live, hlt, hpage]
  exact h.invalidate hblk hinv
    (h.consistent.owned _ _ hnot (place_eq_some ht hidx hlive))

/-- A step of a loop over the entries of a page: the selected ones that have a
place are invalidated. -/
def Invalidates (cfg : Config) (entries : Nat → Nat × Nat) (sel : Nat → Bool)
    (f : PageMapping → Nat → Except Fault PageMapping) : Prop :=
  ∀ s idx s', f s idx = .ok s' →
    (sel idx = true ∧ ∃ blk blk', s.blocks (entries idx).1 = some blk ∧
      blk.invalidate (entries idx).2 idx = .ok blk' ∧
      s' = s.setBlock (entries idx).1 blk') ∨
    (s' = s ∧ (sel idx = true → cfg.live (entries idx) = false))

theorem Intact.invalidateAll {f : PageMapping → Nat → Except Fault PageMapping}
    {sel : Nat → Bool} (hf : Invalidates cfg entries sel f) (h : Intact cfg contents ∅ s)
    (ht : s.table lpn = some entries)
    (run : (List.range cfg.bitsetSize).foldlM f s = .ok s') :
    Intact cfg contents (entriesOf lpn fun i => i < cfg.bitsetSize ∧ sel i = true) s' ∧
      SameRecords s s' := by
  have hloop := foldlM_invariant (fun rest s' => (∀ i ∈ rest, i < cfg.bitsetSize) ∧
      rest.Nodup ∧ SameRecords s s' ∧ Intact cfg contents
        (entriesOf lpn fun i => i < cfg.bitsetSize ∧ sel i = true ∧ i ∉ rest) s') ?_ run ?_
  · obtain ⟨-, -, hsame, hintact⟩ := hloop
    rw [entriesOf_congr (q := fun i => i < cfg.bitsetSize ∧ sel i = true)] at hintact
    · exact ⟨hintact, hsame⟩
    · simp
  · rintro idx rest mid next ⟨hlt, hnodup, hsame, hmid⟩ hstep
    obtain ⟨hnotin, hnodup⟩ := List.nodup_cons.1 hnodup
    have htable : mid.table lpn = some entries := hsame.table ▸ ht
    have hidx := hlt idx List.mem_cons_self
    refine ⟨fun i hi => hlt i (List.mem_cons_of_mem idx hi), hnodup, ?_⟩
    rcases hf mid idx next hstep with ⟨hsel, blk, blk', hblk, hinv, rfl⟩ | ⟨rfl, hdead⟩
    · refine ⟨⟨hsame.table, hsame.accesses, hsame.contents, hsame.host⟩, ?_⟩
      have hout := hmid.invalidateEntry htable hidx hblk hinv
        (by simp [mem_entriesOf])
      rw [insert_entriesOf, entriesOf_congr
        (q := fun i => i < cfg.bitsetSize ∧ sel i = true ∧ i ∉ rest)] at hout
      · exact hout
      · intro i
        rw [List.mem_cons, not_or]
        constructor
        · rintro (rfl | ⟨hi, hsel', -, hrest⟩)
          · exact ⟨hidx, hsel, hnotin⟩
          · exact ⟨hi, hsel', hrest⟩
        · rintro ⟨hi, hsel', hrest⟩
          by_cases heq : i = idx
          · exact .inl heq
          · exact .inr ⟨hi, hsel', heq, hrest⟩
    · refine ⟨hsame, hmid.inUse, hmid.free, hmid.unwritten, hmid.consistent.detach ?_ ?_⟩
      · rintro l ⟨hl, hi, hsel, hrest⟩
        exact ⟨hl, hi, hsel, fun hmem => hrest (List.mem_cons_of_mem idx hmem)⟩
      · rintro ⟨lpn', i⟩ ⟨hl, hi, hsel, hrest⟩ hplace
        cases hl
        refine ⟨rfl, hi, hsel, fun hmem => ?_⟩
        rcases List.mem_cons.1 hmem with rfl | hmem
        · exact hplace (place_eq_none htable (hdead hsel))
        · exact hrest hmem
  · refine ⟨fun i => List.mem_range.1, List.nodup_range, ⟨rfl, rfl, rfl, rfl⟩, ?_⟩
    have hempty : (entriesOf lpn fun i => i < cfg.bitsetSize ∧ sel i = true ∧
        i ∉ List.range cfg.bitsetSize) = ∅ := by
      ext l
      simp only [entriesOf, List.mem_range, Set.mem_ofPred_eq, Set.mem_empty_iff_false,
        iff_false]
      rintro ⟨-, hi, -, hnot⟩
      exact hnot hi
    rwa [hempty]

theorem invalidateUnit_invalidates :
    Invalidates cfg entries req.selects (invalidateUnit cfg req entries) := by
  intro s idx s' h
  unfold invalidateUnit at h
  split_ifs at h with hsel
  · rw [Bool.and_eq_true] at hsel
    split at h
    · cases h
    · rename_i blk hblk
      obtain ⟨blk', hinv, hpair⟩ := bind_eq_ok.1 h
      cases hpair
      exact .inl ⟨hsel.1, blk, blk', hblk, hinv, rfl⟩
  · cases h
    refine .inr ⟨rfl, fun hsel' => ?_⟩
    rw [hsel', Bool.true_and] at hsel
    exact Bool.eq_false_of_not_eq_true hsel

theorem trimUnit_invalidates : Invalidates cfg entries (fun _ => true) (trimUnit entries) := by
  intro s idx s' h
  unfold trimUnit at h
  split at h
  · cases h
  · rename_i blk hblk
    obtain ⟨blk', hinv, hpair⟩ := bind_eq_ok.1 h
    cases hpair
    exact .inl ⟨rfl, blk, blk', hblk, hinv, rfl⟩

def Selected (req : Request cfg) (idx : Nat) : Prop :=
  idx < cfg.bitsetSize ∧ req.selects idx = true

/-- After `detach` the page has a mapping, and it still refers to the versions
before the request. -/
theorem Intact.detach (h : Intact cfg s.contents ∅ s) (run : detach cfg req s = .ok s') :
    Intact cfg s'.contents (entriesOf req.lpn (Selected req)) s' ∧ s'.host = s.host ∧
      ∃ entries, s'.table req.lpn = some entries ∧
        ∀ unit < cfg.param.ioUnitInPage,
          fetch cfg (entries (cfg.slotOf unit)) unit s' = s'.host.latest req.lpn unit := by
  unfold PageMapping.detach at run
  split at run
  · rename_i htable
    have hs' := (Except.ok.inj run).symm
    have hentries : s'.table req.lpn = some fun _ => cfg.unmapped := by
      rw [hs']
      exact Function.update_self ..
    have hremap : s'.remap cfg s'.contents = s.remap cfg s.contents := by
      rw [hs']
      exact congrArg (fun f => { s.remap cfg s.contents with place := f })
        (place_create htable)
    have hcreated : Intact cfg s'.contents ∅ s' := by
      refine ⟨?_, ?_, ?_, hremap ▸ h.consistent⟩
      · exact hs' ▸ h.inUse
      · exact hs' ▸ h.free
      · exact hs' ▸ h.unwritten
    refine ⟨⟨hcreated.inUse, hcreated.free, hcreated.unwritten,
      hcreated.consistent.detach (Set.empty_subset _) ?_⟩, hs' ▸ rfl, _, hentries,
      fun unit hunit => hcreated.fetch_eq hentries hunit⟩
    rintro ⟨lpn', i⟩ ⟨hl, -⟩ hplace
    cases hl
    exact absurd (place_eq_none hentries (by simp [Config.live, Config.unmapped])) hplace
  · rename_i entries htable
    obtain ⟨hintact, hsame⟩ := h.invalidateAll invalidateUnit_invalidates htable run
    rw [← hsame.contents] at hintact
    refine ⟨hintact, hsame.host, entries, hsame.table ▸ htable, fun unit hunit => ?_⟩
    rw [hsame.host, ← h.fetch_eq htable hunit]
    unfold fetch
    rw [hsame.contents]

/-! ## Recording -/

theorem Intact.recordWrite (h : Intact cfg contents (entriesOf req.lpn (Selected req)) s) :
    Intact cfg contents (entriesOf req.lpn (Selected req))
      { s with host := s.host.write req } := by
  refine ⟨h.inUse, h.free, fun lpn unit hunit hwritten => ?_,
    h.consistent.congr_latest fun l hl => ?_⟩
  · have hslot := slotOf_lt hunit
    simp only [HostRecord.write, hslot, decide_true, Bool.and_true,
      Bool.or_eq_false_iff] at hwritten ⊢
    rw [if_neg, h.unwritten lpn unit hunit hwritten.2]
    rintro ⟨rfl, -, hsel⟩
    simp [hsel] at hwritten
  · by_cases hlpn : l.1 = req.lpn
    · have hnot : ¬ (l.2 < cfg.bitsetSize ∧ req.selects l.2 = true) := fun hsel =>
        hl ⟨hlpn, hsel⟩
      have hwritten : (s.host.write req).written l.1 l.2 = s.host.written l.1 l.2 := by
        simp only [HostRecord.write, Bool.or_eq_right_iff_imp, Bool.and_eq_true,
          decide_eq_true_eq]
        exact fun hsel => absurd ⟨hsel.1.2, hsel.2⟩ hnot
      have hcovered : covered cfg l.2 ((s.host.write req).latest l.1) =
          covered cfg l.2 (s.host.latest l.1) := by
        funext unit
        unfold covered
        split_ifs with hunit
        · obtain ⟨hunit, heq⟩ := hunit
          have hslot := heq ▸ slotOf_lt hunit
          simp only [HostRecord.write, heq]
          rw [if_neg fun hsel => hnot ⟨hslot, hsel.2.2⟩]
        · rfl
      simp only [hwritten, hcovered]
      rfl
    · simp [HostRecord.write, remap, hlpn]

/-! ## Attaching -/

/-- Between two entries of a write: `rest` are still detached, and the units
the host does not write can be read at their old place. -/
structure Writing (cfg : Config) (req : Request cfg) (host : HostRecord) (rest : List Nat)
    (s : PageMapping) : Prop where
  intact : Intact cfg s.contents (entriesOf req.lpn fun i => Selected req i ∧ i ∈ rest) s
  host : s.host = host.write req
  merge : ∃ entries, s.table req.lpn = some entries ∧
    ∀ unit < cfg.param.ioUnitInPage, cfg.slotOf unit ∈ rest → req.hostUnit unit = false →
      fetch cfg (entries (cfg.slotOf unit)) unit s = s.host.latest req.lpn unit

/-- Requests read before they write whenever they leave a unit out. -/
def Merges (req : Request cfg) (merging : Bool) : Prop :=
  ∀ unit < cfg.param.ioUnitInPage, req.selects (cfg.slotOf unit) = true →
    req.hostUnit unit = false → merging = true

theorem merges_write (req : Request cfg) :
    Merges req (!cfg.bRandomTweak && !req.ioFlag.all id && true) := by
  intro unit hunit hsel hhost
  rw [Bool.and_true, Bool.and_eq_true, Bool.not_eq_true', Bool.not_eq_true']
  unfold Request.hostUnit at hhost
  split_ifs at hhost with hsize
  have hbound : unit < req.ioFlag.length := hsize ▸ hunit
  have hflag : req.ioFlag[unit] = false := by
    simpa [Request.test, List.getD_eq_getElem?_getD, hsize, hunit] using hhost
  constructor
  · by_contra htweak
    have htweak : cfg.bRandomTweak = true := by simpa using htweak
    simp [Request.selects, Config.slotOf, htweak, hhost] at hsel
  · rw [List.all_eq_false]
    exact ⟨_, List.getElem_mem hbound, by simp [hflag]⟩

theorem merges_fill (lpn : Nat) (merging : Bool) : Merges (fillRequest cfg lpn) merging := by
  intro unit hunit _ hhost
  simp [Request.hostUnit, fillRequest, Request.test, hunit] at hhost

theorem writeUnit_unselected {block stamp : Nat} {readBeforeWrite sendToPAL : Bool}
    {acc acc' : Tick × PageMapping} (hsel : ¬ req.selects idx = true)
    (h : writeUnit cfg req block stamp tick readBeforeWrite sendToPAL acc idx = .ok acc') :
    acc' = acc := by
  unfold writeUnit at h
  rw [if_neg hsel] at h
  cases h
  rfl

theorem writeUnit_eq_ok {block stamp : Nat} {readBeforeWrite sendToPAL : Bool}
    {acc acc' : Tick × PageMapping} (hsel : req.selects idx = true)
    (h : writeUnit cfg req block stamp tick readBeforeWrite sendToPAL acc idx = .ok acc') :
    ∃ blk blk' entries page accesses, page = blk.nextWritePageIndex idx ∧
      acc.2.blocks block = some blk ∧ acc.2.table req.lpn = some entries ∧
      blk.write page req.lpn idx tick = .ok blk' ∧
      acc'.2 = { (acc.2.setBlock block blk').setEntry req.lpn idx (block, page) with
        accesses := accesses
        contents := fun b p unit =>
          if b = block ∧ p = page ∧ unit < cfg.param.ioUnitInPage ∧ cfg.slotOf unit = idx then
            if req.hostUnit unit then some stamp
            else if readBeforeWrite && sendToPAL then fetch cfg (entries idx) unit acc.2
            else none
          else acc.2.contents b p unit } := by
  unfold writeUnit at h
  rw [if_pos hsel] at h
  split at h
  · rename_i blk entries hblk htable
    obtain ⟨blk', hwrite, h⟩ := bind_eq_ok.1 h
    cases h
    cases readBeforeWrite <;> cases sendToPAL <;>
      exact ⟨blk, blk', entries, _, _, rfl, hblk, htable, hwrite, rfl⟩
  · cases h

theorem covered_write {before after : Nat → Nat → Nat → Option Nat} {block page : Nat}
    {version : Nat → Option Nat}
    (h : after = fun b p unit =>
      if b = block ∧ p = page ∧ unit < cfg.param.ioUnitInPage ∧ cfg.slotOf unit = idx then
        version unit
      else before b p unit) :
    (fun p : Nat × Nat × Nat => covered cfg p.2.2 (after p.1 p.2.1)) =
      Function.update (fun p : Nat × Nat × Nat => covered cfg p.2.2 (before p.1 p.2.1))
        (block, page, idx) (covered cfg idx version) := by
  funext ⟨b, p, i⟩
  simp only [Function.update_apply, Prod.mk.injEq, h]
  funext unit
  by_cases hplace : b = block ∧ p = page ∧ i = idx
  · obtain ⟨rfl, rfl, rfl⟩ := hplace
    simp only [covered, true_and, and_self, if_true]
    split_ifs with hunit
    · rfl
    · rfl
  · rw [if_neg hplace]
    unfold covered
    by_cases hunit : unit < cfg.param.ioUnitInPage ∧ cfg.slotOf unit = i
    · rw [if_pos hunit, if_pos hunit]
      refine if_neg ?_
      rintro ⟨hb, hp, -, hslot⟩
      exact hplace ⟨hb, hp, hunit.2.symm.trans hslot⟩
    · rw [if_neg hunit, if_neg hunit]

theorem Writing.writeUnit {block : Nat} {host : HostRecord}
    {readBeforeWrite sendToPAL : Bool} {acc acc' : Tick × PageMapping}
    (h : Writing cfg req host (idx :: rest) acc.2)
    (hidx : idx < cfg.bitsetSize) (hnotin : idx ∉ rest)
    (hmerges : Merges req (readBeforeWrite && sendToPAL))
    (run : writeUnit cfg req block host.clock tick readBeforeWrite sendToPAL acc idx =
      .ok acc') :
    Writing cfg req host rest acc'.2 := by
  by_cases hsel : req.selects idx = true
  · obtain ⟨blk, blk', entries, page, accesses, -, hblk, htable, hwrite, hacc⟩ :=
      writeUnit_eq_ok hsel run
    obtain ⟨entries', htable', hmerge⟩ := h.merge
    cases Option.some.inj (htable.symm.trans htable')
    have hcontents : acc'.2.contents = fun b p unit =>
        if b = block ∧ p = page ∧ unit < cfg.param.ioUnitInPage ∧ cfg.slotOf unit = idx then
          acc.2.host.latest req.lpn unit
        else acc.2.contents b p unit := by
      rw [hacc]
      funext b p unit
      refine if_ctx_congr Iff.rfl (fun hplace => ?_) fun _ => rfl
      obtain ⟨-, -, hunit, rfl⟩ := hplace
      cases hhost : req.hostUnit unit with
      | true => simp [h.host, HostRecord.write, hhost, hsel]
      | false =>
          simp [hmerges unit hunit hsel hhost,
            hmerge unit hunit List.mem_cons_self hhost]
    have hlatest : (acc.2.remap cfg acc.2.contents).latest (req.lpn, idx) =
        some (covered cfg idx (acc.2.host.latest req.lpn)) := by
      simp [remap, h.host, HostRecord.write, hidx, hsel]
    have hassigned := h.intact.assign htable hidx hblk hwrite
      (mem_entriesOf.2 ⟨⟨hidx, hsel⟩, List.mem_cons_self⟩) hlatest
      (covered_write hcontents)
    rw [entriesOf_sdiff, entriesOf_congr (q := fun i => Selected req i ∧ i ∈ rest)]
      at hassigned
    · refine ⟨?_, ?_, Function.update entries idx (block, page), ?_, ?_⟩
      · exact hassigned.congr (by rw [hacc]) (by rw [hacc]) (by rw [hacc]) (by rw [hacc])
      · rw [hacc]
        exact h.host
      · rw [hacc]
        simp [setEntry, setBlock, htable]
      · intro unit hunit hslot hhost
        have hne : cfg.slotOf unit ≠ idx := fun heq => hnotin (heq ▸ hslot)
        have hhost' : acc'.2.host = acc.2.host := by
          rw [hacc]
          rfl
        rw [Function.update_of_ne hne, hhost',
          ← hmerge unit hunit (List.mem_cons_of_mem idx hslot) hhost]
        simp only [fetch, hcontents, hne, and_false, if_false]
    · intro i
      rw [List.mem_cons]
      constructor
      · rintro ⟨⟨hi, rfl | hmem⟩, hne⟩
        · exact absurd rfl hne
        · exact ⟨hi, hmem⟩
      · exact fun hi => ⟨⟨hi.1, .inr hi.2⟩, fun heq => hnotin (heq ▸ hi.2)⟩
  · cases writeUnit_unselected hsel run
    obtain ⟨entries, htable, hmerge⟩ := h.merge
    refine ⟨?_, h.host, entries, htable, fun unit hunit hslot =>
      hmerge unit hunit (List.mem_cons_of_mem idx hslot)⟩
    have hintact := h.intact
    rw [entriesOf_congr (q := fun i => Selected req i ∧ i ∈ rest)] at hintact
    · exact hintact
    · rintro i
      rw [List.mem_cons]
      constructor
      · rintro ⟨hi, rfl | hmem⟩
        · exact absurd hi.2 hsel
        · exact ⟨hi, hmem⟩
      · exact fun hi => ⟨hi.1, .inr hi.2⟩

theorem collectIfNeeded_eq_ok {choices : Choices} {sendToPAL : Bool}
    (h : collectIfNeeded cfg choices tick sendToPAL s = .ok s') :
    cfg.belowThreshold s.nFreeBlocks = false ∧ s' = s ∨
      cfg.belowThreshold s.nFreeBlocks = true ∧ sendToPAL = true ∧
        ∃ list beginAt finished, (∀ b ∈ list, Full cfg s b) ∧
          selectVictimBlock cfg choices tick s =
            .ok (list, beginAt, { s with bReclaimMore := false }) ∧
          doGarbageCollection cfg list beginAt { s with bReclaimMore := false } =
            .ok (finished, s') := by
  unfold collectIfNeeded at h
  split_ifs at h with hbelow hsend
  · obtain ⟨⟨list, beginAt, mid⟩, hselect, h⟩ := bind_eq_ok.1 h
    obtain ⟨⟨finished, collected⟩, hgc, hpair⟩ := bind_eq_ok.1 h
    cases hpair
    obtain ⟨hfull, rfl⟩ := selectVictimBlock_eq_ok hselect
    exact .inr ⟨hbelow, hsend, list, beginAt, finished, hfull, hselect, hgc⟩
  · cases h
    exact .inl ⟨Bool.eq_false_iff.2 hbelow, rfl⟩

theorem Intact.collectIfNeeded {choices : Choices} {sendToPAL : Bool}
    (h : Intact cfg s.contents ∅ s) (hunits : 2 ≤ cfg.param.ioUnitInPage)
    (run : collectIfNeeded cfg choices tick sendToPAL s = .ok s') :
    Intact cfg s'.contents ∅ s' ∧ s'.host = s.host := by
  rcases collectIfNeeded_eq_ok run with
    ⟨-, rfl⟩ | ⟨-, -, list, beginAt, finished, hfull, -, hcollect⟩
  · exact ⟨h, rfl⟩
  · have hmore : Intact cfg s.contents ∅ { s with bReclaimMore := false } :=
      h.congr rfl rfl rfl rfl
    exact Intact.doGarbageCollection (s := { s with bReclaimMore := false }) hmore hfull
      hunits hcollect

theorem accessMapping_eq (req : Request cfg) (tick : Tick) (sendToPAL : Bool)
    (s : PageMapping) :
    ∃ accesses, (accessMapping cfg req tick sendToPAL s).2 = { s with accesses := accesses } := by
  cases sendToPAL with
  | true => exact ⟨_, rfl⟩
  | false => exact ⟨s.accesses, rfl⟩

theorem Intact.writing (h : Intact cfg s.contents (entriesOf req.lpn (Selected req)) s)
    (ht : s.table req.lpn = some entries)
    (hfetch : ∀ unit < cfg.param.ioUnitInPage,
      fetch cfg (entries (cfg.slotOf unit)) unit s = s.host.latest req.lpn unit) :
    Writing cfg req s.host (List.range cfg.bitsetSize) { s with host := s.host.write req } := by
  refine ⟨?_, rfl, entries, ht, fun unit hunit _ hhost => ?_⟩
  · rw [entriesOf_congr (q := Selected req)]
    · exact h.recordWrite
    · exact fun i => ⟨fun hi => hi.1, fun hi => ⟨hi, List.mem_range.2 hi.1⟩⟩
  · simp only [HostRecord.write, hhost, Bool.false_eq_true, false_and, and_false,
      if_false]
    exact hfetch unit hunit

theorem Writing.writeUnits {block : Nat} {host : HostRecord}
    {readBeforeWrite sendToPAL : Bool} {acc acc' : Tick × PageMapping}
    (h : Writing cfg req host (List.range cfg.bitsetSize) acc.2)
    (hmerges : Merges req (readBeforeWrite && sendToPAL))
    (run : (List.range cfg.bitsetSize).foldlM
      (PageMapping.writeUnit cfg req block host.clock tick readBeforeWrite sendToPAL) acc =
        .ok acc') :
    Intact cfg acc'.2.contents ∅ acc'.2 ∧ acc'.2.host = host.write req := by
  have hdone := foldlM_invariant (fun rest acc => (∀ i ∈ rest, i < cfg.bitsetSize) ∧
    rest.Nodup ∧ Writing cfg req host rest acc.2) ?_ run
    ⟨fun i => List.mem_range.1, List.nodup_range, h⟩
  · obtain ⟨-, -, hintact, hhost, -⟩ := hdone
    have hempty : (entriesOf req.lpn fun i => Selected req i ∧ i ∈ []) = ∅ := by
      simp [entriesOf]
    rw [hempty] at hintact
    exact ⟨hintact, hhost⟩
  · rintro idx rest acc acc' ⟨hlt, hnodup, hwriting⟩ hstep
    obtain ⟨hnotin, hnodup⟩ := List.nodup_cons.1 hnodup
    exact ⟨fun i hi => hlt i (List.mem_cons_of_mem idx hi), hnodup,
      hwriting.writeUnit (hlt idx List.mem_cons_self) hnotin hmerges hstep⟩

section

variable (cfg)

def beginWrite (req : Request cfg) (tick : Tick) (sendToPAL : Bool) (s : PageMapping) :
    Except Fault (Nat × Tick × PageMapping) := do
  let s ← detach cfg req s
  let (block, s) ← getLastFreeBlock cfg req.ioFlag s
  if (s.blocks block).isNone then .error (.panic "No such block")
  else .ok (block, accessMapping cfg req tick sendToPAL s)

def writeStep (req : Request cfg) (sendToPAL : Bool) (start : Nat × Tick × PageMapping) :
    Tick × PageMapping → Nat → Except Fault (Tick × PageMapping) :=
  writeUnit cfg req start.1 start.2.2.host.clock start.2.1
    (!cfg.bRandomTweak && !req.ioFlag.all id) sendToPAL

def recorded (req : Request cfg) (s : PageMapping) : PageMapping :=
  { s with host := s.host.write req }

theorem accessMapping_host (req : Request cfg) (tick : Tick) (sendToPAL : Bool)
    (s : PageMapping) : (accessMapping cfg req tick sendToPAL s).2.host = s.host := by
  obtain ⟨accesses, heq⟩ := accessMapping_eq req tick sendToPAL s
  rw [heq]

theorem writeInternal_eq (choices : Choices) (req : Request cfg) (tick : Tick)
    (sendToPAL : Bool) (s : PageMapping) :
    writeInternal cfg choices req tick sendToPAL s = (do
      let start ← beginWrite cfg req tick sendToPAL s
      let done ← (List.range cfg.bitsetSize).foldlM (writeStep cfg req sendToPAL start)
        (tick, recorded cfg req start.2.2)
      let finished :=
        if sendToPAL then cfg.timing.applyLatency .writeInternal done.1 else start.2.1
      let s ← collectIfNeeded cfg choices finished sendToPAL done.2
      .ok (finished, s)) := by
  unfold writeInternal beginWrite
  cases detach cfg req s with
  | error e => rfl
  | ok s₁ =>
      simp only [bind, Except.bind]
      cases getLastFreeBlock cfg req.ioFlag s₁ with
      | error e => rfl
      | ok opened =>
          by_cases hnone : (opened.2.blocks opened.1).isNone
          · simp only [hnone, if_true]
          · simp only [hnone, Bool.false_eq_true, if_false, writeStep, accessMapping_host,
              recorded]

end

theorem beginWrite_eq_ok {sendToPAL : Bool} {start : Nat × Tick × PageMapping}
    (h : beginWrite cfg req tick sendToPAL s = .ok start) :
    ∃ block s₁ s₂, detach cfg req s = .ok s₁ ∧
      getLastFreeBlock cfg req.ioFlag s₁ = .ok (block, s₂) ∧
      start = (block, accessMapping cfg req tick sendToPAL s₂) := by
  obtain ⟨s₁, hdetach, h⟩ := bind_eq_ok.1 h
  obtain ⟨⟨block, s₂⟩, hopen, h⟩ := bind_eq_ok.1 h
  dsimp only at h
  split_ifs at h
  cases h
  exact ⟨block, s₁, s₂, hdetach, hopen, rfl⟩

theorem writeInternal_eq_ok {choices : Choices} {sendToPAL : Bool}
    (h : writeInternal cfg choices req tick sendToPAL s = .ok (tick', s')) :
    ∃ start done, beginWrite cfg req tick sendToPAL s = .ok start ∧
      (List.range cfg.bitsetSize).foldlM (writeStep cfg req sendToPAL start)
        (tick, recorded cfg req start.2.2) = .ok done ∧
      tick' = (if sendToPAL then cfg.timing.applyLatency .writeInternal done.1 else start.2.1) ∧
      collectIfNeeded cfg choices tick' sendToPAL done.2 = .ok s' := by
  rw [writeInternal_eq] at h
  obtain ⟨start, hbegin, h⟩ := bind_eq_ok.1 h
  obtain ⟨done, hloop, h⟩ := bind_eq_ok.1 h
  obtain ⟨s₃, hcollect, h⟩ := bind_eq_ok.1 h
  cases h
  exact ⟨start, done, hbegin, hloop, rfl, hcollect⟩

theorem Intact.beginWrite {sendToPAL : Bool} {start : Nat × Tick × PageMapping}
    (h : Intact cfg s.contents ∅ s) (run : beginWrite cfg req tick sendToPAL s = .ok start) :
    Writing cfg req start.2.2.host (List.range cfg.bitsetSize) (recorded cfg req start.2.2) ∧
      start.2.2.host = s.host := by
  obtain ⟨block, s₁, s₂, hdetach, hopen, rfl⟩ := beginWrite_eq_ok run
  obtain ⟨hdetached, hhost, entries, htable, hfetch⟩ := h.detach hdetach
  have hopened := getLastFreeBlock_opened hopen
  obtain ⟨accesses, hlooked⟩ := accessMapping_eq req tick sendToPAL s₂
  rw [hlooked]
  have hready : Intact cfg s₂.contents (entriesOf req.lpn (Selected req))
      { s₂ with accesses := accesses } :=
    hopened.contents ▸ (hdetached.getLastFreeBlock hopen).congr rfl rfl rfl rfl
  refine ⟨Intact.writing (s := { s₂ with accesses := accesses }) hready
    (hopened.table ▸ htable) fun unit hunit => ?_, hopened.host.trans hhost⟩
  have hunit := hfetch unit hunit
  unfold fetch at hunit ⊢
  rwa [hopened.contents, hopened.host]

theorem Intact.writeInternal {choices : Choices} {sendToPAL : Bool}
    (h : Intact cfg s.contents ∅ s) (hunits : 2 ≤ cfg.param.ioUnitInPage)
    (hmerges : Merges req (!cfg.bRandomTweak && !req.ioFlag.all id && sendToPAL))
    (run : writeInternal cfg choices req tick sendToPAL s = .ok (tick', s')) :
    Intact cfg s'.contents ∅ s' ∧ s'.host = s.host.write req := by
  obtain ⟨start, done, hbegin, hloop, rfl, hcollect⟩ := writeInternal_eq_ok run
  obtain ⟨hwriting, hhost⟩ := h.beginWrite hbegin
  obtain ⟨hwritten, hrecorded⟩ := hwriting.writeUnits hmerges hloop
  obtain ⟨hintact, hsame⟩ := hwritten.collectIfNeeded hunits hcollect
  exact ⟨hintact, by rw [hsame, hrecorded, hhost]⟩

/-! ## Trim -/

theorem remap_trim (lpn : Nat) :
    remap cfg contents { s with
      table := Function.update s.table lpn none
      host := s.host.trim lpn } =
    (s.remap cfg contents).forget fun l => l.1 == lpn := by
  refine Remap.ext ?_ rfl rfl ?_
  · funext ⟨lpn', idx⟩
    by_cases hlpn : lpn' = lpn
    · simp [remap, Remap.forget, place, hlpn]
    · simp [remap, Remap.forget, place, hlpn]
  · funext ⟨lpn', idx⟩
    by_cases hlpn : lpn' = lpn
    · simp [remap, HostRecord.trim, Remap.forget, hlpn]
    · simp [remap, HostRecord.trim, Remap.forget, hlpn]

theorem Intact.forget
    (h : Intact cfg contents (entriesOf lpn fun i => i < cfg.bitsetSize) s) :
    Intact cfg contents ∅ { s with
      table := Function.update s.table lpn none
      host := s.host.trim lpn } := by
  refine ⟨h.inUse, h.free, fun lpn' unit hunit hwritten => ?_, ?_⟩
  · change (if lpn' = lpn then none else s.host.latest lpn' unit) = none
    split_ifs with hlpn
    · rfl
    · refine h.unwritten lpn' unit hunit ?_
      simpa [HostRecord.trim, hlpn] using hwritten
  · rw [remap_trim]
    refine h.consistent.forget (fun l hl => by simp [hl.1]) fun l hdrop hplace => ?_
    refine ⟨by simpa using hdrop, ?_⟩
    by_contra hidx
    refine hplace ?_
    change place cfg s l = none
    unfold place
    split
    · rfl
    · rw [if_neg fun hlive => hidx hlive.1]

theorem Intact.trimInternal (h : Intact cfg s.contents ∅ s)
    (run : trimInternal cfg req tick s = .ok (tick', s')) :
    Intact cfg s'.contents ∅ s' ∧ s'.host = s.host.trim req.lpn := by
  rcases trimInternal_eq_ok run with ⟨htable, hpair⟩ | ⟨entries, s₁, htable, hloop, hpair⟩
  · cases hpair
    refine ⟨?_, rfl⟩
    have hempty : Intact cfg s.contents
        (entriesOf req.lpn fun i => i < cfg.bitsetSize) s := by
      refine ⟨h.inUse, h.free, h.unwritten, h.consistent.detach (Set.empty_subset _) ?_⟩
      rintro ⟨lpn', i⟩ ⟨hl, -⟩ hplace
      cases hl
      exact absurd (show place cfg s (req.lpn, i) = none by simp [place, htable]) hplace
    have hforgot := hempty.forget
    rwa [Function.update_eq_self_iff.2 htable.symm] at hforgot
  · cases hpair
    have hlooked : Intact cfg s.contents ∅ (lookUp cfg req tick s).2 := h.congr rfl rfl rfl rfl
    obtain ⟨hintact, hsame⟩ := hlooked.invalidateAll trimUnit_invalidates htable hloop
    have hcontents : s₁.contents = s.contents := hsame.contents
    have hhost : s₁.host = s.host := hsame.host
    rw [← hcontents, entriesOf_congr (q := fun i => i < cfg.bitsetSize) (by simp)] at hintact
    exact ⟨hintact.forget, by rw [← hhost]⟩

end SimpleSSD.FTL.PageMapping
