import SimpleSSD.FTL.HostWrite

/-!
# Runs of the page mapping

Every run of writes, reads and trims after the initial filling keeps the mapping
intact, and what the host has stored is a function of its requests alone.
-/

namespace SimpleSSD.FTL.PageMapping

open SimpleSSD.Foundation

variable {cfg : Config} {s s' : PageMapping} {req : Request cfg} {tick tick' : Tick}
  {entries : Nat → Nat × Nat} {rest : List Nat} {idx : Nat}

/-! ## Reads -/

def entryRequest (req : Request cfg) (entries : Nat → Nat × Nat) (idx : Nat) : PALRequest :=
  ⟨(entries idx).1, (entries idx).2, cfg.unitFlags req.ioFlag.length idx⟩

def Requested (req : Request cfg) (entries : Nat → Nat × Nat) (idx : Nat) : Prop :=
  Selected req idx ∧ cfg.live (entries idx) = true

/-- Between two entries of a read that began in `s`: requests have been issued
for the mapped entries outside `rest` only. -/
structure Reading (req : Request cfg) (entries : Nat → Nat × Nat) (s : PageMapping)
    (rest : List Nat) (s' : PageMapping) : Prop where
  intact : Intact cfg s'.contents ∅ s'
  host : s'.host = s.host
  issued : ∃ issued, s'.accesses = issued ++ s.accesses ∧
    (∀ pal, .palRead pal ∈ issued →
      ∃ idx, Requested req entries idx ∧ pal = entryRequest req entries idx) ∧
    ∀ idx, Requested req entries idx → idx ∉ rest →
      .palRead (entryRequest req entries idx) ∈ issued

theorem Reading.readUnit {acc acc' : Tick × PageMapping}
    (h : Reading req entries s (idx :: rest) acc.2) (hidx : idx < cfg.bitsetSize)
    (run : readUnit cfg req entries tick acc idx = .ok acc') :
    Reading req entries s rest acc'.2 := by
  obtain ⟨issued, haccesses, honly, hall⟩ := h.issued
  rcases readUnit_eq_ok run with ⟨hsel, rfl⟩ | ⟨blk, blk', hsel, hblk, hread, _, rfl, rfl⟩
  · refine ⟨h.intact, h.host, issued, haccesses, honly, fun i hi hrest => hall i hi ?_⟩
    intro hmem
    rcases List.mem_cons.1 hmem with rfl | hmem
    · exact hsel (by simp [hi.1.2, hi.2])
    · exact hrest hmem
  · rw [Bool.and_eq_true] at hsel
    refine ⟨(h.intact.readBlock hblk hread).congr rfl rfl rfl rfl, h.host,
      .palRead (entryRequest req entries idx) :: issued, ?_, fun pal hpal => ?_,
      fun i hi hrest => ?_⟩
    · exact congrArg (Access.palRead (entryRequest req entries idx) :: ·) haccesses
    · rcases List.mem_cons.1 hpal with heq | hold
      · exact ⟨idx, ⟨⟨hidx, hsel.1⟩, hsel.2⟩, Access.palRead.inj heq⟩
      · exact honly pal hold
    · by_cases heq : i = idx
      · exact heq ▸ List.mem_cons_self
      · refine List.mem_cons_of_mem _ (hall i hi fun hmem => ?_)
        rcases List.mem_cons.1 hmem with heq' | hmem
        · exact heq heq'
        · exact hrest hmem

theorem Intact.readInternal (h : Intact cfg s.contents ∅ s)
    (run : readInternal cfg req tick s = .ok (tick', s')) :
    (s.table req.lpn = none ∧ s' = s) ∨
      ∃ entries, s.table req.lpn = some entries ∧ Reading req entries s [] s' := by
  rcases readInternal_eq_ok run with ⟨htable, hpair⟩ | ⟨entries, last, htable, hloop, hpair⟩
  · cases hpair
    exact .inl ⟨htable, rfl⟩
  · cases hpair
    refine .inr ⟨entries, htable, ?_⟩
    refine (foldlM_invariant (fun rest acc => (∀ i ∈ rest, i < cfg.bitsetSize) ∧
      Reading req entries s rest acc.2) ?_ hloop ⟨fun i => List.mem_range.1, ?_⟩).2
    · rintro idx rest acc acc' ⟨hlt, hreading⟩ hstep
      exact ⟨fun i hi => hlt i (List.mem_cons_of_mem idx hi),
        hreading.readUnit (hlt idx List.mem_cons_self) hstep⟩
    · refine ⟨h.congr rfl rfl rfl rfl, rfl, [_], rfl, fun pal hpal => ?_,
        fun i hi hrest => absurd (List.mem_range.2 hi.1.1) hrest⟩
      cases List.mem_singleton.1 hpal

theorem Intact.read (h : Intact cfg s.contents ∅ s)
    (run : read cfg req tick s = .ok (tick', s')) :
    Intact cfg s'.contents ∅ s' ∧ s'.host = s.host := by
  obtain ⟨⟨done, s₁⟩, hdone, run⟩ := bind_eq_ok.1 run
  cases run
  split_ifs at hdone
  · rcases h.readInternal hdone with ⟨-, rfl⟩ | ⟨entries, -, hreading⟩
    · exact ⟨h, rfl⟩
    · exact ⟨hreading.intact, hreading.host⟩
  · cases hdone
    exact ⟨h, rfl⟩

/-! ## Runs -/

inductive Op (cfg : Config) where
  | write (choices : Choices) (req : Request cfg) (tick : Tick)
  | read (req : Request cfg) (tick : Tick)
  | trim (req : Request cfg) (tick : Tick)

def Op.apply (s : PageMapping) : Op cfg → Except Fault PageMapping
  | .write choices req tick => do
      let done ← PageMapping.write cfg choices req tick s
      .ok done.2
  | .read req tick => do
      let done ← PageMapping.read cfg req tick s
      .ok done.2
  | .trim req tick => do
      let done ← PageMapping.trim cfg req tick s
      .ok done.2

def run (cfg : Config) (choices : Choices) (filling : Filling) (ops : List (Op cfg)) :
    Except Fault PageMapping := do
  let s ← construct cfg
  let s ← initializeFTL cfg choices filling s
  ops.foldlM Op.apply s

def Op.record (host : HostRecord) : Op cfg → HostRecord
  | .write _ req _ => if 0 < req.ioFlag.count true then host.write req else host
  | .read _ _ => host
  | .trim req _ => host.trim req.lpn

def history (filling : Filling) (ops : List (Op cfg)) : HostRecord :=
  ops.foldl Op.record
    (filling.lpns.foldl (fun host lpn => host.write (fillRequest cfg lpn)) .empty)

theorem construct_intact (h : construct cfg = .ok s) :
    Intact cfg s.contents ∅ s ∧ s.host = .empty := by
  refine foldlM_invariant_mem
    (fun s : PageMapping => Intact cfg s.contents ∅ s ∧ s.host = .empty) ?_ h ?_
  · rintro i - s s' ⟨hintact, hhost⟩ hstep
    obtain ⟨⟨block, mid⟩, hget, hpair⟩ := bind_eq_ok.1 hstep
    cases hpair
    have hmid := hintact.getFreeBlock hget
    obtain ⟨blk, rest, -, -, -, rfl⟩ := getFreeBlock_eq_ok hget
    exact ⟨hmid.congr rfl rfl rfl rfl, hhost⟩
  · refine ⟨⟨fun b blk hblk => ?_, fun blk hmem => ?_, fun _ _ _ _ => rfl, ?_⟩, rfl⟩
    · cases hblk
    · obtain ⟨b, hb, rfl⟩ := List.mem_map.1 hmem
      exact ⟨List.mem_range.1 hb, Block.new_sound b, fun _ _ => rfl, fun _ => rfl⟩
    · refine ⟨fun l p _ hp => ?_, fun l p hp => ?_, fun l p _ hp => ?_, fun l _ hl => ?_⟩
      · cases hp
      · cases hp
      · cases hp
      · exact absurd rfl hl

theorem Intact.initializeFTL {choices : Choices} {filling : Filling}
    (h : Intact cfg s.contents ∅ s) (hunits : 2 ≤ cfg.param.ioUnitInPage)
    (run : initializeFTL cfg choices filling s = .ok s') :
    Intact cfg s'.contents ∅ s' ∧
      s'.host = filling.lpns.foldl (fun host lpn => host.write (fillRequest cfg lpn)) s.host := by
  unfold PageMapping.initializeFTL at run
  refine foldlM_invariant (fun rest (mid : PageMapping) => Intact cfg mid.contents ∅ mid ∧
    filling.lpns.foldl (fun host lpn => host.write (fillRequest cfg lpn)) s.host =
      rest.foldl (fun host lpn => host.write (fillRequest cfg lpn)) mid.host) ?_ run
    ⟨h, rfl⟩ |>.imp_right Eq.symm
  rintro lpn rest mid next ⟨hmid, hhost⟩ hstep
  obtain ⟨⟨done, filled⟩, hfill, hpair⟩ := bind_eq_ok.1 hstep
  cases hpair
  obtain ⟨hintact, hrecord⟩ := hmid.writeInternal hunits (merges_fill lpn _) hfill
  exact ⟨hintact, by rw [hhost, hrecord]; rfl⟩

theorem Intact.apply {op : Op cfg} (h : Intact cfg s.contents ∅ s)
    (hunits : 2 ≤ cfg.param.ioUnitInPage) (run : Op.apply s op = .ok s') :
    Intact cfg s'.contents ∅ s' ∧ s'.host = Op.record s.host op := by
  cases op with
  | write choices req tick =>
      obtain ⟨⟨done, s₁⟩, hwrite, hpair⟩ := bind_eq_ok.1 run
      cases hpair
      obtain ⟨⟨done', s₂⟩, hinternal, hpair⟩ := bind_eq_ok.1 hwrite
      cases hpair
      by_cases hcount : 0 < req.ioFlag.count true
      · rw [if_pos hcount] at hinternal
        obtain ⟨hintact, hrecord⟩ := h.writeInternal hunits (merges_write req) hinternal
        exact ⟨hintact, by simp only [Op.record, if_pos hcount, hrecord]⟩
      · rw [if_neg hcount] at hinternal
        cases hinternal
        exact ⟨h, by simp only [Op.record, if_neg hcount]⟩
  | read req tick =>
      obtain ⟨⟨done, s₁⟩, hread, hpair⟩ := bind_eq_ok.1 run
      cases hpair
      exact h.read hread
  | trim req tick =>
      obtain ⟨⟨done, s₁⟩, htrim, hpair⟩ := bind_eq_ok.1 run
      cases hpair
      obtain ⟨⟨done', s₂⟩, hinternal, hpair⟩ := bind_eq_ok.1 htrim
      cases hpair
      exact h.trimInternal hinternal

theorem run_intact {choices : Choices} {filling : Filling} {ops : List (Op cfg)}
    (hunits : 2 ≤ cfg.param.ioUnitInPage) (hrun : run cfg choices filling ops = .ok s) :
    Intact cfg s.contents ∅ s ∧ s.host = history filling ops := by
  obtain ⟨s₀, hconstruct, hrun⟩ := bind_eq_ok.1 hrun
  obtain ⟨s₁, hfill, hops⟩ := bind_eq_ok.1 hrun
  obtain ⟨hnew, hempty⟩ := construct_intact hconstruct
  obtain ⟨hfilled, hstored⟩ := hnew.initializeFTL hunits hfill
  refine foldlM_invariant (fun rest (mid : PageMapping) => Intact cfg mid.contents ∅ mid ∧
    history filling ops = rest.foldl Op.record mid.host) ?_ hops ⟨hfilled, ?_⟩
    |>.imp_right Eq.symm
  · rintro op rest mid next ⟨hmid, hhost⟩ hstep
    obtain ⟨hintact, hrecord⟩ := hmid.apply hunits hstep
    exact ⟨hintact, by rw [hhost, hrecord]; rfl⟩
  · rw [hstored, hempty]
    rfl

/-- Four blocks of two pages of two units, collected below two free blocks. -/
def smallConfig : Config where
  param := ⟨4, 2, 2, 2, 1⟩
  bRandomTweak := true
  gcMode := .mode0
  policy := .greedy
  dChoiceParam := 0
  reclaimBlock := 1
  reclaimTarget := fun _ => 0
  belowThreshold := fun n => decide (n < 2)
  costBenefit := fun _ _ => 0
  badBlockThreshold := 10
  timing := { finish := fun _ _ tick => tick + 1, latency := fun _ => 1 }

def plainChoices : Choices := ⟨id, fun _ => .refl _, []⟩

def smallFilling : Filling := ⟨.mode0, 1, 0, fun _ => 0, fun _ => 0⟩

def smallRequest (lpn : Nat) (first second : Bool) : Request smallConfig :=
  ⟨lpn, [first, second], .inl rfl⟩

/-- The fourth write collects two blocks and relocates a page. -/
def smallOps : List (Op smallConfig) :=
  [.write plainChoices (smallRequest 0 true false) 0,
    .write plainChoices (smallRequest 1 true true) 1,
    .write plainChoices (smallRequest 0 false true) 2,
    .write plainChoices (smallRequest 0 true true) 3,
    .trim (smallRequest 5 true true) 4,
    .write plainChoices (smallRequest 1 true false) 5]

theorem smallRun_ok : ∃ s, run smallConfig plainChoices smallFilling smallOps = .ok s :=
  exists_of_isOk (by decide +kernel)

/-! ## What runs guarantee -/

theorem place_inv {l : Nat × Nat} {p : Nat × Nat × Nat} (h : s.place cfg l = some p) :
    ∃ entries, s.table l.1 = some entries ∧ l.2 < cfg.bitsetSize ∧
      cfg.live (entries l.2) = true ∧ p = ((entries l.2).1, (entries l.2).2, l.2) := by
  unfold place at h
  split at h
  · cases h
  · rename_i entries htable
    split_ifs at h with hlive
    exact ⟨entries, htable, hlive.1, hlive.2, (Option.some.inj h).symm⟩

/-- Every flash read of a host read finds the version the host last wrote, each
mapped unit that is asked for is read, and what the host has not written since
the last trim is not mapped. -/
theorem read_your_writes {choices : Choices} {filling : Filling} {ops : List (Op cfg)}
    (hunits : 2 ≤ cfg.param.ioUnitInPage) (hrun : run cfg choices filling ops = .ok s) :
    (∀ (req : Request cfg) (tick tick' : Tick) (s' : PageMapping),
      read cfg req tick s = .ok (tick', s') →
      ∃ issued, s'.accesses = issued ++ s.accesses ∧
        (∀ pal, .palRead pal ∈ issued → ∀ unit < cfg.param.ioUnitInPage,
          PALRequest.covers cfg pal unit = true →
            (history filling ops).written req.lpn (cfg.slotOf unit) = true ∧
            s.contents pal.blockIndex pal.pageIndex unit =
              (history filling ops).latest req.lpn unit) ∧
        (0 < req.ioFlag.count true → ∀ unit < cfg.param.ioUnitInPage,
          req.selects (cfg.slotOf unit) = true → ∀ place,
            s.place cfg (req.lpn, cfg.slotOf unit) = some place →
            ∃ pal, .palRead pal ∈ issued ∧ PALRequest.covers cfg pal unit = true ∧
              pal.blockIndex = place.1 ∧ pal.pageIndex = place.2.1)) ∧
    ∀ lpn idx, (history filling ops).written lpn idx = false →
      s.place cfg (lpn, idx) = none := by
  obtain ⟨hintact, hhost⟩ := run_intact hunits hrun
  rw [← hhost]
  have hwritten : ∀ l, s.place cfg l ≠ none → s.host.written l.1 l.2 = true := by
    intro l hl
    obtain ⟨p, hp⟩ := Option.ne_none_iff_exists'.1 hl
    have hlatest := hintact.consistent.current l p (Set.notMem_empty l) hp
    simp only [remap] at hlatest
    split_ifs at hlatest with hw
    exact hw
  refine ⟨fun req tick tick' s' hread => ?_, fun lpn idx hunwritten => ?_⟩
  · obtain ⟨⟨done, s₁⟩, hdone, hpair⟩ := bind_eq_ok.1 hread
    cases hpair
    by_cases hcount : 0 < req.ioFlag.count true
    · rw [if_pos hcount] at hdone
      rcases hintact.readInternal hdone with ⟨htable, rfl⟩ | ⟨entries, htable, hreading⟩
      · refine ⟨[], rfl, fun _ hpal => absurd hpal List.not_mem_nil,
          fun _ unit _ _ place hplace => ?_⟩
        obtain ⟨entries, hentries, -⟩ := place_inv hplace
        cases htable.symm.trans hentries
      · obtain ⟨issued, haccesses, honly, hall⟩ := hreading.issued
        refine ⟨issued, haccesses, fun pal hpal unit hunit hcovers => ?_,
          fun _ unit hunit hsel place hplace => ?_⟩
        · obtain ⟨idx, ⟨⟨hidx, hsel⟩, hlive⟩, rfl⟩ := honly pal hpal
          have hslot := (covers_unitFlags (req.sized.imp_right And.left) hidx hunit).1 hcovers
          subst hslot
          refine ⟨hwritten (req.lpn, cfg.slotOf unit) ?_, ?_⟩
          · rw [place_eq_some htable hidx hlive]
            exact Option.some_ne_none _
          · have hfetch := hintact.fetch_eq htable hunit
            unfold fetch at hfetch
            rwa [if_pos hlive] at hfetch
        · obtain ⟨entries', hentries, hidx, hlive, rfl⟩ := place_inv hplace
          cases Option.some.inj (htable.symm.trans hentries)
          exact ⟨entryRequest req entries (cfg.slotOf unit),
            hall _ ⟨⟨hidx, hsel⟩, hlive⟩ List.not_mem_nil,
            (covers_unitFlags (req.sized.imp_right And.left) hidx hunit).2 rfl, rfl, rfl⟩
    · rw [if_neg hcount] at hdone
      cases hdone
      exact ⟨[], rfl, fun _ hpal => absurd hpal List.not_mem_nil,
        fun hpos => absurd hpos hcount⟩
  · by_contra hplace
    rw [hwritten _ hplace] at hunwritten
    cases hunwritten

theorem read_your_writes_collected : ∃ s tick s' issued,
    run smallConfig plainChoices smallFilling smallOps = .ok s ∧
      read smallConfig (smallRequest 1 true true) 9 s = .ok (tick, s') ∧
      s'.accesses = issued ++ s.accesses ∧ s.place smallConfig (2, 0) = none ∧
      ∀ pal, .palRead pal ∈ issued → PALRequest.covers smallConfig pal 1 = true →
        s.contents pal.blockIndex pal.pageIndex 1 = some 2 := by
  have hok : ∃ done, (do
      let s ← run smallConfig plainChoices smallFilling smallOps
      read smallConfig (smallRequest 1 true true) 9 s) = .ok done :=
    exists_of_isOk (by decide +kernel)
  obtain ⟨⟨tick, s'⟩, hdone⟩ := hok
  obtain ⟨s, hrun, hread⟩ := bind_eq_ok.1 hdone
  obtain ⟨hreads, hunmapped⟩ := read_your_writes (by decide) hrun
  obtain ⟨issued, haccesses, hissued, -⟩ := hreads _ _ _ _ hread
  refine ⟨s, tick, s', issued, hrun, hread, haccesses, hunmapped 2 0 (by decide +kernel),
    fun pal hpal hcovers => ?_⟩
  exact (hissued pal hpal 1 (by decide) hcovers).2.trans (by decide +kernel)

/-- Live entries and valid units correspond one to one. -/
theorem mapping_bijective {choices : Choices} {filling : Filling} {ops : List (Op cfg)}
    (hunits : 2 ≤ cfg.param.ioUnitInPage) (hrun : run cfg choices filling ops = .ok s) :
    (∀ lpn entries idx, s.table lpn = some entries → idx < cfg.bitsetSize →
      cfg.live (entries idx) = true →
      ∃ blk, s.blocks (entries idx).1 = some blk ∧
        blk.validBits (entries idx).2 idx = true ∧ blk.lpns (entries idx).2 idx = lpn) ∧
    (∀ b blk page unit, s.blocks b = some blk → blk.validBits page unit = true →
      ∃! l, s.place cfg l = some (b, page, unit)) ∧
    ∀ l l' p, s.place cfg l = some p → s.place cfg l' = some p → l = l' := by
  obtain ⟨hintact, -⟩ := run_intact hunits hrun
  have hinjective : ∀ l l' p, s.place cfg l = some p → s.place cfg l' = some p → l = l' :=
    fun l l' p => hintact.consistent.place_injective (Set.notMem_empty l) (Set.notMem_empty l')
  refine ⟨fun lpn entries idx htable hidx hlive => ?_, fun b blk page unit hblk hvalid => ?_,
    hinjective⟩
  · have howner := hintact.consistent.owned _ _ (Set.notMem_empty _)
      (place_eq_some htable hidx hlive)
    obtain ⟨blk, hblk, hvalid, heq⟩ := owner_inv howner
    exact ⟨blk, hblk, hvalid, (congrArg Prod.fst heq).symm⟩
  · obtain ⟨hplace, -⟩ := hintact.consistent.placed _ _ (owner_eq_some hblk hvalid)
    exact ⟨_, hplace, fun l hl => hinjective l _ _ hl hplace⟩

theorem mapping_bijective_collected :
    ∃ s, run smallConfig plainChoices smallFilling smallOps = .ok s ∧
      ∀ l l' p, s.place smallConfig l = some p → s.place smallConfig l' = some p → l = l' := by
  obtain ⟨s, hrun⟩ := smallRun_ok
  exact ⟨s, hrun, (mapping_bijective (by decide) hrun).2.2⟩

end SimpleSSD.FTL.PageMapping
