import SimpleSSD.FTL.Grounding

/-!
# When trims complete

Trim and the trim phase of a format look up the block of every entry of a page.  They complete
exactly for pages that are mapped as a whole or not at all, and then take the mapped units
away and no others.
-/

namespace SimpleSSD.FTL.PageMapping

open SimpleSSD.Foundation

variable {cfg : Config} {s s' s'' : PageMapping} {gone gone' : Nat → Prop} {lpn : Nat}
  {tick : Tick} {entries : Nat → Nat × Nat} {req : Request cfg} {choices : Choices}
  {range : LPNRange} {keys rest : List Nat} {acc acc' : PageMapping × List Nat}

/-- No unit of the page holds the mark of an unmapped one. -/
def Complete (cfg : Config) (s : PageMapping) (lpn : Nat) : Prop :=
  ∀ entries, s.table lpn = some entries → ∀ idx < cfg.bitsetSize, cfg.live (entries idx) = true

/-- Some pages are dropped: their mapped units were valid and no longer are, and all else is
as before. -/
structure Unmaps (cfg : Config) (gone : Nat → Prop) (s s' : PageMapping) : Prop where
  before : ∀ lpn unit p, gone lpn → s.place cfg (lpn, unit) = some p →
    s.validOf p.1 p.2.1 p.2.2 = true
  valid : ∀ b page unit, s'.validOf b page unit = true ↔ s.validOf b page unit = true ∧
    ∀ lpn, gone lpn → s.place cfg (lpn, unit) ≠ some (b, page, unit)
  dropped : ∀ lpn, gone lpn → s'.table lpn = none
  others : ∀ lpn, ¬ gone lpn → s'.table lpn = s.table lpn

/-! ## Dropping pages -/

theorem Unmaps.none (h : ∀ lpn, gone lpn → s.table lpn = none) (hv : s'.validOf = s.validOf)
    (ht : s'.table = s.table) : Unmaps cfg gone s s' where
  before lpn unit p hgone hp := by simp [place, h lpn hgone] at hp
  valid b page unit := by
    rw [hv, iff_self_and]
    intro _ lpn hgone
    simp [place, h lpn hgone]
  dropped lpn hgone := ht ▸ h lpn hgone
  others lpn _ := by rw [ht]

theorem Unmaps.trans (h : Unmaps cfg gone s s') (h' : Unmaps cfg gone' s' s'')
    (grounded : Grounded cfg ∅ s) : Unmaps cfg (fun lpn => gone lpn ∨ gone' lpn) s s'' where
  before lpn unit p _ hp := by
    rw [validOf_eq_isSome, grounded.kept _ p (Set.notMem_empty _) hp]
    rfl
  valid b page unit := by
    rw [h'.valid, h.valid, and_assoc]
    refine and_congr_right fun _ => ⟨?_, ?_⟩
    · rintro ⟨first, later⟩ lpn hlpn
      by_cases hgone : gone lpn
      · exact first lpn hgone
      · have hsame : s'.place cfg (lpn, unit) = s.place cfg (lpn, unit) := by
          simp only [place, h.others lpn hgone]
        rw [← hsame]
        exact later lpn (hlpn.resolve_left hgone)
    · intro both
      refine ⟨fun lpn hgone => both lpn (.inl hgone), fun lpn hgone => ?_⟩
      by_cases hfirst : gone lpn
      · simp [place, h.dropped lpn hfirst]
      · have hsame : s'.place cfg (lpn, unit) = s.place cfg (lpn, unit) := by
          simp only [place, h.others lpn hfirst]
        rw [hsame]
        exact both lpn (.inr hgone)
  dropped lpn hlpn := by
    by_cases hlater : gone' lpn
    · exact h'.dropped lpn hlater
    · rw [h'.others lpn hlater]
      exact h.dropped lpn (hlpn.resolve_right hlater)
  others lpn hlpn := by
    rw [not_or] at hlpn
    rw [h'.others lpn hlpn.2, h.others lpn hlpn.1]

theorem Unmaps.congr (h : Unmaps cfg gone s s') (hgone : ∀ lpn, gone' lpn ↔ gone lpn) :
    Unmaps cfg gone' s s' := by
  have hsame : gone' = gone := funext fun lpn => propext (hgone lpn)
  exact hsame ▸ h

/-! ## One page -/

theorem Grounded.leads_iff_live (h : Grounded cfg ∅ s) (ht : s.table lpn = some entries) {idx : Nat}
    (hidx : idx < cfg.bitsetSize) : Leads s (entries idx) ↔ cfg.live (entries idx) = true := by
  constructor
  · rintro ⟨blk, hblk, hpage⟩
    obtain ⟨hlt, -, hsound, -⟩ := h.inUse _ blk hblk
    rw [hsound.pageCount] at hpage
    simp [Config.live, hlt, hpage]
  · intro hlive
    obtain ⟨blk, hblk, hpage, -⟩ := h.programmed _ _ (place_eq_some ht hidx hlive)
    exact ⟨blk, hblk, hpage⟩

theorem Grounded.trimUnits_iff (h : Grounded cfg ∅ s) (ht : s.table lpn = some entries) :
    (∃ s', (List.range cfg.bitsetSize).foldlM (trimUnit entries) s = .ok s') ↔
      ∀ idx < cfg.bitsetSize, cfg.live (entries idx) = true := by
  constructor
  · rintro ⟨s', run⟩ idx hidx
    exact (h.leads_iff_live ht hidx).1 ((trimUnits_eq_ok run).1 idx (List.mem_range.2 hidx))
  · intro hlive
    exact trimUnits_total fun idx hidx =>
      (h.leads_iff_live ht (List.mem_range.1 hidx)).2 (hlive idx (List.mem_range.1 hidx))

theorem Grounded.trimUnits_unmaps (h : Grounded cfg ∅ s) (ht : s.table lpn = some entries)
    (run : (List.range cfg.bitsetSize).foldlM (trimUnit entries) s = .ok s') (host : HostRecord) :
    Unmaps cfg (· = lpn) s
      { s' with table := Function.update s'.table lpn none, host := host } := by
  have hlive := (h.trimUnits_iff ht).1 ⟨s', run⟩
  have htable := (trimUnits_eq_ok run).2.2
  constructor
  · intro other unit p _ hp
    rw [validOf_eq_isSome, h.kept _ p (Set.notMem_empty _) hp]
    rfl
  · intro b page unit
    have howner := trimUnits_owner run (b, page, unit)
    change s'.validOf b page unit = true ↔ _
    rw [validOf_eq_isSome, validOf_eq_isSome, howner]
    have hplace : s.place cfg (lpn, unit) = some (b, page, unit) ↔
        unit ∈ List.range cfg.bitsetSize ∧ entries unit = (b, page) := by
      rw [List.mem_range]
      constructor
      · intro hp
        obtain ⟨found, hfound, hunit, -, heq⟩ := place_inv hp
        cases Option.some.inj (ht.symm.trans hfound)
        simp only [Prod.mk.injEq] at heq
        exact ⟨hunit, Prod.ext heq.1.symm heq.2.1.symm⟩
      · rintro ⟨hunit, heq⟩
        rw [place_eq_some ht hunit (hlive unit hunit), heq]
    simp only [forall_eq, ne_eq, hplace]
    split_ifs with hgone
    · simp [hgone]
    · exact (and_iff_left hgone).symm
  · rintro other rfl
    exact Function.update_self ..
  · intro other hne
    exact (Function.update_of_ne hne _ _).trans (congrFun htable other)

theorem Grounded.trim_iff (h : Grounded cfg ∅ s) (req : Request cfg) (tick : Tick) :
    (∃ done, PageMapping.trim cfg req tick s = .ok done ∧ Unmaps cfg (· = req.lpn) s done.2) ↔
      Complete cfg s req.lpn := by
  have hlooked : ∀ a, Grounded cfg ∅ (access cfg a tick s).2 := fun a => h.congr rfl rfl rfl
  constructor
  · rintro ⟨done, hrun, -⟩ entries htable
    obtain ⟨inner, hinner, -⟩ := bind_eq_ok.1 hrun
    rcases trimInternal_eq_ok hinner with ⟨none, -⟩ | ⟨entries', last, some, hloop, -⟩
    · cases htable.symm.trans none
    cases htable.symm.trans some
    exact ((hlooked _).trimUnits_iff htable).1 ⟨last, hloop⟩
  · intro hcomplete
    unfold PageMapping.trim PageMapping.trimInternal
    cases htable : s.table req.lpn with
    | none => exact ⟨_, rfl, .none (by simpa using htable) rfl rfl⟩
    | some entries =>
        obtain ⟨last, hloop⟩ := ((hlooked (.dramRead (if cfg.bRandomTweak then
          8 * req.ioFlag.count true else 8))).trimUnits_iff htable).2 (hcomplete entries htable)
        have hunmaps := (hlooked _).trimUnits_unmaps htable hloop (last.host.trim req.lpn)
        refine ⟨_, bind_eq_ok.2 ⟨_, bind_eq_ok.2 ⟨last, hloop, rfl⟩, rfl⟩, ?_⟩
        exact ⟨hunmaps.before, hunmaps.valid, hunmaps.dropped, hunmaps.others⟩

/-! ## The pages of a format -/

theorem Grounded.formatPage_total (h : Grounded cfg ∅ acc.1) (hcomplete : Complete cfg acc.1 lpn) :
    ∃ acc', PageMapping.formatPage cfg acc lpn = .ok acc' := by
  unfold PageMapping.formatPage
  split
  · exact ⟨acc, rfl⟩
  · rename_i entries htable
    obtain ⟨last, hloop⟩ := (h.trimUnits_iff htable).2 (hcomplete entries htable)
    rw [formatUnits_eq, hloop]
    exact ⟨_, rfl⟩

theorem Grounded.formatPage_unmaps (h : Grounded cfg ∅ acc.1)
    (run : PageMapping.formatPage cfg acc lpn = .ok acc') :
    Complete cfg acc.1 lpn ∧ Unmaps cfg (· = lpn) acc.1 acc'.1 := by
  rcases formatPage_eq_ok run with ⟨htable, rfl⟩ | ⟨entries, trimmed, htable, htrim, rfl⟩
  · refine ⟨fun entries hentries => ?_, .none (by simpa using htable) rfl rfl⟩
    cases htable.symm.trans hentries
  · refine ⟨fun found hfound => ?_, h.trimUnits_unmaps htable htrim _⟩
    cases Option.some.inj (htable.symm.trans hfound)
    exact (h.trimUnits_iff htable).1 ⟨trimmed, htrim⟩

/-- Between two pages of a format that began in `s`: those of `keys` that are not to come are
dropped. -/
structure Unmapping (cfg : Config) (keys : List Nat) (s : PageMapping) (rest : List Nat)
    (acc : PageMapping × List Nat) : Prop where
  members : ∀ lpn ∈ rest, lpn ∈ keys
  distinct : rest.Nodup
  grounded : Grounded cfg ∅ acc.1
  unmaps : Unmaps cfg (fun lpn => lpn ∈ keys ∧ lpn ∉ rest) s acc.1
  complete : ∀ lpn ∈ keys, lpn ∉ rest → Complete cfg s lpn

theorem Unmapping.complete_iff (h : Unmapping cfg keys s (lpn :: rest) acc) :
    Complete cfg acc.1 lpn ↔ Complete cfg s lpn := by
  unfold Complete
  rw [h.unmaps.others lpn fun hgone => hgone.2 List.mem_cons_self]

theorem Unmapping.step (grounded : Grounded cfg ∅ s) (h : Unmapping cfg keys s (lpn :: rest) acc)
    (run : formatPage cfg acc lpn = .ok acc') : Unmapping cfg keys s rest acc' := by
  obtain ⟨hnotin, hdistinct⟩ := List.nodup_cons.1 h.distinct
  have hlpn := h.members lpn List.mem_cons_self
  obtain ⟨hcomplete, hunmaps⟩ := h.grounded.formatPage_unmaps run
  refine ⟨fun other hmem => h.members other (List.mem_cons_of_mem lpn hmem), hdistinct,
    h.grounded.formatPage run, ?_, fun other hother hrest => ?_⟩
  · exact (h.unmaps.trans hunmaps grounded).congr fun other => gone_cons_iff hlpn other hnotin
  · by_cases heq : other = lpn
    · rw [heq]
      exact h.complete_iff.1 hcomplete
    · exact h.complete other hother (by simp [heq, hrest])

theorem Grounded.formatPages_iff (h : Grounded cfg ∅ s) (choices : Choices) (range : LPNRange) :
    (∃ acc, PageMapping.formatPages cfg choices range s = .ok acc ∧
      Unmaps cfg (· ∈ pagesIn range s) s acc.1) ↔
        ∀ lpn ∈ pagesIn range s, Complete cfg s lpn := by
  have hperm := choices.iterate_perm (pagesIn range s)
  have hfirst : Unmapping cfg (choices.iterate (pagesIn range s)) s
      (choices.iterate (pagesIn range s)) (s, []) := by
    refine ⟨fun _ => id, hperm.nodup_iff.2 (nodup_pagesIn range s), h, .none ?_ rfl rfl, ?_⟩
    · exact fun lpn hgone => absurd hgone.1 hgone.2
    · exact fun lpn hlpn hnot => absurd hlpn hnot
  constructor
  · rintro ⟨acc, hrun, -⟩ lpn hlpn
    have hlast := foldlM_invariant (Unmapping cfg (choices.iterate (pagesIn range s)) s)
      (fun _ _ _ _ hinv hstep => hinv.step h hstep) hrun hfirst
    exact hlast.complete lpn (hperm.mem_iff.2 hlpn) List.not_mem_nil
  · intro hcomplete
    have hdone := foldlM_progress (f := PageMapping.formatPage cfg)
      (Unmapping cfg (choices.iterate (pagesIn range s)) s)
      (fun lpn rest acc hinv => ?_) hfirst
    · obtain ⟨acc, hrun, hlast⟩ := hdone
      refine ⟨acc, hrun, hlast.unmaps.congr fun lpn => ?_⟩
      simp [hperm.mem_iff]
    · obtain ⟨acc', hstep⟩ := hinv.grounded.formatPage_total (hinv.complete_iff.2
        (hcomplete lpn (hperm.mem_iff.1 (hinv.members lpn List.mem_cons_self))))
      exact ⟨acc', hstep, hinv.step h hstep⟩

/-! ## Runs -/

/-- In every run a trim, and the trim phase of a format, completes and takes away exactly the
mapped units when no page it drops is mapped in part, and not otherwise. -/
theorem trim_completes {start : PageMapping} (hconstruct : construct cfg = .ok start)
    {steps : List (Step cfg)} (hrun : steps.foldlM Step.apply start = .ok s) :
    (∀ req tick, (∃ done, trim cfg req tick s = .ok done ∧ Unmaps cfg (· = req.lpn) s done.2) ↔
      Complete cfg s req.lpn) ∧
    ∀ choices range, (∃ acc, formatPages cfg choices range s = .ok acc ∧
      Unmaps cfg (· ∈ pagesIn range s) s acc.1) ↔
        ∀ lpn ∈ pagesIn range s, Complete cfg s lpn := by
  have grounded := run_grounded hconstruct hrun
  exact ⟨grounded.trim_iff, grounded.formatPages_iff⟩

theorem trim_completes_small : ∃ start s done, construct smallConfig = .ok start ∧
    [smallWrite 0].foldlM Step.apply start = .ok s ∧
      trim smallConfig (smallRequest 0 true true) 0 s = .ok done ∧
        Unmaps smallConfig (· = 0) s done.2 := by
  have hrun : (do
      let start ← construct smallConfig
      let s ← [smallWrite 0].foldlM Step.apply start
      .ok (decide (∀ entries ∈ s.table 0, ∀ idx < smallConfig.bitsetSize,
        smallConfig.live (entries idx) = true))) = (.ok true : Except Fault Bool) := by
    decide +kernel
  obtain ⟨start, hconstruct, hrun⟩ := bind_eq_ok.1 hrun
  obtain ⟨s, hsteps, hlive⟩ := bind_eq_ok.1 hrun
  have hlive := of_decide_eq_true (Except.ok.inj hlive)
  obtain ⟨done, hdone, hunmaps⟩ :=
    ((trim_completes hconstruct hsteps).1 (smallRequest 0 true true) 0).2 hlive
  exact ⟨start, s, done, hconstruct, hsteps, hdone, hunmaps⟩

/-- A page is written in part and then trimmed. -/
theorem partial_trim : ¬ ∀ (cfg : Config) (start s : PageMapping) (steps : List (Step cfg))
    (req : Request cfg) (tick : Tick), construct cfg = .ok start →
      steps.foldlM Step.apply start = .ok s → ∃ done, trim cfg req tick s = .ok done := by
  intro h
  have hrun : (do
      let start ← construct smallConfig
      let s ← [Step.call (.op (.write plainChoices (smallRequest 0 true false) 0))].foldlM
        Step.apply start
      .ok ((trim smallConfig (smallRequest 0 true true) 0 s).map fun _ => ())) =
      (.ok (.error (.panic "Block is not in use")) : Except Fault (Except Fault Unit)) := by
    decide +kernel
  obtain ⟨start, hconstruct, hrun⟩ := bind_eq_ok.1 hrun
  obtain ⟨s, hsteps, htrim⟩ := bind_eq_ok.1 hrun
  obtain ⟨done, hdone⟩ := h smallConfig start s _ (smallRequest 0 true true) 0 hconstruct hsteps
  have hfails := Except.ok.inj htrim
  rw [hdone] at hfails
  cases hfails

end SimpleSSD.FTL.PageMapping
