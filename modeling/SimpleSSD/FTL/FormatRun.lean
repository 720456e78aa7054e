import Mathlib.Data.List.Dedup
import SimpleSSD.FTL.Formatting

/-!
# Runs with formats

A format returns and keeps what is outside its range when every page it drops is mapped as a
whole, none of their blocks is open, and the pages left in these blocks can be copied.
-/

namespace SimpleSSD.FTL.PageMapping

open SimpleSSD.Foundation Supply

variable {cfg : Config} {s s' : PageMapping} {range : LPNRange} {choices : Choices}
  {lpn unit : Nat} {tick : Tick} {list keys : List Nat}

/-- The pages of the range, without the wrap of the code's range test. -/
def Within (range : LPNRange) (lpn : Nat) : Prop :=
  range.slpn ≤ lpn ∧ lpn < range.slpn + range.nlp

instance (range : LPNRange) (lpn : Nat) : Decidable (Within range lpn) :=
  inferInstanceAs (Decidable (_ ∧ _))

def formatted (cfg : Config) (range : LPNRange) (s : PageMapping) : List Nat :=
  (((pagesIn range s).flatMap (blocksOf cfg s)).insertionSort (· ≤ ·)).dedup

def survives (range : LPNRange) (s : PageMapping) (b page unit : Nat) : Bool :=
  (s.ownerWithout range.Contains (b, page, unit)).isSome

structure Formattable (cfg : Config) (range : LPNRange) (s : PageMapping) : Prop where
  bounded : range.slpn + range.nlp < wordSize ∨ ∀ lpn, s.table lpn ≠ none → ¬ Within range lpn
  whole : ∀ lpn ∈ pagesIn range s, Whole cfg s lpn
  slots : SlotsInUse s
  spared : ∀ b ∈ formatted cfg range s, b ∉ s.lastFreeBlock
  covered : ∃ q, takeAll cfg (copies cfg (survives range s) (formatted cfg range s)) s.supply =
    some q ∧ Reinserts cfg (formatted cfg range s) s q

theorem mem_pagesIn : lpn ∈ pagesIn range s ↔ range.Contains lpn ∧ (s.table lpn).isSome := by
  unfold pagesIn LPNRange.Contains
  rw [List.mem_filter, List.mem_range'_1]
  refine and_congr_left fun _ => ?_
  omega

theorem nodup_pagesIn (range : LPNRange) (s : PageMapping) : (pagesIn range s).Nodup :=
  (List.nodup_range' ..).filter _

theorem Formattable.contains_iff (h : Formattable cfg range s) (hmapped : s.table lpn ≠ none) :
    range.Contains lpn ↔ Within range lpn := by
  unfold LPNRange.Contains Within
  rcases h.bounded with hbound | hnone
  · rw [add64_of_lt hbound]
  · have hnot := hnone lpn hmapped
    unfold Within at hnot
    have hle : add64 range.slpn range.nlp ≤ range.slpn + range.nlp := Nat.mod_le _ _
    omega

theorem formatted_eq (hperm : keys.Perm (pagesIn range s)) :
    ((keys.flatMap (blocksOf cfg s)).insertionSort (· ≤ ·)).dedup = formatted cfg range s := by
  have hlists := hperm.flatMap_right (blocksOf cfg s)
  have hsorted := ((List.perm_insertionSort (· ≤ ·) _).trans hlists).trans
    (List.perm_insertionSort (· ≤ ·) _).symm
  unfold formatted
  rw [hsorted.eq_of_sortedLE (List.sortedLE_insertionSort ..) (List.sortedLE_insertionSort ..)]

theorem mem_formatted {b : Nat} :
    b ∈ formatted cfg range s ↔ ∃ lpn ∈ pagesIn range s, b ∈ blocksOf cfg s lpn := by
  unfold formatted
  rw [List.mem_dedup, List.mem_insertionSort, List.mem_flatMap]

theorem formatPages_total (h : Disciplined cfg s) (whole : ∀ lpn ∈ pagesIn range s, Whole cfg s lpn)
    (choices : Choices) :
    ∃ acc, formatPages cfg choices range s = .ok acc ∧
      Dropping cfg (choices.iterate (pagesIn range s)) s [] acc := by
  have hperm := choices.iterate_perm (pagesIn range s)
  refine foldlM_progress (f := formatPage cfg)
    (Dropping cfg (choices.iterate (pagesIn range s)) s)
    (fun lpn rest acc hinv => hinv.step
      (fun other hmem => whole other (hperm.mem_iff.1 hmem)) fun other hmem => ?_)
    (.start h (hperm.nodup_iff.2 (nodup_pagesIn range s)))
  exact Option.isSome_iff_ne_none.1 (mem_pagesIn.1 (hperm.mem_iff.1 hmem)).2

theorem gone_iff (hperm : keys.Perm (pagesIn range s)) (hmapped : s.table lpn ≠ none) :
    lpn ∈ keys ∧ lpn ∉ [] ↔ range.Contains lpn := by
  rw [hperm.mem_iff, mem_pagesIn]
  simp [Option.isSome_iff_ne_none, hmapped]

/-! ## One format -/

def collected (cfg : Config) (choices : Choices) (range : LPNRange) (s : PageMapping) :
    List (PageMapping × List Nat) :=
  match formatPages cfg choices range s with
  | .error _ => []
  | .ok acc => [(acc.1, (acc.2.insertionSort (· ≤ ·)).dedup)]

def formatErasures (cfg : Config) (choices : Choices) (range : LPNRange) (tick : Tick)
    (s : PageMapping) : List (Nat × List Nat) :=
  (collected cfg choices range s).flatMap fun gc =>
    (eraseCalls cfg gc.2 tick gc.1).map fun erase => (erase.2, erase.1.2.lastFreeBlock)

def formatTargets (cfg : Config) (choices : Choices) (range : LPNRange) (tick : Tick)
    (s : PageMapping) : List Nat :=
  (collected cfg choices range s).flatMap fun gc => copyTargets cfg gc.2 tick gc.1

/-- The state between the two halves of a format, with what its collection needs. -/
structure Dropped (cfg : Config) (range : LPNRange) (s t : PageMapping) (list : List Nat) :
    Prop where
  orderly : Orderly cfg t
  sparing : Sparing list t
  distinct : list.Nodup
  covered : ∃ q, takeAll cfg (copies cfg t.validOf list) t.supply = some q ∧ Reinserts cfg list t q
  table : ∀ lpn, (t.table lpn).isSome = ((s.table lpn).isSome && !decide (Within range lpn))
  version : ∀ lpn, ¬ Within range lpn → ∀ unit < cfg.param.ioUnitInPage,
    version cfg t lpn unit = version cfg s lpn unit

theorem validOf_eq_isSome (s : PageMapping) (b page unit : Nat) :
    s.validOf b page unit = (s.owner (b, page, unit)).isSome := by
  unfold validOf owner
  cases s.blocks b with
  | none => rfl
  | some blk => cases hvalid : blk.validBits page unit <;> simp [hvalid]

section

variable {t : PageMapping} {acc : PageMapping × List Nat}

theorem Dropping.owner_eq (hdrop : Dropping cfg keys s [] acc) (horderly : Orderly cfg s)
    (hperm : keys.Perm (pagesIn range s)) (p : Nat × Nat × Nat) :
    acc.1.owner p = s.ownerWithout range.Contains p := by
  rw [hdrop.owner]
  unfold ownerWithout
  cases howner : s.owner p with
  | none => rfl
  | some l =>
      obtain ⟨hplace, -⟩ := horderly.disciplined.intact.consistent.placed l p howner
      obtain ⟨entries, hentries, -⟩ := place_inv hplace
      have hmapped : s.table l.1 ≠ none := by simp [hentries]
      simp only [Option.filter_some, gone_iff hperm hmapped]

theorem Dropping.table_isSome (hdrop : Dropping cfg keys s [] acc)
    (hperm : keys.Perm (pagesIn range s)) (h : Formattable cfg range s) (lpn : Nat) :
    (acc.1.table lpn).isSome = ((s.table lpn).isSome && !decide (Within range lpn)) := by
  rw [hdrop.table]
  cases hmapped : s.table lpn with
  | none => simp
  | some entries =>
      have hsome : s.table lpn ≠ none := by simp [hmapped]
      simp only [gone_iff hperm hsome, h.contains_iff hsome]
      by_cases hwithin : Within range lpn <;> simp [hwithin]

theorem version_of_unmapped (hnone : s.table lpn = none) (unit : Nat) :
    version cfg s lpn unit = none := by
  simp [version, place, hnone]

theorem Dropping.version_eq (hdrop : Dropping cfg keys s [] acc) (horderly : Orderly cfg s)
    (hperm : keys.Perm (pagesIn range s)) (h : Formattable cfg range s)
    (hnot : ¬ Within range lpn) (hunit : unit < cfg.param.ioUnitInPage) :
    version cfg acc.1 lpn unit = version cfg s lpn unit := by
  by_cases hmapped : s.table lpn = none
  · have hnone : acc.1.table lpn = none := by
      rw [hdrop.table, hmapped, ite_self]
    rw [version_of_unmapped hmapped, version_of_unmapped hnone]
  · have hkept : ¬ (lpn ∈ keys ∧ lpn ∉ []) := by
      rwa [gone_iff hperm hmapped, h.contains_iff hmapped]
    obtain ⟨hwritten, hlatest⟩ := hdrop.host lpn hkept
    rw [hdrop.disciplined.intact.version_eq hunit,
      horderly.disciplined.intact.version_eq hunit, hwritten, hlatest]

end

theorem Formattable.dropped (h : Formattable cfg range s) (horderly : Orderly cfg s)
    (choices : Choices) :
    ∃ t list, formatPages cfg choices range s = .ok (t, list) ∧
      Dropped cfg range s t (list.insertionSort (· ≤ ·)).dedup := by
  obtain ⟨⟨t, list⟩, hrun, hdrop⟩ := formatPages_total horderly.disciplined h.whole choices
  have hperm := choices.iterate_perm (pagesIn range s)
  have hlist : (list.insertionSort (· ≤ ·)).dedup = formatted cfg range s := by
    have hlisted := hdrop.listed
    rw [List.flatMap_nil, List.append_nil] at hlisted
    rw [show list = _ from hlisted, formatted_eq hperm]
  refine ⟨t, list, hrun, ?_⟩
  rw [hlist]
  have hslots : OpenSlots t.lastFreeBlock t := by
    rw [hdrop.inside.lastFreeBlock]
    exact (horderly.openSlots h.slots).same hdrop.inside.toSameSlots
  have hused : ∀ b ∈ formatted cfg range s, t.blocks b ≠ none := by
    intro b hb hnone
    obtain ⟨lpn, hlpn, hblock⟩ := mem_formatted.1 hb
    unfold blocksOf at hblock
    split at hblock
    · cases hblock
    · rename_i entries hentries
      obtain ⟨idx, hidx, rfl⟩ := List.mem_map.1 hblock
      have hleads := h.whole lpn hlpn entries hentries idx (List.mem_range.1 hidx)
      obtain ⟨blk, hblk, -⟩ := (hdrop.shape.leads _).2 hleads
      cases hblk.symm.trans hnone
  have hvalid : t.validOf = survives range s := by
    funext b page unit
    rw [validOf_eq_isSome, hdrop.owner_eq horderly hperm]
    rfl
  exact
    { orderly := ⟨hdrop.disciplined, horderly.stocking.inside hdrop.inside⟩
      sparing := ⟨hslots, by rw [hdrop.inside.lastFreeBlock]; exact h.spared, hused⟩
      distinct := List.nodup_dedup _
      covered := by
        obtain ⟨q, hcovered, hreinserts⟩ := h.covered
        rw [hdrop.supply, hvalid]
        exact ⟨q, hcovered, hreinserts.imp_right fun worn b hb =>
          opens_worn.quiet (formatPages_quiet hrun) (worn b hb)⟩
      table := hdrop.table_isSome hperm h
      version := fun lpn hnot unit hunit => hdrop.version_eq horderly hperm h hnot hunit }

/-! ## Runs -/

inductive Step (cfg : Config) where
  | call (call : Call cfg)
  | format (choices : Choices) (range : LPNRange) (tick : Tick)

namespace Step

def apply (s : PageMapping) : Step cfg → Except Fault PageMapping
  | .call request => request.apply s
  | .format choices range tick => do
      let done ← PageMapping.format cfg choices range tick s
      .ok done.2

def Fits (s : PageMapping) : Step cfg → Prop
  | .call _ => True
  | .format _ range _ => Formattable cfg range s

end Step

/-- Reads return what the host last wrote, and writes return when they are covered. -/
structure Works (cfg : Config) (s : PageMapping) : Prop where
  reads : ∀ req tick, ∃ done, read cfg req tick s = .ok done
  current : ∀ lpn entries, s.table lpn = some entries → ∀ unit < cfg.param.ioUnitInPage,
    fetch cfg (entries (cfg.slotOf unit)) unit s = s.host.latest lpn unit
  writes : ∀ choices req tick, Writable cfg choices req tick s →
    ∃ done, write cfg choices req tick s = .ok done

/-- A format returns, erases no block that is open or copied to, drops the pages of its range
and no other, and leaves a state in which requests are served for as long as formats meet
their condition. -/
structure FormatKeeps (cfg : Config) (choices : Choices) (range : LPNRange) (tick : Tick)
    (s : PageMapping) : Prop where
  spares : ∀ erasure ∈ formatErasures cfg choices range tick s,
    erasure.1 ∉ erasure.2 ∧ erasure.1 ∉ formatTargets cfg choices range tick s
  returns : ∃ done s', format cfg choices range tick s = .ok (done, s') ∧
    (∀ lpn, (s'.table lpn).isSome = ((s.table lpn).isSome && !decide (Within range lpn))) ∧
    (∀ lpn, ¬ Within range lpn → ∀ unit < cfg.param.ioUnitInPage,
      version cfg s' lpn unit = version cfg s lpn unit) ∧
    SlotsInUse s' ∧
    ∀ (steps : List (Step cfg)) (t : PageMapping), steps.foldlM Step.apply s' = .ok t →
      (∀ v ∈ visits Step.apply steps s', v.2.Fits v.1) → Works cfg t

theorem eraseCalls_mem {call : (Tick × PageMapping) × Nat}
    (h : call ∈ eraseCalls cfg list tick s) : call.2 ∈ list := by
  unfold eraseCalls at h
  split at h
  · cases h
  · exact (visits_invariant_mem (fun _ => True) (fun _ _ _ _ _ _ => trivial) trivial call h).1

theorem Orderly.works (h : Orderly cfg s) (hunits : 2 ≤ cfg.param.ioUnitInPage) : Works cfg s where
  reads req tick := h.disciplined.read_total (by omega) req tick
  current _ _ hentries _ hunit := h.disciplined.intact.fetch_eq hentries hunit
  writes _ _ _ hwritable := h.write_total hunits hwritable

theorem Dropped.full {t : PageMapping} (h : Dropped cfg range s t list) :
    ∀ b ∈ list, Full cfg t b := fun b hb =>
  (h.orderly.stocking.1.closed b (h.sparing.inUse b hb)).resolve_left (h.sparing.spared b hb)

theorem Dropped.collected {t : PageMapping} (h : Dropped cfg range s t list)
    (hunits : 2 ≤ cfg.param.ioUnitInPage) (tick : Tick) :
    ∃ done s', doGarbageCollection cfg list tick t = .ok (done, s') ∧ Orderly cfg s' ∧
      SlotsInUse s' ∧ SameDomain t s' ∧ ∀ lpn, ∀ unit < cfg.param.ioUnitInPage,
        PageMapping.version cfg s' lpn unit = PageMapping.version cfg t lpn unit := by
  obtain ⟨⟨done, s'⟩, hgc⟩ := doGarbageCollection_total h.orderly.disciplined h.sparing
    h.orderly.stocking hunits h.distinct h.covered tick
  have hbefore := h.orderly.disciplined
  obtain ⟨hintact, hhost⟩ := hbefore.intact.doGarbageCollection h.full hunits hgc
  have hsequential := Sequential.doGarbageCollection hbefore.intact hbefore.sequential h.full
    hunits hgc
  have hslots := doGarbageCollection_slots h.sparing hgc
  refine ⟨done, s', hgc, ⟨⟨hintact, hsequential⟩, h.orderly.stocking.doGarbageCollection hgc⟩,
    ⟨hslots.inUse, hslots.distinct⟩, doGarbageCollection_domain hgc, fun lpn unit hunit => ?_⟩
  rw [hintact.version_eq hunit, hbefore.intact.version_eq hunit, hhost]

theorem Formattable.format_total (h : Formattable cfg range s) (horderly : Orderly cfg s)
    (hunits : 2 ≤ cfg.param.ioUnitInPage) (choices : Choices) (tick : Tick) :
    ∃ done s', format cfg choices range tick s = .ok (done, s') ∧ Orderly cfg s' ∧
      SlotsInUse s' ∧
      (∀ lpn, (s'.table lpn).isSome = ((s.table lpn).isSome && !decide (Within range lpn))) ∧
      ∀ lpn, ¬ Within range lpn → ∀ unit < cfg.param.ioUnitInPage,
        version cfg s' lpn unit = version cfg s lpn unit := by
  obtain ⟨t, list, hpages, hdropped⟩ := h.dropped horderly choices
  obtain ⟨done, s', hgc, hafter, hslots, hdomain, hversion⟩ := hdropped.collected hunits tick
  refine ⟨_, s', bind_eq_ok.2 ⟨_, hpages, bind_eq_ok.2 ⟨_, hgc, rfl⟩⟩, hafter, hslots,
    fun lpn => (hdomain lpn).trans (hdropped.table lpn), fun lpn hnot unit hunit => ?_⟩
  exact (hversion lpn unit hunit).trans (hdropped.version lpn hnot unit hunit)

theorem Step.orderly {step : Step cfg} (h : Orderly cfg s) (hunits : 2 ≤ cfg.param.ioUnitInPage)
    (hfits : step.Fits s) (run : step.apply s = .ok s') : Orderly cfg s' := by
  cases step with
  | call request => exact h.apply hunits run
  | format choices range tick =>
      obtain ⟨done, t, hformat, hafter, -⟩ :=
        Formattable.format_total hfits h hunits choices tick
      obtain ⟨⟨done', t'⟩, hdone, hpair⟩ := bind_eq_ok.1 run
      cases hpair
      cases hdone.symm.trans hformat
      exact hafter

theorem run_orderly {steps : List (Step cfg)} (h : Orderly cfg s)
    (hunits : 2 ≤ cfg.param.ioUnitInPage) (run : steps.foldlM Step.apply s = .ok s')
    (hfits : ∀ v ∈ visits Step.apply steps s, v.2.Fits v.1) : Orderly cfg s' := by
  induction steps generalizing s with
  | nil =>
      cases run
      exact h
  | cons step steps ih =>
      rw [List.foldlM_cons, bind_eq_ok] at run
      obtain ⟨mid, hfirst, hrest⟩ := run
      simp only [visits, hfirst, List.forall_mem_cons] at hfits
      exact ih (step.orderly h hunits hfits.1 hfirst) hrest hfits.2

/-- In every run whose formats meet the condition, a format that meets it keeps the rest. -/
theorem format_keeps (hunits : 2 ≤ cfg.param.ioUnitInPage) :
    ∀ start, construct cfg = .ok start →
      ∀ (steps : List (Step cfg)) (s : PageMapping), steps.foldlM Step.apply start = .ok s →
        (∀ v ∈ visits Step.apply steps start, v.2.Fits v.1) →
          ∀ choices range tick, Formattable cfg range s →
            FormatKeeps cfg choices range tick s := by
  intro start hconstruct steps s hsteps hfits choices range tick h
  have horderly := run_orderly (construct_orderly hconstruct) hunits hsteps hfits
  constructor
  · obtain ⟨t, list, hpages, hdropped⟩ := h.dropped horderly choices
    intro erasure herasure
    simp only [formatErasures, formatTargets, collected, hpages, List.flatMap_cons,
      List.flatMap_nil, List.append_nil] at herasure ⊢
    obtain ⟨erase, herase, rfl⟩ := List.mem_map.1 herasure
    refine ⟨eraseCalls_spared hdropped.sparing erase herase, fun htarget => ?_⟩
    exact copyTargets_spared hdropped.orderly.disciplined hdropped.full hunits _ htarget
      (eraseCalls_mem herase)
  · obtain ⟨done, s', hformat, hafter, hslots, htable, hversion⟩ :=
      h.format_total horderly hunits choices tick
    exact ⟨done, s', hformat, htable, hversion, hslots, fun later t hlater hfit =>
      (run_orderly hafter hunits hlater hfit).works hunits⟩

/-! ## An open block is formatted -/

instance (s : PageMapping) (entry : Nat × Nat) : Decidable (Leads s entry) :=
  match hblk : s.blocks entry.1 with
  | none => isFalse fun ⟨_, hsome, _⟩ => Option.some_ne_none _ (hsome.symm.trans hblk)
  | some blk =>
      if hpage : entry.2 < blk.pageCount then isTrue ⟨blk, hblk, hpage⟩
      else isFalse fun ⟨_, hsome, hlt⟩ =>
        hpage (Option.some.inj (hblk.symm.trans hsome) ▸ hlt)

instance (s : PageMapping) (lpn : Nat) : Decidable (Whole cfg s lpn) :=
  match htable : s.table lpn with
  | none => isTrue fun _ hsome => absurd (htable.symm.trans hsome) (Option.some_ne_none _).symm
  | some entries =>
      if hall : ∀ idx < cfg.bitsetSize, Leads s (entries idx) then
        isTrue fun _ hsome => Option.some.inj (htable.symm.trans hsome) ▸ hall
      else isFalse fun h => hall (h entries htable)

instance (s : PageMapping) : Decidable (SlotsInUse s) :=
  inferInstanceAs (Decidable (_ ∧ _))

def smallWrite (lpn : Nat) : Step smallConfig :=
  .call (.op (.write plainChoices (smallRequest lpn true true) 0))

/-- The block of the page is full and no longer open, and its other page is copied. -/
theorem format_keeps_small : ∃ start s, construct smallConfig = .ok start ∧
    [smallWrite 0, smallWrite 1, smallWrite 2].foldlM Step.apply start = .ok s ∧
      FormatKeeps smallConfig plainChoices ⟨0, 1⟩ 9 s := by
  have hrun : (do
      let start ← construct smallConfig
      let s ← [smallWrite 0, smallWrite 1, smallWrite 2].foldlM Step.apply start
      .ok (decide ((∀ lpn ∈ pagesIn ⟨0, 1⟩ s, Whole smallConfig s lpn) ∧ SlotsInUse s ∧
        (∀ b ∈ formatted smallConfig ⟨0, 1⟩ s, b ∉ s.lastFreeBlock) ∧
        (takeAll smallConfig (copies smallConfig (survives ⟨0, 1⟩ s)
          (formatted smallConfig ⟨0, 1⟩ s)) s.supply).any (fun q => q.free ≠ 0) = true))) =
        (.ok true : Except Fault Bool) := by
    decide +kernel
  obtain ⟨start, hconstruct, hrun⟩ := bind_eq_ok.1 hrun
  obtain ⟨s, hsteps, hdecide⟩ := bind_eq_ok.1 hrun
  obtain ⟨hwhole, hslots, hspared, hcovered⟩ := of_decide_eq_true (Except.ok.inj hdecide)
  obtain ⟨q, hq, hfree⟩ := (Option.any_eq_true _ _).1 hcovered
  refine ⟨start, s, hconstruct, hsteps, format_keeps (by decide) start hconstruct _ s hsteps
    (fun v hv => ?_) plainChoices ⟨0, 1⟩ 9
    ⟨.inl (by decide), hwhole, hslots, hspared, q, hq, .inl (by simpa using hfree)⟩⟩
  obtain ⟨hmem, -⟩ := visits_invariant_mem (fun _ => True) (fun _ _ _ _ _ _ => trivial) trivial v hv
  simp only [List.mem_cons, List.not_mem_nil, or_false] at hmem
  rcases hmem with heq | heq | heq
  all_goals
    rw [heq]
    exact trivial

/-- The block that the first page was written to is erased while it is open. -/
theorem format_erases_open : ¬ ∀ cfg : Config, 2 ≤ cfg.param.ioUnitInPage →
    ∀ start, construct cfg = .ok start →
      ∀ (steps : List (Step cfg)) (s : PageMapping), steps.foldlM Step.apply start = .ok s →
        ∀ choices range tick, FormatKeeps cfg choices range tick s := by
  intro held
  have hrun : (do
      let start ← construct smallConfig
      let s ← [smallWrite 0].foldlM Step.apply start
      .ok (decide (∀ erasure ∈ formatErasures smallConfig plainChoices ⟨0, 1⟩ 9 s,
        erasure.1 ∉ erasure.2))) = (.ok false : Except Fault Bool) := by
    decide +kernel
  obtain ⟨start, hconstruct, hrun⟩ := bind_eq_ok.1 hrun
  obtain ⟨s, hsteps, hdecide⟩ := bind_eq_ok.1 hrun
  have hkeeps := held smallConfig (by decide) start hconstruct _ s hsteps plainChoices ⟨0, 1⟩ 9
  exact of_decide_eq_false (Except.ok.inj hdecide) fun erasure hmem =>
    (hkeeps.spares erasure hmem).1

/-- The next write ends in a panic. -/
example : (do
    let start ← construct smallConfig
    let s ← [smallWrite 0, .format plainChoices ⟨0, 1⟩ 9, smallWrite 0].foldlM Step.apply start
    .ok s.nFreeBlocks) = (.error (.panic "Corrupted") : Except Fault Nat) := by
  decide +kernel

end SimpleSSD.FTL.PageMapping
