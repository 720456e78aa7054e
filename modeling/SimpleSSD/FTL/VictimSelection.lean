import SimpleSSD.FTL.ReadYourWrites

/-!
# Termination of the victim selection

The random policies draw until they have as many different candidates as were asked for.
-/

namespace SimpleSSD.FTL.PageMapping

open SimpleSSD.Foundation

variable {cfg : Config} {s s' : PageMapping} {tick tick' : Tick}

/-- Draws are within the distribution, and each value is drawn again and again.  Without a
candidate the distribution has every 64-bit number. -/
structure FairDraws (size : Nat) (draw : Nat → Nat) : Prop where
  bounded : ∀ i, draw i < if size = 0 then wordSize else size
  recurs : ∀ idx < size, ∀ m, ∃ i, m ≤ i ∧ draw i = idx

def drawsFrom (draw : Nat → Nat) (m n : Nat) : List Nat :=
  (List.range n).map fun i => draw (m + i)

theorem drawsFrom_succ (draw : Nat → Nat) (m n : Nat) :
    drawsFrom draw m (n + 1) = draw m :: drawsFrom draw (m + 1) n := by
  simp [drawsFrom, List.range_succ_eq_map, Function.comp_def, Nat.add_assoc, Nat.add_comm 1]

/-! ## Drawing -/

def remaining (weight : List (Option (Nat × ℚ))) : List (Nat × ℚ) := weight.filterMap id

theorem remaining_set {weight : List (Option (Nat × ℚ))} {idx : Nat} {candidate : Nat × ℚ}
    (h : weight[idx]? = some (some candidate)) :
    (remaining weight).Perm (candidate :: remaining (weight.set idx none)) := by
  induction weight generalizing idx with
  | nil => simp at h
  | cons first rest ih =>
      cases idx with
      | zero =>
          simp only [List.getElem?_cons_zero, Option.some.injEq] at h
          simp [remaining, h]
      | succ idx =>
          have tail := ih (by simpa using h)
          cases first with
          | none => simpa [remaining] using tail
          | some c =>
              simp only [remaining, List.set_cons_succ, List.filterMap_cons, id] at tail ⊢
              exact (tail.cons c).trans (.swap candidate c _)

theorem drawCandidates_perm {wanted : Nat} {draws : List Nat} {weight : List (Option (Nat × ℚ))}
    {selected : List (Nat × ℚ)} (h : drawCandidates wanted draws weight = .ok selected) :
    selected.length = wanted ∧ ∃ left, (selected ++ left).Perm (remaining weight) := by
  induction draws generalizing wanted weight selected with
  | nil =>
      cases wanted with
      | zero =>
          cases h
          exact ⟨rfl, _, .refl _⟩
      | succ wanted => cases h
  | cons idx draws ih =>
      cases wanted with
      | zero =>
          cases h
          exact ⟨rfl, _, .refl _⟩
      | succ wanted =>
          unfold drawCandidates at h
          split at h
          · cases h
          · exact ih h
          · rename_i drawn hdrawn
            obtain ⟨later, hlater, hcons⟩ := bind_eq_ok.1 h
            cases hcons
            obtain ⟨hlength, left, hperm⟩ := ih hlater
            exact ⟨by simp [hlength], left, (hperm.cons drawn).trans (remaining_set hdrawn).symm⟩

theorem drawCandidates_le {wanted : Nat} {draws : List Nat} {weight : List (Option (Nat × ℚ))}
    {selected : List (Nat × ℚ)} (h : drawCandidates wanted draws weight = .ok selected) :
    wanted ≤ (remaining weight).length := by
  obtain ⟨hlength, left, hperm⟩ := drawCandidates_perm h
  rw [← hperm.length_eq, List.length_append]
  omega

theorem drawCandidates_skip {wanted m skipped n : Nat} {draw : Nat → Nat}
    {weight : List (Option (Nat × ℚ))} (h : ∀ i < skipped, weight[draw (m + i)]? = some none) :
    drawCandidates (wanted + 1) (drawsFrom draw m (skipped + n)) weight =
      drawCandidates (wanted + 1) (drawsFrom draw (m + skipped) n) weight := by
  induction skipped generalizing m with
  | zero => simp
  | succ skipped ih =>
      have first := h 0 (by omega)
      rw [Nat.add_zero] at first
      rw [Nat.succ_add, drawsFrom_succ, drawCandidates, first]
      simp only
      rw [ih fun i hi => by simpa [Nat.add_assoc, Nat.add_comm 1] using h (i + 1) (by omega)]
      congr 2
      omega

theorem exists_unmarked {weight : List (Option (Nat × ℚ))} (h : 0 < (remaining weight).length) :
    ∃ (idx : Nat) (candidate : Nat × ℚ), weight[idx]? = some (some candidate) := by
  obtain ⟨candidate, hmem⟩ := List.exists_mem_of_length_pos h
  obtain ⟨entry, hmem, hentry⟩ := List.mem_filterMap.1 hmem
  obtain ⟨idx, hidx⟩ := List.mem_iff_getElem?.1 hmem
  exact ⟨idx, candidate, by rw [hidx, ← hentry, id]⟩

theorem drawCandidates_ends {wanted : Nat} {draw : Nat → Nat} {weight : List (Option (Nat × ℚ))}
    (fair : FairDraws weight.length draw) (enough : wanted ≤ (remaining weight).length)
    (m : Nat) : ∃ n selected, drawCandidates wanted (drawsFrom draw m n) weight = .ok selected := by
  induction wanted generalizing weight m with
  | zero => exact ⟨0, [], rfl⟩
  | succ wanted ih =>
      have unmarked : 0 < (remaining weight).length := by omega
      obtain ⟨idx, candidate, hidx⟩ := exists_unmarked unmarked
      obtain ⟨hlt, -⟩ := List.getElem?_eq_some_iff.1 hidx
      have meets : ∃ i, ∃ c, weight[draw (m + i)]? = some (some c) := by
        obtain ⟨i, hi, hdraw⟩ := fair.recurs idx hlt m
        exact ⟨i - m, candidate, by rw [Nat.add_sub_cancel' hi, hdraw, hidx]⟩
      -- the first draw of a candidate that is not marked
      classical
      obtain ⟨c, hc⟩ := Nat.find_spec meets
      have marked : ∀ i < Nat.find meets, weight[draw (m + i)]? = some none := by
        intro i hi
        have bounded := fair.bounded (m + i)
        rw [if_neg (by omega)] at bounded
        cases hentry : weight[draw (m + i)] with
        | none => rw [List.getElem?_eq_getElem bounded, hentry]
        | some c =>
            have seen : weight[draw (m + i)]? = some (some c) := by
              rw [List.getElem?_eq_getElem bounded, hentry]
            exact absurd ⟨c, seen⟩ (Nat.find_min meets hi)
      have fewer := (remaining_set hc).length_eq
      rw [List.length_cons] at fewer
      have fair' : FairDraws (weight.set (draw (m + Nat.find meets)) none).length draw := by
        rwa [List.length_set]
      obtain ⟨n, selected, hn⟩ := ih fair' (by omega) (m + Nat.find meets + 1)
      refine ⟨Nat.find meets + (n + 1), c :: selected, ?_⟩
      rw [drawCandidates_skip marked, drawsFrom_succ, drawCandidates, hc]
      simp only [hn]
      rfl

/-! ## Selection -/

def fullBlocks (cfg : Config) (s : PageMapping) : List Nat :=
  (s.blockKeys cfg).filter fun b =>
    (s.blocks b).any fun blk => blk.getNextWritePageIndex = cfg.param.pagesInBlock

def victimsWanted (cfg : Config) (s : PageMapping) (count : Nat) : Nat :=
  if s.bReclaimMore then add64 count cfg.param.pageCountToMaxPerf else count

def candidatesAsked (cfg : Config) (nBlocks : Nat) : Nat :=
  match cfg.policy with
  | .random => nBlocks
  | .dChoice => mul64 cfg.dChoiceParam nBlocks
  | _ => 0

def withDraws (choices : Choices) (draw : Nat → Nat) (n : Nat) : Choices :=
  { choices with draws := drawsFrom draw 0 n }

def weighed (cfg : Config) (tick : Tick) (s : PageMapping) (b : Nat) : Option (Nat × ℚ) :=
  match s.blocks b with
  | none => none
  | some blk =>
      if blk.getNextWritePageIndex = cfg.param.pagesInBlock then
        some (b, victimWeight cfg tick blk)
      else none

theorem weighed_map (keys : List Nat) :
    (keys.filterMap (weighed cfg tick s)).map Prod.fst = keys.filter fun b =>
      (s.blocks b).any fun blk => blk.getNextWritePageIndex = cfg.param.pagesInBlock := by
  induction keys with
  | nil => rfl
  | cons b rest ih =>
      cases hblk : s.blocks b with
      | none => simpa [weighed, hblk] using ih
      | some blk =>
          by_cases hfull : blk.getNextWritePageIndex = cfg.param.pagesInBlock
          · simpa [weighed, hblk, hfull] using ih
          · simpa [weighed, hblk, hfull] using ih

theorem calculateVictimWeight_eq (choices : Choices) (tick : Tick) (s : PageMapping)
    (policy : cfg.policy ≠ .other) :
    ∃ weight, calculateVictimWeight cfg choices tick s = .ok weight ∧
      (weight.map Prod.fst).Perm (fullBlocks cfg s) := by
  refine ⟨(choices.iterate (s.blockKeys cfg)).filterMap (weighed cfg tick s), if_neg policy, ?_⟩
  rw [weighed_map]
  exact (choices.iterate_perm _).filter _

theorem fullBlocks_nodup : (fullBlocks cfg s).Nodup :=
  (List.nodup_range.filter _).filter _

theorem remaining_map_some (weight : List (Nat × ℚ)) : remaining (weight.map some) = weight := by
  simp [remaining, List.filterMap_map]

theorem sampleVictims_ends (choices : Choices) {draw : Nat → Nat} {nBlocks : Nat}
    {weight : List (Nat × ℚ)} (fair : FairDraws weight.length draw) :
    (∃ n candidates, sampleVictims cfg (withDraws choices draw n) nBlocks weight = .ok candidates) ↔
      candidatesAsked cfg nBlocks ≤ weight.length := by
  have drawn : ∀ wanted, (∃ n selected,
      drawCandidates wanted (drawsFrom draw 0 n) (weight.map some) = .ok selected) ↔
        wanted ≤ weight.length := by
    intro wanted
    constructor
    · rintro ⟨n, selected, h⟩
      simpa [remaining_map_some] using drawCandidates_le h
    · intro enough
      refine drawCandidates_ends ?_ ?_ 0
      · simpa using fair
      · simpa [remaining_map_some] using enough
  cases hpolicy : cfg.policy with
  | random =>
      simp only [sampleVictims, candidatesAsked, hpolicy]
      exact drawn nBlocks
  | dChoice =>
      simp only [sampleVictims, candidatesAsked, hpolicy]
      exact drawn (mul64 cfg.dChoiceParam nBlocks)
  | greedy | costBenefit | other =>
      simp only [sampleVictims, candidatesAsked, hpolicy, Nat.zero_le, iff_true]
      exact ⟨0, weight, rfl⟩

theorem sampleVictims_perm {choices : Choices} {nBlocks : Nat}
    {weight candidates : List (Nat × ℚ)}
    (h : sampleVictims cfg choices nBlocks weight = .ok candidates) :
    ∃ left, (candidates ++ left).Perm weight := by
  have drawn : ∀ wanted, drawCandidates wanted choices.draws (weight.map some) = .ok candidates →
      ∃ left, (candidates ++ left).Perm weight := by
    intro wanted h
    obtain ⟨-, left, hperm⟩ := drawCandidates_perm h
    rw [remaining_map_some] at hperm
    exact ⟨left, hperm⟩
  unfold sampleVictims at h
  split at h
  · exact drawn _ h
  · exact drawn _ h
  · cases h
    exact ⟨[], by simp⟩

theorem selectVictimBlock_nodup {choices : Choices} {list : List Nat}
    (h : selectVictimBlock cfg choices tick s = .ok (list, tick', s')) : list.Nodup := by
  obtain ⟨count, -, h⟩ := bind_eq_ok.1 h
  obtain ⟨weight, hweight, h⟩ := bind_eq_ok.1 h
  obtain ⟨candidates, hcandidates, h⟩ := bind_eq_ok.1 h
  cases h
  have policy : cfg.policy ≠ .other := by
    intro other
    simp [calculateVictimWeight, other] at hweight
  obtain ⟨weight', hweight', hperm⟩ := calculateVictimWeight_eq choices tick _ policy
  cases hweight.symm.trans hweight'
  obtain ⟨left, hleft⟩ := sampleVictims_perm hcandidates
  have hnodup : (candidates.map Prod.fst).Nodup := by
    have all := (hperm.symm.trans (hleft.map Prod.fst).symm).nodup fullBlocks_nodup
    rw [List.map_append] at all
    exact (List.nodup_append.1 all).1
  have hsorted := ((List.perm_insertionSort (fun a b : Nat × ℚ => a.2 ≤ b.2)
    candidates).map Prod.fst).symm.nodup hnodup
  exact hsorted.sublist ((List.take_sublist _ _).map Prod.fst)

theorem asked_le_of_selected {choices : Choices} {draw : Nat → Nat} {n : Nat} {list : List Nat}
    (fair : FairDraws (fullBlocks cfg s).length draw)
    (h : selectVictimBlock cfg (withDraws choices draw n) tick s = .ok (list, tick', s')) :
    cfg.policy ≠ .other ∧ ∃ count, reclaimCount cfg s = .ok count ∧
      candidatesAsked cfg (victimsWanted cfg s count) ≤ (fullBlocks cfg s).length := by
  obtain ⟨count, hcount, h⟩ := bind_eq_ok.1 h
  obtain ⟨weight, hweight, h⟩ := bind_eq_ok.1 h
  obtain ⟨candidates, hcandidates, -⟩ := bind_eq_ok.1 h
  have policy : cfg.policy ≠ .other := by
    intro other
    simp [calculateVictimWeight, other] at hweight
  obtain ⟨weight', hweight', hperm⟩ := calculateVictimWeight_eq
    (withDraws choices draw n) tick { s with bReclaimMore := false } policy
  cases hweight.symm.trans hweight'
  have hlength : weight.length = (fullBlocks cfg s).length :=
    List.length_map Prod.fst ▸ hperm.length_eq
  rw [← hlength] at fair ⊢
  exact ⟨policy, count, hcount, (sampleVictims_ends choices fair).1 ⟨n, candidates, hcandidates⟩⟩

/-- The selection ends with different, fully written blocks exactly when mode and policy are
known and the random policies ask for no more candidates than there are full blocks. -/
theorem victims_selected_iff (choices : Choices) {draw : Nat → Nat} (tick : Tick)
    (fair : FairDraws (fullBlocks cfg s).length draw) :
    (∃ n list tick' s',
      selectVictimBlock cfg (withDraws choices draw n) tick s = .ok (list, tick', s') ∧
        list.Nodup ∧ ∀ b ∈ list, Full cfg s b) ↔
      cfg.policy ≠ .other ∧ ∃ count, reclaimCount cfg s = .ok count ∧
        candidatesAsked cfg (victimsWanted cfg s count) ≤ (fullBlocks cfg s).length := by
  constructor
  · rintro ⟨n, list, tick', s', h, -⟩
    exact asked_le_of_selected fair h
  · rintro ⟨policy, count, hcount, enough⟩
    obtain ⟨weight, hweight, hperm⟩ := calculateVictimWeight_eq choices tick
      { s with bReclaimMore := false } policy
    have hlength : weight.length = (fullBlocks cfg s).length :=
      List.length_map Prod.fst ▸ hperm.length_eq
    rw [← hlength] at fair enough
    obtain ⟨n, candidates, hcandidates⟩ := (sampleVictims_ends choices fair).2 enough
    obtain ⟨list, tick', s', hselect⟩ : ∃ list tick' s',
        selectVictimBlock cfg (withDraws choices draw n) tick s = .ok (list, tick', s') :=
      ⟨_, _, _, bind_eq_ok.2 ⟨count, hcount, bind_eq_ok.2 ⟨weight, hweight,
        bind_eq_ok.2 ⟨candidates, hcandidates, rfl⟩⟩⟩⟩
    exact ⟨n, list, tick', s', hselect, selectVictimBlock_nodup hselect,
      (selectVictimBlock_eq_ok hselect).1⟩

/-! ## Too few candidates -/

def beforeCollection (req : Request cfg) (tick : Tick) (s : PageMapping) :
    Except Fault (Tick × PageMapping) := do
  let start ← beginWrite cfg req tick true s
  (List.range cfg.bitsetSize).foldlM (writeStep cfg req true start)
    (tick, recorded cfg req start.2.2)

/-- One block is reclaimed at random, below three free blocks. -/
def sampledConfig : Config :=
  { smallConfig with
    policy := .random
    belowThreshold := fun n => decide (n < 3) }

def sampledRequest (lpn : Nat) : Request sampledConfig := ⟨lpn, [true, true], .inl rfl⟩

theorem sampled_triggered : ∃ s done,
    run sampledConfig plainChoices smallFilling
      [.write plainChoices (sampledRequest 1) 0] = .ok s ∧
    beforeCollection (sampledRequest 2) 1 s = .ok done ∧
    sampledConfig.belowThreshold done.2.nFreeBlocks = true ∧ done.2.bReclaimMore = true ∧
    (fullBlocks sampledConfig done.2).length = 1 := by
  have computed : (do
      let s ← run sampledConfig plainChoices smallFilling
        [.write plainChoices (sampledRequest 1) 0]
      let done ← beforeCollection (sampledRequest 2) 1 s
      .ok (sampledConfig.belowThreshold done.2.nFreeBlocks, done.2.bReclaimMore,
        (fullBlocks sampledConfig done.2).length)) = (.ok (true, true, 1) : Except Fault _) := by
    decide +kernel
  obtain ⟨s, hrun, computed⟩ := bind_eq_ok.1 computed
  obtain ⟨done, hdone, computed⟩ := bind_eq_ok.1 computed
  simp only [Except.ok.injEq, Prod.mk.injEq] at computed
  exact ⟨s, done, hrun, hdone, computed⟩

theorem fairDraws_one : FairDraws 1 fun _ => 0 := by
  constructor
  · simp
  · intro idx hidx m
    exact ⟨m, le_refl m, by omega⟩

theorem victims_selected_sampled : ∃ s, (fullBlocks sampledConfig s).length = 1 ∧
    ∃ n list tick' s',
      selectVictimBlock sampledConfig (withDraws plainChoices (fun _ => 0) n) 1 s =
        .ok (list, tick', s') ∧ list.Nodup ∧ ∀ b ∈ list, Full sampledConfig s b := by
  obtain ⟨-, done, -, -, -, -, hfull⟩ := sampled_triggered
  refine ⟨{ done.2 with bReclaimMore := false }, hfull,
    (victims_selected_iff plainChoices 1 (hfull ▸ fairDraws_one)).2 ⟨by decide, 1, rfl, ?_⟩⟩
  exact hfull.ge

/-- Two different candidates are asked for, and there is one. -/
theorem victims_endless : ∃ s done,
    run sampledConfig plainChoices smallFilling
      [.write plainChoices (sampledRequest 1) 0] = .ok s ∧
    beforeCollection (sampledRequest 2) 1 s = .ok done ∧
    sampledConfig.belowThreshold done.2.nFreeBlocks = true ∧
    FairDraws (fullBlocks sampledConfig done.2).length (fun _ => 0) ∧
    ∀ n list tick' s',
      selectVictimBlock sampledConfig (withDraws plainChoices (fun _ => 0) n) done.1 done.2 ≠
        .ok (list, tick', s') := by
  obtain ⟨s, done, hrun, hdone, hbelow, hmore, hfull⟩ := sampled_triggered
  have fair : FairDraws (fullBlocks sampledConfig done.2).length (fun _ => 0) :=
    hfull ▸ fairDraws_one
  refine ⟨s, done, hrun, hdone, hbelow, fair, fun n list tick' s' h => ?_⟩
  obtain ⟨-, count, hcount, enough⟩ := asked_le_of_selected fair h
  cases hcount
  rw [hfull, victimsWanted, hmore] at enough
  exact absurd enough (by decide)

end SimpleSSD.FTL.PageMapping
