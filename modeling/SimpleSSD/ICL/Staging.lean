import SimpleSSD.Foundation.Fallible
import SimpleSSD.ICL.GenericCache

/-!
# Dirty lines and the staging array

What the functions of the cache do to a line that is dirty for some page: it
stays dirty for that page, or the flash has been sent the unit of that page.
-/

namespace SimpleSSD.ICL.GenericCache

open SimpleSSD.Foundation

variable {cfg : Config} {s s' s'' : GenericCache} {p q : Nat × Nat} {cell : Nat × Nat}
  {tick : Tick} {lca tag : Nat} {l : Line} {a b : Option (Nat × Nat)} {flush : Bool}

/-- The line holds data of the page that the flash does not have. -/
def Dirty (s : GenericCache) (p : Nat × Nat) (tag : Nat) : Prop :=
  (s.line p).valid = true ∧ (s.line p).dirty = true ∧ (s.line p).tag = tag

def WrittenBack (cfg : Config) (issued : List Access) (tag : Nat) : Prop :=
  ∃ req, .ftlWrite req ∈ issued ∧ req.lpn = tag / cfg.lineCountInSuperPage ∧
    req.ioFlag.getD (tag % cfg.lineCountInSuperPage) false = true

/-- A line that was dirty for a page is so still, or the page has been written
back on the way. -/
def Saves (cfg : Config) (s s' : GenericCache) : Prop :=
  ∃ issued, s'.accesses = issued ++ s.accesses ∧
    ∀ p tag, Dirty s p tag → Dirty s' p tag ∨ WrittenBack cfg issued tag

theorem Saves.refl (s : GenericCache) : Saves cfg s s :=
  ⟨[], rfl, fun _ _ h => .inl h⟩

theorem WrittenBack.mono {issued more : List Access} (h : WrittenBack cfg issued tag)
    (hsub : issued ⊆ more) : WrittenBack cfg more tag := by
  obtain ⟨req, hmem, hlpn, hflag⟩ := h
  exact ⟨req, hsub hmem, hlpn, hflag⟩

theorem Saves.trans (h : Saves cfg s s') (h' : Saves cfg s' s'') : Saves cfg s s'' := by
  obtain ⟨issued, haccesses, hlines⟩ := h
  obtain ⟨later, haccesses', hlines'⟩ := h'
  refine ⟨later ++ issued, by rw [haccesses', haccesses, List.append_assoc], fun p tag hd => ?_⟩
  rcases hlines p tag hd with hd' | hw
  · rcases hlines' p tag hd' with hd'' | hw'
    · exact .inl hd''
    · exact .inr (hw'.mono (List.subset_append_left _ _))
  · exact .inr (hw.mono (List.subset_append_right _ _))

/-! ## Lines -/

theorem line_setLine (p q : Nat × Nat) (l : Line) (s : GenericCache) :
    (s.setLine p l).line q = if q = p then l else s.line q := by
  obtain ⟨set, way⟩ := p
  obtain ⟨set', way'⟩ := q
  unfold line setLine
  by_cases hset : set' = set
  · subst hset
    by_cases hway : way' = way
    · simp [hway]
    · simp [hway]
  · simp [hset]

theorem evictData_setEvict (cell cell' : Nat × Nat) (p : Option (Nat × Nat))
    (s : GenericCache) :
    (s.setEvict cell p).evictData cell'.1 cell'.2 =
      if cell' = cell then p else s.evictData cell'.1 cell'.2 := by
  obtain ⟨row, col⟩ := cell
  obtain ⟨row', col'⟩ := cell'
  unfold setEvict
  by_cases hrow : row' = row
  · subst hrow
    by_cases hcol : col' = col
    · simp [hcol]
    · simp [hcol]
  · simp [hrow]

structure SameLines (s s' : GenericCache) : Prop where
  cacheData : s'.cacheData = s.cacheData
  accesses : s'.accesses = s.accesses

theorem SameLines.trans (h : SameLines s s') (h' : SameLines s' s'') : SameLines s s'' :=
  ⟨h'.cacheData.trans h.cacheData, h'.accesses.trans h.accesses⟩

theorem SameLines.line (h : SameLines s s') (p : Nat × Nat) : s'.line p = s.line p := by
  simp only [GenericCache.line, h.cacheData]

theorem SameLines.dirty (h : SameLines s s') : Dirty s' p tag ↔ Dirty s p tag := by
  simp only [Dirty, h.line]

theorem SameLines.saves (h : SameLines s s') : Saves cfg s s' :=
  ⟨[], h.accesses, fun _ _ hd => .inl (h.dirty.2 hd)⟩

theorem saves_access (a : Access) (s : GenericCache) :
    Saves cfg s { s with accesses := a :: s.accesses } :=
  ⟨[a], rfl, fun _ _ hd => .inl hd⟩

theorem saves_setLine (h : ((s.line p).valid && (s.line p).dirty) = false) :
    Saves cfg s (s.setLine p l) := by
  refine ⟨[], rfl, fun q tag hd => .inl ?_⟩
  have hne : q ≠ p := by
    rintro rfl
    rw [hd.1, hd.2.1] at h
    cases h
  simpa only [Dirty, line_setLine, if_neg hne] using hd

theorem getD_unitFlag {row : Nat} (h : row < cfg.lineCountInSuperPage) :
    (cfg.unitFlag row).getD row false = true := by
  simp [Config.unitFlag, List.getD_eq_getElem?_getD, h]

theorem writtenBack_reqInternal (h : 0 < cfg.lineCountInSuperPage) {issued : List Access}
    (hmem : .ftlWrite (cfg.reqInternal tag) ∈ issued) : WrittenBack cfg issued tag :=
  ⟨_, hmem, rfl, getD_unitFlag (Nat.mod_lt _ h)⟩

theorem lineCountInSuperPage_pos (cfg : Config) : 0 < cfg.lineCountInSuperPage := by
  have := cfg.ioUnitInPage_pos
  unfold Config.lineCountInSuperPage
  split <;> omega

/-! ## Positions -/

theorem calcIOPosition_row (cfg : Config) (lca : Nat) :
    (cfg.calcIOPosition lca).1 = lca % cfg.lineCountInSuperPage :=
  Nat.mod_mul_left_mod lca cfg.parallelIO cfg.lineCountInSuperPage

theorem calcIOPosition_col_lt (cfg : Config) (lca : Nat) :
    (cfg.calcIOPosition lca).2 < cfg.parallelIO := by
  unfold Config.calcIOPosition
  refine Nat.div_lt_of_lt_mul ?_
  rw [Nat.mul_comm]
  exact Nat.mod_lt _ (Nat.mul_pos cfg.parallelIO_pos (lineCountInSuperPage_pos cfg))

/-- Staged lines stand in the array, a dirty one in the row of its unit. -/
def Staged (cfg : Config) (s : GenericCache) : Prop :=
  ∀ (cell : Nat × Nat) (p : Nat × Nat), s.evictData cell.1 cell.2 = some p →
    cell.1 < cfg.lineCountInSuperPage ∧ cell.2 < cfg.parallelIO ∧
      ∀ tag, Dirty s p tag → tag % cfg.lineCountInSuperPage = cell.1

def Unstaged (s : GenericCache) : Prop := ∀ cell : Nat × Nat, s.evictData cell.1 cell.2 = none

theorem Unstaged.staged (h : Unstaged s) : Staged cfg s := fun cell p hp =>
  absurd ((h cell).symm.trans hp) (Option.some_ne_none p).symm

theorem Staged.mono (h : Staged cfg s)
    (hcells : ∀ cell : Nat × Nat, s'.evictData cell.1 cell.2 = none ∨
      s'.evictData cell.1 cell.2 = s.evictData cell.1 cell.2)
    (hlines : ∀ p tag, Dirty s' p tag → Dirty s p tag) : Staged cfg s' := by
  intro cell p hp
  rcases hcells cell with hnone | hsame
  · cases hnone.symm.trans hp
  · obtain ⟨hrow, hcol, htag⟩ := h cell p (hsame ▸ hp)
    exact ⟨hrow, hcol, fun tag hd => htag tag (hlines p tag hd)⟩

theorem Staged.setEvict (h : Staged cfg s) (hp : ∀ tag, Dirty s p tag → tag = lca) :
    Staged cfg (s.setEvict (cfg.calcIOPosition lca) (some p)) := by
  intro cell q hq
  rw [evictData_setEvict] at hq
  split_ifs at hq with hcell
  · cases hq
    rw [hcell, calcIOPosition_row]
    refine ⟨Nat.mod_lt _ (lineCountInSuperPage_pos cfg), calcIOPosition_col_lt cfg lca, ?_⟩
    exact fun tag hd => congrArg (· % cfg.lineCountInSuperPage) (hp tag hd)
  · exact h cell q hq

/-! ## Evicting -/

def Cleans (s s' : GenericCache) : Prop :=
  ∀ p, s'.line p = s.line p ∨ (s'.line p).dirty = false

theorem Cleans.trans (h : Cleans s s') (h' : Cleans s' s'') : Cleans s s'' := by
  intro p
  rcases h' p with hsame | hclean
  · rw [hsame]
    exact h p
  · exact .inr hclean

theorem Cleans.dirty (h : Cleans s s') (hd : Dirty s' p tag) : Dirty s p tag := by
  rcases h p with hsame | hclean
  · simpa only [Dirty, hsame] using hd
  · exact absurd (hd.2.1.symm.trans hclean) (by decide)

theorem evictCell_some (cfg : Config) (tick : Tick) (flush : Bool)
    (h : s.evictData cell.1 cell.2 = some p) :
    ∃ issued l, evictCell cfg tick flush s cell =
        ((({ s with accesses := issued ++ s.accesses } : GenericCache).setLine p l).setEvict
          cell none) ∧
      l.dirty = false ∧ ∀ tag, Dirty s p tag →
        .ftlWrite ⟨tag / cfg.lineCountInSuperPage, cfg.unitFlag cell.1⟩ ∈ issued := by
  unfold evictCell
  rw [h]
  dsimp only
  by_cases hdirty : ((s.line p).valid && (s.line p).dirty) = true
  · rw [if_pos hdirty]
    refine ⟨[_], _, rfl, rfl, ?_⟩
    rintro tag ⟨-, -, rfl⟩
    exact List.mem_singleton_self _
  · rw [if_neg hdirty]
    refine ⟨[], _, rfl, rfl, ?_⟩
    rintro tag ⟨hvalid, hd, -⟩
    exact absurd (by rw [hvalid, hd]; rfl) hdirty

theorem evictCell_spec (h : Staged cfg s) (tick : Tick) (flush : Bool) (cell : Nat × Nat) :
    Saves cfg s (evictCell cfg tick flush s cell) ∧
      Cleans s (evictCell cfg tick flush s cell) ∧
      ∀ cell' : Nat × Nat, (evictCell cfg tick flush s cell).evictData cell'.1 cell'.2 =
        if cell' = cell then none else s.evictData cell'.1 cell'.2 := by
  cases hcell : s.evictData cell.1 cell.2 with
  | none =>
      have hsame : evictCell cfg tick flush s cell = s := by
        unfold evictCell
        rw [hcell]
      rw [hsame]
      refine ⟨.refl s, fun _ => .inl rfl, fun cell' => ?_⟩
      split_ifs with heq
      · rw [heq, hcell]
      · rfl
  | some p =>
      obtain ⟨issued, l, heq, hclean, hwritten⟩ :=
        evictCell_some cfg tick flush hcell
      obtain ⟨hrow, -, htag⟩ := h cell p hcell
      rw [heq]
      have hline : ∀ q, (((({ s with accesses := issued ++ s.accesses } :
          GenericCache).setLine p l).setEvict cell none).line q) =
          if q = p then l else s.line q := fun q => line_setLine p q l _
      refine ⟨⟨issued, rfl, fun q tag hd => ?_⟩, fun q => ?_, fun cell' => ?_⟩
      · by_cases hq : q = p
        · subst hq
          refine .inr ⟨_, hwritten tag hd, rfl, ?_⟩
          rw [htag tag hd]
          exact getD_unitFlag hrow
        · refine .inl ?_
          simpa only [Dirty, hline, if_neg hq] using hd
      · rw [hline]
        split_ifs with hq
        · exact .inr hclean
        · exact .inl rfl
      · rw [evictData_setEvict]
        rfl

theorem mem_cells {cell : Nat × Nat} :
    cell ∈ cfg.cells ↔ cell.1 < cfg.lineCountInSuperPage ∧ cell.2 < cfg.parallelIO := by
  obtain ⟨row, col⟩ := cell
  simp [Config.cells]

theorem evictCache_spec (h : Staged cfg s) (tick : Tick) (flush : Bool) :
    Saves cfg s (evictCache cfg tick flush s) ∧ Unstaged (evictCache cfg tick flush s) ∧
      Cleans s (evictCache cfg tick flush s) := by
  have hpass : ∀ list : List (Nat × Nat), ∀ s, Staged cfg s →
      Saves cfg s (list.foldl (evictCell cfg tick flush) s) ∧
        Cleans s (list.foldl (evictCell cfg tick flush) s) ∧
        ∀ cell : Nat × Nat, (list.foldl (evictCell cfg tick flush) s).evictData cell.1 cell.2 =
          if cell ∈ list then none else s.evictData cell.1 cell.2 := by
    intro list
    induction list with
    | nil => exact fun s _ => ⟨.refl s, fun _ => .inl rfl, fun cell => by simp⟩
    | cons first rest ih =>
        intro s hs
        obtain ⟨hsaves, hcleans, hcells⟩ := evictCell_spec hs tick flush first
        have hs' : Staged cfg (evictCell cfg tick flush s first) := by
          refine hs.mono (fun cell => ?_) fun _ _ => hcleans.dirty
          rw [hcells]
          split_ifs
          · exact .inl rfl
          · exact .inr rfl
        obtain ⟨hsaves', hcleans', hcells'⟩ := ih _ hs'
        refine ⟨hsaves.trans hsaves', hcleans.trans hcleans', fun cell => ?_⟩
        rw [List.foldl_cons, hcells', hcells]
        by_cases hrest : cell ∈ rest
        · simp [hrest]
        · by_cases hfirst : cell = first
          · simp [hfirst]
          · simp [hrest, hfirst]
  obtain ⟨hsaves, hcleans, hcells⟩ := hpass cfg.cells s h
  refine ⟨hsaves, fun cell => ?_, hcleans⟩
  unfold evictCache
  rw [hcells]
  split_ifs with hmem
  · rfl
  · cases hcell : s.evictData cell.1 cell.2 with
    | none => rfl
    | some p =>
        obtain ⟨hrow, hcol, -⟩ := h cell p hcell
        exact absurd (mem_cells.2 ⟨hrow, hcol⟩) hmem

/-! ## Choosing -/

theorem compareFunction_spec (cfg : Config) (a b : Option (Nat × Nat)) (s : GenericCache) :
    ((compareFunction cfg a b s).1 = a ∨ (compareFunction cfg a b s).1 = b) ∧
      ∃ drawn, (compareFunction cfg a b s).2 = { s with drawn := drawn } := by
  unfold compareFunction
  split
  · split
    · split_ifs
      · exact ⟨.inl rfl, _, rfl⟩
      · exact ⟨.inr rfl, _, rfl⟩
    · split_ifs
      · exact ⟨.inl rfl, s.drawn, rfl⟩
      · exact ⟨.inr rfl, s.drawn, rfl⟩
    · split_ifs
      · exact ⟨.inl rfl, s.drawn, rfl⟩
      · exact ⟨.inr rfl, s.drawn, rfl⟩
  · exact ⟨.inl rfl, s.drawn, rfl⟩
  · exact ⟨.inr rfl, s.drawn, rfl⟩

theorem getValidWay_spec (h : (getValidWay cfg lca tick s).1 ≠ cfg.waySize) :
    (getValidWay cfg lca tick s).1 < cfg.waySize ∧
      (s.line (cfg.calcSetIndex lca, (getValidWay cfg lca tick s).1)).valid = true ∧
      (s.line (cfg.calcSetIndex lca, (getValidWay cfg lca tick s).1)).tag = lca := by
  cases hfind : (List.range cfg.waySize).find? fun way =>
      (s.cacheData (cfg.calcSetIndex lca) way).valid &&
        (s.cacheData (cfg.calcSetIndex lca) way).tag == lca with
  | none => exact absurd (by simp [getValidWay, hfind]) h
  | some way =>
      have hfound := List.find?_some hfind
      rw [Bool.and_eq_true, beq_iff_eq] at hfound
      have hway : (getValidWay cfg lca tick s).1 = way := by simp [getValidWay, hfind]
      rw [hway]
      exact ⟨List.mem_range.1 (List.mem_of_find?_eq_some hfind), hfound⟩

theorem minWay_spec (key : Nat → Nat) (eligible : Nat → Bool) (start : Nat)
    (ways : List Nat) :
    (minWay key eligible start ways).1 = start ∨
      ((minWay key eligible start ways).1 ∈ ways ∧
        eligible (minWay key eligible start ways).1 = true) := by
  unfold minWay
  refine List.foldlRecOn ways _ (motive := fun best : Nat × Nat =>
    best.1 = start ∨ (best.1 ∈ ways ∧ eligible best.1 = true)) (.inl rfl) ?_
  intro best hbest way hway
  split_ifs with hbetter
  · rw [Bool.and_eq_true] at hbetter
    exact .inr ⟨hway, hbetter.1⟩
  · exact hbest

theorem getEmptyWay_spec {setIdx : Nat} (h : (getEmptyWay cfg setIdx tick s).1 ≠ cfg.waySize) :
    (getEmptyWay cfg setIdx tick s).1 < cfg.waySize ∧
      (s.line (setIdx, (getEmptyWay cfg setIdx tick s).1)).valid = false := by
  rcases minWay_spec (fun way => (s.cacheData setIdx way).insertedAt)
    (fun way => !(s.cacheData setIdx way).valid) cfg.waySize (List.range cfg.waySize) with
    hstart | ⟨hmem, hempty⟩
  · exact absurd hstart h
  · rw [Bool.not_eq_true'] at hempty
    exact ⟨List.mem_range.1 hmem, hempty⟩

theorem evictFunction_spec (cfg : Config) (setIdx : Nat) (tick : Tick) (s : GenericCache) :
    ∃ drawn, (evictFunction cfg setIdx tick s).2.2 = { s with drawn := drawn } := by
  unfold evictFunction
  split
  · exact ⟨_, rfl⟩
  · exact ⟨s.drawn, rfl⟩
  · exact ⟨s.drawn, rfl⟩

end SimpleSSD.ICL.GenericCache
