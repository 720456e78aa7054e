import Mathlib.Data.List.Nodup
import SimpleSSD.ICL.Contents

/-!
# Lines and the flash

Every valid line holds the version last written to its page, and so does the flash
for every page without a dirty line.  Evictions keep this, since they send dirty lines
to the flash, and so does a read whose fill drops none.
-/

namespace SimpleSSD.ICL.GenericCache

open SimpleSSD.Foundation

variable {D : Type} {cfg : Config} {s s' : GenericCache} {d d' : Contents D}
  {latest : Nat → D} {p : Nat × Nat} {tick tick' : Tick} {lca slpn : Nat} {req : Request}
  {range : LPNRange} {free : Nat → Prop}

/-! ## Requests for one page -/

theorem flagged_iff (tag : Nat) :
    (lca / cfg.lineCountInSuperPage = (cfg.reqInternal tag).lpn ∧
      (cfg.reqInternal tag).ioFlag.getD (lca % cfg.lineCountInSuperPage) false = true) ↔
        lca = tag := by
  have pos := lineCountInSuperPage_pos cfg
  have unit := Nat.mod_lt lca pos
  simp only [Config.reqInternal, Config.unitFlag, List.getD_eq_getElem?_getD, List.getElem?_map,
    List.getElem?_range unit, Option.map_some, Option.getD_some, beq_iff_eq]
  constructor
  · rintro ⟨lpn, unit⟩
    rw [← Nat.div_add_mod lca cfg.lineCountInSuperPage, lpn, unit, Nat.div_add_mod]
  · rintro rfl
    exact ⟨rfl, rfl⟩

theorem setLine_line (p q : Nat × Nat) (v : D) :
    (d.setLine p v).line q = if q = p then v else d.line q :=
  Function.update_apply d.line p v q

@[simp] theorem put_line (v : D) : (d.put cfg lca v).line = d.line := rfl

theorem put_store (v : D) : (d.put cfg lca v).store = Function.update d.store lca v := by
  funext other
  unfold Contents.put Contents.write
  simp only [flagged_iff, Function.update_apply]

/-! ## The invariant -/

/-- `free` are the pages for which the flash may hold anything. -/
structure Tracks (cfg : Config) (free : Nat → Prop) (latest : Nat → D) (s : GenericCache)
    (d : Contents D) : Prop where
  home : ∀ p, (s.line p).valid = true →
    p.1 = cfg.calcSetIndex (s.line p).tag ∧ p.2 < cfg.waySize
  unique : ∀ p q, (s.line p).valid = true → (s.line q).valid = true →
    (s.line p).tag = (s.line q).tag → p = q
  holds : ∀ p, (s.line p).valid = true → d.line p = latest (s.line p).tag
  store : ∀ lca, ¬ free lca → (∀ p, ¬ Dirty s p lca) → d.store lca = latest lca

abbrev Coherent (cfg : Config) (latest : Nat → D) : GenericCache → Contents D → Prop :=
  Tracks cfg (fun _ => False) latest

def Uncached (s : GenericCache) (lca : Nat) : Prop :=
  ∀ p, (s.line p).valid = true → (s.line p).tag ≠ lca

theorem Tracks.of_lines (h : Tracks cfg free latest s d)
    (same : ∀ q, (s'.line q).valid = (s.line q).valid ∧ (s'.line q).dirty = (s.line q).dirty ∧
      (s'.line q).tag = (s.line q).tag) : Tracks cfg free latest s' d := by
  refine ⟨fun q hq => ?_, fun q r hq hr => ?_, fun q hq => ?_, fun lca hfree none => ?_⟩
  · rw [(same q).2.2]
    exact h.home q ((same q).1 ▸ hq)
  · rw [(same q).2.2, (same r).2.2]
    exact h.unique q r ((same q).1 ▸ hq) ((same r).1 ▸ hr)
  · rw [(same q).2.2]
    exact h.holds q ((same q).1 ▸ hq)
  · refine h.store lca hfree fun q hd => none q ?_
    unfold Dirty
    rw [(same q).1, (same q).2.1, (same q).2.2]
    exact hd

theorem SameLines.tracks (same : SameLines s s') (h : Tracks cfg free latest s d) :
    Tracks cfg free latest s' d :=
  h.of_lines fun q => by simp [same.line q]

theorem Tracks.fade (h : Tracks cfg free latest s d) (line : d'.line = d.line)
    (fades : ∀ q, s'.line q = s.line q ∨ (s'.line q).valid = false)
    (store : ∀ lca, d'.store lca = d.store lca ∨ d'.store lca = latest lca)
    (saved : ∀ q lca, Dirty s q lca → ¬ Dirty s' q lca → d'.store lca = latest lca) :
    Tracks cfg free latest s' d' := by
  have old : ∀ q, (s'.line q).valid = true → s'.line q = s.line q := fun q hq =>
    (fades q).resolve_right fun invalid => Bool.false_ne_true (invalid.symm.trans hq)
  refine ⟨fun q hq => ?_, fun q r hq hr => ?_, fun q hq => ?_, fun lca hfree none => ?_⟩
  · rw [old q hq]
    exact h.home q (old q hq ▸ hq)
  · rw [old q hq, old r hr]
    exact h.unique q r (old q hq ▸ hq) (old r hr ▸ hr)
  · rw [old q hq, line]
    exact h.holds q (old q hq ▸ hq)
  · rcases store lca with same | stored
    · by_cases dirty : ∃ q, Dirty s q lca
      · obtain ⟨q, hd⟩ := dirty
        exact saved q lca hd (none q)
      · rw [same]
        exact h.store lca hfree fun q hd => dirty ⟨q, hd⟩
    · exact stored

theorem getValidWay_none (h : (getValidWay cfg lca tick s).1 = cfg.waySize) {way : Nat}
    (hway : way < cfg.waySize) (valid : (s.line (cfg.calcSetIndex lca, way)).valid = true) :
    (s.line (cfg.calcSetIndex lca, way)).tag ≠ lca := by
  intro tag
  unfold getValidWay at h
  dsimp only at h
  split at h
  next found hfound =>
    have less := List.mem_range.1 (List.mem_of_find?_eq_some hfound)
    simp only at h
    omega
  next hnone =>
    have := List.find?_eq_none.1 hnone way (List.mem_range.2 hway)
    simp only [line] at valid tag
    simp [valid, tag] at this

theorem Tracks.uncached (h : Tracks cfg free latest s d)
    (none : (getValidWay cfg lca tick s).1 = cfg.waySize) : Uncached s lca := by
  intro q valid tag
  obtain ⟨set, way⟩ := h.home q valid
  rw [tag] at set
  have same : q = (cfg.calcSetIndex lca, q.2) := Prod.ext set rfl
  exact getValidWay_none none way (same ▸ valid) (same ▸ tag)

/-! ## Eviction -/

theorem evictCell_line (cfg : Config) (tick : Tick) (s : GenericCache) (cell q : Nat × Nat) :
    (evictCell cfg tick true s cell).line q = s.line q ∧ s.evictData cell.1 cell.2 ≠ some q ∨
      s.evictData cell.1 cell.2 = some q ∧
        ((evictCell cfg tick true s cell).line q).valid = false ∧
        ((evictCell cfg tick true s cell).line q).dirty = false := by
  unfold evictCell
  cases hcell : s.evictData cell.1 cell.2 with
  | none => exact .inl ⟨rfl, nofun⟩
  | some p =>
      simp only
      set done := if ((s.line p).valid && (s.line p).dirty) = true then
        access cfg (.ftlWrite ⟨(s.line p).tag / cfg.lineCountInSuperPage,
          cfg.unitFlag cell.1⟩) tick s else (tick, s) with hdone
      have lines : ∀ r, done.2.line r = s.line r := by
        intro r
        rw [hdone]
        split <;> rfl
      change ((done.2.setLine p _).line q = _ ∧ _) ∨ _ ∧ ((done.2.setLine p _).line q).valid = _ ∧
        ((done.2.setLine p _).line q).dirty = _
      rw [line_setLine]
      by_cases same : q = p
      · rw [if_pos same, same]
        exact .inr ⟨rfl, rfl, rfl⟩
      · rw [if_neg same, lines]
        exact .inl ⟨rfl, fun h => same (Option.some.inj h).symm⟩

theorem evictCell_staged (h : Staged cfg s) (tick : Tick) (cell : Nat × Nat) :
    Staged cfg (evictCell cfg tick true s cell) := by
  obtain ⟨-, cleans, cells⟩ := evictCell_spec h tick true cell
  refine h.mono (fun other => ?_) fun _ _ => cleans.dirty
  rw [cells]
  split_ifs
  · exact .inl rfl
  · exact .inr rfl

theorem evictCellData_data (staged : Staged cfg s) (tick : Tick) (cell : Nat × Nat) :
    (∃ q lca, s.evictData cell.1 cell.2 = some q ∧ Dirty s q lca ∧
        (evictCellData cfg tick true (s, d) cell).2 = d.put cfg lca (d.line q)) ∨
      (evictCellData cfg tick true (s, d) cell).2 = d ∧
        ∀ q lca, s.evictData cell.1 cell.2 = some q → ¬ Dirty s q lca := by
  unfold evictCellData
  cases hcell : s.evictData cell.1 cell.2 with
  | none => exact .inr ⟨rfl, nofun⟩
  | some p =>
      simp only
      split
      next dirty =>
        rw [Bool.and_eq_true] at dirty
        have hd : Dirty s p (s.line p).tag := ⟨dirty.1, dirty.2, rfl⟩
        refine .inl ⟨p, _, rfl, hd, ?_⟩
        rw [← (staged cell p hcell).2.2 _ hd]
        rfl
      next clean =>
        refine .inr ⟨rfl, fun q lca hq hd => clean ?_⟩
        rw [Option.some.inj hq, hd.1, hd.2.1]
        rfl

theorem evictCellData_tracks (h : Tracks cfg free latest s d) (staged : Staged cfg s)
    (tick : Tick) (cell : Nat × Nat) :
    Tracks cfg free latest (evictCellData cfg tick true (s, d) cell).1
      (evictCellData cfg tick true (s, d) cell).2 := by
  have lines := evictCell_line cfg tick s cell
  have fades : ∀ q, (evictCell cfg tick true s cell).line q = s.line q ∨
      ((evictCell cfg tick true s cell).line q).valid = false := fun q =>
    (lines q).imp And.left fun gone => gone.2.1
  have gone : ∀ q lca, Dirty s q lca → ¬ Dirty (evictCell cfg tick true s cell) q lca →
      s.evictData cell.1 cell.2 = some q := by
    intro q lca hd hnot
    rcases lines q with ⟨same, -⟩ | ⟨taken, -⟩
    · refine absurd ?_ hnot
      unfold Dirty
      rw [same]
      exact hd
    · exact taken
  rcases evictCellData_data (d := d) staged tick cell with
    ⟨p, tag, taken, hd, put⟩ | ⟨same, clean⟩
  · have latestTag : d.line p = latest tag := by
      rw [h.holds p hd.1, hd.2.2]
    rw [put]
    refine h.fade rfl fades (fun lca => ?_) fun q lca hq hnot => ?_
    · rw [put_store, Function.update_apply]
      split_ifs with eq
      · rw [eq]
        exact .inr latestTag
      · exact .inl rfl
    · have same : p = q := Option.some.inj (taken.symm.trans (gone q lca hq hnot))
      subst same
      rw [put_store, ← hq.2.2, hd.2.2, Function.update_self]
      exact latestTag
  · rw [same]
    exact h.fade rfl fades (fun _ => .inl rfl) fun q lca hq hnot =>
      absurd hq (clean q lca (gone q lca hq hnot))

theorem evictCacheData_tracks (h : Tracks cfg free latest s d) (staged : Staged cfg s)
    (tick : Tick) :
    Tracks cfg free latest (evictCacheData cfg tick true s d).1
        (evictCacheData cfg tick true s d).2 ∧
      ∀ q, (evictCacheData cfg tick true s d).1.line q = s.line q ∨
        ((evictCacheData cfg tick true s d).1.line q).valid = false := by
  have pass := List.foldlRecOn cfg.cells (evictCellData cfg tick true)
    (motive := fun w => (Tracks cfg free latest w.1 w.2 ∧ Staged cfg w.1) ∧
      ∀ q, w.1.line q = s.line q ∨ (w.1.line q).valid = false)
    (b := (s, d)) ⟨⟨h, staged⟩, fun _ => .inl rfl⟩ ?_
  · exact ⟨pass.1.1, pass.2⟩
  · rintro ⟨s₁, d₁⟩ ⟨⟨tracks, staged₁⟩, fades⟩ cell -
    refine ⟨⟨evictCellData_tracks tracks staged₁ tick cell, evictCell_staged staged₁ tick cell⟩,
      fun q => ?_⟩
    rcases evictCell_line cfg tick s₁ cell q with ⟨same, -⟩ | ⟨-, invalid, -⟩
    · change (evictCell cfg tick true s₁ cell).line q = _ ∨
        ((evictCell cfg tick true s₁ cell).line q).valid = _
      rw [same]
      exact fades q
    · exact .inr invalid

/-! ## Read -/

def Fill.claimed (w : Fill) : List (Nat × Nat) := w.readList.map Prod.snd

/-- While a fill that began in `s` chooses its lines; `todo` are the pages to come. -/
structure Claims (cfg : Config) (s : GenericCache) (todo : List Nat) (w : Fill) : Prop where
  kept : ∀ q, q ∉ Fill.claimed w → w.cache.line q = s.line q
  clean : ∀ q ∈ Fill.claimed w, (w.cache.line q).dirty = false
  saved : ∀ q ∈ Fill.claimed w, ∀ lca, ¬ Dirty s q lca
  staged : ∀ (cell q : Nat × Nat), w.cache.evictData cell.1 cell.2 = some q →
    q ∈ Fill.claimed w
  place : ∀ e ∈ w.readList, e.2.1 = cfg.calcSetIndex e.1 ∧ e.2.2 < cfg.waySize
  fresh : ∀ e ∈ w.readList, ∀ q, q ∉ Fill.claimed w → (s.line q).valid = true →
    (s.line q).tag ≠ e.1
  pages : (w.readList.map Prod.fst ++ todo).Nodup

theorem claimed_claimLine (lca : Nat) (p : Nat × Nat) (beginAt : Tick) (w : Fill) :
    Fill.claimed (claimLine lca p beginAt w) = Fill.claimed w ++ [p] := by
  simp [Fill.claimed, claimLine]

theorem mem_claimed_claimLine {q : Nat × Nat} {w : Fill} {c : GenericCache} {beginAt : Tick} :
    q ∈ Fill.claimed (claimLine lca p beginAt { w with cache := c }) ↔
      q ∈ Fill.claimed w ∨ q = p := by
  rw [claimed_claimLine]
  simp [Fill.claimed]

theorem line_claimLine {w : Fill} {c : GenericCache} {beginAt : Tick}
    (same : ∀ q, c.line q = w.cache.line q) (q : Nat × Nat) :
    (claimLine lca p beginAt { w with cache := c }).cache.line q = if q = p then
      { c.line p with
        insertedAt := beginAt, lastAccessed := beginAt, valid := true, dirty := false }
      else w.cache.line q :=
  (line_setLine p q _ _).trans (by rw [same q])

/-- The lines chosen so far have their places and their pages, and no other line has changed. -/
structure Choosing (cfg : Config) (s : GenericCache) (todo : List Nat) (w : Fill) : Prop where
  kept : ∀ q, q ∉ Fill.claimed w → w.cache.line q = s.line q
  staged : ∀ (cell q : Nat × Nat), w.cache.evictData cell.1 cell.2 = some q →
    q ∈ Fill.claimed w
  place : ∀ e ∈ w.readList, e.2.1 = cfg.calcSetIndex e.1 ∧ e.2.2 < cfg.waySize
  fresh : ∀ e ∈ w.readList, ∀ q, q ∉ Fill.claimed w → (s.line q).valid = true →
    (s.line q).tag ≠ e.1
  pages : (w.readList.map Prod.fst ++ todo).Nodup

theorem Choosing.claim {w : Fill} {todo : List Nat} {beginAt : Tick} {c : GenericCache}
    (h : Choosing cfg s (lca :: todo) w)
    (home : ∀ q, (s.line q).valid = true →
      q.1 = cfg.calcSetIndex (s.line q).tag ∧ q.2 < cfg.waySize)
    (absent : (getValidWay cfg lca tick w.cache).1 = cfg.waySize)
    (place : p.1 = cfg.calcSetIndex lca ∧ p.2 < cfg.waySize)
    (same : ∀ q, c.line q = w.cache.line q)
    (staged : ∀ (cell q : Nat × Nat), c.evictData cell.1 cell.2 = some q →
      q ∈ Fill.claimed w ∨ q = p) :
    Choosing cfg s todo (claimLine lca p beginAt { w with cache := c }) := by
  refine ⟨fun q hq => ?_, fun cell q hq => mem_claimed_claimLine.2 (staged cell q hq),
    fun e he => ?_, fun e he q hq valid => ?_, ?_⟩
  · rw [mem_claimed_claimLine, not_or] at hq
    rw [line_claimLine same, if_neg hq.2]
    exact h.kept q hq.1
  · rcases List.mem_append.1 he with old | new
    · exact h.place e old
    · rw [List.mem_singleton.1 new]
      exact place
  · rw [mem_claimed_claimLine, not_or] at hq
    rcases List.mem_append.1 he with old | new
    · exact h.fresh e old q hq.1 valid
    · rw [List.mem_singleton.1 new]
      intro tag
      obtain ⟨set, way⟩ := home q valid
      have here : q = (cfg.calcSetIndex lca, q.2) :=
        Prod.ext (set.trans (congrArg cfg.calcSetIndex tag)) rfl
      have line := h.kept q hq.1
      refine getValidWay_none absent way ?_ ?_
      · rw [← here, line]
        exact valid
      · rw [← here, line]
        exact tag
  · have pages := h.pages
    simpa [claimLine] using pages

theorem Claims.choosing {w : Fill} {todo : List Nat} (h : Claims cfg s todo w) :
    Choosing cfg s todo w := ⟨h.kept, h.staged, h.place, h.fresh, h.pages⟩

/-- A line that holds no dirty data is claimed for a page that is in no line; it may
have been staged before. -/
theorem Claims.claim {w : Fill} {todo : List Nat} {beginAt : Tick} {c : GenericCache}
    (h : Claims cfg s (lca :: todo) w)
    (home : ∀ q, (s.line q).valid = true →
      q.1 = cfg.calcSetIndex (s.line q).tag ∧ q.2 < cfg.waySize)
    (absent : (getValidWay cfg lca tick w.cache).1 = cfg.waySize)
    (place : p.1 = cfg.calcSetIndex lca ∧ p.2 < cfg.waySize)
    (clean : ∀ tag, ¬ Dirty w.cache p tag) (same : ∀ q, c.line q = w.cache.line q)
    (staged : ∀ (cell q : Nat × Nat), c.evictData cell.1 cell.2 = some q →
      q ∈ Fill.claimed w ∨ q = p) :
    Claims cfg s todo (claimLine lca p beginAt { w with cache := c }) := by
  obtain ⟨kept, staged', place', fresh, pages⟩ : Choosing cfg s todo
      (claimLine lca p beginAt { w with cache := c }) :=
    h.choosing.claim home absent place same staged
  refine ⟨kept, fun q hq => ?_, fun q hq tag hd => ?_, staged', place', fresh, pages⟩
  · rw [line_claimLine same]
    split
    · rfl
    next ne => exact h.clean q ((mem_claimed_claimLine.1 hq).resolve_right ne)
  · by_cases old : q ∈ Fill.claimed w
    · exact h.saved q old tag hd
    · have line := h.kept q old
      obtain rfl := (mem_claimed_claimLine.1 hq).resolve_left old
      refine clean tag ?_
      unfold Dirty
      rw [line]
      exact hd

theorem Claims.skip {w : Fill} {todo : List Nat} (h : Claims cfg s (lca :: todo) w) :
    Claims cfg s todo w :=
  ⟨h.kept, h.clean, h.saved, h.staged, h.place, h.fresh,
    h.pages.sublist ((List.sublist_cons_self lca todo).append_left _)⟩

theorem fillLine_claims {w w' : Fill} {todo : List Nat} (h : Claims cfg s (lca :: todo) w)
    (home : ∀ q, (s.line q).valid = true →
      q.1 = cfg.calcSetIndex (s.line q).tag ∧ q.2 < cfg.waySize)
    (clean : cleanVictim cfg tick w.cache lca = true)
    (run : fillLine cfg tick w lca = .ok w') :
    Claims cfg s todo w' ∧ (∀ e ∈ w.readList, e ∈ w'.readList) ∧
      ((getValidWay cfg lca tick w.cache).1 = cfg.waySize → ∃ q, (lca, q) ∈ w'.readList) := by
  unfold fillLine at run
  dsimp only at run
  split_ifs at run with hfound hempty hway
  · cases run
    exact ⟨h.skip, fun _ he => he, fun none => absurd none hfound⟩
  · cases run
    obtain ⟨way, invalid⟩ := getEmptyWay_spec hempty
    refine ⟨h.claim home (not_not.1 hfound) ⟨rfl, way⟩ (fun tag hd => ?_) (fun _ => rfl)
      (fun cell q hq => .inl (h.staged cell q hq)),
      fun e he => List.mem_append_left _ he,
      fun _ => ⟨_, List.mem_append_right _ (List.mem_singleton_self _)⟩⟩
    exact Bool.false_ne_true (invalid.symm.trans hd.1)
  · cases run
    simp only [cleanVictim, not_not.1 hfound, not_not.1 hempty, bne_self_eq_false,
      Bool.false_or, Bool.not_eq_true'] at clean
    obtain ⟨drawn, hcache⟩ := evictFunction_spec cfg (cfg.calcSetIndex lca)
      (getEmptyWay cfg (cfg.calcSetIndex lca) (getValidWay cfg lca tick w.cache).2 w.cache).2
      w.cache
    generalize evictFunction cfg (cfg.calcSetIndex lca)
      (getEmptyWay cfg (cfg.calcSetIndex lca) (getValidWay cfg lca tick w.cache).2 w.cache).2
      w.cache = victim at *
    refine ⟨h.claim home (not_not.1 hfound) ⟨rfl, not_le.1 hway⟩ (fun tag hd => ?_)
      (fun q => ?_) (fun cell q hq => ?_), fun e he => List.mem_append_left _ he,
      fun _ => ⟨_, List.mem_append_right _ (List.mem_singleton_self _)⟩⟩
    · rw [hd.1, hd.2.1] at clean
      contradiction
    · rw [(stageVictim_same cfg _ _).line, hcache]
      rfl
    · unfold stageVictim at hq
      split_ifs at hq
      · rw [evictData_setEvict] at hq
        split_ifs at hq
        · exact .inr (Option.some.inj hq).symm
        · rw [hcache] at hq
          exact .inl (h.staged cell q hq)
      · rw [hcache] at hq
        exact .inl (h.staged cell q hq)

theorem fillLines_claims {w w' : Fill} {pages : List Nat} (h : Claims cfg s pages w)
    (home : ∀ q, (s.line q).valid = true →
      q.1 = cfg.calcSetIndex (s.line q).tag ∧ q.2 < cfg.waySize)
    (clean : cleanVictims cfg tick w pages = true)
    (run : pages.foldlM (fillLine cfg tick) w = .ok w') :
    Claims cfg s [] w' ∧ ∀ e ∈ w.readList, e ∈ w'.readList := by
  refine (foldlM_invariant (fun rest u => Claims cfg s rest u ∧
    cleanVictims cfg tick u rest = true ∧ ∀ e ∈ w.readList, e ∈ u.readList) ?_ run
      ⟨h, clean, fun _ he => he⟩).imp_right And.right
  rintro lca rest u u' ⟨claims, cleans, grows⟩ step
  simp only [cleanVictims, Bool.and_eq_true, step] at cleans
  obtain ⟨claims', more, -⟩ := fillLine_claims claims home cleans.1 step
  exact ⟨claims', cleans.2, fun e he => more e (grows e he)⟩

theorem evictCell_evictData {cell cell' q : Nat × Nat}
    (h : (evictCell cfg tick true s cell).evictData cell'.1 cell'.2 = some q) :
    s.evictData cell'.1 cell'.2 = some q := by
  unfold evictCell at h
  cases hcell : s.evictData cell.1 cell.2 with
  | none =>
      rw [hcell] at h
      exact h
  | some p =>
      rw [hcell] at h
      dsimp only at h
      rw [evictData_setEvict] at h
      split_ifs at h
      · exact h
      · exact h

variable (cfg d) in
theorem evictCacheData_clean {claimed : List (Nat × Nat)}
    (staged : ∀ (cell q : Nat × Nat), s.evictData cell.1 cell.2 = some q → q ∈ claimed)
    (clean : ∀ q ∈ claimed, (s.line q).dirty = false) (tick : Tick) :
    (evictCacheData cfg tick true s d).2 = d ∧
      (∀ q, q ∉ claimed → (evictCacheData cfg tick true s d).1.line q = s.line q) ∧
      ∀ q ∈ claimed, ((evictCacheData cfg tick true s d).1.line q).dirty = false := by
  have pass := List.foldlRecOn cfg.cells (evictCellData cfg tick true)
    (motive := fun w => w.2 = d ∧ (∀ q, q ∉ claimed → w.1.line q = s.line q) ∧
      (∀ q ∈ claimed, (w.1.line q).dirty = false) ∧
      ∀ (cell q : Nat × Nat), w.1.evictData cell.1 cell.2 = some q → q ∈ claimed)
    (b := (s, d)) ⟨rfl, fun _ _ => rfl, clean, staged⟩ ?_
  · exact ⟨pass.1, pass.2.1, pass.2.2.1⟩
  · rintro ⟨s₁, d₁⟩ ⟨data, kept, cleans, stages⟩ cell -
    have lines := evictCell_line cfg tick s₁ cell
    refine ⟨?_, fun q hq => ?_, fun q hq => ?_, fun cell' q hq => ?_⟩
    · unfold evictCellData
      cases hcell : s₁.evictData cell.1 cell.2 with
      | none => exact data
      | some p =>
          simp only [cleans p (stages cell p hcell), Bool.and_false, Bool.false_eq_true,
            if_false]
          exact data
    · rcases lines q with ⟨same, -⟩ | ⟨taken, -⟩
      · exact same.trans (kept q hq)
      · exact absurd (stages cell q taken) hq
    · rcases lines q with ⟨same, -⟩ | ⟨-, -, gone⟩
      · exact (congrArg Line.dirty same).trans (cleans q hq)
      · exact gone
    · exact stages cell' q (evictCell_evictData hq)

variable (cfg d) in
theorem loadLines_spec (slpn : Nat) (tick : Tick) (list : List (Nat × Nat × Nat))
    (acc : Tick × GenericCache) (got : Option D) :
    (list.foldl (loadLineData slpn) (d, got)).1.store = d.store ∧
      (∀ q, q ∉ list.map Prod.snd →
        (list.foldl (loadLine cfg slpn tick) acc).2.line q = acc.2.line q ∧
          (list.foldl (loadLineData slpn) (d, got)).1.line q = d.line q) ∧
      (∀ q ∈ list.map Prod.snd,
        ((list.foldl (loadLine cfg slpn tick) acc).2.line q).dirty = (acc.2.line q).dirty ∧
          ∃ lca, (lca, q) ∈ list ∧
            ((list.foldl (loadLine cfg slpn tick) acc).2.line q).tag = lca ∧
            (list.foldl (loadLineData slpn) (d, got)).1.line q = d.store lca) ∧
      (list.foldl (loadLineData slpn) (d, got)).2 =
        if slpn ∈ list.map Prod.fst then some (d.store slpn) else got := by
  induction list generalizing acc d got with
  | nil => exact ⟨rfl, fun _ _ => ⟨rfl, rfl⟩, fun q hq => absurd hq List.not_mem_nil, rfl⟩
  | cons entry rest ih =>
      obtain ⟨page, p⟩ := entry
      have lines : ∀ q, (loadLine cfg slpn tick acc (page, p)).2.line q =
          if q = p then (loadLine cfg slpn tick acc (page, p)).2.line p
            else acc.2.line q := by
        intro q
        split_ifs with same
        · rw [same]
        · unfold loadLine
          rw [line_setLine, if_neg same]
          rfl
      have loaded : ((loadLine cfg slpn tick acc (page, p)).2.line p).tag = page ∧
          ((loadLine cfg slpn tick acc (page, p)).2.line p).dirty = (acc.2.line p).dirty := by
        unfold loadLine
        rw [line_setLine, if_pos rfl]
        exact ⟨rfl, rfl⟩
      have values : ∀ q, (loadLineData slpn (d, got) (page, p)).1.line q =
          if q = p then d.store page else d.line q := fun q =>
        setLine_line p q (d.store page)
      obtain ⟨store, kept, taken, value⟩ := ih (d := (loadLineData slpn (d, got) (page, p)).1)
        (loadLine cfg slpn tick acc (page, p)) (loadLineData slpn (d, got) (page, p)).2
      refine ⟨store, fun q hq => ?_, fun q hq => ?_, ?_⟩
      · rw [List.map_cons, List.mem_cons, not_or] at hq
        obtain ⟨line, val⟩ := kept q hq.2
        refine ⟨line.trans ?_, val.trans ?_⟩
        · rw [lines, if_neg hq.1]
        · rw [values, if_neg hq.1]
      · by_cases later : q ∈ rest.map Prod.snd
        · obtain ⟨dirty, lca, mem, tag, val⟩ := taken q later
          refine ⟨dirty.trans ?_, lca, List.mem_cons_of_mem _ mem, tag, val⟩
          rw [lines]
          split_ifs with same
          · rw [same]
            exact loaded.2
          · rfl
        · obtain rfl := (List.mem_cons.1 hq).resolve_right later
          obtain ⟨line, val⟩ := kept q later
          refine ⟨?_, page, List.mem_cons_self, ?_, ?_⟩
          · exact (congrArg Line.dirty line).trans loaded.2
          · exact (congrArg Line.tag line).trans loaded.1
          · exact val.trans (by rw [values, if_pos rfl])
      · refine value.trans ?_
        simp only [List.map_cons, List.mem_cons]
        by_cases later : slpn ∈ rest.map Prod.fst
        · rw [if_pos later, if_pos (.inr later)]
          rfl
        · rw [if_neg later]
          unfold loadLineData
          simp only [later, or_false, eq_comm]
          split_ifs with same
          · rw [same]
          · rfl

theorem readAhead_same (cfg : Config) (slpn : Nat) (s : GenericCache) :
    SameLines s (readAhead cfg slpn s) ∧ (readAhead cfg slpn s).evictData = s.evictData := by
  unfold readAhead
  split_ifs
  · exact ⟨⟨rfl, rfl⟩, rfl⟩
  · exact ⟨⟨rfl, rfl⟩, rfl⟩

theorem fillPages_nodup (cfg : Config) (slpn : Nat) (s : GenericCache) :
    (fillPages cfg slpn s).Nodup :=
  List.Nodup.map (fun _ _ same => Nat.add_left_cancel same) List.nodup_range

theorem fillPages_cons (cfg : Config) (slpn : Nat) (s : GenericCache) :
    ∃ rest, fillPages cfg slpn s = slpn :: rest := by
  have some : fillSize cfg s ≠ 0 := by
    have lines := lineCountInSuperPage_pos cfg
    have all := Nat.mul_pos cfg.parallelIO_pos lines
    unfold fillSize Config.lineCountInMaxIO
    split_ifs <;> omega
  obtain ⟨n, size⟩ := Nat.exists_eq_succ_of_ne_zero some
  refine ⟨(List.range n).map fun i => slpn + (i + 1), ?_⟩
  unfold fillPages
  rw [size, List.range_succ_eq_map]
  simp

/-- A fill with clean victims brings lines up to date; a page that was in no line is
among them. -/
theorem fillCache_coherent {hit : Bool} {arrived : Tick} {done : Tick × GenericCache}
    {filled : Contents D × Option D} (h : Coherent cfg latest s d) (unstaged : Unstaged s)
    (clean : cleanVictims cfg tick ⟨readAhead cfg slpn s, tick, []⟩ (fillPages cfg slpn s) =
      true)
    (run : fillCache cfg slpn hit arrived tick s = .ok done)
    (data : fillCacheData cfg slpn tick s d = .ok filled) :
    Coherent cfg latest done.2 filled.1 ∧
      ((getValidWay cfg slpn tick s).1 = cfg.waySize → filled.2 = some (latest slpn)) := by
  obtain ⟨w, hfill, hdone⟩ := bind_eq_ok.1 run
  cases hdone
  obtain ⟨w', hfill', hfilled⟩ := bind_eq_ok.1 data
  cases hfilled
  obtain rfl : w = w' := Except.ok.inj (hfill.symm.trans hfill')
  obtain ⟨same, cells⟩ := readAhead_same cfg slpn s
  obtain ⟨rest, pages⟩ := fillPages_cons cfg slpn s
  have start : Claims cfg s (slpn :: rest) ⟨readAhead cfg slpn s, tick, []⟩ := by
    refine ⟨fun q _ => same.line q, nofun, nofun, fun cell q hq => ?_, nofun, nofun, ?_⟩
    · rw [cells, unstaged cell] at hq
      contradiction
    · exact pages ▸ fillPages_nodup cfg slpn s
  rw [pages] at hfill clean
  rw [List.foldlM_cons] at hfill
  obtain ⟨w₁, first, later⟩ := bind_eq_ok.1 hfill
  simp only [cleanVictims, Bool.and_eq_true, first] at clean
  obtain ⟨claims₁, -, here⟩ := fillLine_claims start h.home clean.1 first
  obtain ⟨claims, grows⟩ := fillLines_claims claims₁ h.home clean.2 later
  obtain ⟨unmoved, kept, cleans⟩ :=
    evictCacheData_clean cfg d claims.staged claims.clean w.finishedAt
  rw [evictCacheData_cache] at kept cleans
  obtain ⟨store, others, lines, value⟩ := loadLines_spec cfg d slpn w.finishedAt
    w.readList (w.finishedAt, evictCache cfg w.finishedAt true w.cache) (none : Option D)
  rw [unmoved]
  -- what the flash holds of a page that is in no unclaimed line
  have loaded : ∀ e ∈ w.readList, d.store e.1 = latest e.1 := by
    intro e he
    refine h.store e.1 not_false fun q hd => ?_
    by_cases claimed : q ∈ Fill.claimed w
    · exact claims.saved q claimed e.1 hd
    · exact claims.fresh e he q claimed hd.1 hd.2.2
  have old : ∀ q, q ∉ Fill.claimed w → (w.readList.foldl (loadLine cfg slpn w.finishedAt)
      (w.finishedAt, evictCache cfg w.finishedAt true w.cache)).2.line q = s.line q := fun q hq =>
    ((others q hq).1.trans (kept q hq)).trans (claims.kept q hq)
  have distinct : ∀ q r lca, (lca, q) ∈ w.readList → (lca, r) ∈ w.readList → q = r := by
    intro q r lca hq hr
    have nodup := claims.pages
    rw [List.append_nil] at nodup
    exact congrArg Prod.snd (List.inj_on_of_nodup_map nodup hq hr rfl)
  refine ⟨⟨fun q hq => ?_, fun q r hq hr tags => ?_, fun q hq => ?_, fun lca _ none => ?_⟩,
    fun none => ?_⟩
  · by_cases claimed : q ∈ Fill.claimed w
    · obtain ⟨-, lca, mem, tag, -⟩ := lines q claimed
      rw [tag]
      exact claims.place _ mem
    · rw [old q claimed] at hq ⊢
      exact h.home q hq
  · by_cases hcq : q ∈ Fill.claimed w
    · obtain ⟨-, lca, mem, tag, -⟩ := lines q hcq
      by_cases hcr : r ∈ Fill.claimed w
      · obtain ⟨-, lca', mem', tag', -⟩ := lines r hcr
        rw [tag, tag'] at tags
        exact distinct q r lca mem (tags ▸ mem')
      · rw [old r hcr] at hr tags
        exact absurd (tags.symm.trans tag) (claims.fresh _ mem r hcr hr)
    · rw [old q hcq] at hq tags
      by_cases hcr : r ∈ Fill.claimed w
      · obtain ⟨-, lca, mem, tag, -⟩ := lines r hcr
        exact absurd (tags.trans tag) (claims.fresh _ mem q hcq hq)
      · rw [old r hcr] at hr tags
        exact h.unique q r hq hr tags
  · by_cases claimed : q ∈ Fill.claimed w
    · obtain ⟨-, lca, mem, tag, val⟩ := lines q claimed
      rw [tag, val]
      exact loaded _ mem
    · rw [old q claimed] at hq ⊢
      rw [(others q claimed).2]
      exact h.holds q hq
  · rw [store]
    refine h.store lca not_false fun q hd => none q ?_
    have unclaimed : q ∉ Fill.claimed w := fun claimed => claims.saved q claimed lca hd
    unfold Dirty
    rw [old q unclaimed]
    exact hd
  · have absent : (getValidWay cfg slpn tick (readAhead cfg slpn s)).1 = cfg.waySize := by
      unfold getValidWay at none ⊢
      rw [same.cacheData]
      exact none
    obtain ⟨q, mem⟩ := here absent
    rw [value, if_pos (List.mem_map_of_mem (f := Prod.fst) (grows _ mem))]
    exact congrArg some (loaded _ (grows _ mem))

theorem getValidWay_congr (cfg : Config) (lca : Nat) (tick tick' : Tick)
    (same : s'.cacheData = s.cacheData) :
    (getValidWay cfg lca tick' s').1 = (getValidWay cfg lca tick s).1 := by
  unfold getValidWay
  rw [same]
  dsimp only
  split <;> rfl

/-- A look-up changes no page, validity or dirt of a line. -/
structure Found (s s' : GenericCache) : Prop where
  lines : ∀ q, (s'.line q).valid = (s.line q).valid ∧ (s'.line q).dirty = (s.line q).dirty ∧
    (s'.line q).tag = (s.line q).tag
  evictData : s'.evictData = s.evictData

theorem lookUp_found (cfg : Config) (req : Request) (tick : Tick) (s : GenericCache) :
    match lookUp cfg req tick s with
    | .hit _ s' => Found s s' ∧ (getValidWay cfg req.slpn tick s).1 ≠ cfg.waySize
    | .prefetch _ _ _ s' => Found s s' ∧ (getValidWay cfg req.slpn tick s).1 ≠ cfg.waySize
    | .miss slpn _ s' => Found s s' ∧ slpn = req.slpn ∧ ∀ tick',
        (getValidWay cfg req.slpn tick' s').1 = cfg.waySize := by
  have touched : ∀ (u : GenericCache) p at', u.cacheData = s.cacheData →
      u.evictData = s.evictData →
        Found s (access cfg (.dramRead req.length) at'
          (u.setLine p { u.line p with lastAccessed := at' })).2 := by
    refine fun u p at' data cells => ⟨fun q => ?_, cells⟩
    have line : u.line q = s.line q := by
      unfold GenericCache.line
      rw [data]
    change ((u.setLine p _).line q).valid = _ ∧ ((u.setLine p _).line q).dirty = _ ∧
      ((u.setLine p _).line q).tag = _
    rw [line_setLine]
    split_ifs with same
    · rw [← same, line]
      exact ⟨rfl, rfl, rfl⟩
    · rw [line]
      exact ⟨rfl, rfl, rfl⟩
  have way : ∀ (u : GenericCache) tick', u.cacheData = s.cacheData →
      (getValidWay cfg req.slpn tick' u).1 = (getValidWay cfg req.slpn tick s).1 :=
    fun u tick' data => getValidWay_congr cfg _ _ _ data
  unfold lookUp
  by_cases prefetch : cfg.useReadPrefetch = true
  · simp only [prefetch, if_true, Bool.true_and]
    split_ifs with found trigger
    · exact ⟨touched _ _ _ rfl rfl, found⟩
    · exact ⟨touched _ _ _ rfl rfl, found⟩
    · exact ⟨⟨fun _ => ⟨rfl, rfl, rfl⟩, rfl⟩, rfl, fun tick' =>
        (way _ _ rfl).trans (not_not.1 found)⟩
  · simp only [prefetch, Bool.false_eq_true, if_false, Bool.false_and]
    split_ifs with found
    · exact ⟨touched _ _ _ rfl rfl, found⟩
    · exact ⟨⟨fun _ => ⟨rfl, rfl, rfl⟩, rfl⟩, rfl, fun tick' =>
        (way _ _ rfl).trans (not_not.1 found)⟩

theorem hitData_latest (h : Coherent cfg latest s d)
    (found : (getValidWay cfg req.slpn tick s).1 ≠ cfg.waySize) :
    hitData cfg req tick s d = latest req.slpn := by
  obtain ⟨-, valid, tag⟩ := getValidWay_spec found
  unfold hitData
  rw [h.holds _ valid, tag]

theorem read_coherent {done : Bool × Tick × GenericCache} {filled : Contents D × Option D}
    (h : Coherent cfg latest s d) (unstaged : Unstaged s)
    (clean : cleanRead cfg req tick s = true)
    (plain : cfg.useReadCaching = false → ∀ q, ¬ Dirty s q req.slpn)
    (run : read cfg req tick s = .ok done) (data : readData cfg req tick s d = .ok filled) :
    Coherent cfg latest done.2.2 filled.1 ∧ filled.2 = some (latest req.slpn) := by
  have found := lookUp_found cfg req tick s
  have none : ∀ {u : GenericCache}, Found s u → Unstaged u := fun same cell => by
    rw [same.evictData]
    exact unstaged cell
  unfold read at run
  unfold readData at data
  unfold cleanRead at clean
  split_ifs at run data clean with caching
  · split at run
    next heq =>
      simp only [heq] at found data
      cases run
      cases data
      exact ⟨h.of_lines found.1.lines, congrArg some (hitData_latest h found.2)⟩
    next heq =>
      simp only [heq] at found data clean
      obtain ⟨loaded, hfill, hdone⟩ := bind_eq_ok.1 run
      cases hdone
      obtain ⟨loads, hloads, hfilled⟩ := bind_eq_ok.1 data
      cases hfilled
      exact ⟨(fillCache_coherent (h.of_lines found.1.lines) (none found.1) clean hfill
        hloads).1, congrArg some (hitData_latest h found.2)⟩
    next heq =>
      simp only [heq] at found data clean
      obtain ⟨loaded, hfill, hdone⟩ := bind_eq_ok.1 run
      cases hdone
      obtain ⟨same, rfl, absent⟩ := found
      obtain ⟨coherent, value⟩ := fillCache_coherent (h.of_lines same.lines) (none same) clean
        hfill data
      exact ⟨coherent, value (absent _)⟩
  · cases run
    cases data
    refine ⟨h.of_lines fun _ => ⟨rfl, rfl, rfl⟩, congrArg some ?_⟩
    exact h.store req.slpn not_false (plain (eq_false_of_ne_true caching))

end SimpleSSD.ICL.GenericCache
