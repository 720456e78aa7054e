import SimpleSSD.ICL.Coherence
import SimpleSSD.ICL.WayChoice

/-!
# Where the lines of the cache are

A valid line stands in the set of its page, no page is in two lines, and nothing stays
staged.  A read claims lines before it knows their pages, and the line of a dirty victim it
has staged loses its validity on the way; a write that misses everywhere frees a line of
its own set.
-/

namespace SimpleSSD.ICL.GenericCache

open SimpleSSD.Foundation

variable {cfg : Config} {s s' s'' : GenericCache} {p q : Nat × Nat} {tick tick' : Tick}
  {lca slpn : Nat} {req : Request}

structure Placed (cfg : Config) (s : GenericCache) : Prop where
  home : ∀ p, (s.line p).valid = true →
    p.1 = cfg.calcSetIndex (s.line p).tag ∧ p.2 < cfg.waySize
  unique : ∀ p q, (s.line p).valid = true → (s.line q).valid = true →
    (s.line p).tag = (s.line q).tag → p = q

/-- Lines may become invalid; those that do not keep their page. -/
def Loses (s s' : GenericCache) : Prop :=
  ∀ q, (s'.line q).valid = true → (s.line q).valid = true ∧ (s'.line q).tag = (s.line q).tag

theorem Loses.refl (s : GenericCache) : Loses s s := fun _ valid => ⟨valid, rfl⟩

theorem Loses.trans (h : Loses s s') (h' : Loses s' s'') : Loses s s'' := by
  intro q valid
  obtain ⟨mid, tag'⟩ := h' q valid
  obtain ⟨old, tag⟩ := h q mid
  exact ⟨old, tag'.trans tag⟩

theorem Loses.of_lines (same : ∀ q, s'.line q = s.line q) : Loses s s' := fun q valid => by
  rw [same q] at valid ⊢
  exact ⟨valid, rfl⟩

theorem Found.loses (h : Found s s') : Loses s s' := fun q valid =>
  ⟨(h.lines q).1 ▸ valid, (h.lines q).2.2⟩

theorem Placed.loses (h : Placed cfg s) (loses : Loses s s') : Placed cfg s' := by
  refine ⟨fun p valid => ?_, fun p q validP validQ tags => ?_⟩
  · obtain ⟨old, tag⟩ := loses p valid
    rw [tag]
    exact h.home p old
  · obtain ⟨oldP, tagP⟩ := loses p validP
    obtain ⟨oldQ, tagQ⟩ := loses q validQ
    exact h.unique p q oldP oldQ (tagP.symm.trans (tags.trans tagQ))

theorem Placed.absent (h : Placed cfg s) (none : (getValidWay cfg lca tick s).1 = cfg.waySize) :
    Uncached s lca := by
  intro q valid tag
  obtain ⟨set, way⟩ := h.home q valid
  have here : q = (cfg.calcSetIndex lca, q.2) := Prod.ext (set.trans (tag ▸ rfl)) rfl
  exact getValidWay_none none way (here ▸ valid) (here ▸ tag)

theorem Placed.take (taken : Nat × Nat → Prop) (h : Placed cfg s)
    (others : ∀ q, ¬ taken q → s'.line q = s.line q)
    (place : ∀ q, taken q → q.1 = cfg.calcSetIndex (s'.line q).tag ∧ q.2 < cfg.waySize)
    (fresh : ∀ q, taken q → ∀ r, ¬ taken r → (s.line r).valid = true →
      (s.line r).tag ≠ (s'.line q).tag)
    (distinct : ∀ q r, taken q → taken r → (s'.line q).tag = (s'.line r).tag → q = r) :
    Placed cfg s' := by
  refine ⟨fun q valid => ?_, fun q r validQ validR tags => ?_⟩
  · by_cases takenQ : taken q
    · exact place q takenQ
    · rw [others q takenQ] at valid ⊢
      exact h.home q valid
  · by_cases takenQ : taken q
    · by_cases takenR : taken r
      · exact distinct q r takenQ takenR tags
      · rw [others r takenR] at validR tags
        exact absurd tags.symm (fresh q takenQ r takenR validR)
    · rw [others q takenQ] at validQ tags
      by_cases takenR : taken r
      · exact absurd tags (fresh r takenR q takenQ validQ)
      · rw [others r takenR] at validR tags
        exact h.unique q r validQ validR tags

theorem Placed.put (h : Placed cfg s) (others : ∀ q, q ≠ p → s'.line q = s.line q)
    (tag : (s'.line p).tag = lca) (place : p.1 = cfg.calcSetIndex lca ∧ p.2 < cfg.waySize)
    (only : ∀ q, q ≠ p → (s.line q).valid = true → (s.line q).tag ≠ lca) : Placed cfg s' := by
  refine h.take (· = p) others ?_ ?_ ?_
  · rintro _ rfl
    rw [tag]
    exact place
  · rintro _ rfl r other valid
    rw [tag]
    exact only r other valid
  · rintro _ _ rfl rfl _
    rfl

/-! ## Eviction -/

theorem evictCell_loses (tick : Tick) (s : GenericCache) (cell : Nat × Nat) :
    Loses s (evictCell cfg tick true s cell) := by
  intro q valid
  rcases evictCell_line cfg tick s cell q with ⟨same, -⟩ | ⟨-, invalid, -⟩
  · rw [same] at valid ⊢
    exact ⟨valid, rfl⟩
  · exact absurd (invalid.symm.trans valid) Bool.false_ne_true

theorem evictCells_loses (tick : Tick) (list : List (Nat × Nat)) (s : GenericCache) :
    Loses s (list.foldl (evictCell cfg tick true) s) := by
  induction list generalizing s with
  | nil => exact .refl s
  | cons cell rest ih => exact (evictCell_loses tick s cell).trans (ih _)

theorem evictCells_takes {cell : Nat × Nat} (tick : Tick) (list : List (Nat × Nat))
    (s : GenericCache) (staged : Staged cfg s) (mem : cell ∈ list)
    (taken : s.evictData cell.1 cell.2 = some p) :
    ((list.foldl (evictCell cfg tick true) s).line p).valid = false := by
  induction list generalizing s with
  | nil => exact absurd mem List.not_mem_nil
  | cons first rest ih =>
      by_cases same : cell = first
      · subst same
        refine eq_false_of_ne_true fun valid => ?_
        have before := (evictCells_loses tick rest _ p valid).1
        rcases evictCell_line cfg tick s cell p with ⟨-, other⟩ | ⟨-, invalid, -⟩
        · exact other taken
        · exact Bool.false_ne_true (invalid.symm.trans before)
      · refine ih _ (evictCell_staged staged tick first) ?_ ?_
        · exact (List.mem_cons.1 mem).resolve_left same
        · rw [(evictCell_spec staged tick true first).2.2 cell, if_neg same]
          exact taken

theorem evictCells_others {claimed : List (Nat × Nat)} (tick : Tick) (list : List (Nat × Nat))
    (s : GenericCache)
    (staged : ∀ cell r : Nat × Nat, s.evictData cell.1 cell.2 = some r → r ∈ claimed)
    (other : q ∉ claimed) : (list.foldl (evictCell cfg tick true) s).line q = s.line q := by
  induction list generalizing s with
  | nil => rfl
  | cons cell rest ih =>
      rw [List.foldl_cons, ih _ fun cell' r taken => staged cell' r (evictCell_evictData taken)]
      rcases evictCell_line cfg tick s cell q with ⟨same, -⟩ | ⟨taken, -⟩
      · exact same
      · exact absurd (staged cell q taken) other

/-! ## Read -/

/-- While a fill that began in `s` chooses its lines; `todo` are the pages to come. -/
structure Claiming (cfg : Config) (s : GenericCache) (todo : List Nat) (w : Fill) : Prop where
  kept : ∀ q, q ∉ Fill.claimed w → w.cache.line q = s.line q
  taken : ∀ cell q : Nat × Nat, w.cache.evictData cell.1 cell.2 = some q → q ∈ Fill.claimed w
  staged : Staged cfg w.cache
  place : ∀ e ∈ w.readList, e.2.1 = cfg.calcSetIndex e.1 ∧ e.2.2 < cfg.waySize
  fresh : ∀ e ∈ w.readList, ∀ q, q ∉ Fill.claimed w → (s.line q).valid = true →
    (s.line q).tag ≠ e.1
  pages : (w.readList.map Prod.fst ++ todo).Nodup

theorem Claiming.skip {w : Fill} {todo : List Nat} (h : Claiming cfg s (lca :: todo) w) :
    Claiming cfg s todo w :=
  ⟨h.kept, h.taken, h.staged, h.place, h.fresh,
    h.pages.sublist ((List.sublist_cons_self lca todo).append_left _)⟩

theorem Claiming.choosing {w : Fill} {todo : List Nat} (h : Claiming cfg s todo w) :
    Choosing cfg s todo w := ⟨h.kept, h.taken, h.place, h.fresh, h.pages⟩

theorem Claiming.claim {w : Fill} {todo : List Nat} {beginAt : Tick} {c : GenericCache}
    (h : Claiming cfg s (lca :: todo) w) (placed : Placed cfg s)
    (absent : (getValidWay cfg lca tick w.cache).1 = cfg.waySize)
    (place : p.1 = cfg.calcSetIndex lca ∧ p.2 < cfg.waySize)
    (same : ∀ q, c.line q = w.cache.line q) (staged : Staged cfg c)
    (taken : ∀ cell q : Nat × Nat, c.evictData cell.1 cell.2 = some q →
      q ∈ Fill.claimed w ∨ q = p) :
    Claiming cfg s todo (claimLine lca p beginAt { w with cache := c }) := by
  obtain ⟨kept, taken', place', fresh, pages⟩ : Choosing cfg s todo
      (claimLine lca p beginAt { w with cache := c }) :=
    h.choosing.claim placed.home absent place same taken
  refine ⟨kept, taken', ?_, place', fresh, pages⟩
  refine staged.mono (fun cell => .inr rfl) fun q tag dirty => ?_
  unfold Dirty at dirty ⊢
  rw [line_claimLine same] at dirty
  by_cases hq : q = p
  · rw [if_pos hq] at dirty
    exact absurd dirty.2.1 Bool.false_ne_true
  · rw [if_neg hq] at dirty
    rw [same]
    exact dirty

theorem stageVictim_evictData {c : GenericCache} {cell : Nat × Nat}
    (h : (stageVictim cfg p c).evictData cell.1 cell.2 = some q) :
    c.evictData cell.1 cell.2 = some q ∨ q = p := by
  unfold stageVictim at h
  split_ifs at h
  · rw [evictData_setEvict] at h
    split_ifs at h
    · exact .inr (Option.some.inj h).symm
    · exact .inl h
  · exact .inl h

theorem fillLine_claiming {w w' : Fill} {todo : List Nat}
    (h : Claiming cfg s (lca :: todo) w) (placed : Placed cfg s)
    (run : fillLine cfg tick w lca = .ok w') : Claiming cfg s todo w' := by
  unfold fillLine at run
  dsimp only at run
  split_ifs at run with hfound hempty hway
  · cases run
    exact h.skip
  · cases run
    exact h.claim placed (not_not.1 hfound) ⟨rfl, (getEmptyWay_spec hempty).1⟩ (fun _ => rfl)
      h.staged fun cell q hq => .inl (h.taken cell q hq)
  · cases run
    obtain ⟨drawn, hcache⟩ := evictFunction_spec cfg (cfg.calcSetIndex lca)
      (getEmptyWay cfg (cfg.calcSetIndex lca) (getValidWay cfg lca tick w.cache).2 w.cache).2
      w.cache
    generalize evictFunction cfg (cfg.calcSetIndex lca)
      (getEmptyWay cfg (cfg.calcSetIndex lca) (getValidWay cfg lca tick w.cache).2 w.cache).2
      w.cache = victim at *
    have staged : Staged cfg victim.2.2 := by
      rw [hcache]
      exact h.staged
    refine h.claim placed (not_not.1 hfound) ⟨rfl, not_le.1 hway⟩ (fun q => ?_)
      (stageVictim_staged staged) fun cell q hq => ?_
    · rw [(stageVictim_same cfg _ _).line, hcache]
      rfl
    · refine (stageVictim_evictData hq).imp_left fun old => ?_
      rw [hcache] at old
      exact h.taken cell q old

theorem loadLines_evictData (slpn : Nat) (tick : Tick) (list : List (Nat × Nat × Nat))
    (acc : Tick × GenericCache) :
    (list.foldl (loadLine cfg slpn tick) acc).2.evictData = acc.2.evictData := by
  induction list generalizing acc with
  | nil => rfl
  | cons entry rest ih => exact ih (loadLine cfg slpn tick acc entry)

theorem fillCache_placed {hit : Bool} {arrived : Tick} {done : Tick × GenericCache}
    (h : Placed cfg s) (unstaged : Unstaged s)
    (run : fillCache cfg slpn hit arrived tick s = .ok done) :
    Placed cfg done.2 ∧ Unstaged done.2 := by
  obtain ⟨w, hfill, hdone⟩ := bind_eq_ok.1 run
  cases hdone
  obtain ⟨same, cells⟩ := readAhead_same cfg slpn s
  have none : Unstaged (readAhead cfg slpn s) := fun cell => by
    rw [cells]
    exact unstaged cell
  have start : Claiming cfg s (fillPages cfg slpn s) ⟨readAhead cfg slpn s, tick, []⟩ := by
    refine ⟨fun q _ => same.line q, fun cell q hq => ?_, none.staged, nofun, nofun,
      fillPages_nodup cfg slpn s⟩
    rw [none cell] at hq
    contradiction
  have claims : Claiming cfg s [] w :=
    foldlM_invariant (fun rest u => Claiming cfg s rest u)
      (fun lca rest u u' claims step => fillLine_claiming claims h step) hfill start
  obtain ⟨-, others, lines, -⟩ := loadLines_spec cfg (⟨fun _ => (), fun _ => ()⟩ : Contents Unit)
    slpn w.finishedAt w.readList (w.finishedAt, evictCache cfg w.finishedAt true w.cache)
    Option.none
  have old : ∀ q, q ∉ Fill.claimed w → (w.readList.foldl (loadLine cfg slpn w.finishedAt)
      (w.finishedAt, evictCache cfg w.finishedAt true w.cache)).2.line q = s.line q := fun q hq =>
    ((others q hq).1.trans (evictCells_others w.finishedAt cfg.cells w.cache claims.taken hq)).trans
      (claims.kept q hq)
  have distinct : ∀ q r lca, (lca, q) ∈ w.readList → (lca, r) ∈ w.readList → q = r := by
    intro q r lca hq hr
    have nodup := claims.pages
    rw [List.append_nil] at nodup
    exact congrArg Prod.snd (List.inj_on_of_nodup_map nodup hq hr rfl)
  have tags : ∀ q, q ∈ Fill.claimed w → ∃ lca, (lca, q) ∈ w.readList ∧
      ((w.readList.foldl (loadLine cfg slpn w.finishedAt)
        (w.finishedAt, evictCache cfg w.finishedAt true w.cache)).2.line q).tag = lca := by
    intro q claimed
    obtain ⟨-, lca, mem, tag, -⟩ := lines q claimed
    exact ⟨lca, mem, tag⟩
  refine ⟨h.take (· ∈ Fill.claimed w) old ?_ ?_ ?_, fun cell => ?_⟩
  · intro q claimed
    obtain ⟨lca, mem, tag⟩ := tags q claimed
    rw [tag]
    exact claims.place _ mem
  · intro q claimed r other valid
    obtain ⟨lca, mem, tag⟩ := tags q claimed
    rw [tag]
    exact claims.fresh _ mem r other valid
  · intro q r claimedQ claimedR same
    obtain ⟨lca, mem, tag⟩ := tags q claimedQ
    obtain ⟨lca', mem', tag'⟩ := tags r claimedR
    rw [tag, tag'] at same
    exact distinct q r lca mem (same ▸ mem')
  · rw [loadLines_evictData]
    exact (evictCache_spec claims.staged w.finishedAt true).2.1 cell

theorem Placed.found (h : Placed cfg s) (unstaged : Unstaged s) (found : Found s s') :
    Placed cfg s' ∧ Unstaged s' :=
  ⟨h.loses found.loses, fun cell => by
    rw [found.evictData]
    exact unstaged cell⟩

theorem read_placed {done : Bool × Tick × GenericCache} (h : Placed cfg s)
    (unstaged : Unstaged s) (run : read cfg req tick s = .ok done) :
    Placed cfg done.2.2 ∧ Unstaged done.2.2 := by
  unfold read at run
  by_cases on : cfg.useReadCaching = true
  · rw [if_pos on] at run
    have found := lookUp_found cfg req tick s
    have fills : ∀ {slpn hit arrived foundAt s₁ filled}, Found s s₁ →
        fillCache cfg slpn hit arrived foundAt s₁ = .ok filled →
          Placed cfg filled.2 ∧ Unstaged filled.2 := fun found fill =>
      fillCache_placed (h.found unstaged found).1 (h.found unstaged found).2 fill
    cases hlook : lookUp cfg req tick s with
    | hit hitAt s₁ =>
        rw [hlook] at run found
        cases run
        exact h.found unstaged found.1
    | prefetch slpn arrived foundAt s₁ =>
        rw [hlook] at run found
        obtain ⟨filled, hfill, hdone⟩ := bind_eq_ok.1 run
        cases hdone
        have after := fills found.1 hfill
        exact after
    | miss slpn foundAt s₁ =>
        rw [hlook] at run found
        obtain ⟨filled, hfill, hdone⟩ := bind_eq_ok.1 run
        cases hdone
        have after := fills found.1 hfill
        exact after
  · rw [if_neg on] at run
    cases run
    exact ⟨h.loses (.refl s), unstaged⟩

/-! ## What the eviction of a write frees -/

def StagesValid (s : GenericCache) : Prop :=
  ∀ cell p : Nat × Nat, s.evictData cell.1 cell.2 = some p → (s.line p).valid = true

theorem stageLine_valid (h : StagesValid s) (p : Nat × Nat) :
    StagesValid (stageLine cfg s p) := by
  unfold stageLine
  by_cases valid : (s.line p).valid = true
  · rw [if_pos valid]
    obtain ⟨choice, drawn, hdrawn⟩ := compareFunction_spec cfg
      (s.evictData (cfg.calcIOPosition (s.line p).tag).1 (cfg.calcIOPosition (s.line p).tag).2)
      (some p) s
    dsimp only
    rw [hdrawn]
    intro cell q hq
    rw [evictData_setEvict] at hq
    split_ifs at hq with here
    · rcases choice with old | new
      · exact h _ q (old ▸ hq)
      · obtain rfl : p = q := Option.some.inj (new.symm.trans hq)
        exact valid
    · exact h cell q hq
  · rw [if_neg valid]
    exact h

theorem mergeCell_valid (h : StagesValid s) (cell : Nat × Nat) :
    StagesValid (mergeCell cfg s cell) := by
  obtain ⟨choice, drawn, hdrawn⟩ := compareFunction_spec cfg (s.evictData cell.1 cell.2)
    (s.evictData cell.1 (cell.2 + 1)) s
  unfold mergeCell
  dsimp only
  rw [hdrawn]
  intro cell' q hq
  rw [evictData_setEvict, evictData_setEvict] at hq
  split_ifs at hq
  · rcases choice with first | second
    · exact h cell q (first ▸ hq)
    · exact h (cell.1, cell.2 + 1) q (second ▸ hq)
  · exact h cell' q hq

theorem mergeColumns_valid (h : StagesValid s) : StagesValid (mergeColumns cfg s) := by
  unfold mergeColumns
  split_ifs
  · exact List.foldlRecOn _ _ h fun s' valid cell _ => mergeCell_valid valid cell
  · exact h

theorem compareFunction_some (cfg : Config) (a : Option (Nat × Nat)) (q : Nat × Nat)
    (s : GenericCache) :
    (compareFunction cfg a (some q) s).1 = some q ∨
      ∃ p, a = some p ∧ (compareFunction cfg a (some q) s).1 = some p := by
  obtain ⟨choice, -⟩ := compareFunction_spec cfg a (some q) s
  cases a with
  | none => exact .inl rfl
  | some p => exact choice.symm.imp_right fun first => ⟨p, rfl, first⟩

/-- The line a set has to give up when none of its lines is staged. -/
def setVictim (cfg : Config) (setIdx : Nat) (s : GenericCache) :
    Option (Nat × Nat) × GenericCache :=
  (List.range cfg.waySize).foldl
    (fun (acc : Option (Nat × Nat) × GenericCache) way =>
      if (acc.2.line (setIdx, way)).valid then
        compareFunction cfg acc.1 (some (setIdx, way)) acc.2
      else acc) (none, s)

theorem victim_step {setIdx size way : Nat}
    (valid : (s.line (setIdx, size)).valid = true) (less : way < size) (drawn : Nat) :
    ∃ way' drawn', way' < size + 1 ∧
      (if (({ s with drawn := drawn } : GenericCache).line (setIdx, size)).valid then
        compareFunction cfg (some (setIdx, way)) (some (setIdx, size)) { s with drawn := drawn }
      else (some (setIdx, way), { s with drawn := drawn })) =
        (some (setIdx, way'), { s with drawn := drawn' }) := by
  have here : (({ s with drawn := drawn } : GenericCache).line (setIdx, size)).valid = true := valid
  rw [if_pos here]
  obtain ⟨-, drawn', hdrawn⟩ := compareFunction_spec cfg (some (setIdx, way))
    (some (setIdx, size)) { s with drawn := drawn }
  rcases compareFunction_some cfg (some (setIdx, way)) (setIdx, size)
    { s with drawn := drawn } with last | ⟨p, eqP, kept⟩
  · exact ⟨size, drawn', by omega, Prod.ext last hdrawn⟩
  · cases eqP
    exact ⟨way, drawn', by omega, Prod.ext kept hdrawn⟩

theorem setVictim_spec {setIdx : Nat} (some : 0 < cfg.waySize)
    (valid : ∀ way < cfg.waySize, (s.line (setIdx, way)).valid = true) :
    ∃ way drawn, way < cfg.waySize ∧
      setVictim cfg setIdx s = (.some (setIdx, way), { s with drawn := drawn }) := by
  unfold setVictim
  generalize cfg.waySize = size at some valid ⊢
  induction size with
  | zero => exact absurd some (lt_irrefl 0)
  | succ size ih =>
      rw [List.range_succ, List.foldl_append, List.foldl_cons, List.foldl_nil]
      rcases Nat.eq_zero_or_pos size with rfl | pos
      · have first := valid 0 Nat.one_pos
        rw [List.range_zero, List.foldl_nil, if_pos first]
        obtain ⟨-, drawn, hdrawn⟩ := compareFunction_spec cfg none (.some (setIdx, 0)) s
        exact ⟨0, drawn, Nat.one_pos, Prod.ext rfl hdrawn⟩
      · obtain ⟨way, drawn, less, eq⟩ := ih pos fun way lt => valid way (Nat.lt_succ_of_lt lt)
        rw [eq]
        exact victim_step (valid size (Nat.lt_succ_self size)) less drawn

theorem stageSet_stages_set {setIdx : Nat} (h : Placed cfg s) (stages : StagesValid s)
    (some : 0 < cfg.waySize)
    (full : ∀ way < cfg.waySize, (s.line (setIdx, way)).valid = true) :
    ∃ cell ∈ cfg.cells, ∃ way < cfg.waySize,
      (stageSet cfg setIdx s).evictData cell.1 cell.2 = .some (setIdx, way) := by
  unfold stageSet
  by_cases have' : haveSet cfg setIdx s = true
  · rw [if_pos have']
    obtain ⟨cell, mem, here⟩ := List.any_eq_true.1 have'
    cases hcell : s.evictData cell.1 cell.2 with
    | none =>
        rw [hcell] at here
        exact absurd here Bool.false_ne_true
    | some p =>
        rw [hcell] at here
        obtain ⟨set, way⟩ := h.home p (stages cell p hcell)
        refine ⟨cell, mem, p.2, way, hcell.trans (congrArg Option.some (Prod.ext ?_ rfl))⟩
        exact set.trans (beq_iff_eq.1 here)
  · rw [if_neg have']
    obtain ⟨way, drawn, less, eq⟩ := setVictim_spec some full
    unfold setVictim at eq
    dsimp only
    rw [eq]
    dsimp only
    refine ⟨cfg.calcIOPosition (s.line (setIdx, way)).tag, ?_, way, less, ?_⟩
    · rw [mem_cells, calcIOPosition_row]
      exact ⟨Nat.mod_lt _ (lineCountInSuperPage_pos cfg), calcIOPosition_col_lt cfg _⟩
    · exact (evictData_setEvict _ _ _ _).trans (if_pos rfl)

theorem stageColumns_stages (unstaged : Unstaged s) :
    Stages cfg s (mergeColumns cfg (cfg.ways.foldl (stageLine cfg) s)) := by
  have all : Stages cfg s (cfg.ways.foldl (stageLine cfg) s) :=
    stageAll_stages unstaged.staged cfg.ways
  have merged := mergeColumns_stages all.staged
  exact ⟨all.same.trans merged.same, merged.staged⟩

theorem evictForWrite_loses (unstaged : Unstaged s) (setIdx : Nat) (tick : Tick) :
    Loses s (evictForWrite cfg setIdx tick s) := by
  have merged : Stages cfg s _ := stageColumns_stages unstaged
  have set := stageSet_stages merged.staged setIdx
  exact (Loses.of_lines (merged.same.trans set.same).line).trans
    (evictCells_loses tick cfg.cells _)

theorem evictForWrite_frees (h : Placed cfg s) (unstaged : Unstaged s) (some : 0 < cfg.waySize)
    (setIdx : Nat) (tick : Tick) :
    ∃ way < cfg.waySize, ((evictForWrite cfg setIdx tick s).line (setIdx, way)).valid = false := by
  have merged : Stages cfg s _ := stageColumns_stages unstaged
  have set := stageSet_stages merged.staged setIdx
  by_cases full : ∀ way < cfg.waySize, (s.line (setIdx, way)).valid = true
  · have stages : StagesValid (mergeColumns cfg (cfg.ways.foldl (stageLine cfg) s)) := by
      refine mergeColumns_valid (List.foldlRecOn cfg.ways _ (fun cell p hp => ?_)
        fun s' valid p _ => stageLine_valid valid p)
      rw [unstaged cell] at hp
      contradiction
    obtain ⟨cell, mem, way, less, taken⟩ := stageSet_stages_set
      (h.loses (.of_lines merged.same.line)) stages some fun way less => by
        rw [merged.same.line]
        exact full way less
    exact ⟨way, less, evictCells_takes tick cfg.cells _ set.staged mem taken⟩
  · push Not at full
    obtain ⟨way, less, invalid⟩ := full
    exact ⟨way, less, eq_false_of_ne_true fun valid =>
      invalid (evictForWrite_loses unstaged setIdx tick _ valid).1⟩

/-! ## Write -/

theorem storeLine_line (dirty : Bool) (flash tick : Tick) (s : GenericCache) :
    (∀ q, q ≠ p → (storeLine cfg p req dirty flash tick s).2.line q = s.line q) ∧
      ((storeLine cfg p req dirty flash tick s).2.line p).tag = req.slpn ∧
      (storeLine cfg p req dirty flash tick s).2.evictData = s.evictData := by
  refine ⟨fun q other => ?_, ?_, rfl⟩
  · exact (line_setLine p q _ _).trans (if_neg other)
  · exact congrArg Line.tag ((line_setLine p p _ _).trans (if_pos rfl))

def sentFor (cfg : Config) (req : Request) (tick : Tick) (s : GenericCache) :
    Tick × GenericCache :=
  if req.length < cfg.lineSize then (tick, s)
  else access cfg (.ftlWrite (cfg.reqInternal req.slpn)) tick s

/-- The cache after the eviction of a write that finds neither its page nor an empty way,
and the tick the eviction began at. -/
def evictedFor (cfg : Config) (req : Request) (tick : Tick) (s : GenericCache) :
    Option (Tick × GenericCache) :=
  let setIdx := cfg.calcSetIndex req.slpn
  let sent := (sentFor cfg req tick s).2
  let found := getValidWay cfg req.slpn tick sent
  let empty := getEmptyWay cfg setIdx found.2 sent
  if cfg.useWriteCaching ∧ found.1 = cfg.waySize ∧ empty.1 = cfg.waySize then
    let tick := cfg.sum empty.2 (cfg.cacheLatency * cfg.setSize * cfg.waySize * 8)
    some (tick, evictForWrite cfg setIdx tick sent)
  else none

theorem sentFor_same (cfg : Config) (req : Request) (tick : Tick) (s : GenericCache) :
    (∀ q, (sentFor cfg req tick s).2.line q = s.line q) ∧
      (sentFor cfg req tick s).2.evictData = s.evictData := by
  unfold sentFor
  split_ifs
  · exact ⟨fun _ => rfl, rfl⟩
  · exact ⟨fun _ => rfl, rfl⟩

theorem sentFor_eq (cfg : Config) (req : Request) (tick : Tick) (s : GenericCache) :
    (if decide (req.length < cfg.lineSize) = true then (tick, s)
      else access cfg (.ftlWrite (cfg.reqInternal req.slpn)) tick s) = sentFor cfg req tick s := by
  simp only [sentFor, decide_eq_true_eq]

theorem Unstaged.sent (h : Unstaged s) (req : Request) (tick : Tick) :
    Unstaged (sentFor cfg req tick s).2 := fun cell => by
  rw [(sentFor_same cfg req tick s).2]
  exact h cell

theorem Placed.sent (h : Placed cfg s) (req : Request) (tick : Tick) :
    Placed cfg (sentFor cfg req tick s).2 :=
  h.loses (.of_lines (sentFor_same cfg req tick s).1)

theorem Placed.store {way : Nat} {dirty : Bool} {flash : Tick} (h : Placed cfg s)
    (less : way < cfg.waySize)
    (only : ∀ q, q ≠ (cfg.calcSetIndex req.slpn, way) → (s.line q).valid = true →
      (s.line q).tag ≠ req.slpn) :
    Placed cfg (storeLine cfg (cfg.calcSetIndex req.slpn, way) req dirty flash tick s).2 :=
  h.put (storeLine_line dirty flash tick s).1 (storeLine_line dirty flash tick s).2.1
    ⟨rfl, less⟩ only

/-- A write without an eviction stores its data and keeps the lines in their places. -/
theorem write_unevicted (h : Placed cfg s) (unstaged : Unstaged s)
    (none : evictedFor cfg req tick s = none) :
    ∃ done, write cfg req tick s = .ok done ∧ Placed cfg done.2.2 ∧ Unstaged done.2.2 := by
  have placed := h.sent req tick
  have clear : Unstaged (sentFor cfg req tick s).2 := unstaged.sent req tick
  unfold evictedFor at none
  unfold write
  simp only [sentFor_eq] at none ⊢
  by_cases caching : cfg.useWriteCaching = true
  · rw [if_pos caching]
    by_cases found : (getValidWay cfg req.slpn tick (sentFor cfg req tick s).2).1 = cfg.waySize
    · rw [if_neg (not_not.2 found)]
      by_cases empty : (getEmptyWay cfg (cfg.calcSetIndex req.slpn)
          (getValidWay cfg req.slpn tick (sentFor cfg req tick s).2).2
          (sentFor cfg req tick s).2).1 = cfg.waySize
      · rw [if_pos ⟨caching, found, empty⟩] at none
        cases none
      · rw [if_pos empty]
        refine ⟨_, rfl, placed.store (getEmptyWay_spec empty).1 fun q _ valid => ?_, clear⟩
        exact placed.absent found q valid
    · rw [if_pos found]
      obtain ⟨less, valid, tag⟩ := getValidWay_spec found
      refine ⟨_, rfl, placed.store less fun q other validQ tagQ => other ?_, clear⟩
      exact placed.unique q _ validQ valid (tagQ.trans tag.symm)
  · rw [if_neg caching]
    refine ⟨_, rfl, placed.loses ?_, ?_⟩
    · split_ifs
      · exact .refl _
      · exact .refl _
    · split_ifs
      · exact clear
      · exact clear

theorem evictedFor_eq_some {evicted : Tick × GenericCache}
    (evicts : evictedFor cfg req tick s = some evicted) :
    cfg.useWriteCaching = true ∧
      (getValidWay cfg req.slpn tick (sentFor cfg req tick s).2).1 = cfg.waySize ∧
      (getEmptyWay cfg (cfg.calcSetIndex req.slpn)
        (getValidWay cfg req.slpn tick (sentFor cfg req tick s).2).2
        (sentFor cfg req tick s).2).1 = cfg.waySize ∧
      evicted = (evicted.1, evictForWrite cfg (cfg.calcSetIndex req.slpn) evicted.1
        (sentFor cfg req tick s).2) ∧
      evicted.1 = cfg.sum (getEmptyWay cfg (cfg.calcSetIndex req.slpn)
        (getValidWay cfg req.slpn tick (sentFor cfg req tick s).2).2
        (sentFor cfg req tick s).2).2 (cfg.cacheLatency * cfg.setSize * cfg.waySize * 8) := by
  unfold evictedFor at evicts
  dsimp only at evicts
  split_ifs at evicts with misses
  cases evicts
  exact ⟨misses.1, misses.2.1, misses.2.2, rfl, rfl⟩

theorem evictedFor_frees (h : Placed cfg s) (unstaged : Unstaged s) (some : 0 < cfg.waySize)
    {evicted : Tick × GenericCache} (evicts : evictedFor cfg req tick s = .some evicted) :
    ∃ way < cfg.waySize, (evicted.2.line (cfg.calcSetIndex req.slpn, way)).valid = false := by
  obtain ⟨-, -, -, eq, -⟩ := evictedFor_eq_some evicts
  rw [eq]
  exact evictForWrite_frees (h.sent req tick) (unstaged.sent req tick) some
    (cfg.calcSetIndex req.slpn) evicted.1

theorem write_evicted (h : Placed cfg s) (unstaged : Unstaged s) {evicted : Tick × GenericCache}
    (evicts : evictedFor cfg req tick s = some evicted) :
    (getEmptyWay cfg (cfg.calcSetIndex req.slpn) evicted.1 evicted.2).1 = cfg.waySize ∧
      write cfg req tick s = .error (.panic "Cache corrupted!") ∨
    ∃ done, write cfg req tick s = .ok done ∧ Placed cfg done.2.2 ∧ Unstaged done.2.2 := by
  obtain ⟨caching, found, empty, eq, at'⟩ := evictedFor_eq_some evicts
  have clear : Unstaged (sentFor cfg req tick s).2 := unstaged.sent req tick
  have placed := h.sent req tick
  have loses : Loses (sentFor cfg req tick s).2 evicted.2 := by
    rw [eq]
    exact evictForWrite_loses clear (cfg.calcSetIndex req.slpn) evicted.1
  have unstaged' : Unstaged evicted.2 := by
    rw [eq]
    exact (evictForWrite_saves clear (cfg.calcSetIndex req.slpn) evicted.1).2
  unfold write
  simp only [sentFor_eq]
  rw [if_pos caching, if_neg (not_not.2 found), if_neg (not_not.2 empty), ← at']
  have cache : evictForWrite cfg (cfg.calcSetIndex req.slpn) evicted.1
      (sentFor cfg req tick s).2 = evicted.2 := (congrArg Prod.snd eq).symm
  rw [cache]
  by_cases freed : (getEmptyWay cfg (cfg.calcSetIndex req.slpn) evicted.1 evicted.2).1 =
      cfg.waySize
  · rw [if_pos freed]
    exact .inl ⟨freed, rfl⟩
  · rw [if_neg freed]
    refine .inr ⟨_, rfl, (placed.loses loses).put (p := (cfg.calcSetIndex req.slpn, _))
      (fun q other => ?_) ?_ ⟨rfl, (getEmptyWay_spec freed).1⟩ fun q _ valid => ?_, unstaged'⟩
    · exact (line_setLine _ q _ _).trans (if_neg other)
    · exact congrArg Line.tag ((line_setLine _ _ _ _).trans (if_pos rfl))
    · obtain ⟨old, tag⟩ := loses q valid
      rw [tag]
      exact placed.absent found q old

def lesser (key : Nat → Nat) (eligible : Nat → Bool) (best : Nat × Nat) (way : Nat) : Nat × Nat :=
  if eligible way && decide (key way < best.2) then (way, key way) else best

section Lesser

variable {key : Nat → Nat} {eligible : Nat → Bool} {way : Nat}

theorem lesser_le (best : Nat × Nat) (way : Nat) : (lesser key eligible best way).2 ≤ best.2 := by
  unfold lesser
  split_ifs with better
  · rw [Bool.and_eq_true, decide_eq_true_eq] at better
    exact better.2.le
  · exact le_refl _

theorem lesser_least (best : Nat × Nat) (isEligible : eligible way = true) :
    (lesser key eligible best way).2 ≤ key way := by
  unfold lesser
  split_ifs with better
  · exact le_refl _
  · simp only [isEligible, Bool.true_and, decide_eq_true_eq, not_lt] at better
    exact better

theorem lessers_le (ways : List Nat) (best : Nat × Nat) :
    (ways.foldl (lesser key eligible) best).2 ≤ best.2 := by
  induction ways generalizing best with
  | nil => exact le_refl _
  | cons first rest ih => exact (ih _).trans (lesser_le best first)

theorem lessers_least {ways : List Nat} (best : Nat × Nat) (mem : way ∈ ways)
    (isEligible : eligible way = true) :
    (ways.foldl (lesser key eligible) best).2 ≤ key way := by
  induction ways generalizing best with
  | nil => exact absurd mem List.not_mem_nil
  | cons first rest ih =>
      rcases List.mem_cons.1 mem with rfl | later
      · exact (lessers_le rest _).trans (lesser_least best isEligible)
      · exact ih _ later

theorem minWay_found (start : Nat) {ways : List Nat} (outside : start ∉ ways) (mem : way ∈ ways)
    (isEligible : eligible way = true) (less : key way < wordSize - 1) :
    (minWay key eligible start ways).1 ≠ start := by
  have least : (minWay key eligible start ways).2 ≤ key way :=
    lessers_least (start, wordSize - 1) mem isEligible
  have kept : (minWay key eligible start ways).1 = start →
      (minWay key eligible start ways).2 = wordSize - 1 := by
    unfold minWay
    refine List.foldlRecOn ways _ (motive := fun best : Nat × Nat =>
      best.1 = start → best.2 = wordSize - 1) (fun _ => rfl) ?_
    intro best hbest way' hway
    split_ifs
    · exact fun same => absurd (same ▸ hway) outside
    · exact hbest
  intro none
  rw [kept none] at least
  exact absurd less (not_lt.2 least)

end Lesser

theorem getEmptyWay_found {setIdx way : Nat} (less : way < cfg.waySize)
    (invalid : (s.line (setIdx, way)).valid = false)
    (stamped : (s.line (setIdx, way)).insertedAt < wordSize - 1) :
    (getEmptyWay cfg setIdx tick s).1 ≠ cfg.waySize := by
  refine minWay_found _ (fun mem => absurd (List.mem_range.1 mem) (lt_irrefl _))
    (List.mem_range.2 less) ?_ stamped
  rw [Bool.not_eq_true']
  exact invalid

/-! ## Flush, trim and format -/

structure Invalidates (s s' : GenericCache) : Prop where
  lines : ∀ q, s'.line q = s.line q ∨ (s'.line q).valid = false
  evictData : s'.evictData = s.evictData

theorem Invalidates.refl (s : GenericCache) : Invalidates s s := ⟨fun _ => .inl rfl, rfl⟩

theorem Invalidates.trans (h : Invalidates s s') (h' : Invalidates s' s'') :
    Invalidates s s'' := by
  refine ⟨fun q => ?_, h'.evictData.trans h.evictData⟩
  rcases h'.lines q with same | invalid
  · rw [same]
    exact h.lines q
  · exact .inr invalid

theorem Invalidates.loses (h : Invalidates s s') : Loses s s' := by
  intro q valid
  have same := (h.lines q).resolve_right fun invalid =>
    Bool.false_ne_true (invalid.symm.trans valid)
  rw [same] at valid ⊢
  exact ⟨valid, rfl⟩

theorem invalidates_of_line {c : Prop} [Decidable c] (evictData : s'.evictData = s.evictData)
    (lines : ∀ q, s'.line q =
      if q = p ∧ c then { s.line p with valid := false } else s.line q) : Invalidates s s' := by
  refine ⟨fun q => ?_, evictData⟩
  rw [lines]
  split_ifs
  · exact .inr rfl
  · exact .inl rfl

theorem flush_invalidates (range : LPNRange) (tick : Tick) (s : GenericCache) :
    Invalidates s (flush cfg range tick s).2 := by
  unfold flush
  dsimp only
  split_ifs
  · refine List.foldlRecOn (motive := fun w : Sweep => Invalidates s w.cache) cfg.ways _
      (.refl s) fun w h p _ => h.trans (invalidates_of_line ?_ (flushLine_line w p))
    unfold flushLine
    dsimp only
    split_ifs <;> rfl
  · exact .refl s

theorem trim_invalidates (range : LPNRange) (tick : Tick) (s : GenericCache) :
    Invalidates s (trim cfg range tick s).2 := by
  have line : ∀ (w : Sweep) p, Invalidates w.cache (trimLine cfg range w p).cache := by
    intro w p
    unfold trimLine
    dsimp only
    split_ifs
    · refine ⟨fun q => ?_, rfl⟩
      refine (line_setLine p q _ _).symm ▸ ?_
      split_ifs
      · exact .inr rfl
      · exact .inl rfl
    · exact .refl w.cache
  unfold trim
  dsimp only
  split_ifs
  · exact List.foldlRecOn (motive := fun w : Sweep => Invalidates s w.cache) cfg.ways _
      (.refl s) fun w h p _ => h.trans (line w p)
  · exact .refl s

theorem format_invalidates (range : LPNRange) (tick : Tick) (s : GenericCache) :
    Invalidates s (format cfg range tick s).2 := by
  have line : ∀ acc lpn, Invalidates acc.2 (formatLine cfg acc lpn).2 := by
    intro acc lpn
    unfold formatLine
    dsimp only
    split_ifs
    · refine ⟨fun q => ?_, rfl⟩
      rw [line_setLine]
      split_ifs
      · exact .inr rfl
      · exact .inl rfl
    · exact .refl acc.2
  have lines : ∀ pages acc, Invalidates acc.2 (List.foldl (formatLine cfg) acc pages).2 := by
    intro pages
    induction pages with
    | nil => exact fun acc => .refl acc.2
    | cons lpn rest ih => exact fun acc => (line acc lpn).trans (ih _)
  unfold format
  dsimp only
  split_ifs
  · exact (lines _ (tick, s)).trans ⟨fun _ => .inl rfl, rfl⟩
  · exact ⟨fun _ => .inl rfl, rfl⟩

/-! ## Runs -/

inductive Call where
  | read (req : Request) (tick : Tick)
  | write (req : Request) (tick : Tick)
  | flush (range : LPNRange) (tick : Tick)
  | trim (range : LPNRange) (tick : Tick)
  | format (range : LPNRange) (tick : Tick)
  deriving DecidableEq, Repr

def Call.apply (cfg : Config) (s : GenericCache) : Call → Except Fault GenericCache
  | .read req tick => do
      let done ← GenericCache.read cfg req tick s
      .ok done.2.2
  | .write req tick => do
      let done ← GenericCache.write cfg req tick s
      .ok done.2.2
  | .flush range tick => .ok (GenericCache.flush cfg range tick s).2
  | .trim range tick => .ok (GenericCache.trim cfg range tick s).2
  | .format range tick => .ok (GenericCache.format cfg range tick s).2

def runCalls (cfg : Config) (calls : List Call) (s : GenericCache) : Except Fault GenericCache :=
  calls.foldlM (Call.apply cfg) s

/-- No line that the eviction of a write empties in its set is stamped with the largest
tick, which `getEmptyWay` does not look below. -/
def Call.InTime (cfg : Config) (s : GenericCache) : Call → Prop
  | .write req tick => ∀ evicted, evictedFor cfg req tick s = some evicted →
      ∀ way < cfg.waySize, (evicted.2.line (cfg.calcSetIndex req.slpn, way)).valid = false →
        (evicted.2.line (cfg.calcSetIndex req.slpn, way)).insertedAt < wordSize - 1
  | _ => True

def InTime (cfg : Config) (s : GenericCache) : List Call → Prop
  | [] => True
  | call :: rest => call.InTime cfg s ∧ ∀ s', call.apply cfg s = .ok s' → InTime cfg s' rest

theorem construct_placed (cfg : Config) : Placed cfg construct ∧ Unstaged construct :=
  ⟨⟨fun _ valid => absurd valid Bool.false_ne_true,
    fun _ _ valid => absurd valid Bool.false_ne_true⟩, fun _ => rfl⟩

theorem apply_placed {call : Call} (h : Placed cfg s ∧ Unstaged s)
    (step : call.apply cfg s = .ok s') : Placed cfg s' ∧ Unstaged s' := by
  have invalidated : ∀ {u}, Invalidates s u → Placed cfg u ∧ Unstaged u := fun drops =>
    ⟨h.1.loses drops.loses, fun cell => by
      rw [drops.evictData]
      exact h.2 cell⟩
  cases call with
  | read req tick =>
      obtain ⟨done, hread, hdone⟩ := bind_eq_ok.1 step
      cases hdone
      exact read_placed h.1 h.2 hread
  | write req tick =>
      obtain ⟨done, hwrite, hdone⟩ := bind_eq_ok.1 step
      cases hdone
      cases hevicts : evictedFor cfg req tick s with
      | none =>
          obtain ⟨written, same, placed⟩ := write_unevicted h.1 h.2 hevicts
          cases same.symm.trans hwrite
          exact placed
      | some evicted =>
          rcases write_evicted h.1 h.2 hevicts with ⟨-, fails⟩ | ⟨written, same, placed⟩
          · cases fails.symm.trans hwrite
          · cases same.symm.trans hwrite
            exact placed
  | flush range tick =>
      cases step
      exact invalidated (flush_invalidates range tick s)
  | trim range tick =>
      cases step
      exact invalidated (trim_invalidates range tick s)
  | format range tick =>
      cases step
      exact invalidated (format_invalidates range tick s)

theorem apply_total {call : Call} (h : Placed cfg s ∧ Unstaged s)
    (choice : ∀ setIdx tick s, (evictFunction cfg setIdx tick s).1 < cfg.waySize)
    (inTime : call.InTime cfg s) : ∃ s', call.apply cfg s = .ok s' := by
  cases call with
  | read req tick =>
      obtain ⟨done, hread⟩ := read_total choice req tick s
      exact ⟨_, bind_eq_ok.2 ⟨done, hread, rfl⟩⟩
  | write req tick =>
      have some : 0 < cfg.waySize := (Nat.zero_le _).trans_lt (choice 0 0 s)
      cases hevicts : evictedFor cfg req tick s with
      | none =>
          obtain ⟨done, hwrite, -⟩ := write_unevicted h.1 h.2 hevicts
          exact ⟨_, bind_eq_ok.2 ⟨done, hwrite, rfl⟩⟩
      | some evicted =>
          rcases write_evicted h.1 h.2 hevicts with ⟨full, -⟩ | ⟨done, hwrite, -⟩
          · obtain ⟨way, less, invalid⟩ := evictedFor_frees h.1 h.2 some hevicts
            have stamped := inTime evicted hevicts way less invalid
            exact absurd full (getEmptyWay_found less invalid stamped)
          · exact ⟨_, bind_eq_ok.2 ⟨done, hwrite, rfl⟩⟩
  | flush range tick => exact ⟨_, rfl⟩
  | trim range tick => exact ⟨_, rfl⟩
  | format range tick => exact ⟨_, rfl⟩

theorem runCalls_placed {calls : List Call} (h : Placed cfg s ∧ Unstaged s)
    (hrun : runCalls cfg calls s = .ok s') : Placed cfg s' ∧ Unstaged s' :=
  foldlM_invariant_mem (fun u => Placed cfg u ∧ Unstaged u)
    (fun _ _ _ _ h step => apply_placed h step) hrun h

theorem runCalls_total {calls : List Call} (h : Placed cfg s ∧ Unstaged s)
    (choice : ∀ setIdx tick s, (evictFunction cfg setIdx tick s).1 < cfg.waySize)
    (inTime : InTime cfg s calls) : ∃ s', runCalls cfg calls s = .ok s' := by
  induction calls generalizing s with
  | nil => exact ⟨s, rfl⟩
  | cons call rest ih =>
      obtain ⟨mid, first⟩ := apply_total h choice inTime.1
      obtain ⟨s', later⟩ := ih (apply_placed h first) (inTime.2 mid first)
      exact ⟨s', List.foldlM_cons.trans (bind_eq_ok.2 ⟨mid, first, later⟩)⟩

/-- Whatever is called in whatever order: pages are in one line each, lines in their sets,
nothing is staged, the eviction of a write frees a way of its set, and no call fails as
long as the ways it frees are stamped below the largest tick. -/
theorem lines_placed (cfg : Config)
    (choice : ∀ setIdx tick s, (evictFunction cfg setIdx tick s).1 < cfg.waySize)
    (calls : List Call) :
    (∀ s, runCalls cfg calls construct = .ok s → Placed cfg s ∧ Unstaged s ∧
      ∀ req tick evicted, evictedFor cfg req tick s = some evicted →
        ∃ way < cfg.waySize, (evicted.2.line (cfg.calcSetIndex req.slpn, way)).valid = false) ∧
    (InTime cfg construct calls → ∃ s, runCalls cfg calls construct = .ok s) := by
  refine ⟨fun s hrun => ?_, runCalls_total (construct_placed cfg) choice⟩
  obtain ⟨placed, unstaged⟩ := runCalls_placed (construct_placed cfg) hrun
  have some : 0 < cfg.waySize := (Nat.zero_le _).trans_lt (choice 0 0 s)
  exact ⟨placed, unstaged, fun req tick evicted evicts =>
    evictedFor_frees placed unstaged some evicts⟩

theorem lines_placed_oneLine : ∃ s, runCalls oneLine
    [.write ⟨0, 512, 0⟩ 0, .write ⟨0, 512, 1⟩ 9, .trim ⟨0, 1⟩ 30] construct = .ok s := by
  refine (lines_placed oneLine (fun setIdx tick s => ?_) _).2 ?_
  · exact evictFunction_lt (by decide) (fun random => absurd random (by decide)) setIdx tick s
  · refine ⟨fun evicted evicts => ?_, fun s₁ first => ⟨fun evicted evicts way less _ => ?_,
      fun _ _ => ⟨trivial, fun _ _ => trivial⟩⟩⟩
    · have none : evictedFor oneLine ⟨0, 512, 0⟩ 0 construct = none := rfl
      cases none.symm.trans evicts
    · obtain rfl := Except.ok.inj first
      obtain rfl := Option.some.inj evicts
      obtain rfl : way = 0 := Nat.lt_one_iff.1 less
      decide +kernel

def instantLine : Config :=
  { oneLine with cacheLatency := 0, finish := fun _ _ tick => tick }

/-- A line that is emptied at the largest tick is not found again. -/
theorem corrupted_at_largest_tick : ¬ ∀ cfg : Config,
    (∀ setIdx tick s, (evictFunction cfg setIdx tick s).1 < cfg.waySize) →
      ∀ calls message, runCalls cfg calls construct ≠ .error (.panic message) := by
  intro all
  refine all instantLine (fun setIdx tick s => ?_)
    [.write ⟨0, 512, 0⟩ 0, .write ⟨0, 512, 1⟩ (wordSize - 1)] "Cache corrupted!" ?_
  · exact evictFunction_lt (by decide) (fun random => absurd random (by decide)) setIdx tick s
  · rfl

end SimpleSSD.ICL.GenericCache
