import SimpleSSD.ICL.Staging

/-!
# Write-back of dirty data

Writes, flushes and eviction passes send dirty data to the flash before they
drop it.  A read that has to evict cleans its victim before the eviction pass
looks at it, so dirty data survives a run exactly as long as no read chooses a
dirty victim.
-/

namespace SimpleSSD.ICL.GenericCache

open SimpleSSD.Foundation

variable {cfg : Config} {s s' : GenericCache} {p : Nat × Nat} {tick tick' : Tick}
  {lca slpn : Nat} {req : Request} {range : LPNRange}

/-! ## Read -/

/-- The way `fillLine` would evict for a page is not a dirty one. -/
def cleanVictim (cfg : Config) (tick : Tick) (s : GenericCache) (lca : Nat) : Bool :=
  let setIdx := cfg.calcSetIndex lca
  let found := getValidWay cfg lca tick s
  let empty := getEmptyWay cfg setIdx found.2 s
  let victim := s.line (setIdx, (evictFunction cfg setIdx empty.2 s).1)
  found.1 != cfg.waySize || empty.1 != cfg.waySize || !(victim.valid && victim.dirty)

def cleanVictims (cfg : Config) (tick : Tick) (w : Fill) : List Nat → Bool
  | [] => true
  | lca :: rest =>
      cleanVictim cfg tick w.cache lca &&
        match fillLine cfg tick w lca with
        | .ok w' => cleanVictims cfg tick w' rest
        | .error _ => true

def cleanRead (cfg : Config) (req : Request) (tick : Tick) (s : GenericCache) : Bool :=
  let cleanFill := fun slpn tick s =>
    cleanVictims cfg tick ⟨readAhead cfg slpn s, tick, []⟩ (fillPages cfg slpn s)
  if cfg.useReadCaching then
    match lookUp cfg req tick s with
    | .hit _ _ => true
    | .prefetch slpn _ tick s => cleanFill slpn tick s
    | .miss slpn tick s => cleanFill slpn tick s
  else true

/-- While a fill that began in `s` chooses its lines. -/
structure Filling (cfg : Config) (s : GenericCache) (w : Fill) : Prop where
  saves : Saves cfg s w.cache
  staged : Staged cfg w.cache
  clean : ∀ entry ∈ w.readList, (w.cache.line entry.2).dirty = false

theorem claimLine_filling {w : Fill} {beginAt : Tick} (h : Filling cfg s w)
    (hclean : ((w.cache.line p).valid && (w.cache.line p).dirty) = false) :
    Filling cfg s (claimLine lca p beginAt w) := by
  have hline : ∀ q, ((claimLine lca p beginAt w).cache.line q).dirty =
      if q = p then false else (w.cache.line q).dirty := by
    intro q
    unfold claimLine
    rw [line_setLine]
    split_ifs <;> rfl
  refine ⟨h.saves.trans (saves_setLine hclean), h.staged.mono (fun cell => .inr rfl) ?_, ?_⟩
  · intro q tag hd
    have hdirty := hd.2.1
    rw [hline] at hdirty
    split_ifs at hdirty with hq
    simpa only [Dirty, claimLine, line_setLine, if_neg hq] using hd
  · intro entry hentry
    rw [hline]
    split_ifs with hq
    · rfl
    · rcases List.mem_append.1 hentry with hold | hnew
      · exact h.clean entry hold
      · exact absurd (congrArg Prod.snd (List.mem_singleton.1 hnew)) hq

theorem stageVictim_same (cfg : Config) (p : Nat × Nat) (s : GenericCache) :
    SameLines s (stageVictim cfg p s) := by
  unfold stageVictim
  split_ifs
  · exact ⟨rfl, rfl⟩
  · exact ⟨rfl, rfl⟩

theorem stageVictim_staged (h : Staged cfg s) : Staged cfg (stageVictim cfg p s) := by
  unfold stageVictim
  split_ifs
  · exact h.setEvict fun tag hd => hd.2.2.symm
  · exact h

theorem fillLine_filling {w w' : Fill} (h : Filling cfg s w)
    (hclean : cleanVictim cfg tick w.cache lca = true)
    (run : fillLine cfg tick w lca = .ok w') : Filling cfg s w' := by
  unfold fillLine at run
  dsimp only at run
  split_ifs at run with hfound hempty hway
  · cases run
    exact h
  · cases run
    refine claimLine_filling h ?_
    rw [(getEmptyWay_spec hempty).2, Bool.false_and]
  · cases run
    simp only [cleanVictim, not_not.1 hfound, not_not.1 hempty, bne_self_eq_false,
      Bool.false_or, Bool.not_eq_true'] at hclean
    obtain ⟨drawn, hcache⟩ := evictFunction_spec cfg (cfg.calcSetIndex lca)
      (getEmptyWay cfg (cfg.calcSetIndex lca) (getValidWay cfg lca tick w.cache).2 w.cache).2
      w.cache
    generalize evictFunction cfg (cfg.calcSetIndex lca)
      (getEmptyWay cfg (cfg.calcSetIndex lca) (getValidWay cfg lca tick w.cache).2 w.cache).2
      w.cache = victim at *
    have hdrawn : SameLines w.cache victim.2.2 := by
      rw [hcache]
      exact ⟨rfl, rfl⟩
    have hstaged : Staged cfg victim.2.2 := by
      rw [hcache]
      exact h.staged
    have hsame := hdrawn.trans (stageVictim_same cfg (cfg.calcSetIndex lca, victim.1) _)
    refine claimLine_filling ⟨h.saves.trans hsame.saves, stageVictim_staged hstaged,
      fun entry hentry => ?_⟩ ?_
    · rw [hsame.line]
      exact h.clean entry hentry
    · rw [hsame.line]
      exact hclean

theorem fillLines_filling {w w' : Fill} {pages : List Nat} (h : Filling cfg s w)
    (hclean : cleanVictims cfg tick w pages = true)
    (run : pages.foldlM (fillLine cfg tick) w = .ok w') : Filling cfg s w' := by
  refine (foldlM_invariant (fun rest w =>
    Filling cfg s w ∧ cleanVictims cfg tick w rest = true) ?_ run ⟨h, hclean⟩).1
  rintro lca rest w w' ⟨hw, hrest⟩ hstep
  simp only [cleanVictims, Bool.and_eq_true, hstep] at hrest
  exact ⟨fillLine_filling hw hrest.1 hstep, hrest.2⟩

theorem loadLines_saves (slpn : Nat) (tick : Tick) {list : List (Nat × Nat × Nat)}
    (acc : Tick × GenericCache)
    (hclean : ∀ entry ∈ list, (acc.2.line entry.2).dirty = false) (hunstaged : Unstaged acc.2) :
    Saves cfg acc.2 (list.foldl (loadLine cfg slpn tick) acc).2 ∧
      Unstaged (list.foldl (loadLine cfg slpn tick) acc).2 := by
  induction list generalizing acc with
  | nil => exact ⟨.refl _, hunstaged⟩
  | cons entry rest ih =>
      have hentry := hclean entry List.mem_cons_self
      have hstep : Saves cfg acc.2 (loadLine cfg slpn tick acc entry).2 := by
        refine ((saves_access _ acc.2).trans (saves_access _ _)).trans
          (saves_setLine ?_)
        change ((acc.2.line entry.2).valid && (acc.2.line entry.2).dirty) = false
        rw [hentry, Bool.and_false]
      have hrest : ∀ other ∈ rest,
          ((loadLine cfg slpn tick acc entry).2.line other.2).dirty = false := by
        intro other hother
        unfold loadLine
        rw [line_setLine]
        split_ifs
        · exact hentry
        · exact hclean other (List.mem_cons_of_mem entry hother)
      obtain ⟨hsaves, hdone⟩ := ih (loadLine cfg slpn tick acc entry) hrest hunstaged
      exact ⟨hstep.trans hsaves, hdone⟩

theorem fillCache_saves {hit : Bool} {arrived : Tick} (h : Unstaged s)
    (hclean : cleanVictims cfg tick ⟨readAhead cfg slpn s, tick, []⟩ (fillPages cfg slpn s) =
      true)
    (run : fillCache cfg slpn hit arrived tick s = .ok (tick', s')) :
    Saves cfg s s' ∧ Unstaged s' := by
  obtain ⟨w, hfill, hloaded⟩ := bind_eq_ok.1 run
  cases hloaded
  have hahead : SameLines s (readAhead cfg slpn s) ∧ Unstaged (readAhead cfg slpn s) := by
    unfold readAhead
    split_ifs
    · exact ⟨⟨rfl, rfl⟩, h⟩
    · exact ⟨⟨rfl, rfl⟩, h⟩
  have hstart : Filling cfg s ⟨readAhead cfg slpn s, tick, []⟩ :=
    ⟨hahead.1.saves, hahead.2.staged, fun _ hentry => absurd hentry List.not_mem_nil⟩
  have hfilled := fillLines_filling hstart hclean hfill
  obtain ⟨hevicted, hunstaged, hcleans⟩ :=
    evictCache_spec hfilled.staged w.finishedAt true
  have hclean' : ∀ entry ∈ w.readList,
      ((evictCache cfg w.finishedAt true w.cache).line entry.2).dirty = false := by
    intro entry hentry
    rcases hcleans entry.2 with hsame | hclean
    · rw [hsame]
      exact hfilled.clean entry hentry
    · exact hclean
  obtain ⟨hloaded, hdone⟩ := loadLines_saves slpn w.finishedAt
    (w.finishedAt, evictCache cfg w.finishedAt true w.cache) hclean' hunstaged
  exact ⟨(hfilled.saves.trans hevicted).trans hloaded, hdone⟩

theorem lookUp_saves (cfg : Config) (req : Request) (tick : Tick) (h : Unstaged s) :
    match lookUp cfg req tick s with
    | .hit _ s' => Saves cfg s s' ∧ Unstaged s'
    | .prefetch _ _ _ s' => Saves cfg s s' ∧ Unstaged s'
    | .miss _ _ s' => Saves cfg s s' ∧ Unstaged s' := by
  have hchecked : ∀ detect, SameLines s { s with readDetect := detect } := fun _ => ⟨rfl, rfl⟩
  have hhit : ∀ (s : GenericCache) p at' size tick, Saves cfg s (access cfg (.dramRead size) tick
      (s.setLine p { s.line p with lastAccessed := at' })).2 := by
    refine fun s p at' size tick => ⟨[_], rfl, fun q tag hd => .inl ?_⟩
    change Dirty (s.setLine p _) q tag
    unfold Dirty at hd ⊢
    rw [line_setLine]
    split_ifs with hq
    · exact hq ▸ hd
    · exact hd
  unfold lookUp
  by_cases hprefetch : cfg.useReadPrefetch = true
  · simp only [hprefetch, if_true, Bool.true_and]
    split_ifs
    · exact ⟨(hchecked _).saves.trans (hhit _ _ _ _ _), h⟩
    · exact ⟨(hchecked _).saves.trans (hhit _ _ _ _ _), h⟩
    · exact ⟨(hchecked _).saves, h⟩
  · simp only [hprefetch, Bool.false_eq_true, if_false, Bool.false_and]
    split_ifs
    · exact ⟨hhit _ _ _ _ _, h⟩
    · exact ⟨.refl s, h⟩

theorem read_saves {hit : Bool} (h : Unstaged s) (hclean : cleanRead cfg req tick s = true)
    (run : read cfg req tick s = .ok (hit, tick', s')) : Saves cfg s s' ∧ Unstaged s' := by
  have hfound := lookUp_saves cfg req tick h
  unfold read at run
  unfold cleanRead at hclean
  split_ifs at run hclean
  · split at run
    · rename_i heq
      rw [heq] at hfound
      cases run
      exact hfound
    · rename_i heq
      rw [heq] at hfound hclean
      obtain ⟨filled, hfill, hpair⟩ := bind_eq_ok.1 run
      cases hpair
      obtain ⟨hsaves, hdone⟩ := fillCache_saves hfound.2 hclean hfill
      exact ⟨hfound.1.trans hsaves, hdone⟩
    · rename_i heq
      rw [heq] at hfound hclean
      obtain ⟨filled, hfill, hpair⟩ := bind_eq_ok.1 run
      cases hpair
      obtain ⟨hsaves, hdone⟩ := fillCache_saves hfound.2 hclean hfill
      exact ⟨hfound.1.trans hsaves, hdone⟩
  · cases run
    exact ⟨(saves_access (.dramWrite req.length) s).trans
      (saves_access (.ftlRead (cfg.reqInternal req.slpn)) _), h⟩

/-! ## Write -/

structure Stages (cfg : Config) (s s' : GenericCache) : Prop where
  same : SameLines s s'
  staged : Staged cfg s'

theorem stageLine_stages (h : Staged cfg s) (p : Nat × Nat) :
    Stages cfg s (stageLine cfg s p) := by
  unfold stageLine
  split_ifs
  · obtain ⟨hchoice, drawn, hdrawn⟩ := compareFunction_spec cfg
      (s.evictData (cfg.calcIOPosition (s.line p).tag).1 (cfg.calcIOPosition (s.line p).tag).2)
      (some p) s
    dsimp only
    rw [hdrawn]
    refine ⟨⟨rfl, rfl⟩, ?_⟩
    rcases hchoice with hold | hnew
    · rw [hold]
      intro cell q hq
      rw [evictData_setEvict] at hq
      split_ifs at hq with hcell
      · exact h cell q (hcell ▸ hq)
      · exact h cell q hq
    · rw [hnew]
      exact Staged.setEvict (s := { s with drawn := drawn }) h fun tag hd => hd.2.2.symm
  · exact ⟨⟨rfl, rfl⟩, h⟩

theorem stageAll_stages (h : Staged cfg s) (list : List (Nat × Nat)) :
    Stages cfg s (list.foldl (stageLine cfg) s) := by
  refine List.foldlRecOn list _ ⟨⟨rfl, rfl⟩, h⟩ fun s' hs' p _ => ?_
  obtain ⟨hsame, hstaged⟩ := stageLine_stages hs'.staged p
  exact ⟨hs'.same.trans hsame, hstaged⟩

theorem mergeCell_stages (h : Staged cfg s) (cell : Nat × Nat)
    (hcol : cell.2 + 1 < cfg.parallelIO) : Stages cfg s (mergeCell cfg s cell) := by
  obtain ⟨hchoice, drawn, hdrawn⟩ := compareFunction_spec cfg (s.evictData cell.1 cell.2)
    (s.evictData cell.1 (cell.2 + 1)) s
  unfold mergeCell
  dsimp only
  rw [hdrawn]
  refine ⟨⟨rfl, rfl⟩, fun cell' q hq => ?_⟩
  rw [evictData_setEvict, evictData_setEvict] at hq
  split_ifs at hq with hfrom hto
  · rw [hto]
    rcases hchoice with hchoice | hchoice
    · obtain ⟨hrow, -, htag⟩ := h cell q (hchoice ▸ hq)
      exact ⟨hrow, hcol, htag⟩
    · exact h (cell.1, cell.2 + 1) q (hchoice ▸ hq)
  · exact h cell' q hq

theorem mergeColumns_stages (h : Staged cfg s) : Stages cfg s (mergeColumns cfg s) := by
  unfold mergeColumns
  split_ifs
  · refine List.foldlRecOn _ _ ⟨⟨rfl, rfl⟩, h⟩ fun s' hs' cell hcell => ?_
    obtain ⟨row, -, hcell⟩ := List.mem_flatMap.1 hcell
    obtain ⟨col, hcol, rfl⟩ := List.mem_map.1 hcell
    rw [List.mem_range] at hcol
    obtain ⟨hsame, hstaged⟩ := mergeCell_stages hs'.staged (row, col) (by simp only; omega)
    exact ⟨hs'.same.trans hsame, hstaged⟩
  · exact ⟨⟨rfl, rfl⟩, h⟩

theorem chosen_spec (cfg : Config) (setIdx : Nat) (s : GenericCache) :
    ∃ a drawn, (List.range cfg.waySize).foldl
      (fun (acc : Option (Nat × Nat) × GenericCache) way =>
        if (acc.2.line (setIdx, way)).valid then
          compareFunction cfg acc.1 (some (setIdx, way)) acc.2
        else acc) (none, s) = (a, { s with drawn := drawn }) := by
  refine List.foldlRecOn (List.range cfg.waySize) _ (motive := fun acc =>
    ∃ a drawn, acc = (a, { s with drawn := drawn })) ⟨none, s.drawn, rfl⟩ ?_
  rintro acc ⟨a, drawn, rfl⟩ way -
  split_ifs
  · obtain ⟨-, drawn', hdrawn⟩ := compareFunction_spec cfg a (some (setIdx, way))
      { s with drawn := drawn }
    exact ⟨_, drawn', Prod.ext rfl hdrawn⟩
  · exact ⟨a, drawn, rfl⟩

theorem stageSet_stages (h : Staged cfg s) (setIdx : Nat) :
    Stages cfg s (stageSet cfg setIdx s) := by
  unfold stageSet
  split_ifs
  · exact ⟨⟨rfl, rfl⟩, h⟩
  · obtain ⟨a, drawn, hchosen⟩ := chosen_spec cfg setIdx s
    dsimp only
    rw [hchosen]
    cases a with
    | none => exact ⟨⟨rfl, rfl⟩, h⟩
    | some p =>
        exact ⟨⟨rfl, rfl⟩, Staged.setEvict (s := { s with drawn := drawn }) h
          fun tag hd => hd.2.2.symm⟩

theorem evictForWrite_saves (h : Unstaged s) (setIdx : Nat) (tick : Tick) :
    Saves cfg s (evictForWrite cfg setIdx tick s) ∧
      Unstaged (evictForWrite cfg setIdx tick s) := by
  have hall : Stages cfg s _ := stageAll_stages h.staged cfg.ways
  have hmerged := mergeColumns_stages hall.staged
  have hset := stageSet_stages hmerged.staged setIdx
  obtain ⟨hsaves, hunstaged, -⟩ := evictCache_spec hset.staged tick true
  exact ⟨((hall.same.trans hmerged.same).trans hset.same).saves.trans hsaves, hunstaged⟩

/-- Data for `slpn` may replace a line that is free, or that holds `slpn` and
has been written back unless it stays dirty. -/
theorem storeLine_saves {dirty : Bool} {flash : Tick} {issued : List Access}
    {before : GenericCache} (hdata : s.cacheData = before.cacheData)
    (haccesses : s.accesses = issued ++ before.accesses)
    (hline : (s.line p).valid = true →
      (s.line p).tag = req.slpn ∧ (dirty = true ∨ WrittenBack cfg issued req.slpn)) :
    Saves cfg before (storeLine cfg p req dirty flash tick s).2 := by
  refine ⟨.dramWrite req.length :: issued, ?_, fun q tag hd => ?_⟩
  · exact congrArg (Access.dramWrite req.length :: ·) haccesses
  · have hd' : Dirty s q tag := by simpa only [Dirty, line, hdata] using hd
    by_cases hq : q = p
    · subst hq
      obtain ⟨htag, hdirty | hwritten⟩ := hline hd'.1
      · refine .inl ?_
        change Dirty (s.setLine q _) q tag
        rw [Dirty, line_setLine, if_pos rfl]
        exact ⟨rfl, hdirty, htag.symm.trans hd'.2.2⟩
      · rw [← htag, hd'.2.2] at hwritten
        exact .inr (hwritten.mono (List.subset_cons_self _ _))
    · refine .inl ?_
      change Dirty (s.setLine p _) q tag
      rwa [Dirty, line_setLine, if_neg hq]

theorem write_saves {hit : Bool} (h : Unstaged s)
    (run : write cfg req tick s = .ok (hit, tick', s')) : Saves cfg s s' ∧ Unstaged s' := by
  unfold write at run
  dsimp only at run
  generalize hdirty : decide (req.length < cfg.lineSize) = dirty at run
  have hsent : ∃ issued accesses, (if dirty = true then (tick, s) else
      access cfg (.ftlWrite (cfg.reqInternal req.slpn)) tick s).2 =
        { s with accesses := accesses } ∧ accesses = issued ++ s.accesses ∧
      (dirty = true ∨ WrittenBack cfg issued req.slpn) := by
    cases dirty with
    | true => exact ⟨[], s.accesses, rfl, rfl, .inl rfl⟩
    | false =>
        exact ⟨[_], _, rfl, rfl, .inr (writtenBack_reqInternal (lineCountInSuperPage_pos cfg)
          (List.mem_singleton_self _))⟩
  obtain ⟨issued, accesses, hsent, haccesses, hwritten⟩ := hsent
  generalize (if dirty = true then (tick, s) else
    access cfg (.ftlWrite (cfg.reqInternal req.slpn)) tick s) = sent at *
  obtain ⟨flash, sentCache⟩ := sent
  subst hsent
  have hsaves : Saves cfg s { s with accesses := accesses } :=
    ⟨issued, haccesses, fun _ _ hd => .inl hd⟩
  split_ifs at run with hcaching hfound hempty hfreed
  · cases run
    obtain ⟨-, -, htag⟩ := getValidWay_spec hfound
    exact ⟨storeLine_saves (s := { s with accesses := accesses }) rfl haccesses
      fun _ => ⟨htag, hwritten⟩, h⟩
  · cases run
    obtain ⟨-, hinvalid⟩ := getEmptyWay_spec hempty
    refine ⟨storeLine_saves (s := { s with accesses := accesses }) rfl haccesses
      fun hvalid => ?_, h⟩
    exact absurd (hinvalid.symm.trans hvalid) Bool.false_ne_true
  · cases run
    obtain ⟨hevicted, hunstaged⟩ := evictForWrite_saves (s := { s with accesses := accesses })
      h (cfg.calcSetIndex req.slpn) _
    obtain ⟨-, hinvalid⟩ := getEmptyWay_spec hfreed
    refine ⟨((hsaves.trans hevicted).trans (saves_access (.dramWrite req.length) _)).trans
      (saves_setLine ?_), hunstaged⟩
    exact (congrArg (· && _) hinvalid).trans (Bool.false_and _)
  · cases run
    exact ⟨hsaves.trans ((saves_access (.ftlWrite _) _).trans
      (saves_access (.dramRead req.length) _)), h⟩
  · cases run
    exact ⟨hsaves.trans (saves_access (.dramRead req.length) _), h⟩

/-! ## Flush -/

theorem flushLine_saves {w : Sweep} (hflags : w.ioFlag.length = cfg.lineCountInSuperPage)
    (hunstaged : Unstaged w.cache) (p : Nat × Nat) :
    Saves cfg w.cache (flushLine cfg range w p).cache ∧
      (flushLine cfg range w p).ioFlag.length = cfg.lineCountInSuperPage ∧
      Unstaged (flushLine cfg range w p).cache := by
  unfold flushLine
  dsimp only
  split_ifs with hrange hdirty
  · refine ⟨⟨[_], rfl, fun q tag hd => ?_⟩, (List.length_set ..).trans hflags, hunstaged⟩
    by_cases hq : q = p
    · subst hq
      obtain ⟨-, -, rfl⟩ := hd
      refine .inr ⟨_, List.mem_singleton_self _, rfl, ?_⟩
      simp [List.getD_eq_getElem?_getD, hflags,
        Nat.mod_lt _ (lineCountInSuperPage_pos cfg)]
    · refine .inl ?_
      change Dirty (w.cache.setLine p _) q tag
      rwa [Dirty, line_setLine, if_neg hq]
  · refine ⟨saves_setLine ?_, hflags, hunstaged⟩
    rw [Bool.eq_false_of_not_eq_true hdirty, Bool.and_false]
  · exact ⟨.refl _, hflags, hunstaged⟩

theorem flush_saves (h : Unstaged s) (range : LPNRange) (tick : Tick) :
    Saves cfg s (flush cfg range tick s).2 ∧ Unstaged (flush cfg range tick s).2 := by
  unfold flush
  split_ifs
  · have hsweep := List.foldlRecOn cfg.ways (flushLine cfg range)
      (motive := fun w => Saves cfg s w.cache ∧
        w.ioFlag.length = cfg.lineCountInSuperPage ∧ Unstaged w.cache)
      (b := sweepStart cfg tick s) ⟨.refl s, List.length_replicate, h⟩ fun w hw p _ => by
        obtain ⟨hsaves, hflags, hunstaged⟩ := flushLine_saves hw.2.1 hw.2.2 p
        exact ⟨hw.1.trans hsaves, hflags, hunstaged⟩
    exact ⟨hsweep.1, hsweep.2.2⟩
  · exact ⟨.refl s, h⟩

/-! ## Runs -/

inductive Op where
  | read (req : Request) (tick : Tick)
  | write (req : Request) (tick : Tick)
  | flush (range : LPNRange) (tick : Tick)
  deriving DecidableEq, Repr

def Op.apply (cfg : Config) (s : GenericCache) : Op → Except Fault GenericCache
  | .read req tick => do
      let done ← GenericCache.read cfg req tick s
      .ok done.2.2
  | .write req tick => do
      let done ← GenericCache.write cfg req tick s
      .ok done.2.2
  | .flush range tick => .ok (GenericCache.flush cfg range tick s).2

def run (cfg : Config) (ops : List Op) (s : GenericCache) : Except Fault GenericCache :=
  ops.foldlM (Op.apply cfg) s

def Op.clean (cfg : Config) (s : GenericCache) : Op → Bool
  | .read req tick => cleanRead cfg req tick s
  | _ => true

def cleanRun (cfg : Config) (s : GenericCache) : List Op → Bool
  | [] => true
  | op :: rest =>
      op.clean cfg s &&
        match op.apply cfg s with
        | .ok s' => cleanRun cfg s' rest
        | .error _ => true

theorem apply_saves {op : Op} (h : Unstaged s) (hclean : op.clean cfg s = true)
    (run : op.apply cfg s = .ok s') : Saves cfg s s' ∧ Unstaged s' := by
  cases op with
  | read req tick =>
      obtain ⟨⟨hit, tick', s₁⟩, hread, hpair⟩ := bind_eq_ok.1 run
      cases hpair
      exact read_saves h hclean hread
  | write req tick =>
      obtain ⟨⟨hit, tick', s₁⟩, hwrite, hpair⟩ := bind_eq_ok.1 run
      cases hpair
      exact write_saves h hwrite
  | flush range tick =>
      cases run
      exact flush_saves h range tick

theorem run_saves {ops : List Op} (h : Unstaged s) (hclean : cleanRun cfg s ops = true)
    (hrun : run cfg ops s = .ok s') : Saves cfg s s' ∧ Unstaged s' := by
  refine (foldlM_invariant (fun rest mid => (Saves cfg s mid ∧ Unstaged mid) ∧
    cleanRun cfg mid rest = true) ?_ hrun ⟨⟨.refl s, h⟩, hclean⟩).1
  rintro op rest mid next ⟨⟨hsaves, hmid⟩, hrest⟩ hstep
  simp only [cleanRun, Bool.and_eq_true, hstep] at hrest
  obtain ⟨hstepped, hnext⟩ := apply_saves hmid hrest.1 hstep
  exact ⟨⟨hsaves.trans hstepped, hnext⟩, hrest.2⟩

theorem cleanRun_append {before after : List Op} (hrun : run cfg before s = .ok s')
    (hclean : cleanRun cfg s (before ++ after) = true) :
    cleanRun cfg s before = true ∧ cleanRun cfg s' after = true := by
  induction before generalizing s with
  | nil =>
      cases hrun
      exact ⟨rfl, hclean⟩
  | cons op rest ih =>
      rw [run, List.foldlM_cons] at hrun
      obtain ⟨mid, hstep, hrest⟩ := bind_eq_ok.1 hrun
      simp only [List.cons_append, cleanRun, Bool.and_eq_true, hstep] at hclean ⊢
      obtain ⟨hbefore, hafter⟩ := ih hrest hclean.2
      exact ⟨⟨hclean.1, hbefore⟩, hafter⟩

/-- In a run without dirty victims, a line that is dirty in some state is dirty
in every later one unless its page has been written back in between. -/
theorem dirty_data_saved {before after : List Op}
    (hclean : cleanRun cfg construct (before ++ after) = true)
    (hbefore : run cfg before construct = .ok s) (hafter : run cfg after s = .ok s') :
    Saves cfg s s' := by
  obtain ⟨hfirst, hlater⟩ := cleanRun_append hbefore hclean
  obtain ⟨-, hunstaged⟩ := run_saves (fun _ => rfl) hfirst hbefore
  exact (run_saves hunstaged hlater hafter).1

def oneLine : Config where
  superPageSize := 4096
  parallelIO := 1
  ioUnitInPage := 1
  parallelIO_pos := by decide
  ioUnitInPage_pos := by decide
  bRandomTweak := false
  cacheSize := 4096
  wayOption := 1
  prefetchIOCount := 1
  prefetchReached := fun _ => false
  useReadCaching := true
  useWriteCaching := true
  useReadPrefetch := false
  bSuperPageInit := false
  prefetchMode := .all
  evictMode := .all
  policy := .fifo
  cacheLatency := 1
  latency := fun _ => 1
  finish := fun _ _ tick => tick + 1
  draw := fun _ => 0
  draw_lt := fun _ => by decide

/-- The partial write leaves page 0 dirty, the next evicts it for page 1, and the
read finds page 1 after a flush. -/
theorem dirty_data_saved_oneLine : ∃ s s',
    run oneLine [.write ⟨0, 512, 0⟩ 0] construct = .ok s ∧
      run oneLine [.write ⟨0, 512, 1⟩ 9, .flush ⟨0, 2⟩ 30, .read ⟨0, 512, 0⟩ 60] s = .ok s' ∧
      Dirty s (0, 0) 0 ∧ WrittenBack oneLine s'.accesses 0 := by
  obtain ⟨s, s', hbefore, hafter, hdirty, hclean⟩ : ∃ s s',
      run oneLine [.write ⟨0, 512, 0⟩ 0] construct = .ok s ∧
        run oneLine [.write ⟨0, 512, 1⟩ 9, .flush ⟨0, 2⟩ 30, .read ⟨0, 512, 0⟩ 60] s = .ok s' ∧
        Dirty s (0, 0) 0 ∧ (s'.line (0, 0)).dirty = false :=
    ⟨_, _, rfl, rfl, ⟨rfl, rfl, rfl⟩, rfl⟩
  obtain ⟨issued, haccesses, hlines⟩ := dirty_data_saved (by decide +kernel) hbefore hafter
  refine ⟨s, s', hbefore, hafter, hdirty, ?_⟩
  rcases hlines (0, 0) 0 hdirty with hd | hwritten
  · exact absurd (hd.2.1.symm.trans hclean) (by decide)
  · exact hwritten.mono (haccesses ▸ List.subset_append_left _ _)

/-- A read that evicts page 0 loses what a partial write left in it. -/
theorem dirty_data_lost : ¬ ∀ cfg : Config, cfg.useWriteCaching = true →
    ∀ before after s s', run cfg before construct = .ok s → run cfg after s = .ok s' →
      Saves cfg s s' := by
  intro hsaves
  obtain ⟨s, s', hbefore, hafter, hdirty, hclean, haccesses⟩ : ∃ s s',
      run oneLine [.write ⟨0, 512, 0⟩ 0] construct = .ok s ∧
        run oneLine [.read ⟨0, 512, 1⟩ 9] s = .ok s' ∧ Dirty s (0, 0) 0 ∧
        (s'.line (0, 0)).dirty = false ∧
        s'.accesses = [.dramWrite 4096, .ftlRead ⟨1, [true]⟩] ++ s.accesses :=
    ⟨_, _, rfl, rfl, ⟨rfl, rfl, rfl⟩, rfl, rfl⟩
  obtain ⟨issued, hissued, hlines⟩ := hsaves oneLine rfl _ _ s s' hbefore hafter
  rw [haccesses, List.append_cancel_right_eq] at hissued
  rcases hlines (0, 0) 0 hdirty with hd | ⟨req, hmem, -⟩
  · exact absurd (hd.2.1.symm.trans hclean) (by decide)
  · rw [← hissued] at hmem
    simp at hmem

end SimpleSSD.ICL.GenericCache
