import SimpleSSD.FTL.ReadYourWrites
import SimpleSSD.FTL.Trimming
import SimpleSSD.ICL.Coherence
import SimpleSSD.ICL.Forward

/-!
# Trims of the cache

A trim looks for its range in the lines of the cache only.  For each line with a tag in the
range the page mapping drops the whole superpage of the tag; the line is invalidated but
keeps its dirty flag, which a flush goes by.
-/

namespace SimpleSSD.ICL

open SimpleSSD.Foundation FTL.PageMapping

structure SameLayout (cfg : Config) (ftl : FTL.Config) : Prop where
  tweak : ftl.bRandomTweak = cfg.bRandomTweak
  units : ftl.param.ioUnitInPage = cfg.ioUnitInPage

theorem SameLayout.sized {cfg : Config} {ftl : FTL.Config} (h : SameLayout cfg ftl)
    {flags : List Bool} (fits : flags.length = cfg.lineCountInSuperPage) :
    flags.length = ftl.param.ioUnitInPage ∨
      (ftl.bRandomTweak = false ∧ flags.length = 1) := by
  rw [fits, h.tweak, h.units]
  unfold Config.lineCountInSuperPage
  cases cfg.bRandomTweak with
  | true => exact .inl rfl
  | false => exact .inr ⟨rfl, rfl⟩

def Config.unitOf (cfg : Config) (lca : Nat) : Nat × Nat :=
  (lca / cfg.lineCountInSuperPage, lca % cfg.lineCountInSuperPage)

def onMapping (ftl : FTL.Config) (req : FTLRequest)
    (op : FTL.Request ftl → Except Fault (Tick × FTL.PageMapping)) :
    Except Fault FTL.PageMapping :=
  if sized : req.ioFlag.length = ftl.param.ioUnitInPage ∨
      (ftl.bRandomTweak = false ∧ req.ioFlag.length = 1) then do
    let done ← op ⟨req.lpn, req.ioFlag, sized⟩
    .ok done.2
  else .error .undefined

/-- The pages a range names.  The range tests of the code, which compute the end in 64
bits, are `LPNRange.Contains`. -/
def Names (range : LPNRange) (lca : Nat) : Prop :=
  range.slpn ≤ lca ∧ lca < range.slpn + range.nlp

def Access.Writes (cfg : Config) (a : Access) (lca : Nat) : Prop :=
  ∃ req, a = .ftlWrite req ∧ req.lpn = lca / cfg.lineCountInSuperPage ∧
    req.ioFlag.getD (lca % cfg.lineCountInSuperPage) false = true

namespace GenericCache

variable (cfg : Config) (ftl : FTL.Config) (ftlLatency : FTL.CPUFunction → Tick)

def caching : Bool := cfg.useReadCaching || cfg.useWriteCaching

def trimLineBelow (range : LPNRange) (w : Sweep × FTL.PageMapping) (p : Nat × Nat) :
    Except Fault (Sweep × FTL.PageMapping) :=
  let tag := (w.1.cache.line p).tag
  if range.Contains tag then do
    let f ← onMapping ftl
      ⟨tag / cfg.lineCountInSuperPage,
        w.1.ioFlag.set (tag % cfg.lineCountInSuperPage) true⟩
      fun req => FTL.trim ftl ftlLatency req (cfg.sum w.1.tick (cfg.cacheLatency * 8)) w.2
    .ok (trimLine cfg range w.1 p, f)
  else .ok (trimLine cfg range w.1 p, w.2)

def trimBelow (range : LPNRange) (tick : Tick) (s : GenericCache) (f : FTL.PageMapping) :
    Except Fault (GenericCache × FTL.PageMapping) :=
  if caching cfg then do
    let w ← cfg.ways.foldlM (trimLineBelow cfg ftl ftlLatency range) (sweepStart cfg tick s, f)
    .ok (w.1.cache, w.2)
  else .ok (s, f)

/-- No flush of a line with `lca` and a dirty line writes a page of the range. -/
def Apart (range : LPNRange) (lca : Nat) (s : GenericCache) : Prop :=
  ¬ Names range lca ∧ ∀ p ∈ cfg.ways, (s.line p).dirty = true →
    ¬ Names range (lca / cfg.lineCountInSuperPage * cfg.lineCountInSuperPage +
        (s.line p).tag % cfg.lineCountInSuperPage) ∧
      ¬ Names range ((s.line p).tag / cfg.lineCountInSuperPage * cfg.lineCountInSuperPage +
        lca % cfg.lineCountInSuperPage)

inductive Later (range : LPNRange) : GenericCache → GenericCache → Prop
  | refl (s : GenericCache) : Later range s s
  | read {s s₁ : GenericCache} {req : Request} {tick : Tick}
      {result : Bool × Tick × GenericCache} (before : Later range s s₁)
      (h : GenericCache.read cfg req tick s₁ = .ok result) : Later range s result.2.2
  | write {s s₁ : GenericCache} {req : Request} {tick : Tick}
      {result : Bool × Tick × GenericCache} (before : Later range s s₁)
      (apart : Apart cfg range req.slpn s₁)
      (h : GenericCache.write cfg req tick s₁ = .ok result) : Later range s result.2.2
  | flush {s s₁ : GenericCache} (flushed : LPNRange) (tick : Tick) (before : Later range s s₁) :
      Later range s (GenericCache.flush cfg flushed tick s₁).2
  | trim {s s₁ : GenericCache} (trimmed : LPNRange) (tick : Tick) (before : Later range s s₁) :
      Later range s (GenericCache.trim cfg trimmed tick s₁).2
  | format {s s₁ : GenericCache} (formatted : LPNRange) (tick : Tick)
      (before : Later range s s₁) :
      Later range s (GenericCache.format cfg formatted tick s₁).2

/-- No flush from here on writes a page of the range, as long as no page is stored that is in the
range, or makes one of it together with a dirty line. -/
def Unflushed (range : LPNRange) (s : GenericCache) : Prop :=
  ∀ s' range' tick issued, Later cfg range s s' →
    (flush cfg range' tick s').2.accesses = issued ++ s'.accesses →
    ∀ a ∈ issued, ∀ lca, Names range lca → ¬ a.Writes cfg lca

/-- What a trim of the range should leave, of the mapping `f` there was before. -/
structure Deallocated (range : LPNRange) (f : FTL.PageMapping) (s : GenericCache)
    (f' : FTL.PageMapping) : Prop where
  unmapped : ∀ lca, Names range lca → f'.place ftl (cfg.unitOf lca) = none
  uncached : ∀ p ∈ cfg.ways, (s.line p).valid = true → ¬ Names range (s.line p).tag
  unflushed : Unflushed cfg range s
  kept : ∀ lca, ¬ Names range lca →
    f'.place ftl (cfg.unitOf lca) = f.place ftl (cfg.unitOf lca)

def touched (range : LPNRange) (s : GenericCache) : List (Nat × Nat) :=
  if caching cfg then cfg.ways.filter fun p => range.Contains (s.line p).tag else []

/-- Of two dirty lines a flush of both sends the unit of the first with the superpage of
the second; this never is a page of the range. -/
def CleanOf (range : LPNRange) (s : GenericCache) : Prop :=
  ∀ before q after, cfg.ways = before ++ q :: after → (s.line q).dirty = true →
    ∀ p ∈ before ++ [q], (s.line p).dirty = true →
      (∃ range' : LPNRange, range'.Contains (s.line p).tag ∧ range'.Contains (s.line q).tag) →
      ¬ Names range ((s.line q).tag / cfg.lineCountInSuperPage * cfg.lineCountInSuperPage +
        (s.line p).tag % cfg.lineCountInSuperPage)

structure Trimmable (range : LPNRange) (s : GenericCache) (f : FTL.PageMapping) : Prop where
  /-- a valid line of the range is reached -/
  looked : ∀ p ∈ cfg.ways, (s.line p).valid = true → Names range (s.line p).tag →
    p ∈ touched cfg range s
  /-- a mapped page of the range shares its superpage with the tag of a line reached -/
  reached : ∀ lca, Names range lca → f.place ftl (cfg.unitOf lca) ≠ none →
    ∃ p ∈ touched cfg range s,
      (s.line p).tag / cfg.lineCountInSuperPage = lca / cfg.lineCountInSuperPage
  /-- no superpage of a line reached has a mapped page outside of the range -/
  apart : ∀ lca, ¬ Names range lca → f.place ftl (cfg.unitOf lca) ≠ none →
    ∀ p ∈ touched cfg range s,
      (s.line p).tag / cfg.lineCountInSuperPage ≠ lca / cfg.lineCountInSuperPage
  /-- the superpages dropped are mapped as a whole or not at all -/
  whole : ∀ p ∈ touched cfg range s,
    Whole ftl f ((s.line p).tag / cfg.lineCountInSuperPage)
  clean : caching cfg = true → CleanOf cfg range s

variable {cfg ftl ftlLatency} {range : LPNRange} {s s' : GenericCache} {f f' : FTL.PageMapping}
  {p q : Nat × Nat} {tick : Tick}

/-! ## The sweep of a trim -/

theorem trimLine_line (w : Sweep) (p q : Nat × Nat) :
    (trimLine cfg range w p).cache.line q =
      if q = p ∧ range.Contains (w.cache.line p).tag then
        { w.cache.line p with valid := false }
      else w.cache.line q := by
  unfold trimLine
  dsimp only
  by_cases inside : range.Contains (w.cache.line p).tag
  · simp only [inside, if_true, and_true]
    exact line_setLine p q _ _
  · simp only [inside, if_false, and_false]

theorem trimLine_ioFlag (w : Sweep) (p : Nat × Nat) :
    (trimLine cfg range w p).ioFlag.length = w.ioFlag.length := by
  unfold trimLine
  dsimp only
  split_ifs
  · exact List.length_set
  · rfl

def Drops (cfg : Config) (range : LPNRange) (s : GenericCache) (lines : List (Nat × Nat))
    (lpn : Nat) : Prop :=
  ∃ q ∈ lines, range.Contains (s.line q).tag ∧
    (s.line q).tag / cfg.lineCountInSuperPage = lpn

structure TrimSwept (cfg : Config) (ftl : FTL.Config) (range : LPNRange)
    (lines : List (Nat × Nat)) (w w' : Sweep × FTL.PageMapping) : Prop where
  line : ∀ q, w'.1.cache.line q =
    if q ∈ lines ∧ range.Contains (w.1.cache.line q).tag then
      { w.1.cache.line q with valid := false }
    else w.1.cache.line q
  shape : SameShape w.2 w'.2
  dropped : ∀ lpn, Drops cfg range w.1.cache lines lpn → w'.2.table lpn = none
  table : ∀ lpn, ¬ Drops cfg range w.1.cache lines lpn → w'.2.table lpn = w.2.table lpn
  whole : ∀ lpn, Drops cfg range w.1.cache lines lpn → Whole ftl w.2 lpn

theorem trimLine_drops (w : Sweep) (lines : List (Nat × Nat)) (lpn : Nat) :
    Drops cfg range (trimLine cfg range w p).cache lines lpn ↔
      Drops cfg range w.cache lines lpn := by
  have tag : ∀ q, ((trimLine cfg range w p).cache.line q).tag = (w.cache.line q).tag := by
    intro q
    rw [trimLine_line]
    split_ifs with same
    · rw [same.1]
    · rfl
  simp only [Drops, tag]

theorem trimLineBelow_swept {w w' : Sweep × FTL.PageMapping}
    (h : trimLineBelow cfg ftl ftlLatency range w p = .ok w') :
    w'.1 = trimLine cfg range w.1 p ∧ TrimSwept cfg ftl range [p] w w' := by
  have lines : ∀ q, (trimLine cfg range w.1 p).cache.line q =
      if q ∈ [p] ∧ range.Contains (w.1.cache.line q).tag then
        { w.1.cache.line q with valid := false }
      else w.1.cache.line q := by
    intro q
    rw [trimLine_line]
    by_cases same : q = p
    · simp only [same, List.mem_singleton]
    · simp only [same, List.mem_singleton, false_and, if_false]
  unfold trimLineBelow at h
  by_cases inside : range.Contains (w.1.cache.line p).tag
  · simp only [if_pos inside] at h
    obtain ⟨f, hf, hdone⟩ := bind_eq_ok.1 h
    cases hdone
    unfold onMapping at hf
    split_ifs at hf with sized
    obtain ⟨done, htrim, hdone⟩ := bind_eq_ok.1 hf
    cases hdone
    obtain ⟨whole, shape, table⟩ := FTL.PageMapping.trim_eq_ok htrim
    have drops : ∀ lpn, Drops cfg range w.1.cache [p] lpn ↔
        lpn = (w.1.cache.line p).tag / cfg.lineCountInSuperPage := by
      intro lpn
      unfold Drops
      simp only [List.mem_singleton, exists_eq_left, inside, true_and]
      exact eq_comm
    refine ⟨rfl, lines, shape, fun lpn hdrop => ?_, fun lpn hdrop => ?_, fun lpn hdrop => ?_⟩
    · rw [table, (drops lpn).1 hdrop, Function.update_self]
    · rw [table, Function.update_of_ne fun same => hdrop ((drops lpn).2 same)]
    · exact (drops lpn).1 hdrop ▸ whole
  · simp only [if_neg inside] at h
    cases h
    have none : ∀ lpn, ¬ Drops cfg range w.1.cache [p] lpn := by
      rintro lpn ⟨q, hmem, contains, -⟩
      exact inside (List.mem_singleton.1 hmem ▸ contains)
    exact ⟨rfl, lines, fun _ => rfl, fun lpn h => (none lpn h).elim, fun _ _ => rfl,
      fun lpn h => (none lpn h).elim⟩

theorem trimLineBelow_total (layout : SameLayout cfg ftl) {w : Sweep × FTL.PageMapping}
    (flags : w.1.ioFlag.length = cfg.lineCountInSuperPage)
    (whole : ∀ lpn, Drops cfg range w.1.cache [p] lpn → Whole ftl w.2 lpn) :
    ∃ w', trimLineBelow cfg ftl ftlLatency range w p = .ok w' := by
  unfold trimLineBelow
  by_cases inside : range.Contains (w.1.cache.line p).tag
  · simp only [if_pos inside]
    have fits : (w.1.ioFlag.set
        ((w.1.cache.line p).tag % cfg.lineCountInSuperPage) true).length =
          cfg.lineCountInSuperPage := List.length_set.trans flags
    have sized := layout.sized fits
    let req : FTL.Request ftl := ⟨(w.1.cache.line p).tag / cfg.lineCountInSuperPage, _, sized⟩
    have wholeReq : Whole ftl w.2 req.lpn :=
      whole _ ⟨p, List.mem_singleton_self p, inside, rfl⟩
    obtain ⟨done, htrim⟩ : ∃ done, FTL.trim ftl ftlLatency req
        (cfg.sum w.1.tick (cfg.cacheLatency * 8)) w.2 = .ok done :=
      FTL.PageMapping.trim_total wholeReq
    refine ⟨_, bind_eq_ok.2 ⟨done.2, ?_, rfl⟩⟩
    unfold onMapping
    rw [dif_pos sized]
    exact bind_eq_ok.2 ⟨done, htrim, rfl⟩
  · simp only [if_neg inside]
    exact ⟨_, rfl⟩

theorem drops_cons (s : GenericCache) (p : Nat × Nat) (rest : List (Nat × Nat)) (lpn : Nat) :
    Drops cfg range s (p :: rest) lpn ↔
      Drops cfg range s [p] lpn ∨ Drops cfg range s rest lpn := by
  unfold Drops
  simp only [List.mem_cons, List.not_mem_nil, or_false, or_and_right, exists_or,
    exists_eq_left]

theorem TrimSwept.whole_iff {lines : List (Nat × Nat)} {w w' : Sweep × FTL.PageMapping}
    (h : TrimSwept cfg ftl range lines w w') (lpn : Nat) :
    Whole ftl w'.2 lpn ↔ Whole ftl w.2 lpn := by
  by_cases drop : Drops cfg range w.1.cache lines lpn
  · refine iff_of_true (fun entries hentries => ?_) (h.whole lpn drop)
    rw [h.dropped lpn drop] at hentries
    cases hentries
  · unfold Whole
    simp only [h.table lpn drop, h.shape.leads]

theorem trimLines_swept {lines : List (Nat × Nat)} {w w' : Sweep × FTL.PageMapping}
    (h : lines.foldlM (trimLineBelow cfg ftl ftlLatency range) w = .ok w') :
    w'.1 = lines.foldl (trimLine cfg range) w.1 ∧ TrimSwept cfg ftl range lines w w' := by
  induction lines generalizing w with
  | nil =>
      cases h
      have none : ∀ lpn, ¬ Drops cfg range w'.1.cache [] lpn := by
        rintro lpn ⟨q, hmem, -⟩
        exact List.not_mem_nil hmem
      exact ⟨rfl, fun q => by simp, fun _ => rfl, fun lpn h => (none lpn h).elim,
        fun _ _ => rfl, fun lpn h => (none lpn h).elim⟩
  | cons p rest ih =>
      obtain ⟨w₁, hfirst, hrest⟩ := bind_eq_ok.1 (List.foldlM_cons.symm.trans h)
      obtain ⟨cache, first⟩ := trimLineBelow_swept hfirst
      obtain ⟨caches, later⟩ := ih hrest
      have drops : ∀ lpn, Drops cfg range w₁.1.cache rest lpn ↔
          Drops cfg range w.1.cache rest lpn := fun lpn => cache ▸ trimLine_drops w.1 rest lpn
      refine ⟨caches.trans (cache ▸ rfl), fun q => ?_, first.shape.trans later.shape,
        fun lpn hdrop => ?_, fun lpn hdrop => ?_, fun lpn hdrop => ?_⟩
      · have tag : (w₁.1.cache.line q).tag = (w.1.cache.line q).tag := by
          rw [first.line]
          split_ifs <;> rfl
        rw [later.line, tag, first.line]
        by_cases inside : range.Contains (w.1.cache.line q).tag
        · simp only [inside, and_true, List.mem_cons, List.not_mem_nil, or_false]
          by_cases hp : q = p <;> by_cases hq : q ∈ rest <;> simp [hp, hq]
        · simp only [inside, and_false, if_false]
      · by_cases hrest : Drops cfg range w.1.cache rest lpn
        · exact later.dropped lpn ((drops lpn).2 hrest)
        · rw [later.table lpn fun h => hrest ((drops lpn).1 h)]
          exact first.dropped lpn (((drops_cons _ _ _ _).1 hdrop).resolve_right hrest)
      · have split := not_or.1 fun h => hdrop ((drops_cons _ _ _ _).2 h)
        rw [later.table lpn fun h => split.2 ((drops lpn).1 h), first.table lpn split.1]
      · rcases (drops_cons _ _ _ _).1 hdrop with hp | hrest
        · exact first.whole lpn hp
        · exact (first.whole_iff lpn).1 (later.whole lpn ((drops lpn).2 hrest))

theorem trimLines_total (layout : SameLayout cfg ftl) {lines : List (Nat × Nat)}
    {w : Sweep × FTL.PageMapping} (flags : w.1.ioFlag.length = cfg.lineCountInSuperPage)
    (whole : ∀ lpn, Drops cfg range w.1.cache lines lpn → Whole ftl w.2 lpn) :
    ∃ w', lines.foldlM (trimLineBelow cfg ftl ftlLatency range) w = .ok w' := by
  induction lines generalizing w with
  | nil => exact ⟨w, rfl⟩
  | cons p rest ih =>
      obtain ⟨w₁, hfirst⟩ : ∃ w₁, trimLineBelow cfg ftl ftlLatency range w p = .ok w₁ :=
        trimLineBelow_total layout flags fun lpn hdrop =>
          whole lpn ((drops_cons _ _ _ _).2 (.inl hdrop))
      obtain ⟨cache, first⟩ := trimLineBelow_swept hfirst
      have flagsRest : w₁.1.ioFlag.length = cfg.lineCountInSuperPage := by
        rw [cache, trimLine_ioFlag, flags]
      have wholeRest : ∀ lpn, Drops cfg range w₁.1.cache rest lpn → Whole ftl w₁.2 lpn := by
        intro lpn hdrop
        rw [cache, trimLine_drops] at hdrop
        exact (first.whole_iff lpn).2 (whole lpn ((drops_cons _ _ _ _).2 (.inr hdrop)))
      obtain ⟨w', hrest⟩ := ih flagsRest wholeRest
      exact ⟨w', List.foldlM_cons.trans (bind_eq_ok.2 ⟨w₁, hfirst, hrest⟩)⟩

theorem mem_touched : p ∈ touched cfg range s ↔
    caching cfg = true ∧ p ∈ cfg.ways ∧ range.Contains (s.line p).tag := by
  unfold touched
  split_ifs with h
  · simp [h]
  · simp [h]

theorem drops_touched (h : caching cfg = true) (lpn : Nat) :
    Drops cfg range s cfg.ways lpn ↔
      ∃ p ∈ touched cfg range s, (s.line p).tag / cfg.lineCountInSuperPage = lpn := by
  unfold Drops
  simp only [mem_touched, h, true_and, and_assoc]

structure TrimDone (cfg : Config) (ftl : FTL.Config) (range : LPNRange) (s : GenericCache)
    (f : FTL.PageMapping) (s' : GenericCache) (f' : FTL.PageMapping) : Prop where
  line : ∀ q, s'.line q =
    if q ∈ touched cfg range s then { s.line q with valid := false } else s.line q
  dropped : ∀ p ∈ touched cfg range s,
    f'.table ((s.line p).tag / cfg.lineCountInSuperPage) = none
  table : ∀ lpn, (∀ p ∈ touched cfg range s,
    (s.line p).tag / cfg.lineCountInSuperPage ≠ lpn) → f'.table lpn = f.table lpn

theorem trim_on (on : caching cfg = true) : (trim cfg range tick s).2 =
    (cfg.ways.foldl (trimLine cfg range) (sweepStart cfg tick s)).cache := by
  unfold caching at on
  unfold trim
  rw [if_pos on]

theorem trim_off (off : ¬ caching cfg = true) : (trim cfg range tick s).2 = s := by
  unfold caching at off
  unfold trim
  rw [if_neg off]

theorem flush_on (on : caching cfg = true) : (flush cfg range tick s).2 =
    (cfg.ways.foldl (flushLine cfg range) (sweepStart cfg tick s)).cache := by
  unfold caching at on
  unfold flush
  rw [if_pos on]

theorem flush_off (off : ¬ caching cfg = true) : (flush cfg range tick s).2 = s := by
  unfold caching at off
  unfold flush
  rw [if_neg off]

theorem trimBelow_eq_ok {done : GenericCache × FTL.PageMapping}
    (h : trimBelow cfg ftl ftlLatency range tick s f = .ok done) :
    done.1 = (trim cfg range tick s).2 ∧ TrimDone cfg ftl range s f done.1 done.2 ∧
      ∀ p ∈ touched cfg range s, Whole ftl f ((s.line p).tag / cfg.lineCountInSuperPage) := by
  unfold trimBelow at h
  by_cases on : caching cfg = true
  · rw [if_pos on] at h
    obtain ⟨w, hloop, hdone⟩ := bind_eq_ok.1 h
    cases hdone
    obtain ⟨cache, swept⟩ := trimLines_swept hloop
    refine ⟨?_, ⟨fun q => ?_, fun p hp => ?_, fun lpn hlpn => ?_⟩, fun p hp => ?_⟩
    · rw [trim_on on]
      exact congrArg Sweep.cache cache
    · rw [swept.line]
      simp only [mem_touched, on, true_and]
      rfl
    · exact swept.dropped _ ((drops_touched on _).2 ⟨p, hp, rfl⟩)
    · refine swept.table lpn fun drop => ?_
      obtain ⟨p, hp, same⟩ := (drops_touched on _).1 drop
      exact hlpn p hp same
    · exact swept.whole _ ((drops_touched on _).2 ⟨p, hp, rfl⟩)
  · rw [if_neg on] at h
    cases h
    have none : ∀ p, p ∉ touched cfg range s := fun p hp => on (mem_touched.1 hp).1
    refine ⟨?_, ⟨fun q => ?_, fun p hp => (none p hp).elim, fun _ _ => rfl⟩,
      fun p hp => (none p hp).elim⟩
    · rw [trim_off on]
    · rw [if_neg (none q)]

theorem trimBelow_total (layout : SameLayout cfg ftl)
    (whole : ∀ p ∈ touched cfg range s,
      Whole ftl f ((s.line p).tag / cfg.lineCountInSuperPage)) :
    ∃ done, trimBelow cfg ftl ftlLatency range tick s f = .ok done := by
  unfold trimBelow
  by_cases on : caching cfg = true
  · rw [if_pos on]
    have flags : (sweepStart cfg tick s).ioFlag.length = cfg.lineCountInSuperPage :=
      List.length_replicate
    obtain ⟨w, hloop⟩ : ∃ w, cfg.ways.foldlM (trimLineBelow cfg ftl ftlLatency range)
        (sweepStart cfg tick s, f) = .ok w := by
      refine trimLines_total layout flags fun lpn drop => ?_
      obtain ⟨p, hp, rfl⟩ := (drops_touched on lpn).1 drop
      exact whole p hp
    exact ⟨_, bind_eq_ok.2 ⟨w, hloop, rfl⟩⟩
  · rw [if_neg on]
    exact ⟨_, rfl⟩

theorem place_congr {lpn unit : Nat} (h : f'.table lpn = f.table lpn) :
    f'.place ftl (lpn, unit) = f.place ftl (lpn, unit) := by
  unfold place
  rw [h]

theorem place_dropped {lpn unit : Nat} (h : f'.table lpn = none) :
    f'.place ftl (lpn, unit) = none := by
  unfold place
  rw [h]

/-! ## What a flush writes -/

/-- Whether a flush of some lines, with the flags it has gathered before, writes a page. -/
def FlushWrites (cfg : Config) (range : LPNRange) (s : GenericCache) (flags : List Bool)
    (lines : List (Nat × Nat)) (lca : Nat) : Prop :=
  ∃ before q after, lines = before ++ q :: after ∧ Sent range s q ∧
    (s.line q).tag / cfg.lineCountInSuperPage = lca / cfg.lineCountInSuperPage ∧
    (flags.getD (lca % cfg.lineCountInSuperPage) false = true ∨
      ∃ p ∈ before ++ [q], Sent range s p ∧
        (s.line p).tag % cfg.lineCountInSuperPage = lca % cfg.lineCountInSuperPage)

theorem flushLine_sent (w : Sweep) (p q : Nat × Nat) :
    ((flushLine cfg range w p).cache.line q).tag = (w.cache.line q).tag ∧
      ((flushLine cfg range w p).cache.line q).dirty = (w.cache.line q).dirty := by
  rw [flushLine_line]
  split_ifs with same
  · rw [same.1]
    exact ⟨rfl, rfl⟩
  · exact ⟨rfl, rfl⟩

theorem flushLine_flushWrites (w : Sweep) (p : Nat × Nat) (flags : List Bool)
    (lines : List (Nat × Nat)) (lca : Nat) :
    FlushWrites cfg range (flushLine cfg range w p).cache flags lines lca ↔
      FlushWrites cfg range w.cache flags lines lca := by
  simp only [FlushWrites, Sent, flushLine_sent w p]

theorem flushLine_accesses (w : Sweep) (p : Nat × Nat) :
    (flushLine cfg range w p).cache.accesses =
      if Sent range w.cache p then
        .ftlWrite ⟨(w.cache.line p).tag / cfg.lineCountInSuperPage,
          w.ioFlag.set ((w.cache.line p).tag % cfg.lineCountInSuperPage) true⟩ ::
            w.cache.accesses
      else w.cache.accesses := by
  unfold flushLine Sent
  dsimp only
  by_cases inside : range.Contains (w.cache.line p).tag
  · simp only [inside, if_true, true_and]
    by_cases dirty : (w.cache.line p).dirty = true
    · rw [if_pos dirty, if_pos dirty]
      rfl
    · rw [if_neg dirty, if_neg dirty]
      rfl
  · simp only [inside, if_false, false_and]

theorem getD_set_flag {flags : List Bool} {unit other : Nat} (h : unit < flags.length) :
    (flags.set unit true).getD other false = true ↔
      other = unit ∨ flags.getD other false = true := by
  rw [List.getD_eq_getElem?_getD, List.getD_eq_getElem?_getD, List.getElem?_set]
  by_cases same : unit = other
  · subst same
    simp [h]
  · simp [same, Ne.symm same]

theorem flushWrites_cons_sent {flags : List Bool} (fits : flags.length = cfg.lineCountInSuperPage)
    (sent : Sent range s p) {rest : List (Nat × Nat)} {lca : Nat} :
    FlushWrites cfg range s flags (p :: rest) lca ↔
      ((s.line p).tag / cfg.lineCountInSuperPage = lca / cfg.lineCountInSuperPage ∧
        (flags.set ((s.line p).tag % cfg.lineCountInSuperPage) true).getD
          (lca % cfg.lineCountInSuperPage) false = true) ∨
      FlushWrites cfg range s (flags.set ((s.line p).tag % cfg.lineCountInSuperPage) true)
        rest lca := by
  have unit := Nat.mod_lt (s.line p).tag (lineCountInSuperPage_pos cfg)
  unfold FlushWrites
  simp only [getD_set_flag (unit.trans_eq fits.symm)]
  constructor
  · rintro ⟨before, q, after, lines, sentQ, lpn, flag⟩
    cases before with
    | nil =>
        cases lines
        refine .inl ⟨lpn, ?_⟩
        rcases flag with flag | ⟨r, hmem, -, own⟩
        · exact .inr flag
        · rw [List.nil_append, List.mem_singleton] at hmem
          exact .inl (hmem ▸ own.symm)
    | cons first before =>
        cases lines
        refine .inr ⟨before, q, after, rfl, sentQ, lpn, ?_⟩
        rcases flag with flag | ⟨r, hmem, sentR, own⟩
        · exact .inl (.inr flag)
        · rcases List.mem_cons.1 hmem with rfl | hmem
          · exact .inl (.inl own.symm)
          · exact .inr ⟨r, hmem, sentR, own⟩
  · rintro (⟨lpn, flag⟩ | ⟨before, q, after, rfl, sentQ, lpn, flag⟩)
    · refine ⟨[], p, rest, rfl, sent, lpn, ?_⟩
      rcases flag with own | flag
      · exact .inr ⟨p, List.mem_singleton_self p, sent, own.symm⟩
      · exact .inl flag
    · refine ⟨p :: before, q, after, rfl, sentQ, lpn, ?_⟩
      rcases flag with (own | flag) | ⟨r, hmem, sentR, own⟩
      · exact .inr ⟨p, List.mem_cons_self, sent, own.symm⟩
      · exact .inl flag
      · exact .inr ⟨r, List.mem_cons_of_mem p hmem, sentR, own⟩

theorem flushWrites_cons_unsent {flags : List Bool} (unsent : ¬ Sent range s p)
    {rest : List (Nat × Nat)} {lca : Nat} :
    FlushWrites cfg range s flags (p :: rest) lca ↔ FlushWrites cfg range s flags rest lca := by
  constructor
  · rintro ⟨before, q, after, lines, sentQ, lpn, flag⟩
    cases before with
    | nil =>
        cases lines
        exact (unsent sentQ).elim
    | cons first before =>
        cases lines
        refine ⟨before, q, after, rfl, sentQ, lpn, flag.imp_right ?_⟩
        rintro ⟨r, hmem, sentR, own⟩
        rcases List.mem_cons.1 hmem with rfl | hmem
        · exact (unsent sentR).elim
        · exact ⟨r, hmem, sentR, own⟩
  · rintro ⟨before, q, after, rfl, sentQ, lpn, flag⟩
    refine ⟨p :: before, q, after, rfl, sentQ, lpn, flag.imp_right ?_⟩
    rintro ⟨r, hmem, sentR, own⟩
    exact ⟨r, List.mem_cons_of_mem p hmem, sentR, own⟩

theorem flushLines_issued (lines : List (Nat × Nat)) (w : Sweep)
    (flags : w.ioFlag.length = cfg.lineCountInSuperPage) :
    ∃ issued, (lines.foldl (flushLine cfg range) w).cache.accesses =
        issued ++ w.cache.accesses ∧
      ∀ lca, (∃ a ∈ issued, a.Writes cfg lca) ↔
        FlushWrites cfg range w.cache w.ioFlag lines lca := by
  induction lines generalizing w with
  | nil =>
      refine ⟨[], rfl, fun lca => iff_of_false ?_ ?_⟩
      · rintro ⟨a, hmem, -⟩
        exact List.not_mem_nil hmem
      · rintro ⟨before, q, after, lines, -⟩
        exact List.append_ne_nil_of_right_ne_nil _ (List.cons_ne_nil q after) lines.symm
  | cons p rest ih =>
      have ioFlag : (flushLine cfg range w p).ioFlag = if Sent range w.cache p then
          w.ioFlag.set ((w.cache.line p).tag % cfg.lineCountInSuperPage) true
        else w.ioFlag := flushLine_ioFlag w p
      have flagsRest : (flushLine cfg range w p).ioFlag.length = cfg.lineCountInSuperPage := by
        rw [ioFlag]
        split_ifs
        · exact List.length_set.trans flags
        · exact flags
      obtain ⟨issued, accesses, writes⟩ := ih _ flagsRest
      simp only [flushLine_flushWrites] at writes
      rw [flushLine_accesses] at accesses
      by_cases sent : Sent range w.cache p
      · rw [if_pos sent] at accesses
        rw [ioFlag, if_pos sent] at writes
        refine ⟨issued ++ [.ftlWrite ⟨(w.cache.line p).tag / cfg.lineCountInSuperPage,
          w.ioFlag.set ((w.cache.line p).tag % cfg.lineCountInSuperPage) true⟩], ?_,
          fun lca => ?_⟩
        · rw [List.foldl_cons, accesses, List.append_assoc]
          rfl
        · rw [flushWrites_cons_sent flags sent, ← writes lca]
          simp only [List.mem_append, List.mem_singleton, or_and_right, exists_or,
            exists_eq_left]
          rw [or_comm]
          refine or_congr_left ⟨?_, fun own => ⟨_, rfl, own⟩⟩
          rintro ⟨req, same, own⟩
          cases same
          exact own
      · rw [if_neg sent] at accesses
        rw [ioFlag, if_neg sent] at writes
        exact ⟨issued, accesses, fun lca =>
          (writes lca).trans (flushWrites_cons_unsent sent).symm⟩

def FlushSends (cfg : Config) (range : LPNRange) (s : GenericCache) (lca : Nat) : Prop :=
  FlushWrites cfg range s (List.replicate cfg.lineCountInSuperPage false) cfg.ways lca

theorem flush_issued (on : caching cfg = true) (range : LPNRange) (tick : Tick)
    (s : GenericCache) :
    ∃ issued, (flush cfg range tick s).2.accesses = issued ++ s.accesses ∧
      ∀ lca, (∃ a ∈ issued, a.Writes cfg lca) ↔ FlushSends cfg range s lca := by
  rw [flush_on on]
  exact flushLines_issued cfg.ways (sweepStart cfg tick s) List.length_replicate

theorem cleanOf_iff : CleanOf cfg range s ↔
    ∀ range' lca, Names range lca → ¬ FlushSends cfg range' s lca := by
  have pos := lineCountInSuperPage_pos cfg
  constructor
  · rintro clean range' lca named ⟨before, q, after, lines, sentQ, lpn, flag⟩
    rcases flag with flag | ⟨p, hmem, sentP, unit⟩
    · rw [List.getD_eq_getElem?_getD, List.getElem?_replicate] at flag
      split_ifs at flag
      all_goals cases flag
    · refine clean before q after lines sentQ.2 p hmem sentP.2 ⟨range', sentP.1, sentQ.1⟩ ?_
      rw [lpn, unit, Nat.div_add_mod']
      exact named
  · rintro clean before q after lines dirtyQ p hmem dirtyP ⟨range', insideP, insideQ⟩ named
    have unit := Nat.mod_lt (s.line p).tag pos
    refine clean range' _ named ⟨before, q, after, lines, ⟨insideQ, dirtyQ⟩, ?_,
      .inr ⟨p, hmem, ⟨insideP, dirtyP⟩, ?_⟩⟩
    · rw [Nat.mul_comm, Nat.mul_add_div pos, Nat.div_eq_of_lt unit, Nat.add_zero]
    · rw [Nat.mul_add_mod', Nat.mod_eq_of_lt unit]

/-! ## What gets dirty later -/

/-- Lines that are dirty later were so before, for the same page. -/
def Fades (s s' : GenericCache) : Prop :=
  ∀ p, (s'.line p).dirty = true → (s.line p).dirty = true ∧ (s'.line p).tag = (s.line p).tag

variable {s'' : GenericCache} {lca slpn : Nat} {req : Request}

theorem Fades.trans (h : Fades s s') (h' : Fades s' s'') : Fades s s'' := by
  intro p dirty
  obtain ⟨mid, tag⟩ := h' p dirty
  obtain ⟨old, tag'⟩ := h p mid
  exact ⟨old, tag.trans tag'⟩

theorem Fades.clean (h : Fades s s') (clean : (s.line p).dirty = false) :
    (s'.line p).dirty = false := by
  by_contra dirty
  exact Bool.false_ne_true (clean.symm.trans (h p (Bool.not_eq_false _ ▸ dirty)).1)

theorem fades_of_lines (h : ∀ p, (s'.line p).dirty = (s.line p).dirty ∧
    (s'.line p).tag = (s.line p).tag) : Fades s s' :=
  fun p dirty => ⟨(h p).1.symm.trans dirty, (h p).2⟩

theorem SameLines.fades (h : SameLines s s') : Fades s s' :=
  fades_of_lines fun p => by rw [h.line]; exact ⟨rfl, rfl⟩

theorem Cleans.fades (h : Cleans s s') : Fades s s' := by
  intro p dirty
  rcases h p with same | clean
  · exact same ▸ ⟨same ▸ dirty, rfl⟩
  · exact (Bool.false_ne_true (clean.symm.trans dirty)).elim

theorem Found.fades (h : Found s s') : Fades s s' :=
  fades_of_lines fun p => (h.lines p).2

theorem setLine_fades {l : Line} (clean : l.dirty = false) : Fades s (s.setLine p l) := by
  intro q dirty
  rw [line_setLine] at dirty ⊢
  split_ifs at dirty ⊢
  · exact (Bool.false_ne_true (clean.symm.trans dirty)).elim
  · exact ⟨dirty, rfl⟩

theorem CleanOf.mono (h : CleanOf cfg range s) (fades : Fades s s') : CleanOf cfg range s' := by
  rintro before q after lines dirtyQ p hmem dirtyP ⟨range', insideP, insideQ⟩
  obtain ⟨oldQ, tagQ⟩ := fades q dirtyQ
  obtain ⟨oldP, tagP⟩ := fades p dirtyP
  rw [tagP] at insideP ⊢
  rw [tagQ] at insideQ ⊢
  exact h before q after lines oldQ p hmem oldP ⟨range', insideP, insideQ⟩

theorem evictCache_fades (tick : Tick) (s : GenericCache) :
    Fades s (evictCache cfg tick true s) := by
  refine List.foldlRecOn (motive := fun s' => Fades s s') cfg.cells _ (fun p h => ⟨h, rfl⟩) ?_
  intro s' fades cell _
  refine fades.trans (Cleans.fades fun q => ?_)
  rcases evictCell_line cfg tick s' cell q with ⟨same, -⟩ | ⟨-, -, clean⟩
  · exact .inl same
  · exact .inr clean

theorem stageLine_same (s : GenericCache) (p : Nat × Nat) : SameLines s (stageLine cfg s p) := by
  unfold stageLine
  split_ifs
  · obtain ⟨-, drawn, eq⟩ := compareFunction_spec cfg
      (s.evictData (cfg.calcIOPosition (s.line p).tag).1 (cfg.calcIOPosition (s.line p).tag).2)
      (some p) s
    dsimp only
    rw [eq]
    exact ⟨rfl, rfl⟩
  · exact ⟨rfl, rfl⟩

theorem mergeColumns_same (s : GenericCache) : SameLines s (mergeColumns cfg s) := by
  unfold mergeColumns
  split_ifs
  · refine List.foldlRecOn (motive := fun s' => SameLines s s') _ _ ⟨rfl, rfl⟩
      fun s' same cell _ => same.trans ?_
    obtain ⟨-, drawn, eq⟩ := compareFunction_spec cfg (s'.evictData cell.1 cell.2)
      (s'.evictData cell.1 (cell.2 + 1)) s'
    unfold mergeCell
    dsimp only
    rw [eq]
    exact ⟨rfl, rfl⟩
  · exact ⟨rfl, rfl⟩

theorem stageSet_same (setIdx : Nat) (s : GenericCache) : SameLines s (stageSet cfg setIdx s) := by
  unfold stageSet
  split_ifs
  · exact ⟨rfl, rfl⟩
  · obtain ⟨chosen, drawn, eq⟩ := chosen_spec cfg setIdx s
    dsimp only
    rw [eq]
    cases chosen with
    | none => exact ⟨rfl, rfl⟩
    | some p => exact ⟨rfl, rfl⟩

structure FillFades (s : GenericCache) (w : Fill) : Prop where
  fades : Fades s w.cache
  clean : ∀ entry ∈ w.readList, (w.cache.line entry.2).dirty = false

theorem FillFades.claim {w : Fill} {beginAt : Tick} (h : FillFades s w) :
    FillFades s (claimLine lca p beginAt w) := by
  have claimed : Fades w.cache (claimLine lca p beginAt w).cache := setLine_fades rfl
  refine ⟨h.fades.trans claimed, fun entry hmem => ?_⟩
  rcases List.mem_append.1 hmem with old | new
  · exact claimed.clean (h.clean entry old)
  · rw [List.mem_singleton.1 new]
    exact congrArg Line.dirty ((line_setLine p p _ _).trans (if_pos rfl))

theorem fillLine_fades {w w' : Fill} (h : FillFades s w)
    (run : fillLine cfg tick w lca = .ok w') : FillFades s w' := by
  unfold fillLine at run
  dsimp only at run
  split_ifs at run
  · cases run
    exact h
  · cases run
    exact h.claim
  · cases run
    obtain ⟨drawn, cache⟩ := evictFunction_spec cfg (cfg.calcSetIndex lca)
      (getEmptyWay cfg (cfg.calcSetIndex lca) (getValidWay cfg lca tick w.cache).2 w.cache).2
      w.cache
    generalize evictFunction cfg (cfg.calcSetIndex lca)
      (getEmptyWay cfg (cfg.calcSetIndex lca) (getValidWay cfg lca tick w.cache).2 w.cache).2
      w.cache = victim at *
    have same : SameLines w.cache
        (stageVictim cfg (cfg.calcSetIndex lca, victim.1) victim.2.2) := by
      have drawnSame : SameLines w.cache victim.2.2 := by
        rw [cache]
        exact ⟨rfl, rfl⟩
      exact drawnSame.trans (stageVictim_same cfg _ _)
    have staged : FillFades s { w with
        cache := stageVictim cfg (cfg.calcSetIndex lca, victim.1) victim.2.2 } :=
      ⟨h.fades.trans same.fades, fun entry hmem => same.fades.clean (h.clean entry hmem)⟩
    exact staged.claim

theorem loadLines_fades (slpn : Nat) (tick : Tick) {list : List (Nat × Nat × Nat)}
    (acc : Tick × GenericCache) (clean : ∀ entry ∈ list, (acc.2.line entry.2).dirty = false) :
    Fades acc.2 (list.foldl (loadLine cfg slpn tick) acc).2 := by
  induction list generalizing acc with
  | nil => exact fun p h => ⟨h, rfl⟩
  | cons entry rest ih =>
      rw [List.forall_mem_cons] at clean
      have first : Fades acc.2 (loadLine cfg slpn tick acc entry).2 :=
        setLine_fades (clean.1)
      exact first.trans (ih _ fun other hmem => first.clean (clean.2 other hmem))

theorem fillCache_fades {hit : Bool} {arrived : Tick} {done : Tick × GenericCache}
    (h : fillCache cfg slpn hit arrived tick s = .ok done) : Fades s done.2 := by
  obtain ⟨w, hfill, hdone⟩ := bind_eq_ok.1 h
  cases hdone
  have start : FillFades s ⟨readAhead cfg slpn s, tick, []⟩ :=
    ⟨(readAhead_same cfg slpn s).1.fades, fun _ hmem => absurd hmem List.not_mem_nil⟩
  have filled : FillFades s w :=
    foldlM_invariant_mem (FillFades s) (fun _ _ _ _ h run => fillLine_fades h run) hfill start
  have evicted : Fades w.cache (evictCache cfg w.finishedAt true w.cache) :=
    evictCache_fades w.finishedAt w.cache
  exact filled.fades.trans (evicted.trans (loadLines_fades slpn w.finishedAt _
    fun entry hmem => evicted.clean (filled.clean entry hmem)))

theorem read_fades {result : Bool × Tick × GenericCache}
    (h : read cfg req tick s = .ok result) : Fades s result.2.2 := by
  unfold read at h
  by_cases on : cfg.useReadCaching = true
  · rw [if_pos on] at h
    have found := lookUp_found cfg req tick s
    cases hlook : lookUp cfg req tick s with
    | hit hitAt s₁ =>
        rw [hlook] at h found
        cases h
        exact found.1.fades
    | prefetch slpn arrived foundAt s₁ =>
        rw [hlook] at h found
        obtain ⟨filled, hfill, hdone⟩ := bind_eq_ok.1 h
        cases hdone
        have fades : Fades s₁ filled.2 := fillCache_fades hfill
        exact found.1.fades.trans fades
    | miss slpn foundAt s₁ =>
        rw [hlook] at h found
        obtain ⟨filled, hfill, hdone⟩ := bind_eq_ok.1 h
        cases hdone
        have fades : Fades s₁ filled.2 := fillCache_fades hfill
        exact found.1.fades.trans fades
  · rw [if_neg on] at h
    cases h
    exact fun p h => ⟨h, rfl⟩

theorem flush_fades (range : LPNRange) (tick : Tick) (s : GenericCache) :
    Fades s (flush cfg range tick s).2 := by
  by_cases on : caching cfg = true
  · rw [flush_on on]
    refine List.foldlRecOn (motive := fun w : Sweep => Fades s w.cache) cfg.ways _
      (fun p h => ⟨h, rfl⟩) fun w fades p _ => fades.trans (fades_of_lines fun q => ?_)
    exact ⟨(flushLine_sent w p q).2, (flushLine_sent w p q).1⟩
  · rw [flush_off on]
    exact fun p h => ⟨h, rfl⟩

theorem trim_fades (range : LPNRange) (tick : Tick) (s : GenericCache) :
    Fades s (trim cfg range tick s).2 := by
  by_cases on : caching cfg = true
  · rw [trim_on on]
    refine List.foldlRecOn (motive := fun w : Sweep => Fades s w.cache) cfg.ways _
      (fun p h => ⟨h, rfl⟩) fun w fades p _ => fades.trans (fades_of_lines fun q => ?_)
    rw [trimLine_line]
    split_ifs with same
    · rw [same.1]
      exact ⟨rfl, rfl⟩
    · exact ⟨rfl, rfl⟩
  · rw [trim_off on]
    exact fun p h => ⟨h, rfl⟩

theorem format_fades (range : LPNRange) (tick : Tick) (s : GenericCache) :
    Fades s (format cfg range tick s).2 := by
  have line : ∀ acc lpn, Fades acc.2 (formatLine cfg acc lpn).2 := by
    intro acc lpn
    unfold formatLine
    dsimp only
    split_ifs
    · refine fades_of_lines fun q => ?_
      rw [line_setLine]
      split_ifs with same
      · rw [same]
        exact ⟨rfl, rfl⟩
      · exact ⟨rfl, rfl⟩
    · exact fun p h => ⟨h, rfl⟩
  unfold format access
  dsimp only
  split_ifs
  · exact List.foldlRecOn (motive := fun acc : Tick × GenericCache => Fades s acc.2) _ _
      (fun p h => ⟨h, rfl⟩) fun acc fades lpn _ => fades.trans (line acc lpn)
  · exact fun p h => ⟨h, rfl⟩

theorem evictForWrite_fades (setIdx : Nat) (tick : Tick) (s : GenericCache) :
    Fades s (evictForWrite cfg setIdx tick s) := by
  have staged : SameLines s (cfg.ways.foldl (stageLine cfg) s) := by
    refine List.foldlRecOn (motive := fun s' => SameLines s s') cfg.ways _ ⟨rfl, rfl⟩
      fun s' same p _ => same.trans (stageLine_same s' p)
  exact ((staged.trans (mergeColumns_same _)).trans (stageSet_same setIdx _)).fades.trans
    (evictCache_fades tick _)

/-- Lines that are dirty later were so before, for the same page, or hold `lca`. -/
def FadesBut (lca : Nat) (s s' : GenericCache) : Prop :=
  ∀ p, (s'.line p).dirty = true → (s'.line p).tag = lca ∨
    (s.line p).dirty = true ∧ (s'.line p).tag = (s.line p).tag

theorem Fades.store (h : Fades s s') {l : Line} (tag : l.tag = lca) :
    FadesBut lca s (s'.setLine p l) := by
  intro q dirty
  rw [line_setLine] at dirty ⊢
  split_ifs at dirty ⊢
  · exact .inl tag
  · exact .inr (h q dirty)

theorem write_fades {result : Bool × Tick × GenericCache}
    (h : write cfg req tick s = .ok result) : FadesBut req.slpn s result.2.2 := by
  unfold write at h
  dsimp only at h
  have sent : Fades s (if decide (req.length < cfg.lineSize) = true then (tick, s) else
      access cfg (.ftlWrite (cfg.reqInternal req.slpn)) tick s).2 := by
    split_ifs
    · exact fun p h => ⟨h, rfl⟩
    · exact fun p h => ⟨h, rfl⟩
  generalize (if decide (req.length < cfg.lineSize) = true then (tick, s) else
    access cfg (.ftlWrite (cfg.reqInternal req.slpn)) tick s) = sent at *
  split_ifs at h
  · cases h
    exact sent.store rfl
  · cases h
    exact sent.store rfl
  · cases h
    exact (sent.trans (evictForWrite_fades _ _ _)).store rfl
  · cases h
    exact fun p dirty => .inr (sent p dirty)
  · cases h
    exact fun p dirty => .inr (sent p dirty)

/-- Data is stored in one line.  With itself its page makes no other page, and with the lines that
were dirty before none of the range. -/
theorem CleanOf.store (h : CleanOf cfg range s) (fades : FadesBut lca s s')
    (apart : Apart cfg range lca s) : CleanOf cfg range s' := by
  rintro before q after lines dirtyQ p hmem dirtyP ⟨range', insideP, insideQ⟩
  have hq : q ∈ cfg.ways := lines ▸ List.mem_append_right before List.mem_cons_self
  have hp : p ∈ cfg.ways := by
    rw [lines]
    rcases List.mem_append.1 hmem with first | last
    · exact List.mem_append_left _ first
    · rw [List.mem_singleton.1 last]
      exact List.mem_append_right before List.mem_cons_self
  rcases fades q dirtyQ with newQ | ⟨oldQ, tagQ⟩
  · rcases fades p dirtyP with newP | ⟨oldP, tagP⟩
    · rw [newP, newQ, Nat.div_add_mod']
      exact apart.1
    · rw [newQ, tagP]
      exact (apart.2 p hp oldP).1
  · rcases fades p dirtyP with newP | ⟨oldP, tagP⟩
    · rw [newP, tagQ]
      exact (apart.2 q hq oldQ).2
    · rw [tagP] at insideP ⊢
      rw [tagQ] at insideQ ⊢
      exact h before q after lines oldQ p hmem oldP ⟨range', insideP, insideQ⟩

theorem Later.clean (h : Later cfg range s s') (clean : CleanOf cfg range s) :
    CleanOf cfg range s' := by
  induction h with
  | refl => exact clean
  | read _ h ih => exact ih.mono (read_fades h)
  | write _ apart h ih => exact ih.store (write_fades h) apart
  | flush flushed tick _ ih => exact ih.mono (flush_fades flushed tick _)
  | trim trimmed tick _ ih => exact ih.mono (trim_fades trimmed tick _)
  | format formatted tick _ ih => exact ih.mono (format_fades formatted tick _)

theorem unflushed_iff (on : caching cfg = true) : Unflushed cfg range s ↔ CleanOf cfg range s := by
  constructor
  · intro unflushed
    rw [cleanOf_iff]
    intro range' lca named sends
    obtain ⟨issued, accesses, writes⟩ := flush_issued on range' 0 s
    obtain ⟨a, hmem, hwrites⟩ := (writes lca).2 sends
    exact unflushed s range' 0 issued (.refl s) accesses a hmem lca named hwrites
  · intro clean s' range' tick issued later accesses a hmem lca named hwrites
    obtain ⟨issued', accesses', writes⟩ := flush_issued on range' tick s'
    have same : issued' = issued := List.append_cancel_right (accesses'.symm.trans accesses)
    exact cleanOf_iff.1 (later.clean clean) range' lca named
      ((writes lca).1 ⟨a, same ▸ hmem, hwrites⟩)

theorem unflushed_off (off : ¬ caching cfg = true) : Unflushed cfg range s := by
  intro s' range' tick issued _ accesses a hmem
  rw [flush_off off] at accesses
  rw [List.self_eq_append_left.1 accesses] at hmem
  exact absurd hmem List.not_mem_nil

/-! ## Trims that deallocate what they name -/

theorem TrimDone.place (h : TrimDone cfg ftl range s f s' f') (lca : Nat) :
    f'.place ftl (cfg.unitOf lca) = none ∧ (∃ p ∈ touched cfg range s,
        (s.line p).tag / cfg.lineCountInSuperPage = lca / cfg.lineCountInSuperPage) ∨
      f'.place ftl (cfg.unitOf lca) = f.place ftl (cfg.unitOf lca) ∧
        ∀ p ∈ touched cfg range s,
          (s.line p).tag / cfg.lineCountInSuperPage ≠ lca / cfg.lineCountInSuperPage := by
  by_cases drop : ∃ p ∈ touched cfg range s,
      (s.line p).tag / cfg.lineCountInSuperPage = lca / cfg.lineCountInSuperPage
  · obtain ⟨p, hp, same⟩ := drop
    exact .inl ⟨place_dropped (same ▸ h.dropped p hp), p, hp, same⟩
  · have apart : ∀ p ∈ touched cfg range s,
        (s.line p).tag / cfg.lineCountInSuperPage ≠ lca / cfg.lineCountInSuperPage :=
      fun p hp same => drop ⟨p, hp, same⟩
    exact .inr ⟨place_congr (h.table _ apart), apart⟩

theorem TrimDone.fades (h : TrimDone cfg ftl range s f s' f') : Fades s s' ∧ Fades s' s := by
  have lines : ∀ p, (s'.line p).dirty = (s.line p).dirty ∧ (s'.line p).tag = (s.line p).tag := by
    intro p
    rw [h.line]
    split_ifs
    · exact ⟨rfl, rfl⟩
    · exact ⟨rfl, rfl⟩
  exact ⟨fades_of_lines lines, fades_of_lines fun p => ⟨(lines p).1.symm, (lines p).2.symm⟩⟩

/-- What a trim should leave is what it leaves if and only if it reaches every superpage of
its range, drops no other page and the lines of the range are clean. -/
theorem TrimDone.deallocated_iff (h : TrimDone cfg ftl range s f s' f')
    (whole : ∀ p ∈ touched cfg range s,
      Whole ftl f ((s.line p).tag / cfg.lineCountInSuperPage)) :
    Deallocated cfg ftl range f s' f' ↔ Trimmable cfg ftl range s f := by
  constructor
  · intro done
    refine ⟨fun p hways valid named => ?_, fun lca named mapped => ?_,
      fun lca named mapped p hp same => ?_, whole, fun on => ?_⟩
    · by_contra missed
      have kept : s'.line p = s.line p := (h.line p).trans (if_neg missed)
      exact done.uncached p hways (kept ▸ valid) (kept ▸ named)
    · rcases h.place lca with ⟨-, reached⟩ | ⟨kept, -⟩
      · exact reached
      · exact absurd (kept ▸ done.unmapped lca named) mapped
    · rcases h.place lca with ⟨dropped, -⟩ | ⟨-, apart⟩
      · exact mapped ((done.kept lca named).symm.trans dropped)
      · exact apart p hp same
    · exact ((unflushed_iff on).1 done.unflushed).mono h.fades.2
  · intro trimmable
    refine ⟨fun lca named => ?_, fun p hways valid named => ?_, ?_, fun lca named => ?_⟩
    · rcases h.place lca with ⟨dropped, -⟩ | ⟨kept, apart⟩
      · exact dropped
      · rw [kept]
        by_contra mapped
        obtain ⟨p, hp, same⟩ := trimmable.reached lca named mapped
        exact apart p hp same
    · rw [h.line] at valid named
      split_ifs at valid named with reached
      exact reached (trimmable.looked p hways valid named)
    · by_cases on : caching cfg = true
      · exact (unflushed_iff on).2 ((trimmable.clean on).mono h.fades.1)
      · exact unflushed_off on
    · rcases h.place lca with ⟨dropped, p, hp, same⟩ | ⟨kept, -⟩
      · rw [dropped]
        by_contra mapped
        exact trimmable.apart lca named (Ne.symm mapped) p hp same
      · exact kept

/-- A trim of the layer above the cache returns and leaves just what it should if and only
if the range is trimmable in the states before it. -/
theorem trim_exact_iff (layout : SameLayout cfg ftl) (latency : CPUFunction → Tick) :
    (∃ f', trimBelow cfg ftl ftlLatency range tick s f =
        .ok ((ICL.trim cfg latency range tick s).2, f') ∧
      Deallocated cfg ftl range f (ICL.trim cfg latency range tick s).2 f') ↔
    Trimmable cfg ftl range s f := by
  constructor
  · rintro ⟨f', hrun, done⟩
    obtain ⟨-, trimmed, whole⟩ := trimBelow_eq_ok hrun
    exact (trimmed.deallocated_iff whole).1 done
  · intro trimmable
    obtain ⟨⟨s', f'⟩, hrun⟩ : ∃ done, trimBelow cfg ftl ftlLatency range tick s f = .ok done :=
      trimBelow_total layout trimmable.whole
    obtain ⟨cache, trimmed, whole⟩ := trimBelow_eq_ok hrun
    have same : s' = (ICL.trim cfg latency range tick s).2 := cache
    exact ⟨f', same ▸ hrun, same ▸ (trimmed.deallocated_iff whole).2 trimmable⟩

/-- Page 0 in a clean line, and in the first page of the open block. -/
def onePage : GenericCache := construct.setLine (0, 0) ⟨0, 5, 5, false, true⟩

def onePageFlash : FTL.PageMapping :=
  { emptyFlash with table := Function.update emptyFlash.table 0 (some fun _ => (0, 0)) }

theorem trim_exact_iff_onePage : ∃ f', trimBelow oneLine smallFlash (fun _ => 1) ⟨0, 1⟩ 10
      onePage onePageFlash = .ok ((ICL.trim oneLine (fun _ => 1) ⟨0, 1⟩ 10 onePage).2, f') ∧
    Deallocated oneLine smallFlash ⟨0, 1⟩ onePageFlash
      (ICL.trim oneLine (fun _ => 1) ⟨0, 1⟩ 10 onePage).2 f' := by
  have reached : touched oneLine ⟨0, 1⟩ onePage = [(0, 0)] := by decide +kernel
  have ways : oneLine.ways = [(0, 0)] := by decide +kernel
  refine (trim_exact_iff ⟨rfl, rfl⟩ _).2 ⟨?_, ?_, ?_, ?_, ?_⟩
  · intro p hways _ _
    exact reached ▸ ways ▸ hways
  · intro lca named _
    obtain rfl : lca = 0 := Nat.lt_one_iff.1 named.2
    exact ⟨(0, 0), reached ▸ List.mem_singleton_self _, rfl⟩
  · intro lca named _ p hp same
    rw [reached, List.mem_singleton] at hp
    subst hp
    have zero : 0 = lca := (Nat.div_one 0).symm.trans (same.trans (Nat.div_one lca))
    exact named ⟨Nat.zero_le _, zero ▸ Nat.one_pos⟩
  · intro p hp entries hentries idx _
    rw [reached, List.mem_singleton] at hp
    subst hp
    have first : some (fun _ => (0, 0)) = some entries := hentries
    cases first
    exact ⟨.new 0 2 1, rfl, Nat.two_pos⟩
  · intro _ before q after lines dirty
    have hq : q ∈ oneLine.ways := lines ▸ List.mem_append_right before List.mem_cons_self
    rw [ways, List.mem_singleton] at hq
    subst hq
    exact (Bool.false_ne_true dirty).elim

/-- Page 1 is written to the flash and then makes room for page 0; a trim does not find
it. -/
theorem uncached_page_stays : ¬ ∀ (cfg : Config) (ftl : FTL.Config)
    (ftlLatency : FTL.CPUFunction → Tick) (latency : CPUFunction → Tick),
    SameLayout cfg ftl → ∀ ops s choices filling requests f,
      run cfg ops construct = .ok s →
      FTL.PageMapping.run ftl choices filling requests = .ok f → ∀ range tick, ∃ f',
        trimBelow cfg ftl ftlLatency range tick s f =
            .ok ((ICL.trim cfg latency range tick s).2, f') ∧
          Deallocated cfg ftl range f (ICL.trim cfg latency range tick s).2 f' := by
  intro exact
  obtain ⟨s, hs, untouched⟩ : ∃ s, run oneLine [.write ⟨0, 4096, 1⟩ 10, .write ⟨0, 4096, 0⟩ 500]
      construct = .ok s ∧ touched oneLine ⟨1, 1⟩ s = [] :=
    ⟨_, rfl, by decide +kernel⟩
  obtain ⟨f, hf, mapped⟩ : ∃ f, FTL.PageMapping.run smallFlash anyOrder
      ⟨.mode0, 0, 0, fun _ => 0, fun _ => 0⟩ [.write anyOrder ⟨1, [true], .inl rfl⟩ 10,
        .write anyOrder ⟨0, [true], .inl rfl⟩ 500] = .ok f ∧
      f.place smallFlash (oneLine.unitOf 1) ≠ none :=
    ⟨_, rfl, by decide +kernel⟩
  obtain ⟨f', hrun, done⟩ := exact oneLine smallFlash (fun _ => 1) (fun _ => 1) ⟨rfl, rfl⟩
    _ s _ _ _ f hs hf ⟨1, 1⟩ 900
  obtain ⟨-, trimmed, whole⟩ := trimBelow_eq_ok hrun
  obtain ⟨p, hp, -⟩ := ((trimmed.deallocated_iff whole).1 done).reached 1
    ⟨le_rfl, Nat.lt_succ_self 1⟩ mapped
  rw [untouched] at hp
  exact List.not_mem_nil hp

end GenericCache

end SimpleSSD.ICL
