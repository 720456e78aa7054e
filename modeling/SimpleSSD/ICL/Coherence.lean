import SimpleSSD.ICL.Tracking

/-!
# Coherence with the flash

A flush that sends only what its lines hold, and writes that do not pass by a line, keep
the lines and the flash up to date.  The cache then answers like a plain store.
-/

namespace SimpleSSD.ICL.GenericCache

open SimpleSSD.Foundation

variable {D : Type} {cfg : Config} {s s' : GenericCache} {d d' : Contents D}
  {latest : Nat → D} {p : Nat × Nat} {tick tick' : Tick} {lca slpn : Nat} {req : Request}
  {range : LPNRange} {free : Nat → Prop}

/-! ## Write -/

theorem Tracks.put (h : Coherent cfg latest s d) (v : D) :
    Tracks cfg (· = slpn) latest s (d.put cfg slpn v) :=
  ⟨h.home, h.unique, h.holds, fun lca other none => by
    rw [put_store, Function.update_of_ne other]
    exact h.store lca not_false none⟩

theorem Tracks.loosen (h : Coherent cfg latest s d) : Tracks cfg free latest s d :=
  ⟨h.home, h.unique, h.holds, fun lca _ => h.store lca not_false⟩

theorem Tracks.put_uncached (h : Coherent cfg latest s d) (none : Uncached s slpn) (v : D) :
    Coherent cfg (Function.update latest slpn v) s (d.put cfg slpn v) := by
  refine ⟨h.home, h.unique, fun q valid => ?_, fun lca _ clean => ?_⟩
  · rw [Function.update_of_ne (none q valid)]
    exact h.holds q valid
  · rw [put_store]
    by_cases same : lca = slpn
    · rw [same, Function.update_self, Function.update_self]
    · rw [Function.update_of_ne same, Function.update_of_ne same]
      exact h.store lca not_false clean

theorem Tracks.setLine (h : Tracks cfg (· = slpn) latest s d) {v : D} {l : Line}
    (lines : ∀ q, s'.line q = if q = p then l else s.line q)
    (isPage : l.valid = true ∧ l.tag = slpn)
    (place : p.1 = cfg.calcSetIndex slpn ∧ p.2 < cfg.waySize)
    (only : ∀ q, (s.line q).valid = true → (s.line q).tag = slpn → q = p)
    (own : ∀ lca, Dirty s p lca → lca = slpn)
    (saved : l.dirty = true ∨ d.store slpn = v) :
    Coherent cfg (Function.update latest slpn v) s' (d.setLine p v) := by
  obtain ⟨valid, tag⟩ := isPage
  have there : s'.line p = l := by rw [lines, if_pos rfl]
  have elsewhere : ∀ q, q ≠ p → s'.line q = s.line q := fun q ne => by rw [lines, if_neg ne]
  have other : ∀ q, q ≠ p → (s.line q).valid = true → (s.line q).tag ≠ slpn :=
    fun q ne hq hs => ne (only q hq hs)
  refine ⟨fun q hq => ?_, fun q r hq hr tags => ?_, fun q hq => ?_, fun lca _ none => ?_⟩
  · by_cases same : q = p
    · rw [same, there, tag]
      exact place
    · rw [elsewhere q same] at hq ⊢
      exact h.home q hq
  · by_cases hqp : q = p
    · by_cases hrp : r = p
      · rw [hqp, hrp]
      · rw [elsewhere r hrp] at hr tags
        rw [hqp, there, tag] at tags
        exact absurd tags.symm (other r hrp hr)
    · rw [elsewhere q hqp] at hq tags
      by_cases hrp : r = p
      · rw [hrp, there, tag] at tags
        exact absurd tags (other q hqp hq)
      · rw [elsewhere r hrp] at hr tags
        exact h.unique q r hq hr tags
  · by_cases same : q = p
    · rw [same, there, tag]
      rw [setLine_line, if_pos rfl, Function.update_self]
    · rw [elsewhere q same] at hq ⊢
      rw [setLine_line, if_neg same, Function.update_of_ne (other q same hq)]
      exact h.holds q hq
  · by_cases same : lca = slpn
    · rw [same, Function.update_self]
      refine saved.resolve_left fun dirty => none p ?_
      unfold Dirty
      rw [there, same]
      exact ⟨valid, dirty, tag⟩
    · rw [Function.update_of_ne same]
      refine h.store lca same fun q hd => none q ?_
      have ne : q ≠ p := by
        rintro rfl
        exact same (own lca hd)
      unfold Dirty
      rw [elsewhere q ne]
      exact hd

theorem evictForWriteData_cache (setIdx : Nat) (tick : Tick) (s : GenericCache)
    (d : Contents D) :
    (evictForWriteData cfg setIdx tick s d).1 = evictForWrite cfg setIdx tick s :=
  evictCacheData_cache tick true _ d

theorem evictForWriteData_tracks (h : Tracks cfg free latest s d) (unstaged : Unstaged s)
    (setIdx : Nat) (tick : Tick) :
    Tracks cfg free latest (evictForWrite cfg setIdx tick s)
        (evictForWriteData cfg setIdx tick s d).2 ∧
      ∀ q, (evictForWrite cfg setIdx tick s).line q = s.line q ∨
        ((evictForWrite cfg setIdx tick s).line q).valid = false := by
  have all : Stages cfg s _ := stageAll_stages unstaged.staged cfg.ways
  have merged := mergeColumns_stages all.staged
  have chosen := stageSet_stages merged.staged setIdx
  have same := (all.same.trans merged.same).trans chosen.same
  obtain ⟨tracks, fades⟩ := evictCacheData_tracks (same.tracks h) chosen.staged tick
  rw [evictCacheData_cache] at tracks fades
  refine ⟨tracks, fun q => ?_⟩
  rw [← same.line q]
  exact fades q

theorem write_coherent {done : Bool × Tick × GenericCache} {v : D}
    (h : Coherent cfg latest s d) (unstaged : Unstaged s)
    (plain : cfg.useWriteCaching = false → Uncached s req.slpn)
    (run : write cfg req tick s = .ok done) :
    Coherent cfg (Function.update latest req.slpn v) done.2.2
      (writeData cfg req v tick s d) := by
  unfold write at run
  unfold writeData
  dsimp only at run ⊢
  generalize hdirty : decide (req.length < cfg.lineSize) = dirty at run ⊢
  have hsent : ∃ accesses, (if dirty = true then (tick, s) else
      access cfg (.ftlWrite (cfg.reqInternal req.slpn)) tick s).2 =
        { s with accesses := accesses } := by
    cases dirty with
    | true => exact ⟨s.accesses, rfl⟩
    | false => exact ⟨_, rfl⟩
  have sentData : Tracks cfg (· = req.slpn) latest s
      (if dirty = true then d else d.put cfg req.slpn v) ∧
        (dirty = true ∨ (if dirty = true then d else d.put cfg req.slpn v).store req.slpn = v) := by
    cases dirty with
    | true => exact ⟨h.loosen, .inl rfl⟩
    | false => exact ⟨h.put v, .inr (by simp [put_store])⟩
  obtain ⟨accesses, hsent⟩ := hsent
  generalize (if dirty = true then (tick, s) else
    access cfg (.ftlWrite (cfg.reqInternal req.slpn)) tick s) = sent at *
  obtain ⟨flash, sentCache⟩ := sent
  subst hsent
  by_cases caching : cfg.useWriteCaching = true
  · simp only [caching, if_true] at run ⊢
    obtain ⟨tracks, saved⟩ := sentData
    generalize (if dirty = true then d else d.put cfg req.slpn v) = d₁ at tracks saved ⊢
    replace tracks : Tracks cfg (· = req.slpn) latest { s with accesses := accesses } d₁ :=
      tracks.of_lines fun _ => ⟨rfl, rfl, rfl⟩
    split_ifs at run ⊢ with found empty freed
    · cases run
      obtain ⟨way, valid, tag⟩ := getValidWay_spec found
      exact tracks.setLine (fun q => line_setLine _ q _ _) ⟨rfl, rfl⟩ ⟨rfl, way⟩
        (fun q hq hs => tracks.unique q _ hq valid (hs.trans tag.symm))
        (fun lca hd => hd.2.2.symm.trans tag) saved
    · cases run
      obtain ⟨way, invalid⟩ := getEmptyWay_spec empty
      have none := tracks.uncached (not_not.1 found)
      exact tracks.setLine (fun q => line_setLine _ q _ _) ⟨rfl, rfl⟩ ⟨rfl, way⟩
        (fun q hq hs => absurd hs (none q hq))
        (fun lca hd => absurd (invalid.symm.trans hd.1) Bool.false_ne_true) saved
    · cases run
      have none := tracks.uncached (not_not.1 found)
      obtain ⟨evicted, fades⟩ := evictForWriteData_tracks tracks unstaged
        (cfg.calcSetIndex req.slpn) _
      obtain ⟨way, invalid⟩ := getEmptyWay_spec freed
      rw [evictForWriteData_cache]
      refine evicted.setLine (fun q => line_setLine _ q _ _) ⟨rfl, rfl⟩ ⟨rfl, way⟩
        (fun q hq hs => ?_)
        (fun lca hd => absurd (invalid.symm.trans hd.1) Bool.false_ne_true) (.inl rfl)
      rcases fades q with same | gone
      · rw [same] at hq hs
        exact absurd hs (none q hq)
      · exact absurd (gone.symm.trans hq) Bool.false_ne_true
  · have none := plain (eq_false_of_ne_true caching)
    simp only [caching, Bool.false_eq_true, if_false] at run ⊢
    cases run
    have stored := h.put_uncached none v
    cases dirty with
    | true => exact stored.of_lines fun _ => ⟨rfl, rfl, rfl⟩
    | false => exact stored.of_lines fun _ => ⟨rfl, rfl, rfl⟩

/-! ## Flush -/

/-- A line a flush sends: in the range and dirty, valid or not. -/
def Sent (range : LPNRange) (s : GenericCache) (q : Nat × Nat) : Prop :=
  range.Contains (s.line q).tag ∧ (s.line q).dirty = true

instance (range : LPNRange) (s : GenericCache) (q : Nat × Nat) : Decidable (Sent range s q) :=
  inferInstanceAs (Decidable (_ ∧ _))

/-- Every line the flush sends holds the last version of its page, and any two agree in
the superpage or in the unit, so that a request carries no unit of another superpage. -/
structure SendsOwn (cfg : Config) (latest : Nat → D) (range : LPNRange) (s : GenericCache)
    (d : Contents D) : Prop where
  current : ∀ q ∈ cfg.ways, Sent range s q → d.line q = latest (s.line q).tag
  apart : ∀ q ∈ cfg.ways, ∀ r ∈ cfg.ways, Sent range s q → Sent range s r →
    (s.line q).tag / cfg.lineCountInSuperPage = (s.line r).tag / cfg.lineCountInSuperPage ∨
      (s.line q).tag % cfg.lineCountInSuperPage = (s.line r).tag % cfg.lineCountInSuperPage

/-- A flush that began in `s` has passed the lines `past`. -/
structure Swept (cfg : Config) (latest : Nat → D) (range : LPNRange) (s : GenericCache)
    (d : Contents D) (past : Nat × Nat → Prop) (w : Sweep × Contents D × (Nat → D)) : Prop where
  ways : ∀ q, past q → q ∈ cfg.ways
  passed : ∀ q, past q → range.Contains (s.line q).tag →
    w.1.cache.line q = { s.line q with valid := false }
  kept : ∀ q, ¬ (past q ∧ range.Contains (s.line q).tag) → w.1.cache.line q = s.line q
  line : w.2.1.line = d.line
  flags : w.1.ioFlag.length = cfg.lineCountInSuperPage
  units : ∀ unit, w.1.ioFlag.getD unit false = true → ∃ q, past q ∧ Sent range s q ∧
    (s.line q).tag % cfg.lineCountInSuperPage = unit ∧ w.2.2 unit = latest (s.line q).tag
  store : ∀ lca, w.2.1.store lca = d.store lca ∨ w.2.1.store lca = latest lca
  saved : ∀ q, past q → Sent range s q → w.2.1.store (s.line q).tag = latest (s.line q).tag

theorem Swept.tag {past : Nat × Nat → Prop} {w : Sweep × Contents D × (Nat → D)}
    (h : Swept cfg latest range s d past w) (q : Nat × Nat) :
    (w.1.cache.line q).tag = (s.line q).tag ∧ (w.1.cache.line q).dirty = (s.line q).dirty := by
  by_cases done : past q ∧ range.Contains (s.line q).tag
  · rw [h.passed q done.1 done.2]
    exact ⟨rfl, rfl⟩
  · rw [h.kept q done]
    exact ⟨rfl, rfl⟩

theorem flushLine_line (w : Sweep) (p q : Nat × Nat) :
    (flushLine cfg range w p).cache.line q =
      if q = p ∧ range.Contains (w.cache.line p).tag then
        { w.cache.line p with valid := false }
      else w.cache.line q := by
  have invalidated : ∀ u : Sweep, (∀ r, u.cache.line r = w.cache.line r) →
      (invalidateLine p u).cache.line q =
        if q = p then { w.cache.line p with valid := false } else w.cache.line q := by
    intro u same
    unfold invalidateLine
    rw [line_setLine, same p, same q]
  unfold flushLine
  dsimp only
  by_cases inside : range.Contains (w.cache.line p).tag
  · simp only [inside, if_true, and_true]
    refine invalidated _ fun r => ?_
    split <;> rfl
  · simp only [inside, if_false, and_false]

theorem flushLine_ioFlag (w : Sweep) (p : Nat × Nat) :
    (flushLine cfg range w p).ioFlag =
      if range.Contains (w.cache.line p).tag ∧ (w.cache.line p).dirty = true then
        w.ioFlag.set ((w.cache.line p).tag % cfg.lineCountInSuperPage) true
      else w.ioFlag := by
  unfold flushLine
  dsimp only
  by_cases inside : range.Contains (w.cache.line p).tag
  · simp only [inside, if_true, true_and]
    split <;> rfl
  · simp only [inside, if_false, false_and]

theorem write_own {past : Nat × Nat → Prop} {w : Sweep × Contents D × (Nat → D)}
    (h : Swept cfg latest range s d past w) (own : SendsOwn cfg latest range s d)
    (hp : p ∈ cfg.ways) (sent : Sent range s p) (lca : Nat) :
    let unit := (s.line p).tag % cfg.lineCountInSuperPage
    let done := w.2.1.write cfg ⟨(s.line p).tag / cfg.lineCountInSuperPage,
      w.1.ioFlag.set unit true⟩ (Function.update w.2.2 unit (d.line p))
    (done.store lca = w.2.1.store lca ∨ done.store lca = latest lca) ∧
      (lca = (s.line p).tag → done.store lca = latest lca) := by
  have pos := lineCountInSuperPage_pos cfg
  have current := own.current p hp sent
  set L := cfg.lineCountInSuperPage with hL
  have page : ∀ tag, lca / L = tag / L → lca % L = tag % L → lca = tag := by
    intro tag lpn unit
    rw [← Nat.div_add_mod lca L, lpn, unit, Nat.div_add_mod]
  have flag : ∀ i, (w.1.ioFlag.set ((s.line p).tag % L) true).getD i false =
      if i = (s.line p).tag % L then true else w.1.ioFlag.getD i false := by
    intro i
    have bound : (s.line p).tag % L < w.1.ioFlag.length := by
      rw [h.flags]
      exact Nat.mod_lt _ pos
    rw [List.getD_eq_getElem?_getD, List.getD_eq_getElem?_getD, List.getElem?_set]
    by_cases same : i = (s.line p).tag % L
    · simp [same, bound]
    · simp [same, Ne.symm same]
  intro unit done
  have stored : done.store lca = if lca / L = (s.line p).tag / L ∧
      (w.1.ioFlag.set unit true).getD (lca % L) false = true then
        Function.update w.2.2 unit (d.line p) (lca % L)
      else w.2.1.store lca := rfl
  rw [stored, flag]
  by_cases here : lca % L = (s.line p).tag % L
  · have value : Function.update w.2.2 unit (d.line p) (lca % L) = d.line p := by
      rw [here]
      exact Function.update_self ..
    rw [if_pos here, value]
    split_ifs with lpn
    · have same := page _ lpn.1 here
      rw [same]
      exact ⟨.inr current, fun _ => current⟩
    · refine ⟨.inl rfl, fun same => absurd ⟨?_, rfl⟩ lpn⟩
      rw [same]
  · have value : Function.update w.2.2 unit (d.line p) (lca % L) = w.2.2 (lca % L) :=
      Function.update_of_ne here ..
    rw [if_neg here, value]
    refine ⟨?_, fun same => absurd (congrArg (· % L) same) here⟩
    split_ifs with flagged
    · obtain ⟨q, past, sentq, hunit, carried⟩ := h.units _ flagged.2
      have same : lca = (s.line q).tag := by
        rcases own.apart p hp q (h.ways q past) sent sentq with lpn | unit
        · exact page _ (flagged.1.trans lpn) hunit.symm
        · exact absurd (hunit.symm.trans unit.symm) here
      right
      rw [carried, ← same]
    · exact .inl rfl

theorem flushLine_swept {past : Nat × Nat → Prop} {w : Sweep × Contents D × (Nat → D)}
    (h : Swept cfg latest range s d past w) (own : SendsOwn cfg latest range s d)
    (hp : p ∈ cfg.ways) :
    Swept cfg latest range s d (fun q => past q ∨ q = p) (flushLineData cfg range w p) := by
  obtain ⟨tag, dirty⟩ := h.tag p
  have lines : ∀ q, (flushLineData cfg range w p).1.cache.line q =
      if q = p ∧ range.Contains (s.line p).tag then { w.1.cache.line p with valid := false }
      else w.1.cache.line q := by
    intro q
    rw [← tag]
    exact flushLine_line w.1 p q
  have invalid : range.Contains (s.line p).tag →
      { w.1.cache.line p with valid := false } = { s.line p with valid := false } := by
    intro inside
    by_cases passed : past p
    · rw [h.passed p passed inside]
    · rw [h.kept p fun hq => passed hq.1]
  have flags : (flushLineData cfg range w p).1.ioFlag = if Sent range s p then
      w.1.ioFlag.set ((s.line p).tag % cfg.lineCountInSuperPage) true else w.1.ioFlag := by
    refine (flushLine_ioFlag w.1 p).trans ?_
    rw [tag, dirty]
    rfl
  have data : (flushLineData cfg range w p).2 = if Sent range s p then
      (w.2.1.write cfg ⟨(s.line p).tag / cfg.lineCountInSuperPage,
          w.1.ioFlag.set ((s.line p).tag % cfg.lineCountInSuperPage) true⟩
          (Function.update w.2.2 ((s.line p).tag % cfg.lineCountInSuperPage) (d.line p)),
        Function.update w.2.2 ((s.line p).tag % cfg.lineCountInSuperPage) (d.line p))
      else w.2 := by
    unfold flushLineData
    simp only [tag, dirty, h.line]
    rfl
  have ways : ∀ q, past q ∨ q = p → q ∈ cfg.ways := fun q hq =>
    hq.elim (h.ways q) fun same => same ▸ hp
  have passed : ∀ q, past q ∨ q = p → range.Contains (s.line q).tag →
      (flushLineData cfg range w p).1.cache.line q = { s.line q with valid := false } := by
    intro q hq inside
    rw [lines]
    by_cases same : q = p
    · subst same
      rw [if_pos ⟨rfl, inside⟩]
      exact invalid inside
    · rw [if_neg fun hq => same hq.1]
      exact h.passed q (hq.resolve_right same) inside
  have kept : ∀ q, ¬ ((past q ∨ q = p) ∧ range.Contains (s.line q).tag) →
      (flushLineData cfg range w p).1.cache.line q = s.line q := by
    intro q hq
    rw [lines, if_neg]
    · exact h.kept q fun hpast => hq ⟨.inl hpast.1, hpast.2⟩
    · rintro ⟨rfl, inside⟩
      exact hq ⟨.inr rfl, inside⟩
  by_cases sent : Sent range s p
  · have write := write_own h own hp sent
    dsimp only at write
    rw [if_pos sent] at data flags
    refine ⟨ways, passed, kept, ?_, ?_, fun unit hunit => ?_, fun lca => ?_, fun q hq hsent => ?_⟩
    · rw [data]
      exact h.line
    · rw [flags, List.length_set]
      exact h.flags
    · rw [flags] at hunit
      rw [data]
      by_cases here : unit = (s.line p).tag % cfg.lineCountInSuperPage
      · refine ⟨p, .inr rfl, sent, here.symm, ?_⟩
        rw [here]
        exact (Function.update_self ..).trans (own.current p hp sent)
      · obtain ⟨q, hq, sentq, htag, carried⟩ := h.units unit (by
          rw [List.getD_eq_getElem?_getD, List.getElem?_set_ne (Ne.symm here)] at hunit
          rw [List.getD_eq_getElem?_getD]
          exact hunit)
        exact ⟨q, .inl hq, sentq, htag, (Function.update_of_ne here ..).trans carried⟩
    · rw [data]
      rcases (write lca).1 with same | stored
      · rw [same]
        exact h.store lca
      · exact .inr stored
    · rw [data]
      rcases hq with hpast | rfl
      · rcases (write (s.line q).tag).1 with same | stored
        · rw [same]
          exact h.saved q hpast hsent
        · exact stored
      · exact (write _).2 rfl
  · rw [if_neg sent] at data flags
    refine ⟨ways, passed, kept, ?_, ?_, fun unit hunit => ?_, fun lca => ?_, fun q hq hsent => ?_⟩
    · rw [data]
      exact h.line
    · rw [flags]
      exact h.flags
    · rw [flags] at hunit
      rw [data]
      obtain ⟨q, hq, rest⟩ := h.units unit hunit
      exact ⟨q, .inl hq, rest⟩
    · rw [data]
      exact h.store lca
    · rw [data]
      rcases hq with hpast | rfl
      · exact h.saved q hpast hsent
      · exact absurd hsent sent

theorem flush_coherent (h : Coherent cfg latest s d)
    (own : cfg.useReadCaching || cfg.useWriteCaching → SendsOwn cfg latest range s d)
    (tick : Tick) :
    Coherent cfg latest (flush cfg range tick s).2 (flushData cfg range tick s d) := by
  unfold flush flushData
  split_ifs with caching
  · have start : Swept cfg latest range s d (fun _ => False)
        (sweepStart cfg tick s, d, d.store) := by
      refine ⟨nofun, nofun, fun _ _ => rfl, rfl, List.length_replicate, fun unit hunit => ?_,
        fun _ => .inl rfl, nofun⟩
      simp [sweepStart, List.getD_eq_getElem?_getD, List.getElem?_replicate] at hunit
      split at hunit <;> simp at hunit
    have pass : ∀ lines : List (Nat × Nat), lines ⊆ cfg.ways → ∀ past w,
        Swept cfg latest range s d past w → Swept cfg latest range s d
          (fun q => past q ∨ q ∈ lines) (lines.foldl (flushLineData cfg range) w) := by
      intro lines
      induction lines with
      | nil =>
          intro _ past w swept
          simpa using swept
      | cons p rest ih =>
          intro sub past w swept
          obtain ⟨hp, hrest⟩ := List.cons_subset.1 sub
          have later := ih hrest _ _ (flushLine_swept swept (own caching) hp)
          simpa [or_assoc] using later
    have swept := pass cfg.ways (List.Subset.refl _) _ _ start
    simp only [false_or] at swept
    have cache := flushLinesData_sweep cfg range cfg.ways (sweepStart cfg tick s, d, d.store)
    generalize cfg.ways.foldl (flushLineData cfg range) (sweepStart cfg tick s, d, d.store) = w
      at swept cache ⊢
    have final : (cfg.ways.foldl (flushLine cfg range) (sweepStart cfg tick s)).cache =
        w.1.cache := congrArg Sweep.cache cache.symm
    change Coherent cfg latest (cfg.ways.foldl (flushLine cfg range)
        (sweepStart cfg tick s)).cache _
    rw [final]
    refine h.fade swept.line (fun q => ?_) swept.store fun q lca hd gone => ?_
    · by_cases hit : q ∈ cfg.ways ∧ range.Contains (s.line q).tag
      · rw [swept.passed q hit.1 hit.2]
        exact .inr rfl
      · exact .inl (swept.kept q hit)
    · by_cases hit : q ∈ cfg.ways ∧ range.Contains (s.line q).tag
      · rw [← hd.2.2]
        exact swept.saved q hit.1 ⟨hit.2, hd.2.1⟩
      · refine absurd ?_ gone
        unfold Dirty
        rw [swept.kept q hit]
        exact hd
  · exact h

/-! ## Runs -/

/-- A read drops no dirty line and does not pass one by, a write that is not cached
passes no line by, and a flush sends only what its lines hold. -/
def DataOp.Sound (cfg : Config) (w : World D) : DataOp D → Prop
  | .read req tick => cleanRead cfg req tick w.cache = true ∧
      (cfg.useReadCaching = false → ∀ q, ¬ Dirty w.cache q req.slpn)
  | .write req _ _ => cfg.useWriteCaching = false → Uncached w.cache req.slpn
  | .flush range _ => cfg.useReadCaching || cfg.useWriteCaching →
      SendsOwn cfg w.latest range w.cache w.data

def SoundRun (cfg : Config) (w : World D) : List (DataOp D) → Prop
  | [] => True
  | op :: rest => op.Sound cfg w ∧ ∀ w', op.apply cfg w = .ok w' → SoundRun cfg w' rest

structure World.Ready (cfg : Config) (w : World D) : Prop where
  coherent : Coherent cfg w.latest w.cache w.data
  unstaged : Unstaged w.cache

theorem World.start_ready (cfg : Config) (store : Nat → D) (line : Nat × Nat → D) :
    (World.start store line).Ready cfg :=
  ⟨⟨nofun, nofun, nofun, fun _ _ _ => rfl⟩, fun _ => rfl⟩

theorem apply_ready {op : DataOp D} {w w' : World D} (ready : w.Ready cfg)
    (sound : op.Sound cfg w) (run : op.apply cfg w = .ok w') :
    w'.Ready cfg ∧ ∀ rest, w'.returned ++ (plainAnswers w'.latest rest).map some =
      w.returned ++ (plainAnswers w.latest (op :: rest)).map some := by
  cases op with
  | read req tick =>
      obtain ⟨done, hread, hrest⟩ := bind_eq_ok.1 run
      obtain ⟨data, hdata, hw⟩ := bind_eq_ok.1 hrest
      cases hw
      obtain ⟨coherent, value⟩ :=
        read_coherent ready.coherent ready.unstaged sound.1 sound.2 hread hdata
      refine ⟨⟨coherent, (read_saves ready.unstaged sound.1 hread).2⟩, fun rest => ?_⟩
      simp [plainAnswers, value]
  | write req tick version =>
      obtain ⟨done, hwrite, hw⟩ := bind_eq_ok.1 run
      cases hw
      exact ⟨⟨write_coherent ready.coherent ready.unstaged sound hwrite,
        (write_saves ready.unstaged hwrite).2⟩, fun rest => rfl⟩
  | flush range tick =>
      cases run
      exact ⟨⟨flush_coherent ready.coherent sound tick,
        (flush_saves ready.unstaged range tick).2⟩, fun rest => rfl⟩

theorem runData_answers {ops : List (DataOp D)} {w w' : World D} (ready : w.Ready cfg)
    (sound : SoundRun cfg w ops) (run : runData cfg ops w = .ok w') :
    w'.returned = w.returned ++ (plainAnswers w.latest ops).map some := by
  induction ops generalizing w with
  | nil =>
      cases run
      simp [plainAnswers]
  | cons op rest ih =>
      rw [runData, List.foldlM_cons] at run
      obtain ⟨mid, hstep, hrest⟩ := bind_eq_ok.1 run
      obtain ⟨ready', answers⟩ := apply_ready ready sound.1 hstep
      rw [ih ready' (sound.2 mid hstep) hrest, answers rest]

/-- In a sound run the cache answers like a plain store. -/
theorem reads_like_store (cfg : Config) (store : Nat → D) (line : Nat × Nat → D)
    (ops : List (DataOp D)) (w : World D) (sound : SoundRun cfg (World.start store line) ops)
    (run : runData cfg ops (World.start store line) = .ok w) :
    w.returned = (plainAnswers store ops).map some := by
  have answers := runData_answers (World.start_ready cfg store line) sound run
  simpa [World.start] using answers

/-- A partial write is flushed, and the read finds it in the flash. -/
theorem reads_like_store_flushed : ∃ w,
    runData oneLine [.write ⟨0, 512, 0⟩ 0 1, .flush ⟨0, 1⟩ 20, .read ⟨0, 512, 0⟩ 60]
        (World.start (fun _ => 0) fun _ => 0) = .ok w ∧
      w.returned = [some 1] := by
  refine ⟨_, rfl, reads_like_store oneLine (fun _ => 0) (fun _ => 0) [.write ⟨0, 512, 0⟩ 0 1,
    .flush ⟨0, 1⟩ 20, .read ⟨0, 512, 0⟩ 60] _ ?_ rfl⟩
  refine ⟨nofun, fun w hw => ?_⟩
  cases hw
  refine ⟨fun _ => ⟨fun q hq _ => ?_, fun q hq r hr _ _ => ?_⟩, fun w hw => ?_⟩
  · obtain rfl : q = (0, 0) := List.mem_singleton.1 hq
    rfl
  · obtain rfl : q = (0, 0) := List.mem_singleton.1 hq
    obtain rfl : r = (0, 0) := List.mem_singleton.1 hr
    exact .inl rfl
  · cases hw
    exact ⟨⟨rfl, nofun⟩, fun _ _ => trivial⟩

/-- A write that is not cached leaves the line a read has filled, and the next read
returns what the page held before. -/
theorem stale_read : ¬ ∀ (cfg : Config) (store : Nat → Nat) (line : Nat × Nat → Nat)
    (ops : List (DataOp Nat)) (w : World Nat),
      runData cfg ops (World.start store line) = .ok w →
        w.returned = (plainAnswers store ops).map some := by
  intro same
  have answers := same { oneLine with useWriteCaching := false } (fun _ => 0) (fun _ => 0)
    [.read ⟨0, 512, 0⟩ 0, .write ⟨0, 512, 0⟩ 20 1, .read ⟨0, 512, 0⟩ 40] _ rfl
  revert answers
  decide +kernel

end SimpleSSD.ICL.GenericCache
