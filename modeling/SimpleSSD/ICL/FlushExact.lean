import SimpleSSD.ICL.Trim

/-!
# What a flush writes back

A flush looks at the tag and the dirty flag of a line, never at its validity, and goes over
the lines with one request, whose flags it does not reset.  It takes the lines it has
written out of the cache, but they stay dirty.
-/

namespace SimpleSSD.ICL

open SimpleSSD.Foundation

namespace GenericCache

variable (cfg : Config) (range : LPNRange)

def lines : List (Nat × Nat) := if caching cfg then cfg.ways else []

def Held (s : GenericCache) (p : Nat × Nat) : Prop :=
  (s.line p).valid = true ∧ (s.line p).dirty = true ∧
    range.slpn ≤ (s.line p).tag ∧ (s.line p).tag < range.slpn + range.nlp

instance (s : GenericCache) (p : Nat × Nat) : Decidable (Held range s p) :=
  inferInstanceAs (Decidable (_ ∧ _))

/-- One write for each valid dirty line of the range, with its own unit, and no other. -/
def WritesOwn (s : GenericCache) : Prop :=
  ∀ tick, ∃ issued, (flush cfg range tick s).2.accesses = issued ++ s.accesses ∧
    issued.Perm (((lines cfg).filter (Held range s)).map fun p =>
      .ftlWrite (cfg.reqInternal (s.line p).tag))

structure FlushExact (s : GenericCache) : Prop where
  writes : WritesOwn cfg range s
  gone : ∀ tick, ∀ p ∈ lines cfg, Names range ((flush cfg range tick s).2.line p).tag →
    ((flush cfg range tick s).2.line p).valid = false ∧
      ((flush cfg range tick s).2.line p).dirty = false
  again : ∀ tick tick', (flush cfg range tick' (flush cfg range tick s).2).2.accesses =
    (flush cfg range tick s).2.accesses

/-- The requests for the tags sent one after the other, each with the units before it. -/
def gathered (flags : List Bool) : List Nat → List FTLRequest
  | [] => []
  | tag :: rest =>
      ⟨tag / cfg.lineCountInSuperPage, flags.set (tag % cfg.lineCountInSuperPage) true⟩ ::
        gathered (flags.set (tag % cfg.lineCountInSuperPage) true) rest

variable {cfg range} {s : GenericCache} {tick : Tick} {flags : List Bool} {tags : List Nat}

def sentTags (range : LPNRange) (s : GenericCache) (list : List (Nat × Nat)) : List Nat :=
  (list.filter fun p => Sent range s p).map fun p => (s.line p).tag

/-! ## The sweep -/

theorem sentTags_congr {s' : GenericCache} {list : List (Nat × Nat)}
    (same : ∀ q, (s'.line q).tag = (s.line q).tag ∧ (s'.line q).dirty = (s.line q).dirty) :
    sentTags range s' list = sentTags range s list := by
  have sent : ∀ q, decide (Sent range s' q) = decide (Sent range s q) := fun q =>
    decide_eq_decide.2 (by simp only [Sent, same q])
  simp only [sentTags, sent, same]

theorem flushLines_accesses (list : List (Nat × Nat)) (w : Sweep) :
    (list.foldl (flushLine cfg range) w).cache.accesses =
      ((gathered cfg w.ioFlag (sentTags range w.cache list)).map .ftlWrite).reverse ++
        w.cache.accesses := by
  induction list generalizing w with
  | nil => rfl
  | cons p rest ih =>
      have ioFlag : (flushLine cfg range w p).ioFlag = if Sent range w.cache p then
          w.ioFlag.set ((w.cache.line p).tag % cfg.lineCountInSuperPage) true
        else w.ioFlag := flushLine_ioFlag w p
      rw [List.foldl_cons, ih, sentTags_congr (flushLine_sent w p), flushLine_accesses, ioFlag]
      unfold sentTags
      by_cases sent : Sent range w.cache p
      · simp [sent, gathered]
      · simp [sent]

theorem flushLines_line (list : List (Nat × Nat)) (w : Sweep) (q : Nat × Nat) :
    (list.foldl (flushLine cfg range) w).cache.line q =
      if q ∈ list ∧ range.Contains (w.cache.line q).tag then
        { w.cache.line q with valid := false }
      else w.cache.line q := by
  induction list generalizing w with
  | nil => simp
  | cons p rest ih =>
      rw [List.foldl_cons, ih, (flushLine_sent w p q).1, flushLine_line]
      by_cases inside : range.Contains (w.cache.line q).tag
      · by_cases same : q = p
        · subst same
          simp [inside]
        · simp [inside, same]
      · by_cases same : q = p
        · subst same
          simp [inside]
        · simp [inside, same]

theorem flush_accesses (tick : Tick) (s : GenericCache) :
    (flush cfg range tick s).2.accesses =
      ((gathered cfg (List.replicate cfg.lineCountInSuperPage false)
        (sentTags range s (lines cfg))).map .ftlWrite).reverse ++ s.accesses := by
  unfold lines
  by_cases on : caching cfg = true
  · rw [flush_on on, if_pos on]
    exact flushLines_accesses cfg.ways (sweepStart cfg tick s)
  · rw [flush_off on, if_neg on]
    rfl

theorem flush_line (tick : Tick) (s : GenericCache) (q : Nat × Nat) :
    (flush cfg range tick s).2.line q =
      if q ∈ lines cfg ∧ range.Contains (s.line q).tag then { s.line q with valid := false }
      else s.line q := by
  unfold lines
  by_cases on : caching cfg = true
  · rw [flush_on on, if_pos on]
    exact flushLines_line cfg.ways (sweepStart cfg tick s) q
  · rw [flush_off on, if_neg on, if_neg]
    exact fun mem => List.not_mem_nil mem.1

theorem flush_tag_dirty (tick : Tick) (s : GenericCache) (q : Nat × Nat) :
    ((flush cfg range tick s).2.line q).tag = (s.line q).tag ∧
      ((flush cfg range tick s).2.line q).dirty = (s.line q).dirty := by
  rw [flush_line]
  split_ifs
  · exact ⟨rfl, rfl⟩
  · exact ⟨rfl, rfl⟩

theorem contains_names {lca : Nat} (h : range.Contains lca) : Names range lca :=
  ⟨h.1, h.2.trans_le (Nat.mod_le _ _)⟩

/-! ## Requests with their own unit -/

theorem unitFlag_eq (cfg : Config) {unit other : Nat} (h : other < cfg.lineCountInSuperPage) :
    (cfg.unitFlag unit).getD other false = true ↔ other = unit := by
  simp [Config.unitFlag, List.getD_eq_getElem?_getD, h]

theorem unitFlag_set (cfg : Config) (unit : Nat) :
    (cfg.unitFlag unit).set unit true = cfg.unitFlag unit := by
  apply List.ext_getElem
  · simp
  · intro i h _
    rw [List.getElem_set]
    split_ifs with same
    · simp [Config.unitFlag, same]
    · rfl

theorem replicate_set (cfg : Config) (unit : Nat) :
    (List.replicate cfg.lineCountInSuperPage false).set unit true = cfg.unitFlag unit := by
  apply List.ext_getElem
  · simp [Config.unitFlag]
  · intro i h _
    rw [List.getElem_set]
    by_cases same : unit = i
    · simp [Config.unitFlag, same]
    · simp [Config.unitFlag, same, Ne.symm same]

theorem reqInternal_injective (cfg : Config) : Function.Injective cfg.reqInternal := by
  intro tag other same
  have pos := lineCountInSuperPage_pos cfg
  refine (flagged_iff other).1 ⟨congrArg FTLRequest.lpn same, ?_⟩
  rw [← same]
  exact ((flagged_iff tag).2 rfl).2

theorem gathered_own {unit : Nat} (same : ∀ tag ∈ tags, tag % cfg.lineCountInSuperPage = unit)
    (start : flags.set unit true = cfg.unitFlag unit) :
    gathered cfg flags tags = tags.map cfg.reqInternal := by
  induction tags generalizing flags with
  | nil => rfl
  | cons tag rest ih =>
      have own := same tag List.mem_cons_self
      have later : gathered cfg (cfg.unitFlag unit) rest = rest.map cfg.reqInternal :=
        ih (fun other mem => same other (List.mem_cons_of_mem tag mem)) (unitFlag_set cfg unit)
      simp only [gathered, List.map_cons, own, start, later, Config.reqInternal]

theorem mem_gathered_flag {req : FTLRequest} {unit : Nat}
    (fits : flags.length = cfg.lineCountInSuperPage)
    (mem : req ∈ gathered cfg flags tags) (set : flags.getD unit false = true) :
    req.ioFlag.getD unit false = true := by
  induction tags generalizing flags with
  | nil => exact absurd mem List.not_mem_nil
  | cons tag rest ih =>
      have inside : tag % cfg.lineCountInSuperPage < flags.length :=
        (Nat.mod_lt _ (lineCountInSuperPage_pos cfg)).trans_eq fits.symm
      have kept : (flags.set (tag % cfg.lineCountInSuperPage) true).getD unit false = true :=
        (getD_set_flag inside).2 (.inr set)
      rcases List.mem_cons.1 mem with rfl | later
      · exact kept
      · exact ih (List.length_set.trans fits) later kept

theorem exists_gathered {tag : Nat} (fits : flags.length = cfg.lineCountInSuperPage)
    (mem : tag ∈ tags) : ∃ req ∈ gathered cfg flags tags,
      req.ioFlag.getD (tag % cfg.lineCountInSuperPage) false = true := by
  induction tags generalizing flags with
  | nil => exact absurd mem List.not_mem_nil
  | cons first rest ih =>
      rcases List.mem_cons.1 mem with rfl | later
      · have inside : tag % cfg.lineCountInSuperPage < flags.length :=
          (Nat.mod_lt _ (lineCountInSuperPage_pos cfg)).trans_eq fits.symm
        exact ⟨_, List.mem_cons_self, (getD_set_flag inside).2 (.inl rfl)⟩
      · obtain ⟨req, mem, flag⟩ := ih (List.length_set.trans fits) later
        exact ⟨req, List.mem_cons_of_mem _ mem, flag⟩

theorem gathered_single (fits : flags.length = cfg.lineCountInSuperPage)
    (single : ∀ req ∈ gathered cfg flags tags, ∃ tag, req = cfg.reqInternal tag) :
    gathered cfg flags tags = tags.map cfg.reqInternal ∧
      tags.Pairwise fun tag other =>
        tag % cfg.lineCountInSuperPage = other % cfg.lineCountInSuperPage := by
  have pos := lineCountInSuperPage_pos cfg
  induction tags generalizing flags with
  | nil => exact ⟨rfl, List.Pairwise.nil⟩
  | cons tag rest ih =>
      have fitsRest : (flags.set (tag % cfg.lineCountInSuperPage) true).length =
          cfg.lineCountInSuperPage := List.length_set.trans fits
      have inside : tag % cfg.lineCountInSuperPage < flags.length :=
        (Nat.mod_lt tag pos).trans_eq fits.symm
      have own : (flags.set (tag % cfg.lineCountInSuperPage) true).getD
          (tag % cfg.lineCountInSuperPage) false = true := (getD_set_flag inside).2 (.inl rfl)
      obtain ⟨later, units⟩ := ih fitsRest fun req mem =>
        single req (List.mem_cons_of_mem _ mem)
      obtain ⟨page, first⟩ := single _ List.mem_cons_self
      have same : tag = page := by
        refine (flagged_iff page).1 ⟨congrArg FTLRequest.lpn first, ?_⟩
        rw [← first]
        exact own
      refine ⟨?_, List.pairwise_cons.2 ⟨fun other mem => ?_, units⟩⟩
      · rw [gathered, later, first, same]
        rfl
      · -- the request of a later tag carries the flag of the first one too
        obtain ⟨req, memReq, flag⟩ := exists_gathered fitsRest mem
        obtain ⟨later, eq⟩ := single req (List.mem_cons_of_mem _ memReq)
        have both := mem_gathered_flag fitsRest memReq own
        rw [eq] at both flag
        have atFirst := (unitFlag_eq cfg (Nat.mod_lt tag pos)).1 both
        exact atFirst.trans ((unitFlag_eq cfg (Nat.mod_lt other pos)).1 flag).symm

theorem gathered_perm_iff {held : List Nat} :
    (gathered cfg (List.replicate cfg.lineCountInSuperPage false) tags).Perm
        (held.map cfg.reqInternal) ↔
      tags.Perm held ∧ tags.Pairwise fun tag other =>
        tag % cfg.lineCountInSuperPage = other % cfg.lineCountInSuperPage := by
  constructor
  · intro perm
    obtain ⟨own, units⟩ := gathered_single List.length_replicate fun req mem => by
      obtain ⟨tag, -, eq⟩ := List.mem_map.1 (perm.mem_iff.1 mem)
      exact ⟨tag, eq.symm⟩
    rw [own] at perm
    exact ⟨(List.map_perm_map_iff (reqInternal_injective cfg)).1 perm, units⟩
  · rintro ⟨perm, units⟩
    cases tags with
    | nil =>
        rw [List.nil_perm.1 perm]
        exact List.Perm.refl _
    | cons tag rest =>
        have same : ∀ other ∈ tag :: rest, other % cfg.lineCountInSuperPage =
            tag % cfg.lineCountInSuperPage := by
          intro other mem
          rcases List.mem_cons.1 mem with rfl | later
          · rfl
          · exact ((List.pairwise_cons.1 units).1 other later).symm
        rw [gathered_own same (replicate_set cfg _)]
        exact perm.map _

/-! ## When a flush is exact -/

/-- The dirty lines of the range are those the flush finds there, all for one unit. -/
structure OneUnit (cfg : Config) (range : LPNRange) (s : GenericCache) : Prop where
  found : ∀ p ∈ lines cfg, (s.line p).dirty = true → Names range (s.line p).tag →
    ((s.line p).valid = true ↔ range.Contains (s.line p).tag)
  unit : (sentTags range s (lines cfg)).Pairwise fun tag other =>
    tag % cfg.lineCountInSuperPage = other % cfg.lineCountInSuperPage

theorem count_tags (list : List (Nat × Nat)) (keep : Nat × Nat → Bool) (tag : Nat) :
    ((list.filter keep).map fun p => (s.line p).tag).count tag =
      list.countP fun p => (s.line p).tag == tag && keep p := by
  rw [List.count_eq_countP, List.countP_map, List.countP_filter]
  rfl

theorem of_countP_eq {α : Type} {few many : α → Bool} {list : List α}
    (sub : ∀ x ∈ list, few x = true → many x = true)
    (same : list.countP many = list.countP few) : ∀ x ∈ list, many x = true → few x = true := by
  rw [List.countP_eq_length_filter, List.countP_eq_length_filter] at same
  have sublist : (list.filter few).Sublist (list.filter many) := by
    rw [← List.filter_eq_self.2 (fun x mem => ?_ : ∀ x ∈ list.filter few, many x = true)]
    · rw [List.filter_comm]
      exact List.filter_sublist
    · exact sub x (List.mem_filter.1 mem).1 (List.mem_filter.1 mem).2
  intro x mem isMany
  have inMany := List.mem_filter.2 ⟨mem, isMany⟩
  rw [← sublist.eq_of_length same.symm] at inMany
  exact (List.mem_filter.1 inMany).2

theorem sentTags_perm_iff (list : List (Nat × Nat)) :
    (sentTags range s list).Perm
        ((list.filter fun p => Held range s p).map fun p => (s.line p).tag) ↔
      ∀ p ∈ list, (s.line p).dirty = true → Names range (s.line p).tag →
        ((s.line p).valid = true ↔ range.Contains (s.line p).tag) := by
  constructor
  · intro perm p mem dirty named
    have counts := perm.count_eq (s.line p).tag
    unfold sentTags at counts
    rw [count_tags, count_tags] at counts
    by_cases inside : range.Contains (s.line p).tag
    · refine iff_of_true ?_ inside
      have held := of_countP_eq (fun q _ kept => ?_) counts p mem
        (by simp [Sent, inside, dirty])
      · simp only [beq_self_eq_true, Bool.true_and, decide_eq_true_eq] at held
        exact held.1
      · simp only [Bool.and_eq_true, beq_iff_eq, decide_eq_true_eq] at kept ⊢
        exact ⟨kept.1, kept.1 ▸ inside, kept.2.2.1⟩
    · refine iff_of_false (fun valid => ?_) inside
      have none : list.countP (fun q => (s.line q).tag == (s.line p).tag &&
          decide (Sent range s q)) = 0 := by
        refine List.countP_eq_zero.2 fun q _ kept => ?_
        simp only [Bool.and_eq_true, beq_iff_eq, decide_eq_true_eq] at kept
        exact inside (kept.1 ▸ kept.2.1)
      rw [none] at counts
      refine List.countP_eq_zero.1 counts.symm p mem ?_
      simp only [beq_self_eq_true, Bool.true_and, decide_eq_true_eq]
      exact ⟨valid, dirty, named⟩
  · intro found
    refine List.Perm.of_eq (congrArg (List.map _) (List.filter_congr fun p mem => ?_))
    refine decide_eq_decide.2 ⟨fun sent => ?_, fun held => ?_⟩
    · have named := contains_names sent.1
      exact ⟨(found p mem sent.2 named).2 sent.1, sent.2, named⟩
    · exact ⟨(found p mem held.2.1 held.2.2).1 held.1, held.2.1⟩

theorem writesOwn_iff : WritesOwn cfg range s ↔ OneUnit cfg range s := by
  have exact_iff : WritesOwn cfg range s ↔
      (gathered cfg (List.replicate cfg.lineCountInSuperPage false)
        (sentTags range s (lines cfg))).Perm
          ((((lines cfg).filter fun p => Held range s p).map fun p => (s.line p).tag).map
            cfg.reqInternal) := by
    have injective : Function.Injective Access.ftlWrite := fun _ _ same => Access.ftlWrite.inj same
    rw [← List.map_perm_map_iff injective, List.map_map, List.map_map]
    constructor
    · intro own
      obtain ⟨issued, eq, perm⟩ := own 0
      rw [flush_accesses, List.append_cancel_right_eq] at eq
      rw [← eq] at perm
      exact (List.reverse_perm _).symm.trans perm
    · exact fun perm tick => ⟨_, flush_accesses tick s, (List.reverse_perm _).trans perm⟩
  rw [exact_iff, gathered_perm_iff, sentTags_perm_iff]
  exact ⟨fun h => ⟨h.1, h.2⟩, fun h => ⟨h.1, h.2⟩⟩

/-- Nothing of the range is dirty, and the flush finds what is valid. -/
def NothingDirty (cfg : Config) (range : LPNRange) (s : GenericCache) : Prop :=
  ∀ p ∈ lines cfg, Names range (s.line p).tag →
    (s.line p).dirty = false ∧ ((s.line p).valid = true → range.Contains (s.line p).tag)

theorem NothingDirty.unsent (h : NothingDirty cfg range s) :
    sentTags range s (lines cfg) = [] := by
  unfold sentTags
  rw [List.map_eq_nil_iff, List.filter_eq_nil_iff]
  intro p mem sent
  rw [decide_eq_true_eq] at sent
  exact Bool.false_ne_true ((h p mem (contains_names sent.1)).1.symm.trans sent.2)

theorem flushExact_iff : FlushExact cfg range s ↔ NothingDirty cfg range s := by
  constructor
  · intro meets p mem named
    have gone := meets.gone 0 p mem
    rw [(flush_tag_dirty 0 s p).1, (flush_tag_dirty 0 s p).2] at gone
    refine ⟨(gone named).2, fun valid => by_contra fun outside => ?_⟩
    have invalid := (gone named).1
    rw [flush_line, if_neg fun inside => outside inside.2] at invalid
    exact Bool.false_ne_true (invalid.symm.trans valid)
  · intro clean
    have unsent := clean.unsent
    refine ⟨writesOwn_iff.2 ⟨fun p mem dirty named => ?_, ?_⟩, fun tick p mem named => ?_,
      fun tick tick' => ?_⟩
    · exact absurd ((clean p mem named).1.symm.trans dirty) Bool.false_ne_true
    · rw [unsent]
      exact List.Pairwise.nil
    · rw [(flush_tag_dirty tick s p).1] at named
      obtain ⟨isClean, found⟩ := clean p mem named
      refine ⟨?_, (flush_tag_dirty tick s p).2.trans isClean⟩
      rw [flush_line]
      split_ifs with inside
      · rfl
      · exact eq_false_of_ne_true fun valid => inside ⟨mem, found valid⟩
    · rw [flush_accesses, sentTags_congr (flush_tag_dirty tick s), unsent]
      rfl

/-- A flush is exact on the lines it sends when they are all valid and for one unit, and
exact in what it leaves only if it has nothing to send. -/
theorem flush_exact_iff (cfg : Config) (range : LPNRange) (s : GenericCache) :
    (WritesOwn cfg range s ↔ OneUnit cfg range s) ∧
      (FlushExact cfg range s ↔ NothingDirty cfg range s) :=
  ⟨writesOwn_iff, flushExact_iff⟩

/-- A partial write leaves page 0 dirty, and the second flush writes it again. -/
theorem flushed_again : ¬ ∀ cfg range ops s, run cfg ops construct = .ok s →
    FlushExact cfg range s := by
  intro all
  obtain ⟨s, hrun, dirty⟩ : ∃ s, run oneLine [.write ⟨0, 512, 0⟩ 0] construct = .ok s ∧
      (s.line (0, 0)).dirty = true ∧ (s.line (0, 0)).tag = 0 := ⟨_, rfl, rfl, rfl⟩
  have clean := flushExact_iff.1 (all oneLine ⟨0, 1⟩ _ s hrun) (0, 0) (by decide)
    (by rw [dirty.2]; exact ⟨by decide, by decide⟩)
  exact Bool.false_ne_true (clean.1.symm.trans dirty.1)

end GenericCache

end SimpleSSD.ICL
