import SimpleSSD.ICL.Trim

/-!
# The range a format hands down

`GenericCache::format` converts a range of pages to superpages.  It divides the start and
the distance of the last page from the start separately, so what is lost depends on where
both stand in their superpages.
-/

namespace SimpleSSD.ICL

open SimpleSSD.Foundation

def Touches (cfg : Config) (range : LPNRange) (lpn : Nat) : Prop :=
  ∃ lca, Names range lca ∧ lca / cfg.lineCountInSuperPage = lpn

namespace GenericCache

variable {cfg : Config} {range : LPNRange} {lpn : Nat}

def converted (cfg : Config) (range : LPNRange) : LPNRange :=
  ⟨range.slpn / cfg.lineCountInSuperPage,
    add64 (sub64 range.nlp 1 / cfg.lineCountInSuperPage) 1⟩

/-- The page mapping is told to format just the superpages the range touches; it goes by
`LPNRange.Contains`. -/
def FormatsTouched (cfg : Config) (range : LPNRange) : Prop :=
  ∀ tick s, ∃ formatted,
    (format cfg range tick s).2.accesses = .ftlFormat formatted :: s.accesses ∧
      ∀ lpn, formatted.Contains lpn ↔ Touches cfg range lpn

theorem formatLines_accesses (pages : List Nat) (acc : Tick × GenericCache) :
    (pages.foldl (formatLine cfg) acc).2.accesses = acc.2.accesses := by
  induction pages generalizing acc with
  | nil => rfl
  | cons lpn rest ih =>
      rw [List.foldl_cons, ih]
      unfold formatLine
      dsimp only
      split_ifs <;> rfl

theorem format_accesses (tick : Tick) (s : GenericCache) :
    (format cfg range tick s).2.accesses = .ftlFormat (converted cfg range) :: s.accesses := by
  unfold format
  split_ifs
  · exact congrArg (Access.ftlFormat (converted cfg range) :: ·) (formatLines_accesses _ _)
  · rfl

theorem formatsTouched_iff_converted : FormatsTouched cfg range ↔
    ∀ lpn, (converted cfg range).Contains lpn ↔ Touches cfg range lpn := by
  constructor
  · intro all
    obtain ⟨formatted, issued, meets⟩ := all 0 construct
    rw [format_accesses] at issued
    cases issued
    exact meets
  · exact fun meets tick s => ⟨_, format_accesses tick s, meets⟩

/-! ## Arithmetic of the conversion -/

theorem touches_iff (some : range.nlp ≠ 0) : Touches cfg range lpn ↔
    range.slpn / cfg.lineCountInSuperPage ≤ lpn ∧
      lpn ≤ (range.slpn + range.nlp - 1) / cfg.lineCountInSuperPage := by
  have pos := lineCountInSuperPage_pos cfg
  unfold Touches Names
  constructor
  · rintro ⟨lca, ⟨start, stop⟩, rfl⟩
    exact ⟨Nat.div_le_div_right start, Nat.div_le_div_right (by omega)⟩
  · rintro ⟨start, stop⟩
    rw [Nat.le_div_iff_mul_le pos] at stop
    -- the first page of the superpage, or the start of the range when it lies behind
    refine ⟨max range.slpn (lpn * cfg.lineCountInSuperPage), ⟨le_max_left _ _, by omega⟩, ?_⟩
    rcases le_total range.slpn (lpn * cfg.lineCountInSuperPage) with before | behind
    · rw [max_eq_right before, Nat.mul_div_cancel _ pos]
    · rw [max_eq_left behind]
      exact le_antisymm start ((Nat.le_div_iff_mul_le pos).2 behind)

theorem not_touches_empty (none : range.nlp = 0) : ¬ Touches cfg range lpn := by
  rintro ⟨lca, ⟨start, stop⟩, -⟩
  omega

/-- Rounding the start and the rest down apart loses a superpage when their remainders
fill one. -/
theorem add_div_eq_iff {a b L : Nat} (pos : 0 < L) :
    (a + b) / L = a / L + b / L ↔ a % L + b % L < L := by
  have := Nat.add_div (a := a) (b := b) pos
  split_ifs at this <;> omega

theorem converted_contains (some : range.nlp ≠ 0) (several : 2 ≤ cfg.lineCountInSuperPage)
    (start : range.slpn < wordSize) (length : range.nlp < wordSize) :
    (converted cfg range).Contains lpn ↔ range.slpn / cfg.lineCountInSuperPage ≤ lpn ∧
      lpn ≤ range.slpn / cfg.lineCountInSuperPage +
        (range.nlp - 1) / cfg.lineCountInSuperPage := by
  have half : ∀ n, n / cfg.lineCountInSuperPage ≤ n / 2 := fun n =>
    Nat.div_le_div_left several (by decide)
  have first := half range.slpn
  have last := half (range.nlp - 1)
  have word : wordSize = 2 ^ 64 := rfl
  unfold LPNRange.Contains converted
  rw [sub64_of_le (Nat.one_le_iff_ne_zero.2 some), add64_of_lt (by omega),
    add64_of_lt (by dsimp only; omega)]
  dsimp only
  omega

theorem converted_single (single : cfg.lineCountInSuperPage = 1)
    (length : range.nlp < wordSize) : converted cfg range = range := by
  have count : add64 (sub64 range.nlp 1) 1 = range.nlp := by
    unfold add64 sub64 wordSize at *
    split_ifs <;> omega
  unfold converted
  rw [single, Nat.div_one, Nat.div_one, count]

/-! ## When the conversion is exact -/

/-- An empty range needs superpages of one page; of another range, the remainders of the
start and of the distance to the last page must fit one superpage. -/
def Converts (cfg : Config) (range : LPNRange) : Prop :=
  if range.nlp = 0 then cfg.lineCountInSuperPage = 1
  else
    range.slpn % cfg.lineCountInSuperPage + (range.nlp - 1) % cfg.lineCountInSuperPage <
        cfg.lineCountInSuperPage ∧
      (cfg.lineCountInSuperPage = 1 → range.slpn + range.nlp < wordSize)

instance (cfg : Config) (range : LPNRange) : Decidable (Converts cfg range) := by
  unfold Converts
  infer_instance

theorem single_exact_iff (single : cfg.lineCountInSuperPage = 1)
    (length : range.nlp < wordSize) :
    (∀ lpn, (converted cfg range).Contains lpn ↔ Touches cfg range lpn) ↔
      (range.nlp = 0 ∨ range.slpn + range.nlp < wordSize) := by
  have touches : ∀ lpn, Touches cfg range lpn ↔ Names range lpn := fun lpn => by
    simp only [Touches, single, Nat.div_one, exists_eq_right]
  rw [converted_single single length]
  simp only [touches]
  unfold LPNRange.Contains Names
  constructor
  · intro meets
    by_contra wraps
    rw [not_or, not_lt] at wraps
    have first := (meets range.slpn).2 ⟨le_refl _, by omega⟩
    have wrapped : add64 range.slpn range.nlp = range.slpn + range.nlp - wordSize := by
      have below := first.2
      unfold add64 wordSize at *
      omega
    omega
  · rintro (none | fits) lpn
    · have := Nat.mod_le (range.slpn + range.nlp) wordSize
      unfold add64
      omega
    · rw [add64_of_lt fits]

theorem several_exact_iff (several : 2 ≤ cfg.lineCountInSuperPage)
    (start : range.slpn < wordSize) (length : range.nlp < wordSize) :
    (∀ lpn, (converted cfg range).Contains lpn ↔ Touches cfg range lpn) ↔
      (range.nlp ≠ 0 ∧ range.slpn % cfg.lineCountInSuperPage +
        (range.nlp - 1) % cfg.lineCountInSuperPage < cfg.lineCountInSuperPage) := by
  by_cases empty : range.nlp = 0
  · -- the length wraps, and the superpage of the start is formatted
    refine iff_of_false (fun meets => ?_) fun fits => fits.1 empty
    refine not_touches_empty empty ((meets (range.slpn / cfg.lineCountInSuperPage)).1 ?_)
    have first : range.slpn / cfg.lineCountInSuperPage ≤ range.slpn / 2 :=
      Nat.div_le_div_left several (by decide)
    have last : (wordSize - 1) / cfg.lineCountInSuperPage ≤ (wordSize - 1) / 2 :=
      Nat.div_le_div_left several (by decide)
    have word : wordSize = 2 ^ 64 := rfl
    unfold converted LPNRange.Contains
    rw [empty, show sub64 0 1 = wordSize - 1 from rfl]
    generalize (wordSize - 1) / cfg.lineCountInSuperPage = count at *
    rw [add64_of_lt (by omega), add64_of_lt (by dsimp only; omega)]
    dsimp only
    omega
  · have split : range.slpn + range.nlp - 1 = range.slpn + (range.nlp - 1) := by omega
    rw [← add_div_eq_iff (lineCountInSuperPage_pos cfg), ← split]
    simp only [converted_contains empty several start length, touches_iff empty, ne_eq, empty,
      not_false_eq_true, true_and]
    have le : range.slpn / cfg.lineCountInSuperPage ≤
        (range.slpn + range.nlp - 1) / cfg.lineCountInSuperPage :=
      Nat.div_le_div_right (by omega)
    constructor
    · intro meets
      have upper := (meets ((range.slpn + range.nlp - 1) / cfg.lineCountInSuperPage)).2
        ⟨le, le_refl _⟩
      have lower := (meets (range.slpn / cfg.lineCountInSuperPage +
        (range.nlp - 1) / cfg.lineCountInSuperPage)).1 ⟨Nat.le_add_right _ _, le_refl _⟩
      exact le_antisymm upper.2 lower.2
    · intro same lpn
      rw [same]

theorem formats_touched_iff (cfg : Config) (start : range.slpn < wordSize)
    (length : range.nlp < wordSize) : FormatsTouched cfg range ↔ Converts cfg range := by
  have pos := lineCountInSuperPage_pos cfg
  rw [formatsTouched_iff_converted]
  unfold Converts
  by_cases single : cfg.lineCountInSuperPage = 1
  · rw [single_exact_iff single length]
    split_ifs with empty
    · simp [empty, single]
    · simp [empty, single, Nat.mod_one]
  · rw [several_exact_iff (by omega) start length]
    split_ifs with empty
    · simp [empty, single]
    · simp [empty, single]

def twoUnits : Config :=
  { oneLine with ioUnitInPage := 2, ioUnitInPage_pos := by decide, bRandomTweak := true }

theorem formats_touched_iff_twoUnits : FormatsTouched twoUnits ⟨2, 3⟩ :=
  (formats_touched_iff twoUnits (by decide) (by decide)).2 (by decide)

/-- Pages 1 and 2 lie in two superpages, of which the second is not formatted. -/
theorem format_loses_superpage : ¬ ∀ cfg range, range.slpn < wordSize → range.nlp < wordSize →
    FormatsTouched cfg range := by
  intro all
  have meets := formatsTouched_iff_converted.1 (all twoUnits ⟨1, 2⟩ (by decide) (by decide))
  have second : Touches twoUnits ⟨1, 2⟩ 1 := ⟨2, ⟨by decide, by decide⟩, by decide⟩
  exact absurd ((meets 1).2 second) (by decide)

end GenericCache

end SimpleSSD.ICL
