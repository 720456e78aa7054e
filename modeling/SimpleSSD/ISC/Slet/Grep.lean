import SimpleSSD.Foundation.Lines
import SimpleSSD.ISC.Slet.StrStr

/-!
# The line of a pattern

`GrepAPP::grep` in `isc/slet/grep.cc`.  Two loops go from the place that `strstr` names to both
ends of the line, and the line is copied.  A place in front of the source, which is what a pattern
that does not occur leads to, is taken like any other.
-/

namespace SimpleSSD.ISC.GrepAPP

open SimpleSSD.Foundation

def ISC_STS_OK : Int := 0
def ISC_STS_EARGS : Int := -4

def newline : UInt8 := 10

def readFrom (src : List UInt8) (i : Int) : Except Fault (List UInt8) :=
  if 0 ≤ i then .ok (src.drop i.toNat) else .error .undefined

def goBack (src : List UInt8) : Nat → Except Fault Nat
  | 0 => .ok 0
  | line + 1 => do
      let ch ← readAt src line
      if ch = newline then .ok 0 else (goBack src line).map (· + 1)

/-- How far the second loop goes on.  It reads a character before it compares its address with the
end of the source. -/
def goOn : List UInt8 → Except Fault Nat
  | [] => .error .undefined
  | ch :: rest => if ch = newline then .ok 0 else (goOn rest).map (· + 1)

/-- The status and the line, of `res->len` characters, for a source that is not null.  The pattern
is the text in front of the `NUL`. -/
def grep (fuel : Nat) (src pat : List UInt8) :
    Option (Except Fault (Int × Option (List UInt8))) :=
  if src.length < pat.length then some (.ok (ISC_STS_EARGS, none))
  else (strstr src pat fuel).map fun found => do
    let ofs ← found
    let back ← goBack src ofs.toNat
    let rest ← readFrom src (ofs + pat.length)
    let on ← goOn rest
    let line ← readFrom src (ofs - back)
    let len := pat.length + back + on
    if len ≤ line.length then .ok (ISC_STS_OK, some (line.take len)) else .error .undefined

/-- The pattern first occurs at `p`. -/
def First (src pat : List UInt8) (p : Nat) : Prop :=
  OccursAt src pat p ∧ ∀ i < p, ¬ OccursAt src pat i

/-- Without reading elsewhere than in the source, the line of the first occurrence is returned, or
no line and a status that says so. -/
def Meets (src pat : List UInt8) : Prop :=
  ∃ fuel status line, grep fuel src pat = some (.ok (status, line)) ∧
    ((∃ p, First src pat p ∧ status = ISC_STS_OK ∧
        ∃ found, line = some found ∧ LineOf newline src p (p + pat.length) found) ∨
      (∀ i, ¬ OccursAt src pat i) ∧ status ≠ ISC_STS_OK ∧ line = none)

/-! ## The loops -/

section Loops

variable {src rest : List UInt8} {p back on : Nat}

theorem goOn_eq_ok_iff :
    goOn rest = .ok on ↔ rest[on]? = some newline ∧ ∀ i < on, rest[i]? ≠ some newline := by
  induction rest generalizing on with
  | nil => simp [goOn]
  | cons ch rest ih =>
      rw [goOn]
      by_cases stop : ch = newline
      · cases on with
        | zero => simp [stop]
        | succ on => simpa [stop] using fun _ => ⟨0, by omega, by simp⟩
      · rw [if_neg stop, map_eq_ok]
        cases on with
        | zero => simp [stop]
        | succ on =>
            simp only [Nat.add_right_cancel_iff, exists_eq_right, ih, List.getElem?_cons_succ]
            refine and_congr_right fun _ => ⟨fun none i hi => ?_, fun none i hi => ?_⟩
            · cases i with
              | zero => simpa using stop
              | succ i => exact none i (Nat.lt_of_succ_lt_succ hi)
            · exact none (i + 1) (Nat.succ_lt_succ hi)

theorem goBack_eq_ok_iff (fits : p ≤ src.length) : goBack src p = .ok back ↔ back ≤ p ∧
    (p - back = 0 ∨ src[p - back - 1]? = some newline) ∧
      ∀ i, p - back ≤ i → i < p → src[i]? ≠ some newline := by
  induction p generalizing back with
  | zero =>
      rw [goBack]
      constructor
      · intro run
        obtain rfl := Except.ok.inj run
        exact ⟨le_refl 0, .inl rfl, fun i _ hi => absurd hi (Nat.not_lt_zero i)⟩
      · rintro ⟨le, -⟩
        rw [Nat.le_zero.1 le]
  | succ p ih =>
      have inside : src[p]? = some src[p] := List.getElem?_eq_getElem fits
      rw [goBack, readAt, inside]
      dsimp only
      rw [ok_bind]
      by_cases stop : src[p] = newline
      · rw [if_pos stop]
        constructor
        · intro run
          obtain rfl := Except.ok.inj run
          exact ⟨Nat.zero_le _, .inr (inside.trans (congrArg some stop)),
            fun i low high => by omega⟩
        · rintro ⟨le, -, none⟩
          have none' := none p
          by_contra moved
          refine none' ?_ (Nat.lt_succ_self p) (inside.trans (congrArg some stop))
          have pos : back ≠ 0 := fun zero => moved (by rw [zero])
          omega
      · rw [if_neg stop, map_eq_ok]
        constructor
        · rintro ⟨n, run, rfl⟩
          obtain ⟨le, starts, none⟩ := (ih (Nat.le_of_succ_le fits)).1 run
          rw [Nat.add_sub_add_right]
          refine ⟨Nat.succ_le_succ le, starts, fun i low high => ?_⟩
          rcases Nat.lt_succ_iff_lt_or_eq.1 high with lt | rfl
          · exact none i low lt
          · simpa [inside] using stop
        · rintro ⟨le, starts, none⟩
          cases back with
          | zero =>
              rcases starts with zero | delimiter
              · cases zero
              · simp [inside, stop] at delimiter
          | succ n =>
              rw [Nat.add_sub_add_right] at starts none
              exact ⟨n, (ih (Nat.le_of_succ_le fits)).2 ⟨Nat.le_of_succ_le_succ le, starts,
                fun i low high => none i low (Nat.lt_succ_of_lt high)⟩, rfl⟩

end Loops

/-! ## The line -/

section Line

variable {src pat : List UInt8} {fuel : Nat}

theorem Finds.eq {r : Int} {p : Nat} (finds : Finds src pat r) (first : First src pat p) :
    r = p := by
  rcases finds with ⟨q, rfl, occurs, none⟩ | ⟨-, none⟩
  · rcases Nat.lt_trichotomy q p with lt | rfl | gt
    · exact absurd occurs (first.2 q lt)
    · rfl
    · exact absurd first.1 (none p gt)
  · exact absurd first.1 (none p)

theorem readFrom_eq_ok_iff {i : Int} {rest : List UInt8} :
    readFrom src i = .ok rest ↔ 0 ≤ i ∧ src.drop i.toNat = rest := by
  rw [readFrom]
  split_ifs with inside <;> simp [inside]

/-- The line of the place that the search names, if that is not in front of the source and a
newline stands behind it. -/
theorem grep_eq_ok_iff (nonempty : pat ≠ []) (fits : pat.length ≤ src.length)
    {result : Int × Option (List UInt8)} : grep fuel src pat = some (.ok result) ↔
      ∃ p : Nat, strstr src pat fuel = some (.ok (p : Int)) ∧
        ∃ a b, Enclosed newline src p (p + pat.length) a b ∧
          result = (ISC_STS_OK, some (cut src a b)) := by
  have pos := List.length_pos_iff.2 nonempty
  rw [grep, if_neg (Nat.not_lt.2 fits), Option.map_eq_some_iff]
  simp only [bind_eq_ok, readFrom_eq_ok_iff]
  constructor
  · rintro ⟨found, run, ofs, rfl, back, went, rest, ⟨-, rfl⟩, on, goes, line, ⟨front, rfl⟩, copy⟩
    split_ifs at copy with whole
    obtain ⟨p, rfl⟩ := Int.eq_ofNat_of_zero_le (show 0 ≤ ofs by omega)
    have behind : ((p : Int) + pat.length).toNat = p + pat.length := by omega
    obtain ⟨stops, right⟩ := goOn_eq_ok_iff.1 goes
    rw [behind, List.getElem?_drop] at stops
    have inside := (List.getElem?_eq_some_iff.1 stops).1
    obtain ⟨le, starts, left⟩ := (goBack_eq_ok_iff (by omega)).1 went
    refine ⟨p, run, p - back, p + pat.length + on,
      ⟨Nat.sub_le p back, Nat.le_add_right _ on, starts, stops, left, fun i low high => ?_⟩, ?_⟩
    · have none := right (i - (p + pat.length)) (by omega)
      rwa [behind, List.getElem?_drop, Nat.add_sub_cancel' low] at none
    · rw [← Except.ok.inj copy, cut]
      rw [Int.toNat_natCast] at le
      rw [show ((p : Int) - back).toNat = p - back by omega,
        show p + pat.length + on - (p - back) = pat.length + back + on by omega]
  · rintro ⟨p, run, a, b, enclosed, rfl⟩
    have before := enclosed.before
    have behind := enclosed.behind
    have inside := (List.getElem?_eq_some_iff.1 enclosed.stops).1
    have went : goBack src (p : Int).toNat = .ok (p - a) := by
      refine (goBack_eq_ok_iff (by omega)).2 ?_
      rw [Int.toNat_natCast, Nat.sub_sub_self before]
      exact ⟨Nat.sub_le p a, enclosed.starts, enclosed.left⟩
    have goes : goOn (src.drop ((p : Int) + pat.length).toNat) = .ok (b - (p + pat.length)) := by
      refine goOn_eq_ok_iff.2 ?_
      rw [show ((p : Int) + pat.length).toNat = p + pat.length by omega]
      simp only [List.getElem?_drop, Nat.add_sub_cancel' behind]
      exact ⟨enclosed.stops, fun i hi => enclosed.right _ (Nat.le_add_right _ i) (by omega)⟩
    refine ⟨_, run, _, rfl, _, went, _, ⟨by omega, rfl⟩, _, goes, _, ⟨by omega, rfl⟩, ?_⟩
    rw [show ((p : Int) - (p - a : Nat)).toNat = a by omega,
      show pat.length + (p - a) + (b - (p + pat.length)) = b - a by omega,
      if_pos (by rw [List.length_drop]; omega)]
    rfl

theorem not_occursAt_of_shorter (nonempty : pat ≠ []) (shorter : src.length < pat.length)
    (i : Nat) : ¬ OccursAt src pat i := by
  intro occurs
  have le := occurs.le nonempty
  omega

/-- The search has to end in the line of the first occurrence, or in one that is the same, and
the line has to end with a newline. -/
theorem meets_iff (nonempty : pat ≠ []) : Meets src pat ↔ src.length < pat.length ∨
    ∃ p r : Nat, First src pat p ∧ (∃ fuel, strstr src pat fuel = some (.ok (r : Int))) ∧
      newline ∈ src.drop (r + pat.length) ∧ ∃ line,
        LineOf newline src p (p + pat.length) line ∧
          LineOf newline src r (r + pat.length) line := by
  rcases Nat.lt_or_ge src.length pat.length with shorter | fits
  · refine iff_of_true ⟨0, ISC_STS_EARGS, none, ?_, ?_⟩ (.inl shorter)
    · rw [grep, if_pos shorter]
    · exact .inr ⟨not_occursAt_of_shorter nonempty shorter, by decide, rfl⟩
  · rw [or_iff_right (Nat.not_lt.2 fits)]
    constructor
    · rintro ⟨fuel, status, line, run, result⟩
      obtain ⟨r, found, a, b, enclosed, returned⟩ := (grep_eq_ok_iff nonempty fits).1 run
      obtain ⟨rfl, rfl⟩ := Prod.mk.inj returned
      rcases result with ⟨p, first, -, found', same, lineOf⟩ | ⟨-, failed, -⟩
      · obtain rfl := Option.some.inj same
        refine ⟨p, r, first, ⟨fuel, found⟩, ?_, _, lineOf, ?_⟩
        · refine List.mem_iff_getElem?.2 ⟨b - (r + pat.length), ?_⟩
          rw [List.getElem?_drop, Nat.add_sub_cancel' enclosed.behind]
          exact enclosed.stops
        · obtain ⟨a', b', isLine, -, -, same⟩ := lineOf
          have inner := isLine.inner
          rw [← same] at inner
          exact ⟨a, b, enclosed.isLine (Nat.le_add_right r _) inner, enclosed.before,
            enclosed.behind, rfl⟩
      · exact absurd rfl failed
    · rintro ⟨p, r, first, ⟨fuel, found⟩, more, line, lineOf, a, b, isLine, start, stop, rfl⟩
      have enclosed := isLine.enclosed start (Nat.le_add_right r _) stop more
      exact ⟨fuel, _, _, (grep_eq_ok_iff nonempty fits).2 ⟨r, found, a, b, enclosed, rfl⟩,
        .inl ⟨p, first, rfl, _, rfl, lineOf⟩⟩

theorem OccursAt.lineOf {p : Nat} (occurs : OccursAt src pat p) (nonempty : pat ≠ [])
    (inLine : newline ∉ pat) : ∃ line, LineOf newline src p (p + pat.length) line := by
  refine exists_lineOf (Nat.le_add_right p _) (occurs.le nonempty) fun i low high stands => ?_
  have same := occursAt_iff.1 occurs (i - p) (by omega)
  rw [Nat.add_sub_cancel' low, stands] at same
  exact inLine (List.mem_of_getElem? same.symm)

theorem meets_iff_of_searchable (searchable : Searchable pat) (nonempty : pat ≠ [])
    (inLine : newline ∉ pat) (short : src.length < 2 ^ 31) : Meets src pat ↔
      src.length < pat.length ∨ ∃ p, First src pat p ∧ newline ∈ src.drop (p + pat.length) := by
  rw [meets_iff nonempty]
  rcases Nat.lt_or_ge src.length pat.length with shorter | fits
  · exact iff_of_true (.inl shorter) (.inl shorter)
  · refine or_congr_right ?_
    obtain ⟨⟨fuel', r', run', finds⟩, -⟩ := searchable.exact nonempty src fits short
    constructor
    · rintro ⟨p, r, first, ⟨fuel, run⟩, more, -⟩
      have same := Except.ok.inj (scan_agree run' run)
      rw [same] at finds
      obtain rfl := Int.ofNat.inj (finds.eq first)
      exact ⟨r, first, more⟩
    · rintro ⟨p, first, more⟩
      obtain rfl := finds.eq first
      obtain ⟨line, lineOf⟩ := first.1.lineOf nonempty inLine
      exact ⟨p, p, first, ⟨fuel', run'⟩, more, line, lineOf, lineOf⟩

end Line

/-- The line of the first occurrence is returned, and nothing else is read, exactly if the pattern
occurs, the search ends in that line or in one that is the same, and a newline stands behind in the
source; or if the pattern is too long.  A search for a pattern that is searchable ends there. -/
theorem grep_meets_iff {src pat : List UInt8} (nonempty : pat ≠ []) (inLine : newline ∉ pat) :
    (Meets src pat ↔ src.length < pat.length ∨
      ∃ p r : Nat, First src pat p ∧ (∃ fuel, strstr src pat fuel = some (.ok (r : Int))) ∧
        newline ∈ src.drop (r + pat.length) ∧ ∃ line,
          LineOf newline src p (p + pat.length) line ∧
            LineOf newline src r (r + pat.length) line) ∧
    (Searchable pat → src.length < 2 ^ 31 → (Meets src pat ↔ src.length < pat.length ∨
      ∃ p, First src pat p ∧ newline ∈ src.drop (p + pat.length))) :=
  ⟨meets_iff nonempty, fun searchable short =>
    meets_iff_of_searchable searchable nonempty inLine short⟩

theorem grep_meets_iff_ne3 : Meets [110, 101, 51, 10] [110, 101, 51] := by
  refine ((grep_meets_iff (by decide) (by decide)).2
    (searchable_of_ascii (by simp) (by decide)) (by decide)).2 (.inr ⟨0, ⟨?_, ?_⟩, by decide⟩)
  · exact ⟨[10], rfl⟩
  · exact fun i hi => absurd hi (Nat.not_lt_zero i)

/-- A pattern that does not occur, and one in a line without a newline. -/
theorem grep_not_meets : ¬ Meets [110, 101, 51, 10] [120] ∧ ¬ Meets [110, 101, 51] [101] ∧
    ¬ ∀ src pat : List UInt8, pat ≠ [] → newline ∉ pat → Meets src pat := by
  have absent : ¬ Meets [110, 101, 51, 10] [120] := fun meets => by
    rcases (meets_iff (by decide)).1 meets with shorter | ⟨p, _, ⟨occurs, -⟩, -⟩
    · exact absurd shorter (by decide)
    · obtain ⟨behind, same⟩ := occurs
      have stands : (120 : UInt8) ∈ List.drop p [110, 101, 51, 10] := by
        rw [← same]
        exact List.mem_cons_self
      exact absurd (List.mem_of_mem_drop stands) (by decide)
  refine ⟨absent, fun meets => ?_, fun all => absent (all _ _ (by decide) (by decide))⟩
  rcases (meets_iff (by decide)).1 meets with shorter | ⟨_, r, -, -, more, -⟩
  · exact absurd shorter (by decide)
  · exact absurd (List.mem_of_mem_drop more) (by decide)

end SimpleSSD.ISC.GrepAPP
