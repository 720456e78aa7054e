import Mathlib.Logic.Function.Basic
import SimpleSSD.Foundation.Fallible
import SimpleSSD.Foundation.Hops
import SimpleSSD.ISC.Buffer

/-!
# Looking for a pattern

`GrepAPP::strstr` in `isc/slet/grep.cc`, and the table that `GrepAPP::grep` makes for it.  The
pattern is laid at a place of the source and compared from its end on.  Behind a difference it
is moved on as far as the table says for the character of the source.  Both the characters of
the pattern and those of the table are signed.
-/

namespace SimpleSSD.ISC.GrepAPP

open SimpleSSD.Foundation

/-! ## The search -/

/-- The value of a `char`, and of an `int` that a larger number is put into. -/
def toChar (n : Int) : Int := n.bmod (2 ^ 8)

def toInt (n : Int) : Int := n.bmod (2 ^ 32)

/-- The loop that fills the table, from the character `i` of the pattern on. -/
def fillBadChar : Nat → List UInt8 → (UInt8 → Int) → UInt8 → Int
  | _, [], table => table
  | i, c :: rest, table => fillBadChar (i + 1) rest (Function.update table c (toChar i))

def badChar (pat : List UInt8) : UInt8 → Int := fillBadChar 0 pat fun _ => -1

def readAt (s : List UInt8) (i : Nat) : Except Fault UInt8 :=
  match s[i]? with
  | some c => .ok c
  | none => .error .undefined

/-- The last of the first `n` characters of the pattern that differs from the source. -/
def notmatch (s t : List UInt8) (shift : Nat) : Nat → Except Fault (Option Nat)
  | 0 => .ok none
  | n + 1 => do
      let a ← readAt t n
      let b ← readAt s (shift + n)
      if toChar a.toNat = b.toNat then notmatch s t shift n else .ok (some n)

def visitShift (s t : List UInt8) (_ : Int) (shift : Nat) : Except Fault (Hop Int) := do
  let last := toInt (t.length - 1)
  match ← notmatch s t shift (last + 1).toNat with
  | none => .ok (.stop (toInt shift))
  | some n =>
      let c ← readAt s (shift + n)
      let skip := (n : Int) - badChar t c
      if 2 ^ 31 ≤ skip then .error .undefined
      else .ok (.go (-1) (shift + (max 1 skip).toNat))

/-- Called for a source that is not shorter than the pattern, which the table was made from. -/
def strstr (s t : List UInt8) (fuel : Nat) : Option (Except Fault Int) :=
  scan (s.length - t.length + 1) (visitShift s t) fuel (-1) 0

/-! ## Occurrences -/

/-- The pattern stands in the source from `i` on. -/
def OccursAt (s t : List UInt8) (i : Nat) : Prop := t <+: s.drop i

/-- `r` is where the pattern first occurs, or -1. -/
def Finds (s t : List UInt8) (r : Int) : Prop :=
  (∃ p : Nat, r = p ∧ OccursAt s t p ∧ ∀ i < p, ¬ OccursAt s t i) ∨
    r = -1 ∧ ∀ i, ¬ OccursAt s t i

def nextShift (s t : List UInt8) (shift : Nat) : Option Nat :=
  match visitShift s t (-1) shift with
  | .ok (.go _ next) => some next
  | _ => none

/-- The search for a pattern is exact: it ends with the first occurrence in each source, and no
move skips one. -/
def Exact (t : List UInt8) : Prop :=
  ∀ s : List UInt8, t.length ≤ s.length → s.length < 2 ^ 31 →
    (∃ fuel r, strstr s t fuel = some (.ok r) ∧ Finds s t r) ∧
      ∀ shift next, Reached (s.length - t.length + 1) (nextShift s t) 0 shift →
        shift < s.length - t.length + 1 → nextShift s t shift = some next →
          shift + 1 ≤ next ∧ ∀ i, shift ≤ i → i < next → ¬ OccursAt s t i

/-- No character is negative, and no move behind a difference is too wide.  At a place where the
character `c` of the source differs from the character `n` of the pattern, and the characters
behind are the same, no pattern that stands `e` places further on agrees with what is known of the
source, as long as `e` is less than the move. -/
structure Searchable (t : List UInt8) : Prop where
  ascii : ∀ c ∈ t, c < 128
  fits : ∀ n < t.length, ∀ c, t[n]? ≠ some c → (n : Int) - badChar t c < 2 ^ 31
  apart : ∀ n < t.length, ∀ c, t[n]? ≠ some c → ∀ e : Nat, 0 < e → (e : Int) < n - badChar t c →
    e + t.length < 2 ^ 31 →
      ¬ ((e ≤ n → t[n - e]? = some c) ∧ ∀ i, n < i → i < t.length → e ≤ i → t[i - e]? = t[i]?)

section Occurrences

variable {s t : List UInt8} {i : Nat}

theorem occursAt_iff : OccursAt s t i ↔ ∀ k < t.length, s[i + k]? = t[k]? := by
  rw [OccursAt, List.prefix_iff_getElem?]
  refine forall₂_congr fun k hk => ?_
  rw [List.getElem?_drop, List.getElem?_eq_getElem hk]

theorem OccursAt.le (h : OccursAt s t i) (nonempty : t ≠ []) : i + t.length ≤ s.length := by
  have length := h.length_le
  have pos := List.length_pos_iff.2 nonempty
  rw [List.length_drop] at length
  omega

end Occurrences

/-! ## One pass -/

/-- The character `k` of the pattern is the one of the source, and is not negative. -/
def Same (s t : List UInt8) (shift k : Nat) : Prop :=
  ∃ c, t[k]? = some c ∧ s[shift + k]? = some c ∧ c < 128

section Pass

variable {s t : List UInt8} {shift n : Nat}

theorem toChar_eq_iff (a b : UInt8) : toChar a.toNat = b.toNat ↔ a = b ∧ a < 128 := by
  have ltA := a.toNat_lt
  have ltB := b.toNat_lt
  rw [UInt8.lt_iff_toNat_lt, ← UInt8.toNat_inj, toChar, Int.bmod_def]
  split_ifs <;> simp <;> omega

theorem notmatch_spec (fits : n ≤ t.length) (room : shift + t.length ≤ s.length) :
    ∃ found, notmatch s t shift n = .ok found ∧
      (found = none ∧ (∀ k < n, Same s t shift k) ∨
        ∃ k < n, found = some k ∧ ¬ Same s t shift k ∧ ∀ i, k < i → i < n → Same s t shift i) := by
  induction n with
  | zero => exact ⟨none, rfl, .inl ⟨rfl, nofun⟩⟩
  | succ n ih =>
      have first : t[n]? = some t[n] := List.getElem?_eq_getElem fits
      have second : s[shift + n]? = some s[shift + n] := List.getElem?_eq_getElem (by omega)
      have here : Same s t shift n ↔ toChar t[n].toNat = s[shift + n].toNat := by
        rw [toChar_eq_iff, Same, first, second]
        constructor
        · rintro ⟨c, hc, hc', small⟩
          obtain rfl := Option.some.inj hc
          exact ⟨(Option.some.inj hc').symm, small⟩
        · rintro ⟨same, small⟩
          exact ⟨t[n], rfl, by rw [same], small⟩
      rw [notmatch, readAt, first, readAt, second]
      dsimp only
      rw [ok_bind, ok_bind]
      by_cases same : Same s t shift n
      · rw [if_pos (here.1 same)]
        obtain ⟨found, run, result⟩ := ih (Nat.le_of_succ_le fits)
        refine ⟨found, run, ?_⟩
        rcases result with ⟨none, all⟩ | ⟨k, hk, some, differs, later⟩
        · refine .inl ⟨none, fun k hk => ?_⟩
          rcases Nat.lt_succ_iff_lt_or_eq.1 hk with lt | rfl
          · exact all k lt
          · exact same
        · refine .inr ⟨k, Nat.lt_succ_of_lt hk, some, differs, fun i lt hi => ?_⟩
          rcases Nat.lt_succ_iff_lt_or_eq.1 hi with before | rfl
          · exact later i lt before
          · exact same
      · rw [if_neg fun equal => same (here.2 equal)]
        exact ⟨some n, rfl, .inr ⟨n, Nat.lt_succ_self n, rfl, same, fun i lt hi => by omega⟩⟩

theorem visitShift_spec (short : t.length < 2 ^ 31) (room : shift + t.length ≤ s.length) :
    ((∀ k < t.length, Same s t shift k) ∧
      visitShift s t (-1) shift = .ok (.stop (toInt shift))) ∨
    ∃ n < t.length, ∃ c, s[shift + n]? = some c ∧ ¬ Same s t shift n ∧
      (∀ i, n < i → i < t.length → Same s t shift i) ∧
      visitShift s t (-1) shift = if 2 ^ 31 ≤ (n : Int) - badChar t c then .error .undefined
        else .ok (.go (-1) (shift + (max 1 ((n : Int) - badChar t c)).toNat)) := by
  have whole : (toInt (t.length - 1) + 1).toNat = t.length := by
    rw [toInt, Int.bmod_eq_of_le (by omega) (by omega)]
    omega
  obtain ⟨found, run, result⟩ := notmatch_spec (le_refl t.length) room
  unfold visitShift
  simp only [whole, run, ok_bind]
  rcases result with ⟨rfl, all⟩ | ⟨n, hn, rfl, differs, later⟩
  · exact .inl ⟨all, rfl⟩
  · have inside : s[shift + n]? = some s[shift + n] := List.getElem?_eq_getElem (by omega)
    refine .inr ⟨n, hn, s[shift + n], inside, differs, later, ?_⟩
    simp only [readAt, inside, ok_bind]

theorem same_iff (ascii : ∀ c ∈ t, c < 128) {k : Nat} (hk : k < t.length) :
    Same s t shift k ↔ s[shift + k]? = t[k]? := by
  constructor
  · rintro ⟨c, first, second, -⟩
    rw [first, second]
  · intro same
    have first : t[k]? = some t[k] := List.getElem?_eq_getElem hk
    exact ⟨t[k], first, same.trans first, ascii _ (List.getElem_mem hk)⟩

end Pass

/-! ## Exact searches -/

section Exactness

variable {s t : List UInt8}

theorem Searchable.go (h : Searchable t) (short : s.length < 2 ^ 31) {shift : Nat}
    (room : shift + t.length ≤ s.length) (absent : ¬ OccursAt s t shift) :
    ∃ next, visitShift s t (-1) shift = .ok (.go (-1) next) ∧ shift < next ∧
      ∀ i, shift ≤ i → i < next → ¬ OccursAt s t i := by
  rcases visitShift_spec (by omega) room with ⟨all, -⟩ | ⟨n, hn, c, known, differs, later, visit⟩
  · exact absurd (occursAt_iff.2 fun k hk => (same_iff h.ascii hk).1 (all k hk)) absent
  · have other : t[n]? ≠ some c := fun same =>
      differs ((same_iff h.ascii hn).2 (known.trans same.symm))
    have small := h.fits n hn c other
    rw [if_neg (by omega)] at visit
    refine ⟨_, visit, by omega, fun i low high occurs => ?_⟩
    obtain ⟨e, rfl⟩ := Nat.exists_eq_add_of_le low
    have stands := occursAt_iff.1 occurs
    have moved : 0 < e := by
      rcases Nat.eq_zero_or_pos e with rfl | pos
      · exact absurd occurs absent
      · exact pos
    have reach : shift + e + t.length ≤ s.length := by
      refine occurs.le fun empty => ?_
      rw [empty] at hn
      exact absurd hn (Nat.not_lt_zero n)
    -- what is known of the source agrees with the pattern at its new place
    refine h.apart n hn c other e moved (by omega) (by omega) ⟨fun le => ?_, fun i lt hi le => ?_⟩
    · have under := stands (n - e) (by omega)
      rw [show shift + e + (n - e) = shift + n by omega, known] at under
      exact under.symm
    · have under := stands (i - e) (by omega)
      rw [show shift + e + (i - e) = shift + i by omega] at under
      exact under.symm.trans ((same_iff h.ascii hi).1 (later i lt hi))

theorem Searchable.stop (h : Searchable t) (short : s.length < 2 ^ 31) {shift : Nat}
    (room : shift + t.length ≤ s.length) (occurs : OccursAt s t shift) :
    visitShift s t (-1) shift = .ok (.stop (shift : Int)) := by
  rcases visitShift_spec (by omega) room with ⟨-, visit⟩ | ⟨n, hn, _, _, differs, -⟩
  · rw [visit, toInt, Int.bmod_eq_of_le (by omega) (by omega)]
  · exact absurd ((same_iff h.ascii hn).2 (occursAt_iff.1 occurs n hn)) differs

theorem Searchable.exact (h : Searchable t) (nonempty : t ≠ []) : Exact t := by
  intro s fits short
  have inside : ∀ i, OccursAt s t i → i < s.length - t.length + 1 := fun i occurs => by
    have le := occurs.le nonempty
    omega
  constructor
  · obtain ⟨fuel, r, run, result⟩ := scan_first inside
      (fun shift hi occurs => h.stop short (by omega) occurs)
      (fun shift hi absent => h.go short (by omega) absent)
      0 (fun i hi => absurd hi (Nat.not_lt_zero i))
    refine ⟨fuel, r, run, ?_⟩
    rcases result with ⟨p, rfl, occurs, first⟩ | ⟨rfl, none⟩
    · exact .inl ⟨p, rfl, occurs, first⟩
    · exact .inr ⟨rfl, none⟩
  · intro shift next _ inRange hop
    by_cases occurs : OccursAt s t shift
    · rw [nextShift, h.stop short (by omega) occurs] at hop
      cases hop
    · obtain ⟨next', visit, lt, none⟩ := h.go short (by omega) occurs
      rw [nextShift, visit] at hop
      obtain rfl := Option.some.inj hop
      exact ⟨lt, none⟩

theorem Exact.visit (exact : Exact t) (fits : t.length ≤ s.length) (short : s.length < 2 ^ 31) :
    visitShift s t (-1) 0 ≠ .error .undefined := by
  intro visit
  obtain ⟨⟨fuel, r, run, -⟩, -⟩ := exact s fits short
  cases fuel with
  | zero => cases run
  | succ fuel =>
      rw [strstr, scan, if_pos (Nat.succ_pos _), visit] at run
      cases run

theorem Exact.first (exact : Exact t) (fits : t.length ≤ s.length) (short : s.length < 2 ^ 31)
    {next i : Nat} (visit : visitShift s t (-1) 0 = .ok (.go (-1) next)) (hi : i < next) :
    ¬ OccursAt s t i := by
  have hop : nextShift s t 0 = some next := by rw [nextShift, visit]
  exact ((exact s fits short).2 0 next .here (Nat.succ_pos _) hop).2 i (Nat.zero_le i) hi

theorem Exact.ascii (exact : Exact t) (short : t.length < 2 ^ 31) : ∀ c ∈ t, c < 128 := by
  intro c hc
  obtain ⟨k, hk, rfl⟩ := List.mem_iff_getElem.1 hc
  by_contra negative
  have visit := exact.visit (le_refl t.length) short
  have occurs : OccursAt t t 0 := List.prefix_rfl
  have room : 0 + t.length ≤ t.length := by omega
  rcases visitShift_spec short room with ⟨all, -⟩ | ⟨n, -, c, -, -, -, go⟩
  · obtain ⟨c, same, -, small⟩ := all k hk
    rw [List.getElem?_eq_getElem hk] at same
    obtain rfl := Option.some.inj same
    exact negative small
  · split_ifs at go with wide
    · exact visit go
    · exact exact.first (le_refl _) short go (by omega) occurs

theorem visitShift_of_differs (ascii : ∀ c ∈ t, c < 128) (short : t.length < 2 ^ 31)
    (fits : t.length ≤ s.length) {n : Nat} (hn : n < t.length) {c : UInt8}
    (known : s[n]? = some c) (other : t[n]? ≠ some c)
    (later : ∀ i, n < i → i < t.length → s[i]? = t[i]?) :
    visitShift s t (-1) 0 = if 2 ^ 31 ≤ (n : Int) - badChar t c then .error .undefined
      else .ok (.go (-1) (0 + (max 1 ((n : Int) - badChar t c)).toNat)) := by
  have same : ∀ k < t.length, Same s t 0 k ↔ s[k]? = t[k]? := fun k hk => by
    rw [same_iff ascii hk, Nat.zero_add]
  have differs : ¬ Same s t 0 n := fun h => other ((same n hn).1 h ▸ known)
  have room : 0 + t.length ≤ s.length := by omega
  rcases visitShift_spec short room with ⟨all, -⟩ | ⟨m, hm, d, known', differs', later', visit⟩
  · exact absurd (all n hn) differs
  · rcases Nat.lt_trichotomy m n with before | rfl | behind
    · exact absurd (later' n before hn) differs
    · rw [Nat.zero_add, known] at known'
      obtain rfl := Option.some.inj known'
      exact visit
    · exact absurd ((same m hm).2 (later m behind hm)) differs'

/-- What shows that the pattern may stand `e` places further on. -/
def probe (t : List UInt8) (n : Nat) (c : UInt8) (e : Nat) : List UInt8 :=
  (List.range (e + t.length)).map fun i =>
    if e ≤ i then t.getD (i - e) 0 else if i = n then c else t.getD i 0

theorem length_probe (t : List UInt8) (n : Nat) (c : UInt8) (e : Nat) :
    (probe t n c e).length = e + t.length := by
  simp [probe]

theorem probe_getElem? (t : List UInt8) (n : Nat) (c : UInt8) (e : Nat) {i : Nat}
    (hi : i < e + t.length) : (probe t n c e)[i]? =
      some (if e ≤ i then t.getD (i - e) 0 else if i = n then c else t.getD i 0) := by
  rw [probe, List.getElem?_map, List.getElem?_range hi]
  rfl

theorem some_getD {k : Nat} (hk : k < t.length) : some (t.getD k 0) = t[k]? := by
  simp [List.getD_eq_getElem?_getD, hk]

theorem Exact.searchable (exact : Exact t) (short : t.length < 2 ^ 31) : Searchable t where
  ascii := exact.ascii short
  fits n hn c other := by
    have length : (t.set n c).length = t.length := List.length_set
    have known : (t.set n c)[n]? = some c := List.getElem?_set_self hn
    have later : ∀ i, n < i → i < t.length → (t.set n c)[i]? = t[i]? := fun i lt _ =>
      List.getElem?_set_ne (Nat.ne_of_lt lt)
    have visit := visitShift_of_differs (exact.ascii short) short length.ge hn known other later
    by_contra wide
    rw [if_pos (by omega)] at visit
    exact exact.visit length.ge (length ▸ short) visit
  apart n hn c other e pos near fits := by
    rintro ⟨under, behind⟩
    have length := length_probe t n c e
    have known : (probe t n c e)[n]? = some c := by
      rw [probe_getElem? t n c e (by omega)]
      by_cases le : e ≤ n
      · rw [if_pos le, some_getD (by omega), under le]
      · rw [if_neg le, if_pos rfl]
    have later : ∀ i, n < i → i < t.length → (probe t n c e)[i]? = t[i]? := by
      intro i lt hi
      rw [probe_getElem? t n c e (by omega), ← some_getD hi]
      split_ifs with le
      · rw [some_getD (by omega), some_getD hi, behind i lt hi le]
      · omega
      · rfl
    have visit := visitShift_of_differs (exact.ascii short) short (by omega) hn known other later
    have occurs : OccursAt (probe t n c e) t e := occursAt_iff.2 fun k hk => by
      rw [probe_getElem? t n c e (by omega), if_pos (by omega), Nat.add_sub_cancel_left,
        some_getD hk]
    split_ifs at visit with wide
    · exact exact.visit (by omega) (by omega) visit
    · exact exact.first (by omega) (by omega) visit (by omega) occurs

end Exactness

/-! ## Short patterns -/

section Short

variable {i : Nat} {rest : List UInt8} {table : UInt8 → Int} {c : UInt8}

theorem toChar_of_small (small : i < 128) : toChar i = i :=
  Int.bmod_eq_of_le (by omega) (by omega)

theorem le_fillBadChar {low : Int} (fits : i + rest.length ≤ 128) (start : low ≤ table c)
    (before : low ≤ i) : low ≤ fillBadChar i rest table c := by
  induction rest generalizing i table with
  | nil => exact start
  | cons d rest ih =>
      rw [List.length_cons] at fits
      refine ih (by omega) ?_ (by omega)
      by_cases same : c = d
      · rw [same, Function.update_self, toChar_of_small (by omega)]
        exact before
      · rw [Function.update_of_ne same]
        exact start

theorem le_fillBadChar_of_getElem? (fits : i + rest.length ≤ 128) {k : Nat}
    (stands : rest[k]? = some c) : (i + k : Int) ≤ fillBadChar i rest table c := by
  induction rest generalizing i k table with
  | nil => cases stands
  | cons d rest ih =>
      rw [List.length_cons] at fits
      cases k with
      | zero =>
          obtain rfl := Option.some.inj stands
          have head : (i : Int) ≤ Function.update table d (toChar i) d := by
            rw [Function.update_self, toChar_of_small (by omega)]
          have entry := @le_fillBadChar (i + 1) rest _ d i (by omega) head (by omega)
          simpa [fillBadChar] using entry
      | succ k =>
          have entry : ((i + 1 : Nat) + k : Int) ≤
              fillBadChar (i + 1) rest (Function.update table d (toChar i)) c :=
            ih (by omega) stands
          rw [fillBadChar]
          omega

theorem searchable_of_ascii {t : List UInt8} (ascii : ∀ c ∈ t, c < 128) (fits : t.length ≤ 128) :
    Searchable t where
  ascii := ascii
  fits n hn c _ := by
    have entry : -1 ≤ badChar t c := le_fillBadChar (by omega) (le_refl _) (by omega)
    omega
  apart n hn c _ e pos near _ := by
    rintro ⟨under, -⟩
    have entry : -1 ≤ badChar t c := le_fillBadChar (by omega) (le_refl _) (by omega)
    have last : ((0 : Nat) + (n - e : Nat) : Int) ≤ badChar t c :=
      le_fillBadChar_of_getElem? (by omega) (under (by omega))
    omega

end Short

/-- The search for a pattern is exact in all sources exactly if the pattern is searchable. -/
theorem strstr_exact_iff {t : List UInt8} (nonempty : t ≠ []) (short : t.length < 2 ^ 31) :
    Exact t ↔ Searchable t :=
  ⟨fun exact => exact.searchable short, fun h => h.exact nonempty⟩

theorem strstr_exact_iff_ne3 : Exact [110, 101, 51] :=
  (strstr_exact_iff (by decide) (by decide)).2 (searchable_of_ascii (by simp) (by decide))

/-- A character of the source is not negative, and the one of the pattern is. -/
theorem strstr_not_exact : strstr [128] [128] 2 = some (.ok (-1)) ∧ OccursAt [128] [128] 0 ∧
    ¬ ∀ t : List UInt8, t ≠ [] → t.length < 2 ^ 31 → Exact t := by
  refine ⟨by decide +kernel, List.prefix_rfl, fun all => ?_⟩
  have ascii := (all [128] (by decide) (by decide)).ascii (by decide) 128 (by decide)
  exact absurd ascii (by decide)

end SimpleSSD.ISC.GrepAPP
