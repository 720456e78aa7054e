import Mathlib.Data.List.Basic
import Mathlib.Data.BitVec
import SimpleSSD.Util.Def

/-!
# Bit sets

`util/bitset.cc`, with the population count of `util/algorithm.hh`.  A set owns an array
of bytes that it reaches without a bounds check.
-/

namespace SimpleSSD

/-- `popcount` at `uint8_t`; the factors are `255 / 3`, `255 / 15 * 3` and `255 / 255 * 15`. -/
def popcount (v : BitVec 8) : Nat :=
  let v := v - ((v >>> 1) &&& 85#8)
  let v := (v &&& 51#8) + ((v >>> 2) &&& 51#8)
  let v := (v + (v >>> 4)) &&& 15#8
  v.toNat

structure Bitset where
  dataSize : Nat
  data : List (BitVec 8)
  deriving DecidableEq, Repr

namespace Bitset

def allocSize (size : Nat) : Nat := if size = 0 then 0 else (size - 1) / 8 + 1

def new (size : Nat) : Bitset := ⟨size, List.replicate (allocSize size) 0#8⟩

def test (set : Bitset) (idx : Nat) : Except Fault Bool :=
  match set.data[idx / 8]? with
  | none => .error .undefined
  | some byte => .ok (byte &&& (1#8 <<< (idx % 8)) != 0#8)

def modify (set : Bitset) (idx : Nat) (f : BitVec 8 → BitVec 8) : Except Fault Bitset :=
  if idx / 8 < set.data.length then .ok { set with data := set.data.modify (idx / 8) f }
  else .error .undefined

def set (set : Bitset) (idx : Nat) : Except Fault Bitset :=
  set.modify idx fun byte =>
    (byte &&& ~~~(1#8 <<< (idx % 8))) ||| (1#8 <<< (idx % 8))

def reset (set : Bitset) (idx : Nat) : Except Fault Bitset :=
  set.modify idx fun byte => byte &&& ~~~(1#8 <<< (idx % 8))

def setTo (set : Bitset) (idx : Nat) (value : Bool) : Except Fault Bitset :=
  set.modify idx fun byte =>
    let byte := byte &&& ~~~(1#8 <<< (idx % 8))
    if value then byte ||| (1#8 <<< (idx % 8)) else byte

def flipBit (set : Bitset) (idx : Nat) : Except Fault Bitset :=
  set.modify idx fun byte =>
    (~~~byte &&& (1#8 <<< (idx % 8))) ||| (byte &&& ~~~(1#8 <<< (idx % 8)))

def mask (set : Bitset) : BitVec 8 := 255#8 >>> (set.data.length * 8 - set.dataSize)

/-- `set()`; with no bytes at all the last one is out of reach. -/
def setAll (set : Bitset) : Except Fault Bitset :=
  if set.data = [] then .error .undefined
  else .ok { set with data := List.replicate (set.data.length - 1) 255#8 ++ [set.mask] }

def resetAll (set : Bitset) : Bitset := { set with data := set.data.map fun _ => 0#8 }

def flip (set : Bitset) : Except Fault Bitset :=
  if set.data = [] then .error .undefined
  else
    .ok { set with
      data := (set.data.map (~~~ ·)).modify (set.data.length - 1) (· &&& set.mask) }

def all (set : Bitset) : Except Fault Bool :=
  match set.data.getLast? with
  | .none => .error .undefined
  | some last =>
      let mask := 255#8 <<< (set.dataSize + 8 - set.data.length * 8)
      .ok ((set.data.dropLast.foldl (· &&& ·) 255#8 &&& (last ||| mask)) == 255#8)

def none (set : Bitset) : Bool := set.data.foldl (· ||| ·) 0#8 == 0#8

def any (set : Bitset) : Bool := !set.none

def count (set : Bitset) : Nat := (set.data.map popcount).sum

def combine (f : BitVec 8 → BitVec 8 → BitVec 8) (lhs rhs : Bitset) : Except Fault Bitset :=
  if lhs.dataSize ≠ rhs.dataSize then .error (.panic "Size does not match")
  else .ok { lhs with data := List.zipWith f lhs.data rhs.data }

def or (lhs rhs : Bitset) : Except Fault Bitset := combine (· ||| ·) lhs rhs

def and (lhs rhs : Bitset) : Except Fault Bitset := combine (· &&& ·) lhs rhs

def xor (lhs rhs : Bitset) : Except Fault Bitset := combine (· ^^^ ·) lhs rhs

/-- A new set with the bytes of another one, if that has any. -/
def copy (rhs : Bitset) : Bitset :=
  if rhs.data = [] then new rhs.dataSize
  else { new rhs.dataSize with data := rhs.data.take (allocSize rhs.dataSize) }

def not (set : Bitset) : Except Fault Bitset := set.copy.flip

def moved : Bitset := ⟨0, []⟩

/-! ## Bits -/

def bit (set : Bitset) (i : Nat) : Bool := (set.data.getD (i / 8) 0#8).getLsbD (i % 8)

/-- The set of the places below `size` where `f` holds; the bits of its last byte that
stand for no place are clear. -/
structure Holds (set : Bitset) (size : Nat) (f : Nat → Bool) : Prop where
  dataSize : set.dataSize = size
  length : set.data.length = allocSize size
  bits : ∀ i, set.bit i = (decide (i < size) && f i)

theorem lt_allocSize {size idx : Nat} (h : idx < size) : idx / 8 < allocSize size := by
  simp only [allocSize]
  split <;> omega

theorem allocSize_pos {size : Nat} : 0 < allocSize size ↔ 0 < size := by
  simp only [allocSize]
  split <;> omega

theorem popcount_eq (v : BitVec 8) : popcount v = (List.range 8).countP v.getLsbD := by
  revert v
  decide +kernel

theorem test_byte (byte : BitVec 8) {k : Nat} (hk : k < 8) :
    (byte &&& (1#8 <<< k) != 0#8) = byte.getLsbD k := by
  revert k byte
  decide +kernel

theorem getLsbD_single {k j : Nat} (hj : j < 8) : (1#8 <<< k).getLsbD j = decide (j = k) := by
  simp only [BitVec.getLsbD_shiftLeft, BitVec.getLsbD_one]
  by_cases h : j = k
  · simp [h, h ▸ hj]
  · have apart : j < k ∨ j - k ≠ 0 := by omega
    rcases apart with h' | h' <;> simp [h, h']

theorem getLsbD_set (byte : BitVec 8) {k j : Nat} (hj : j < 8) :
    ((byte &&& ~~~(1#8 <<< k)) ||| (1#8 <<< k)).getLsbD j =
      if j = k then true else byte.getLsbD j := by
  rw [BitVec.getLsbD_or, BitVec.getLsbD_and, BitVec.getLsbD_not, getLsbD_single hj]
  by_cases h : j = k <;> simp [h, hj]

theorem getLsbD_reset (byte : BitVec 8) {k j : Nat} (hj : j < 8) :
    (byte &&& ~~~(1#8 <<< k)).getLsbD j = if j = k then false else byte.getLsbD j := by
  rw [BitVec.getLsbD_and, BitVec.getLsbD_not, getLsbD_single hj]
  by_cases h : j = k <;> simp [h, hj]

theorem getLsbD_setTo (byte : BitVec 8) {k j : Nat} (value : Bool) (hj : j < 8) :
    (if value then (byte &&& ~~~(1#8 <<< k)) ||| (1#8 <<< k)
      else byte &&& ~~~(1#8 <<< k)).getLsbD j = if j = k then value else byte.getLsbD j := by
  cases value with
  | true => exact getLsbD_set byte hj
  | false => exact getLsbD_reset byte hj

theorem getLsbD_flip (byte : BitVec 8) {k j : Nat} (hj : j < 8) :
    ((~~~byte &&& (1#8 <<< k)) ||| (byte &&& ~~~(1#8 <<< k))).getLsbD j =
      if j = k then !byte.getLsbD j else byte.getLsbD j := by
  rw [BitVec.getLsbD_or, BitVec.getLsbD_and, BitVec.getLsbD_and, BitVec.getLsbD_not,
    BitVec.getLsbD_not, getLsbD_single hj]
  by_cases h : j = k
  · simp [h, h ▸ hj]
  · simp [h, hj]

variable {b b' : Bitset} {size idx : Nat} {f g : Nat → Bool}

theorem Holds.unique (h : b.Holds size f) (h' : b'.Holds size f) : b = b' := by
  have hlen : b.data.length = b'.data.length := h.length.trans h'.length.symm
  have hdata : b.data = b'.data := by
    apply List.ext_getElem hlen
    intro k hk hk'
    apply BitVec.eq_of_getLsbD_eq
    intro j hj
    have same := (h.bits (8 * k + j)).trans (h'.bits (8 * k + j)).symm
    have hdiv : (8 * k + j) / 8 = k := by omega
    have hmod : (8 * k + j) % 8 = j := by omega
    simpa [bit, hdiv, hmod, hk, hk'] using same
  have hsize : b.dataSize = b'.dataSize := h.dataSize.trans h'.dataSize.symm
  cases b
  cases b'
  simp_all

theorem new_holds (size : Nat) : (new size).Holds size fun _ => false := by
  refine ⟨rfl, by simp [new], fun i => ?_⟩
  simp only [new, bit, List.getD_eq_getElem?_getD, List.getElem?_replicate]
  split <;> simp

theorem Holds.congr (h : b.Holds size f) (same : ∀ i < size, f i = g i) :
    b.Holds size g := by
  refine ⟨h.dataSize, h.length, fun i => ?_⟩
  rw [h.bits]
  by_cases hi : i < size
  · simp [same i hi]
  · simp [hi]

theorem test_eq (h : idx / 8 < b.data.length) : b.test idx = .ok (b.bit idx) := by
  have hbyte : b.data[idx / 8]? = some b.data[idx / 8] := List.getElem?_eq_getElem h
  simp only [test, hbyte, bit, List.getD_eq_getElem?_getD, Option.getD_some]
  rw [test_byte _ (Nat.mod_lt _ (by decide))]

theorem Holds.test (h : b.Holds size f) (hidx : idx < size) : b.test idx = .ok (f idx) := by
  rw [test_eq (h.length ▸ lt_allocSize hidx), h.bits]
  simp [hidx]

theorem Holds.modify {change : BitVec 8 → BitVec 8} (h : b.Holds size f) (value : Bool → Bool)
    (hidx : idx < size)
    (one : ∀ byte : BitVec 8, ∀ j < 8,
      (change byte).getLsbD j = if j = idx % 8 then value (byte.getLsbD j) else byte.getLsbD j) :
    ∃ b', b.modify idx change = .ok b' ∧
      b'.Holds size (Function.update f idx (value (f idx))) := by
  have hlt : idx / 8 < b.data.length := h.length ▸ lt_allocSize hidx
  refine ⟨_, if_pos hlt, h.dataSize, by simpa using h.length, fun i => ?_⟩
  have old := h.bits i
  simp only [bit, List.getD_eq_getElem?_getD] at old ⊢
  rw [List.getElem?_modify]
  by_cases hbyte : idx / 8 = i / 8
  · have hi : b.data[i / 8]? = some b.data[i / 8] := List.getElem?_eq_getElem (hbyte ▸ hlt)
    have hj := one b.data[i / 8] (i % 8) (Nat.mod_lt _ (by decide))
    simp only [hi, hbyte, if_true, Option.map_eq_map, Option.map_some, Option.getD_some] at old ⊢
    by_cases heq : i = idx
    · subst heq
      simp [hj, old, hidx]
    · have hne : i % 8 ≠ idx % 8 := by omega
      rw [Function.update_of_ne heq, hj, if_neg hne, old]
  · have heq : i ≠ idx := by rintro rfl; exact hbyte rfl
    simp only [hbyte, if_false]
    rw [Function.update_of_ne heq]
    simpa using old

theorem Holds.set (h : b.Holds size f) (hidx : idx < size) :
    ∃ b', b.set idx = .ok b' ∧ b'.Holds size (Function.update f idx true) :=
  h.modify (fun _ => true) hidx fun byte _ hj => getLsbD_set byte hj

theorem Holds.reset (h : b.Holds size f) (hidx : idx < size) :
    ∃ b', b.reset idx = .ok b' ∧ b'.Holds size (Function.update f idx false) :=
  h.modify (fun _ => false) hidx fun byte _ hj => getLsbD_reset byte hj

theorem Holds.setTo (h : b.Holds size f) (hidx : idx < size) (value : Bool) :
    ∃ b', b.setTo idx value = .ok b' ∧ b'.Holds size (Function.update f idx value) :=
  h.modify (fun _ => value) hidx fun byte _ hj => getLsbD_setTo byte value hj

theorem Holds.flipBit (h : b.Holds size f) (hidx : idx < size) :
    ∃ b', b.flipBit idx = .ok b' ∧ b'.Holds size (Function.update f idx !f idx) :=
  h.modify (fun old => !old) hidx fun byte _ hj => getLsbD_flip byte hj

theorem Holds.resetAll (h : b.Holds size f) : b.resetAll.Holds size fun _ => false := by
  refine ⟨h.dataSize, by simpa [Bitset.resetAll] using h.length, fun i => ?_⟩
  simp only [bit, Bitset.resetAll, List.getD_eq_getElem?_getD, List.getElem?_map]
  cases b.data[i / 8]? <;> simp

theorem getLsbD_ones (i : Nat) : (255#8).getLsbD i = decide (i < 8) := by
  rw [show (255#8) = BitVec.allOnes 8 from rfl, BitVec.getLsbD_allOnes]

theorem getLsbD_mask (k j : Nat) :
    (255#8 >>> k).getLsbD j = decide (k + j < 8) := by
  rw [BitVec.getLsbD_ushiftRight, getLsbD_ones]

theorem getLsbD_mask_left {k j : Nat} (hj : j < 8) :
    (255#8 <<< k).getLsbD j = decide (k ≤ j) := by
  have inside : j - k < 8 := by omega
  simp only [BitVec.getLsbD_shiftLeft, getLsbD_ones, hj, inside, decide_true, Bool.true_and,
    Bool.and_true]
  rw [← decide_not, decide_eq_decide]
  exact Nat.not_lt

theorem Holds.mask_bit (h : b.Holds size f) {i : Nat} (last : i / 8 = b.data.length - 1)
    (hpos : 0 < size) : b.mask.getLsbD (i % 8) = decide (i < size) := by
  have hlen := h.length
  have hsize := h.dataSize
  simp only [allocSize, Nat.ne_of_gt hpos, if_false] at hlen
  rw [mask, getLsbD_mask]
  apply decide_eq_decide.2
  omega

theorem Holds.lt_of_div_lt (h : b.Holds size f) {i : Nat} (hi : i / 8 < b.data.length - 1) :
    i < size := by
  have hlen := h.length
  simp only [allocSize] at hlen
  split at hlen <;> omega

theorem Holds.le_of_length_le (h : b.Holds size f) {i : Nat} (hi : b.data.length ≤ i / 8) :
    size ≤ i := by
  have hlen := h.length
  simp only [allocSize] at hlen
  split at hlen <;> omega

theorem Holds.data_ne_nil (h : b.Holds size f) (hpos : 0 < size) : b.data ≠ [] := by
  intro hnil
  have hlen := h.length
  rw [hnil] at hlen
  exact absurd (allocSize_pos.2 hpos) (by simp [← hlen])

theorem Holds.setAll (h : b.Holds size f) (hpos : 0 < size) :
    ∃ b', b.setAll = .ok b' ∧ b'.Holds size fun _ => true := by
  have hdata := h.data_ne_nil hpos
  have hlen : b.data.length - 1 + 1 = b.data.length :=
    Nat.sub_add_cancel (List.length_pos_iff.2 hdata)
  refine ⟨_, if_neg hdata, h.dataSize, by simpa [hlen] using h.length, fun i => ?_⟩
  simp only [bit, List.getD_eq_getElem?_getD, Bool.and_true]
  rcases lt_trichotomy (i / 8) (b.data.length - 1) with hlt | heq | hgt
  · have hi := h.lt_of_div_lt hlt
    rw [List.getElem?_append_left (by simpa using hlt), List.getElem?_replicate, if_pos hlt]
    have hmod : i % 8 < 8 := Nat.mod_lt i (by decide)
    simpa [hi, hmod] using getLsbD_mask 0 (i % 8)
  · rw [List.getElem?_append_right (by simp [heq])]
    simpa [heq] using h.mask_bit heq hpos
  · have hi := h.le_of_length_le (show b.data.length ≤ i / 8 by omega)
    rw [List.getElem?_eq_none (by simp; omega)]
    simp [hi]

theorem Holds.flip (h : b.Holds size f) (hpos : 0 < size) :
    ∃ b', b.flip = .ok b' ∧ b'.Holds size fun i => !f i := by
  have hdata := h.data_ne_nil hpos
  refine ⟨_, if_neg hdata, h.dataSize, by simpa using h.length, fun i => ?_⟩
  have old := h.bits i
  simp only [bit, List.getD_eq_getElem?_getD, List.getElem?_modify, List.getElem?_map] at old ⊢
  rcases lt_trichotomy (i / 8) (b.data.length - 1) with hlt | heq | hgt
  · have hi := h.lt_of_div_lt hlt
    have hbyte : b.data[i / 8]? = some b.data[i / 8] := List.getElem?_eq_getElem (by omega)
    have hne : ¬b.data.length - 1 = i / 8 := by omega
    have hmod : i % 8 < 8 := Nat.mod_lt i (by decide)
    simp only [hbyte, Option.getD_some] at old
    simp only [hbyte, hne, if_false, Option.map_eq_map, Option.map_some, Option.getD_some,
      BitVec.getLsbD_not, old]
    simp [hi, hmod]
  · have hlast : i / 8 < b.data.length := by
      have := List.length_pos_iff.2 hdata
      omega
    have hbyte : b.data[i / 8]? = some b.data[i / 8] := List.getElem?_eq_getElem hlast
    have hmask := h.mask_bit heq hpos
    simp only [hbyte, Option.getD_some] at old
    simp only [hbyte, ← heq, if_true, Option.map_eq_map, Option.map_some, Option.getD_some,
      BitVec.getLsbD_and, BitVec.getLsbD_not, old, hmask]
    by_cases hi : i < size <;> simp [hi, Nat.mod_lt]
  · have hi := h.le_of_length_le (show b.data.length ≤ i / 8 by omega)
    rw [List.getElem?_eq_none (show b.data.length ≤ i / 8 by omega)]
    simp [hi]

theorem Holds.combine {op : BitVec 8 → BitVec 8 → BitVec 8} {value : Bool → Bool → Bool}
    (h : b.Holds size f) (h' : b'.Holds size g)
    (bitwise : ∀ x y j, (op x y).getLsbD j = value (x.getLsbD j) (y.getLsbD j))
    (padding : value false false = false) :
    ∃ c, b.combine op b' = .ok c ∧ c.Holds size fun i => value (f i) (g i) := by
  have hlen : b.data.length = b'.data.length := h.length.trans h'.length.symm
  have hsize : ¬b.dataSize ≠ b'.dataSize := by simp [h.dataSize, h'.dataSize]
  refine ⟨_, if_neg hsize, h.dataSize, by simp [← hlen, h.length], fun i => ?_⟩
  have old := h.bits i
  have old' := h'.bits i
  simp only [bit, List.getD_eq_getElem?_getD, List.getElem?_zipWith] at old old' ⊢
  rcases lt_or_ge (i / 8) b.data.length with hi | hi
  · rw [List.getElem?_eq_getElem hi, Option.getD_some] at old
    rw [List.getElem?_eq_getElem (hlen ▸ hi), Option.getD_some] at old'
    rw [List.getElem?_eq_getElem hi, List.getElem?_eq_getElem (hlen ▸ hi)]
    simp only [Option.getD_some, bitwise, old, old']
    cases decide (i < size) <;> simp [padding]
  · have := h.le_of_length_le hi
    rw [List.getElem?_eq_none hi]
    simp [this]

theorem Holds.or (h : b.Holds size f) (h' : b'.Holds size g) :
    ∃ c, b.or b' = .ok c ∧ c.Holds size fun i => f i || g i :=
  h.combine h' (fun _ _ _ => BitVec.getLsbD_or) rfl

theorem Holds.and (h : b.Holds size f) (h' : b'.Holds size g) :
    ∃ c, b.and b' = .ok c ∧ c.Holds size fun i => f i && g i :=
  h.combine h' (fun _ _ _ => BitVec.getLsbD_and) rfl

theorem Holds.xor (h : b.Holds size f) (h' : b'.Holds size g) :
    ∃ c, b.xor b' = .ok c ∧ c.Holds size fun i => f i ^^ g i :=
  h.combine h' (fun _ _ _ => BitVec.getLsbD_xor) rfl

theorem Holds.copy (h : b.Holds size f) : b.copy.Holds size f := by
  have same : b.copy = b := by
    have hlen := h.length
    rw [← h.dataSize] at hlen
    rw [Bitset.copy]
    split
    case isTrue empty =>
      rw [empty, List.length_nil] at hlen
      cases b
      simp_all [new]
    case isFalse full => rw [← hlen, List.take_length]; rfl
  rw [same]
  exact h

theorem Holds.not (h : b.Holds size f) (hpos : 0 < size) :
    ∃ b', b.not = .ok b' ∧ b'.Holds size fun i => !f i := h.copy.flip hpos

theorem sum_popcount (data : List (BitVec 8)) :
    (data.map popcount).sum =
      (List.range (8 * data.length)).countP fun i =>
        (data.getD (i / 8) 0#8).getLsbD (i % 8) := by
  induction data with
  | nil => rfl
  | cons byte rest ih =>
      have hlen : 8 * (byte :: rest).length = 8 + 8 * rest.length := by
        simp only [List.length_cons]
        omega
      have later : ∀ i, (8 + i) / 8 = i / 8 + 1 ∧ (8 + i) % 8 = i % 8 := by omega
      rw [hlen, List.range_add, List.countP_append, List.countP_map, List.map_cons,
        List.sum_cons, popcount_eq, ih]
      congr 1
      apply List.countP_congr
      intro i _
      simp [(later i).1, (later i).2]

theorem Holds.count (h : b.Holds size f) : b.count = (List.range size).countP f := by
  obtain ⟨rest, hrest⟩ : ∃ rest, 8 * b.data.length = size + rest := by
    have hlen := h.length
    simp only [allocSize] at hlen
    refine ⟨8 * b.data.length - size, ?_⟩
    split at hlen <;> omega
  have hbits : ∀ i, (b.data.getD (i / 8) 0#8).getLsbD (i % 8) = (decide (i < size) && f i) :=
    h.bits
  have beyond : (List.range rest).countP
      ((fun i => decide (i < size) && f i) ∘ fun i => size + i) = 0 := by
    simp [List.countP_eq_zero]
  rw [Bitset.count, sum_popcount, hrest]
  simp only [hbits]
  rw [List.range_add, List.countP_append, List.countP_map, beyond, Nat.add_zero]
  apply List.countP_congr
  intro i hi
  simp [List.mem_range.1 hi]

theorem foldl_or_eq_zero {data : List (BitVec 8)} {acc : BitVec 8} :
    data.foldl (· ||| ·) acc = 0#8 ↔ acc = 0#8 ∧ ∀ byte ∈ data, byte = 0#8 := by
  induction data generalizing acc with
  | nil => simp
  | cons byte rest ih =>
      simp only [List.foldl_cons, ih, List.forall_mem_cons, BitVec.or_eq_zero_iff, and_assoc]

theorem Holds.any (h : b.Holds size f) : b.any = (List.range size).any f := by
  have clear : b.none = true ↔ ∀ i < size, f i = false := by
    rw [none, beq_iff_eq, foldl_or_eq_zero, and_iff_right rfl]
    constructor
    · intro all i hi
      have hbit := h.bits i
      simp only [bit, List.getD_eq_getElem?_getD] at hbit
      rw [List.getElem?_eq_getElem (h.length ▸ lt_allocSize hi), Option.getD_some,
        all _ (List.getElem_mem _)] at hbit
      simpa [hi] using hbit.symm
    · intro all byte hbyte
      obtain ⟨k, hk, rfl⟩ := List.getElem_of_mem hbyte
      apply BitVec.eq_of_getLsbD_eq
      intro j hj
      have hbit := h.bits (8 * k + j)
      have hdiv : (8 * k + j) / 8 = k := by omega
      have hmod : (8 * k + j) % 8 = j := by omega
      simp only [bit, List.getD_eq_getElem?_getD, hdiv, hmod,
        List.getElem?_eq_getElem hk, Option.getD_some] at hbit
      rw [hbit, BitVec.getLsbD_zero]
      by_cases hi : 8 * k + j < size
      · simp [all _ hi]
      · simp [hi]
  rw [Bool.eq_iff_iff, List.any_eq_true, Bitset.any, Bool.not_eq_true', ← Bool.not_eq_true,
    clear]
  simp

theorem eq_ones_iff {byte : BitVec 8} : byte = 255#8 ↔ ∀ j < 8, byte.getLsbD j = true := by
  revert byte
  decide +kernel

theorem foldl_and_eq_ones {data : List (BitVec 8)} {acc : BitVec 8} :
    data.foldl (· &&& ·) acc = 255#8 ↔ acc = 255#8 ∧ ∀ byte ∈ data, byte = 255#8 := by
  induction data generalizing acc with
  | nil => simp
  | cons byte rest ih =>
      have both : acc &&& byte = 255#8 ↔ acc = 255#8 ∧ byte = 255#8 := BitVec.and_eq_allOnes_iff
      simp only [List.foldl_cons, ih, List.forall_mem_cons, both, and_assoc]

theorem Holds.all (h : b.Holds size f) (hpos : 0 < size) :
    b.all = .ok ((List.range size).all f) := by
  have hdata := h.data_ne_nil hpos
  have split : b.data = b.data.dropLast ++ [b.data.getLast hdata] :=
    (List.dropLast_append_getLast hdata).symm
  generalize b.data.dropLast = front at split
  generalize b.data.getLast hdata = last at split
  have hlen := h.length
  simp only [allocSize, Nat.ne_of_gt hpos, if_false, split, List.length_append,
    List.length_singleton] at hlen
  have early : ∀ i, (hi : i / 8 < front.length) → front[i / 8].getLsbD (i % 8) = f i := by
    intro i hi
    have hbit := h.bits i
    rw [bit, split, List.getD_eq_getElem?_getD, List.getElem?_append_left hi,
      List.getElem?_eq_getElem hi, Option.getD_some] at hbit
    simpa [show i < size by omega] using hbit
  have late : ∀ i, i / 8 = front.length → i < size → last.getLsbD (i % 8) = f i := by
    intro i hi inside
    have hbit := h.bits i
    rw [bit, split, List.getD_eq_getElem?_getD, hi] at hbit
    simpa [inside] using hbit
  have computed : b.all = .ok ((front.foldl (· &&& ·) 255#8 &&&
      (last ||| 255#8 <<< (b.dataSize + 8 - (front ++ [last]).length * 8))) == 255#8) := by
    simp only [Bitset.all, split, List.getLast?_concat, List.dropLast_concat]
  have whole : ∀ j < 8,
      (last ||| 255#8 <<< (b.dataSize + 8 - (front ++ [last]).length * 8)).getLsbD j =
        (last.getLsbD j || decide (size ≤ 8 * front.length + j)) := by
    intro j hj
    rw [BitVec.getLsbD_or, getLsbD_mask_left hj, h.dataSize, List.length_append,
      List.length_singleton]
    congr 1
    rw [decide_eq_decide]
    omega
  -- with the mask, the bits behind the last place count as set
  have both : ∀ x y : BitVec 8, x &&& y = 255#8 ↔ x = 255#8 ∧ y = 255#8 := fun _ _ =>
    BitVec.and_eq_allOnes_iff
  rw [computed]
  congr 1
  rw [Bool.eq_iff_iff, beq_iff_eq, both, foldl_and_eq_ones, and_iff_right rfl, eq_ones_iff,
    List.all_eq_true]
  simp only [List.mem_range]
  constructor
  · rintro ⟨full, tail⟩ i inside
    rcases Nat.lt_or_ge (i / 8) front.length with hi | hi
    · rw [← early i hi, full _ (List.getElem_mem hi)]
      simp [getLsbD_ones, Nat.mod_lt]
    · have hlast : i / 8 = front.length := by omega
      have hbit := tail (i % 8) (Nat.mod_lt i (by decide))
      rw [whole _ (Nat.mod_lt i (by decide)), late i hlast inside] at hbit
      simpa [show ¬size ≤ 8 * front.length + i % 8 by omega] using hbit
  · intro places
    constructor
    · intro byte hbyte
      obtain ⟨k, hk, rfl⟩ := List.getElem_of_mem hbyte
      rw [eq_ones_iff]
      intro j hj
      have hdiv : (8 * k + j) / 8 = k := by omega
      have hmod : (8 * k + j) % 8 = j := by omega
      have hbit := early (8 * k + j) (by rw [hdiv]; exact hk)
      simp only [hdiv, hmod] at hbit
      rw [hbit]
      exact places _ (by omega)
    · intro j hj
      rw [whole j hj]
      rcases Nat.lt_or_ge (8 * front.length + j) size with inside | outside
      · have hdiv : (8 * front.length + j) / 8 = front.length := by omega
        have hmod : (8 * front.length + j) % 8 = j := by omega
        have hbit := late _ hdiv inside
        rw [hmod] at hbit
        rw [hbit, places _ inside, Bool.true_or]
      · simp [outside]

end Bitset

end SimpleSSD
