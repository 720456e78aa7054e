import Mathlib.Data.Nat.Bitwise
import SimpleSSD.Foundation.Fallible
import SimpleSSD.Util.Def

/-!
# Base64

`util/b64.cc`, which records the data of requests as text.  Three bytes become four
characters.  The last group is filled up with zeros, and its characters behind the data are
overwritten with padding.
-/

namespace SimpleSSD.B64

open SimpleSSD.Foundation

def B64MAP : List UInt8 :=
  (List.range' 65 26 ++ List.range' 97 26 ++ List.range' 48 10 ++ [43, 47]).map UInt8.ofNat

/-- The table ends behind `z`. -/
def B64UNMAP : List UInt8 :=
  List.replicate 43 255 ++ [62] ++ List.replicate 3 255 ++ [63] ++
    (List.range' 52 10).map UInt8.ofNat ++ List.replicate 7 255 ++
    (List.range' 0 26).map UInt8.ofNat ++ List.replicate 6 255 ++
    (List.range' 26 26).map UInt8.ofNat

/-- `B64_t` from its bytes, the lowest one first. -/
def in32 (in8₀ in8₁ in8₂ : UInt8) : Nat :=
  in8₀.toNat + 256 * in8₁.toNat + 65536 * in8₂.toNat

def in8 (in32 k : Nat) : UInt8 := UInt8.ofNat (in32 >>> (8 * k))

/-! ## Encoding -/

def encodeGroup (in32 : Nat) : List UInt8 :=
  [B64MAP.getD ((in32 &&& 0xFC0000) >>> 18 &&& 0x3F) 0,
    B64MAP.getD ((in32 &&& 0x3F000) >>> 12 &&& 0x3F) 0,
    B64MAP.getD ((in32 &&& 0xFC0) >>> 6 &&& 0x3F) 0,
    B64MAP.getD (in32 &&& 0x3F) 0]

def encodeGroups : Nat → List UInt8 → List UInt8
  | 0, _ => []
  | groups + 1, input =>
      encodeGroup (in32 (input.getD 2 0) (input.getD 1 0) (input.getD 0 0)) ++
        encodeGroups groups (input.drop 3)

def padding : UInt8 := 61

def nPad (isz : Nat) : Nat := if isz % 3 ≠ 0 then 3 - isz % 3 else 0

def encode (input : List UInt8) : List UInt8 :=
  let isz := input.length
  let groups := isz / 3 + if isz % 3 ≠ 0 then 1 else 0
  let osz := (isz + nPad isz) / 3 * 4
  (List.range (nPad isz)).foldl (fun out iPad => out.set (osz - 1 - iPad) padding)
    (encodeGroups groups input)

def oszExpect (isz : Nat) : Nat := (isz + 2) / 3 * 4

def recordData (buffer : List UInt8) : Except Fault (List UInt8) :=
  let obuf := encode buffer
  if obuf.length < oszExpect buffer.length then .error .undefined
  else .ok (obuf.take (oszExpect buffer.length))

/-! ## Decoding -/

def unmap (c : UInt8) : Except Fault Nat :=
  match B64UNMAP[c.toNat]? with
  | none => .error .undefined
  | some v => .ok (v.toNat &&& 0x3F)

def decodeGroup (c₀ c₁ c₂ c₃ : UInt8) : Except Fault (List UInt8) := do
  let in32 := (← unmap c₀) <<< 18
  let in32 := in32 ||| (← unmap c₁) <<< 12
  let in32 := in32 ||| (← unmap c₂) <<< 6
  let in32 := in32 ||| (← unmap c₃)
  .ok [in8 in32 2, in8 in32 1, in8 in32 0]

def decodeGroups : List UInt8 → Except Fault (List UInt8)
  | c₀ :: c₁ :: c₂ :: c₃ :: rest => do
      let group ← decodeGroup c₀ c₁ c₂ c₃
      let later ← decodeGroups rest
      .ok (group ++ later)
  | _ => .ok []

def padsAt (input : List UInt8) (k : Nat) : Except Fault Nat :=
  if input.length < k then .error .undefined
  else .ok (if input[input.length - k]? = some padding then 1 else 0)

def decode (input : List UInt8) : Except Fault (List UInt8) := do
  let out ← decodeGroups input
  let osz := out.length - (← padsAt input 1)
  let osz := osz - (← padsAt input 2)
  .ok (out.take osz)

/-! ## One group -/

def char (v : Nat) : UInt8 := B64MAP.getD v 0

theorem unmap_char : ∀ v < 64, unmap (char v) = .ok v := by decide

theorem unmap_padding : unmap padding = .ok 63 := rfl

theorem char_mem : ∀ v < 64, char v ∈ B64MAP := by decide

theorem padding_not_mem : padding ∉ B64MAP := by decide

theorem char_ne_padding {v : Nat} (small : v < 64) : char v ≠ padding :=
  fun same => padding_not_mem (same ▸ char_mem v small)

theorem sextet (w mask k : Nat) (high : mask >>> k = 63) :
    (w &&& mask) >>> k &&& 0x3F = w / 2 ^ k % 64 := by
  have ones : 0x3F = 2 ^ 6 - 1 := rfl
  rw [Nat.shiftRight_and_distrib, high, Nat.and_assoc, Nat.and_self, ones,
    Nat.and_two_pow_sub_one_eq_mod, Nat.shiftRight_eq_div_pow]

theorem encodeGroup_eq (w : Nat) :
    encodeGroup w = [char (w / 2 ^ 18 % 64), char (w / 2 ^ 12 % 64), char (w / 2 ^ 6 % 64),
      char (w % 64)] := by
  have low := Nat.and_two_pow_sub_one_eq_mod w 6
  rw [encodeGroup, sextet w 0xFC0000 18 rfl, sextet w 0x3F000 12 rfl, sextet w 0xFC0 6 rfl]
  change _ = [_, _, _, char (w % 2 ^ 6)]
  rw [← low]
  rfl

theorem or_eq_add {high low k : Nat} (small : low < 2 ^ k) (div : 2 ^ k ∣ high) :
    high ||| low = high + low := by
  obtain ⟨n, rfl⟩ := div
  rw [Nat.mul_comm, ← Nat.shiftLeft_eq, Nat.shiftLeft_add_eq_or_of_lt small]

theorem decodeGroup_eq {c₀ c₁ c₂ c₃ : UInt8} {s₀ s₁ s₂ s₃ : Nat} (h₀ : unmap c₀ = .ok s₀)
    (h₁ : unmap c₁ = .ok s₁) (h₂ : unmap c₂ = .ok s₂) (h₃ : unmap c₃ = .ok s₃)
    (small₁ : s₁ < 64) (small₂ : s₂ < 64) (small₃ : s₃ < 64) :
    decodeGroup c₀ c₁ c₂ c₃ = .ok [UInt8.ofNat (s₀ * 4 + s₁ / 16),
      UInt8.ofNat ((s₀ * 64 + s₁) * 16 + s₂ / 4),
      UInt8.ofNat (((s₀ * 64 + s₁) * 64 + s₂) * 64 + s₃)] := by
  have high : s₀ * 2 ^ 18 ||| s₁ * 2 ^ 12 = (s₀ * 64 + s₁) * 2 ^ 12 := by
    rw [or_eq_add (k := 18) (by omega) ⟨s₀, by omega⟩]
    omega
  have middle : (s₀ * 64 + s₁) * 2 ^ 12 ||| s₂ * 2 ^ 6 = ((s₀ * 64 + s₁) * 64 + s₂) * 2 ^ 6 := by
    rw [or_eq_add (k := 12) (by omega) ⟨s₀ * 64 + s₁, by omega⟩]
    omega
  have word : ((s₀ <<< 18 ||| s₁ <<< 12) ||| s₂ <<< 6) ||| s₃ =
      ((s₀ * 64 + s₁) * 64 + s₂) * 64 + s₃ := by
    rw [Nat.shiftLeft_eq, Nat.shiftLeft_eq, Nat.shiftLeft_eq, high, middle,
      or_eq_add (k := 6) (by omega) ⟨(s₀ * 64 + s₁) * 64 + s₂, by omega⟩]
    omega
  rw [decodeGroup, h₀, ok_bind, h₁, ok_bind, h₂, ok_bind, h₃, ok_bind]
  dsimp only
  rw [word]
  simp only [in8, Nat.shiftRight_eq_div_pow]
  have first : (((s₀ * 64 + s₁) * 64 + s₂) * 64 + s₃) / 2 ^ (8 * 2) = s₀ * 4 + s₁ / 16 := by
    omega
  have second : (((s₀ * 64 + s₁) * 64 + s₂) * 64 + s₃) / 2 ^ (8 * 1) =
      (s₀ * 64 + s₁) * 16 + s₂ / 4 := by
    omega
  rw [first, second, Nat.mul_zero, pow_zero, Nat.div_one]

theorem ofNat_eq {x : UInt8} {n : Nat} (low : n % 256 = x.toNat) : UInt8.ofNat n = x :=
  UInt8.toNat.inj (UInt8.toNat_ofNat'.trans low)

theorem sextet_lt (v : Nat) : v % 64 < 64 := Nat.mod_lt v (by decide)

theorem decodeGroup_encodeGroup (a b c : UInt8) :
    ∃ c₀ c₁ c₂ c₃, encodeGroup (in32 c b a) = [c₀, c₁, c₂, c₃] ∧
      decodeGroup c₀ c₁ c₂ c₃ = .ok [a, b, c] ∧
      c₀ ∈ B64MAP ∧ c₁ ∈ B64MAP ∧ c₂ ∈ B64MAP ∧ c₃ ∈ B64MAP := by
  have boundA := a.toNat_lt
  have boundB := b.toNat_lt
  have boundC := c.toNat_lt
  refine ⟨_, _, _, _, encodeGroup_eq _, ?_, char_mem _ (sextet_lt _), char_mem _ (sextet_lt _),
    char_mem _ (sextet_lt _), char_mem _ (sextet_lt _)⟩
  rw [decodeGroup_eq (unmap_char _ (sextet_lt _)) (unmap_char _ (sextet_lt _))
    (unmap_char _ (sextet_lt _)) (unmap_char _ (sextet_lt _)) (sextet_lt _) (sextet_lt _)
    (sextet_lt _)]
  unfold in32
  rw [ofNat_eq (x := a) (by omega), ofNat_eq (x := b) (by omega), ofNat_eq (x := c) (by omega)]

/-! ## Texts -/

theorem nPad_le (isz : Nat) : nPad isz ≤ (isz + nPad isz) / 3 * 4 := by
  unfold nPad
  split_ifs <;> omega

theorem pad_append (front : List UInt8) {out : List UInt8} {osz : Nat} {pads : List Nat}
    (inside : ∀ iPad ∈ pads, iPad < osz) :
    pads.foldl (fun out iPad => out.set (front.length + osz - 1 - iPad) padding) (front ++ out) =
      front ++ pads.foldl (fun out iPad => out.set (osz - 1 - iPad) padding) out := by
  induction pads generalizing out with
  | nil => rfl
  | cons iPad pads ih =>
      have here := inside iPad List.mem_cons_self
      have place : front.length + osz - 1 - iPad = front.length + (osz - 1 - iPad) := by omega
      rw [List.foldl_cons, List.foldl_cons, place,
        List.set_append_right (h := Nat.le_add_right _ _), Nat.add_sub_cancel_left,
        ih fun j hj => inside j (List.mem_cons_of_mem iPad hj)]

theorem encode_cons (a b c : UInt8) (rest : List UInt8) :
    encode (a :: b :: c :: rest) = encodeGroup (in32 c b a) ++ encode rest := by
  have length : (a :: b :: c :: rest).length = rest.length + 3 := rfl
  have pad : nPad (rest.length + 3) = nPad rest.length := by
    simp only [nPad, Nat.add_mod_right]
  have groups : (rest.length + 3) / 3 = rest.length / 3 + 1 := by omega
  have osz : (rest.length + 3 + nPad rest.length) / 3 * 4 =
      4 + (rest.length + nPad rest.length) / 3 * 4 := by omega
  unfold encode
  dsimp only
  rw [length, pad, Nat.add_mod_right, groups, osz, Nat.add_right_comm, encodeGroups]
  exact pad_append (encodeGroup (in32 c b a)) fun iPad hi =>
    lt_of_lt_of_le (List.mem_range.1 hi) (nPad_le rest.length)

theorem encode_last {input : List UInt8} {isz : Nat} (length : input.length = isz)
    (one : isz / 3 + (if isz % 3 ≠ 0 then 1 else 0) = 1) (osz : (isz + nPad isz) / 3 * 4 = 4) :
    encode input = (List.range (nPad isz)).foldl (fun out iPad => out.set (3 - iPad) padding)
      (encodeGroup (in32 (input.getD 2 0) (input.getD 1 0) (input.getD 0 0))) := by
  unfold encode
  dsimp only
  rw [length, one, osz, encodeGroups, encodeGroups, List.append_nil]

theorem encode_one (a : UInt8) :
    encode [a] = [char (in32 0 0 a / 2 ^ 18 % 64), char (in32 0 0 a / 2 ^ 12 % 64), padding,
      padding] := by
  have length : [a].length = 1 := rfl
  rw [encode_last length (by decide) (by decide), encodeGroup_eq]
  rfl

theorem encode_two (a b : UInt8) :
    encode [a, b] = [char (in32 0 b a / 2 ^ 18 % 64), char (in32 0 b a / 2 ^ 12 % 64),
      char (in32 0 b a / 2 ^ 6 % 64), padding] := by
  have length : [a, b].length = 2 := rfl
  rw [encode_last length (by decide) (by decide), encodeGroup_eq]
  rfl

theorem length_encode : ∀ input, (encode input).length = oszExpect input.length
  | [] => rfl
  | [a] => by
      rw [encode_one]
      simp [oszExpect]
  | [a, b] => by
      rw [encode_two]
      simp [oszExpect]
  | a :: b :: c :: rest => by
      have group : (encodeGroup (in32 c b a)).length = 4 := rfl
      rw [encode_cons, List.length_append, group, length_encode rest, oszExpect, oszExpect,
        List.length_cons, List.length_cons, List.length_cons]
      omega

theorem encode_chars : ∀ input, ∃ chars pads, encode input = chars ++ List.replicate pads padding ∧
    pads ≤ 2 ∧ ∀ c ∈ chars, c ∈ B64MAP
  | [] => ⟨[], 0, rfl, by decide, by simp⟩
  | [a] => by
      refine ⟨[_, _], 2, encode_one a, le_refl 2, ?_⟩
      intro c hc
      simp only [List.mem_cons, List.not_mem_nil, or_false] at hc
      rcases hc with rfl | rfl <;> exact char_mem _ (sextet_lt _)
  | [a, b] => by
      refine ⟨[_, _, _], 1, encode_two a b, by decide, ?_⟩
      intro c hc
      simp only [List.mem_cons, List.not_mem_nil, or_false] at hc
      rcases hc with rfl | rfl | rfl <;> exact char_mem _ (sextet_lt _)
  | a :: b :: c :: rest => by
      obtain ⟨chars, pads, later, few, alphabet⟩ := encode_chars rest
      obtain ⟨c₀, c₁, c₂, c₃, group, -, in₀, in₁, in₂, in₃⟩ := decodeGroup_encodeGroup a b c
      refine ⟨[c₀, c₁, c₂, c₃] ++ chars, pads, ?_, few, ?_⟩
      · rw [encode_cons, group, later, List.append_assoc]
      · intro d hd
        rcases List.mem_append.1 hd with hd | hd
        · simp only [List.mem_cons, List.not_mem_nil, or_false] at hd
          rcases hd with rfl | rfl | rfl | rfl <;> assumption
        · exact alphabet d hd

/-! ## Decoding a text -/

theorem decode_group {c₀ c₁ c₂ c₃ : UInt8} {group : List UInt8}
    (decoded : decodeGroup c₀ c₁ c₂ c₃ = .ok group) :
    decode [c₀, c₁, c₂, c₃] = .ok (group.take (group.length -
      (if c₃ = padding then 1 else 0) - if c₂ = padding then 1 else 0)) := by
  have groups : decodeGroups [c₀, c₁, c₂, c₃] = .ok group := by
    rw [decodeGroups, decoded, ok_bind, decodeGroups.eq_2 [] (by simp), ok_bind, List.append_nil]
  rw [decode, groups]
  simp [padsAt, ok_bind]

theorem padsAt_append {group input : List UInt8} {k : Nat} (long : k ≤ input.length) :
    padsAt (group ++ input) k = padsAt input k := by
  have here : (group ++ input)[(group ++ input).length - k]? = input[input.length - k]? := by
    rw [List.length_append, List.getElem?_append_right (by omega)]
    congr 1
    omega
  unfold padsAt
  have inside : ¬ (group ++ input).length < k := by
    rw [List.length_append]
    omega
  rw [if_neg inside, if_neg (not_lt.2 long), here]

theorem padsAt_le {input : List UInt8} {k pads : Nat} (h : padsAt input k = .ok pads) :
    pads ≤ 1 := by
  unfold padsAt at h
  split_ifs at h <;> cases h <;> decide

theorem length_decodeGroup {c₀ c₁ c₂ c₃ : UInt8} {group : List UInt8}
    (h : decodeGroup c₀ c₁ c₂ c₃ = .ok group) : group.length = 3 := by
  obtain ⟨_, _, h⟩ := bind_eq_ok.1 h
  obtain ⟨_, _, h⟩ := bind_eq_ok.1 h
  obtain ⟨_, _, h⟩ := bind_eq_ok.1 h
  obtain ⟨_, _, h⟩ := bind_eq_ok.1 h
  cases h
  rfl

theorem decode_cons {c₀ c₁ c₂ c₃ : UInt8} {group input rest : List UInt8}
    (decoded : decodeGroup c₀ c₁ c₂ c₃ = .ok group) (long : 4 ≤ input.length)
    (later : decode input = .ok rest) :
    decode ([c₀, c₁, c₂, c₃] ++ input) = .ok (group ++ rest) := by
  obtain ⟨out, groups, later⟩ := bind_eq_ok.1 later
  obtain ⟨last, hlast, later⟩ := bind_eq_ok.1 later
  obtain ⟨last', hlast', later⟩ := bind_eq_ok.1 later
  have all : decodeGroups ([c₀, c₁, c₂, c₃] ++ input) = .ok (group ++ out) := by
    change decodeGroups (c₀ :: c₁ :: c₂ :: c₃ :: input) = _
    rw [decodeGroups, decoded, ok_bind, groups]
    rfl
  have full : 3 ≤ out.length := by
    match input, long with
    | d₀ :: d₁ :: d₂ :: d₃ :: input, _ =>
        rw [decodeGroups] at groups
        obtain ⟨first, hfirst, groups⟩ := bind_eq_ok.1 groups
        obtain ⟨others, -, groups⟩ := bind_eq_ok.1 groups
        rw [← Except.ok.inj groups, List.length_append, length_decodeGroup hfirst]
        exact Nat.le_add_right 3 _
  have one := padsAt_le hlast
  have one' := padsAt_le hlast'
  have kept : (group ++ out).length - last - last' =
      group.length + (out.length - last - last') := by
    rw [List.length_append]
    omega
  rw [decode, all, ok_bind, padsAt_append (by omega), hlast, ok_bind,
    padsAt_append (by omega), hlast', ok_bind, ← Except.ok.inj later, kept]
  dsimp only
  rw [List.take_append, List.take_of_length_le (by omega), Nat.add_sub_cancel_left]

theorem decode_encode_one (a : UInt8) : decode (encode [a]) = .ok [a] := by
  have bound := a.toNat_lt
  have zero : (0 : UInt8).toNat = 0 := rfl
  rw [encode_one, decode_group (decodeGroup_eq (unmap_char _ (sextet_lt _))
    (unmap_char _ (sextet_lt _)) unmap_padding unmap_padding (sextet_lt _) (by decide) (by decide)),
    ofNat_eq (x := a) (by rw [in32, zero]; omega)]
  rfl

theorem decode_encode_two (a b : UInt8) : decode (encode [a, b]) = .ok [a, b] := by
  have boundA := a.toNat_lt
  have boundB := b.toNat_lt
  have zero : (0 : UInt8).toNat = 0 := rfl
  rw [encode_two, decode_group (decodeGroup_eq (unmap_char _ (sextet_lt _))
    (unmap_char _ (sextet_lt _)) (unmap_char _ (sextet_lt _)) unmap_padding (sextet_lt _)
    (sextet_lt _) (by decide)), if_pos rfl, if_neg (char_ne_padding (sextet_lt _)),
    ofNat_eq (x := a) (by rw [in32, zero]; omega), ofNat_eq (x := b) (by rw [in32, zero]; omega)]
  rfl

theorem decode_encode : ∀ input, input ≠ [] → decode (encode input) = .ok input
  | [], nonempty => absurd rfl nonempty
  | [a], _ => decode_encode_one a
  | [a, b], _ => decode_encode_two a b
  | [a, b, c], _ => by
      obtain ⟨c₀, c₁, c₂, c₃, group, decoded, -, -, in₂, in₃⟩ := decodeGroup_encodeGroup a b c
      have pad₂ : c₂ ≠ padding := fun same => padding_not_mem (same ▸ in₂)
      have pad₃ : c₃ ≠ padding := fun same => padding_not_mem (same ▸ in₃)
      have nothing : encode [] = [] := rfl
      rw [encode_cons, group, nothing, List.append_nil, decode_group decoded, if_neg pad₃,
        if_neg pad₂]
      rfl
  | a :: b :: c :: d :: rest, _ => by
      obtain ⟨c₀, c₁, c₂, c₃, group, decoded, -⟩ := decodeGroup_encodeGroup a b c
      have long : 4 ≤ (encode (d :: rest)).length := by
        rw [length_encode, oszExpect, List.length_cons]
        omega
      rw [encode_cons, group,
        decode_cons decoded long (decode_encode (d :: rest) (List.cons_ne_nil d rest))]
      rfl

theorem recordData_eq (buffer : List UInt8) : recordData buffer = .ok (encode buffer) := by
  have length := length_encode buffer
  unfold recordData
  dsimp only
  rw [if_neg (by omega), List.take_of_length_le (by omega)]

/-- Data that is not empty is read back from its text, which has the length that `req_record`
copies, and consists of characters of the alphabet and of padding behind them. -/
theorem recording_lossless (input : List UInt8) (nonempty : input ≠ []) :
    decode (encode input) = .ok input ∧
      (encode input).length = oszExpect input.length ∧
      recordData input = .ok (encode input) ∧
      ∃ chars pads, encode input = chars ++ List.replicate pads padding ∧ pads ≤ 2 ∧
        ∀ c ∈ chars, c ∈ B64MAP :=
  ⟨decode_encode input nonempty, length_encode input, recordData_eq input, encode_chars input⟩

theorem recording_lossless_two_bytes :
    encode [77, 97] = [84, 87, 69, 61] ∧ decode (encode [77, 97]) = .ok [77, 97] :=
  ⟨by decide, (recording_lossless [77, 97] (by decide)).1⟩

end SimpleSSD.B64
