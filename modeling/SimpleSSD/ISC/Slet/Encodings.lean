import Mathlib.Algebra.Order.Ring.Nat
import SimpleSSD.Foundation.Overlay
import SimpleSSD.ISC.Ext4.DirectoryBlocks

/-!
# What host and device hand to each other

The host puts the extents of all files into one array, with an entry behind those of each file,
and the applications of `isc/slet` take the array apart.  `GrepAPP` puts all lines into one
buffer, which the host goes through in `isc/bench/grep-slet.cc`.
-/

namespace SimpleSSD.ISC

open SimpleSSD.Foundation SimpleSSD.ISC.Ext4

def UINT64_MAX : Nat := 2 ^ 64 - 1

/-! ## Extents -/

structure HostFile where
  size : Nat
  exts : List Ext

/-- `extent_t()`, which stands behind the extents of a file. -/
def sentinel : Ext := ⟨UINT64_MAX, UINT64_MAX, UINT64_MAX⟩

def hostExts (files : List HostFile) : List Ext := files.flatMap fun file => file.exts ++ [sentinel]

/-- `GenericFSA::ExtList`, with an index into the array for the pointer. -/
structure ExtList where
  exts : Nat
  len : Nat
  bytes : Nat
  deriving DecidableEq

def countExts : List Ext → Except Fault Nat
  | [] => .error .undefined
  | e :: rest => if e.block = UINT64_MAX then .ok 0 else (countExts rest).map (· + 1)

def convertExts (exts : List Ext) (fileSizes : List Nat) :
    Nat → Nat → Nat → Except Fault (List ExtList)
  | 0, _, _ => .ok []
  | left + 1, i, ie =>
      match fileSizes[i]?, countExts (exts.drop ie) with
      | some bytes, .ok len =>
          (convertExts exts fileSizes left (i + 1) (ie + len + 1)).map (⟨ie, len, bytes⟩ :: ·)
      | _, _ => .error .undefined

/-- What an application reads through an `ExtList`. -/
def ExtList.file (exts : List Ext) (list : ExtList) : HostFile :=
  ⟨list.bytes, (exts.drop list.exts).take list.len⟩

/-! ## Lines -/

structure Result where
  line : List UInt8
  len_lt : line.length < wordSize

abbrev Result.len (res : Result) : Nat := res.line.length

def ALIGN_UP (num : Nat) : Nat := add64 num 7 / 8 * 8

def szResEntry (res : Result) : Int := Int.bmod (add64 8 (ALIGN_UP res.len)) (2 ^ 32)

/-- The result is put behind the others; `none` if `realloc` fails.  What is not written to
keeps what the memory held before. -/
def addResult (garbage : Nat → UInt8) (bufOut : Buffer) (res : Result) :
    Except Fault (Option Buffer) :=
  let oBufOut := bufOut.size
  let size := ((bufOut.size + szResEntry res) % 2 ^ 64).toNat
  if size = 0 ∨ 2 ^ 63 ≤ size then .ok none
  else if size < oBufOut + 8 + res.len then .error .undefined
  else
    let byte := fun i => if i < bufOut.size then bufOut.byte i else garbage i
    let byte := Foundation.fill byte oBufOut fun k : Fin 8 => leByte (.ofNat res.len) k
    .ok (some ⟨size, Foundation.fill byte (oBufOut + 8) fun k : Fin res.len => res.line.get k⟩)

def pack (garbage : Nat → UInt8) : Buffer → List Result → Except Fault (Option Buffer)
  | bufOut, [] => .ok (some bufOut)
  | bufOut, res :: rest => do
      let added ← addResult garbage bufOut res
      added.elim (.ok none) fun bufOut => pack garbage bufOut rest

def hostBuffer (bufOut : Buffer) : Buffer where
  size := bufOut.size + 1
  byte i := if i < bufOut.size then bufOut.byte i else 0

structure Decoded where
  printed : List (Nat × List UInt8)
  ofs : Nat

/-- One pass of the host's loop, which prints a line as a string. -/
def visitResult (res : Buffer) (s : Decoded) (ofs : Nat) : Except Fault (Hop Decoded) := do
  let len ← res.le ofs 8
  let line ← res.str (res.size + 1) (ofs + 8)
  let next := add64 ofs (add64 8 (ALIGN_UP len))
  .ok (.go ⟨s.printed ++ [(len, line)], next⟩ next)

def decode (bufOut : Buffer) (fuel : Nat) : Option (Except Fault Decoded) :=
  scan bufOut.size (visitResult (hostBuffer bufOut)) fuel ⟨[], 0⟩ 0

/-! ## Extents come back -/

section Extents

variable {files : List HostFile}

theorem countExts_sentinel {exts : List Ext} (rest : List Ext)
    (apart : ∀ e ∈ exts, e.block ≠ UINT64_MAX) :
    countExts (exts ++ sentinel :: rest) = .ok exts.length := by
  induction exts with
  | nil => rfl
  | cons e later ih =>
      rw [List.cons_append, countExts, if_neg (apart e List.mem_cons_self),
        ih fun e he => apart e (List.mem_cons_of_mem _ he)]
      rfl

theorem hostExts_append (before rest : List HostFile) :
    hostExts (before ++ rest) = hostExts before ++ hostExts rest := List.flatMap_append

theorem convertExts_from {before rest : List HostFile} (split : files = before ++ rest)
    (apart : ∀ file ∈ files, ∀ e ∈ file.exts, e.block ≠ UINT64_MAX) :
    ∃ lists, convertExts (hostExts files) (files.map HostFile.size) rest.length before.length
        (hostExts before).length = .ok lists ∧
      lists.map (ExtList.file (hostExts files)) = rest := by
  induction rest generalizing before with
  | nil => exact ⟨[], rfl, rfl⟩
  | cons file later ih =>
      have behind : hostExts files =
          hostExts before ++ (file.exts ++ sentinel :: hostExts later) := by
        rw [split, hostExts_append, hostExts, hostExts, List.flatMap_cons, List.append_assoc]
        rfl
      have drop : (hostExts files).drop (hostExts before).length =
          file.exts ++ sentinel :: hostExts later := by
        rw [behind, List.drop_left]
      have size : (files.map HostFile.size)[before.length]? = some file.size := by
        rw [split, List.map_append, List.getElem?_append_right (by rw [List.length_map]),
          List.length_map, Nat.sub_self]
        rfl
      have next : files = (before ++ [file]) ++ later := by rw [split, List.append_cons]
      have ofs : (hostExts (before ++ [file])).length =
          (hostExts before).length + file.exts.length + 1 := by
        have one : (hostExts [file]).length = file.exts.length + 1 := by simp [hostExts]
        rw [hostExts_append, List.length_append, one, Nat.add_assoc]
      have own : ∀ e ∈ file.exts, e.block ≠ UINT64_MAX := apart file (by rw [split]; simp)
      obtain ⟨lists, run, same⟩ := ih next
      rw [List.length_append, List.length_singleton, ofs] at run
      refine ⟨⟨(hostExts before).length, file.exts.length, file.size⟩ :: lists, ?_, ?_⟩
      · rw [List.length_cons, convertExts, size, drop, countExts_sentinel _ own]
        dsimp only
        rw [run]
        rfl
      · rw [List.map_cons, same, ExtList.file, drop, List.take_left]

end Extents

/-! ## The buffer of results -/

/-- A result with its length, and zeros or what stands in their place, up to a multiple of 8. -/
def entrySize (res : Result) : Nat := 8 + (res.len + 7) / 8 * 8

theorem int_bounds (n : Int) :
    -2147483648 ≤ Int.bmod n (2 ^ 32) ∧ Int.bmod n (2 ^ 32) < 2147483648 := by
  have low := Int.le_bmod (x := n) (m := 4294967296) (by decide)
  have high := Int.bmod_lt (x := n) (m := 4294967296) (by decide)
  constructor
  · exact low
  · exact high

theorem int_of_small {n : Nat} (small : n < 2 ^ 31) : Int.bmod n (2 ^ 32) = n := by
  have same : Int.bmod n 4294967296 = n := by
    apply Int.bmod_eq_of_le
    · omega
    · omega
  exact same

theorem ALIGN_UP_eq {res : Result} (short : res.len < 2 ^ 63) :
    ALIGN_UP res.len = (res.len + 7) / 8 * 8 := by
  have word : wordSize = 2 ^ 64 := rfl
  rw [ALIGN_UP, add64_of_lt]
  omega

theorem entrySize_eq {res : Result} (short : res.len < 2 ^ 63) :
    add64 8 (ALIGN_UP res.len) = entrySize res := by
  have word : wordSize = 2 ^ 64 := rfl
  rw [ALIGN_UP_eq short, add64_of_lt]
  · rfl
  · omega

theorem len_lt_of_small {res : Result} (small : entrySize res < 2 ^ 31) : res.len < 2 ^ 31 := by
  unfold entrySize at small
  omega

theorem szResEntry_eq {res : Result} (small : entrySize res < 2 ^ 31) :
    szResEntry res = entrySize res := by
  have short := len_lt_of_small small
  unfold szResEntry
  rw [entrySize_eq (by omega)]
  exact int_of_small small

theorem small_of_szResEntry {res : Result} (holds : 8 + (res.len : Int) ≤ szResEntry res) :
    entrySize res < 2 ^ 31 := by
  have bounds : -2147483648 ≤ szResEntry res ∧ szResEntry res < 2147483648 := int_bounds _
  have whole : add64 8 (ALIGN_UP res.len) = entrySize res := entrySize_eq (by omega)
  have wrapped : szResEntry res % 4294967296 = (add64 8 (ALIGN_UP res.len) : Int) % 4294967296 :=
    Int.bmod_emod (m := 4294967296)
  rw [whole] at wrapped
  unfold entrySize at wrapped ⊢
  omega

def withResult (garbage : Nat → UInt8) (bufOut : Buffer) (res : Result) : Buffer where
  size := bufOut.size + entrySize res
  byte := Foundation.fill (Foundation.fill
      (fun i => if i < bufOut.size then bufOut.byte i else garbage i) bufOut.size
      fun k : Fin 8 => leByte (.ofNat res.len) k)
    (bufOut.size + 8) fun k : Fin res.len => res.line.get k

theorem addResult_eq_ok_iff {garbage : Nat → UInt8} {bufOut out : Buffer} {res : Result}
    (room : bufOut.size < 2 ^ 63) :
    addResult garbage bufOut res = .ok (some out) ↔ entrySize res < 2 ^ 31 ∧
      bufOut.size + entrySize res < 2 ^ 63 ∧ out = withResult garbage bufOut res := by
  have entry : 8 + res.len ≤ entrySize res := by
    unfold entrySize
    omega
  constructor
  · intro added
    have bounds : -2147483648 ≤ szResEntry res ∧ szResEntry res < 2147483648 := int_bounds _
    unfold addResult at added
    dsimp only at added
    split_ifs at added with failed outside
    · cases added
    have small : entrySize res < 2 ^ 31 := small_of_szResEntry (by omega)
    have grown := szResEntry_eq small
    have size : ((bufOut.size + szResEntry res) % 2 ^ 64).toNat = bufOut.size + entrySize res := by
      rw [grown]
      omega
    rw [size] at added failed
    refine ⟨small, by omega, ?_⟩
    exact (Option.some.inj (Except.ok.inj added)).symm
  · rintro ⟨small, fits, rfl⟩
    have grown := szResEntry_eq small
    have size : ((bufOut.size + szResEntry res) % 2 ^ 64).toNat = bufOut.size + entrySize res := by
      rw [grown]
      omega
    unfold addResult
    dsimp only
    rw [size, if_neg (by omega), if_neg (by omega)]
    rfl

structure RecordAt (garbage : Nat → UInt8) (buf : Buffer) (ofs : Nat) (res : Result)
    (next : Nat) : Prop where
  next_eq : next = ofs + entrySize res
  len : leValue buf.byte ofs 8 = res.len
  line : ∀ k (h : k < res.len), buf.byte (ofs + 8 + k) = res.line[k]
  padding : ∀ i, ofs + 8 + res.len ≤ i → i < next → buf.byte i = garbage i

theorem line_le_entrySize (res : Result) : 8 + res.len ≤ entrySize res := by
  unfold entrySize
  omega

section Packing

variable {garbage : Nat → UInt8} {bufOut out : Buffer} {res : Result} {lines : List Result}
  {ofs next : Nat}

theorem RecordAt.congr (h : RecordAt garbage bufOut ofs res next)
    (same : ∀ i < next, out.byte i = bufOut.byte i) : RecordAt garbage out ofs res next := by
  have inside := line_le_entrySize res
  have next_eq := h.next_eq
  refine ⟨next_eq, ?_, fun k hk => ?_, fun i low high => ?_⟩
  · rw [← h.len]
    exact leValue_congr fun i hi => same _ (by omega)
  · rw [same _ (by omega), h.line k hk]
  · rw [same i high, h.padding i low high]

theorem withResult_before {i : Nat} (h : i < bufOut.size) :
    (withResult garbage bufOut res).byte i = bufOut.byte i := by
  unfold withResult
  dsimp only
  rw [fill_of_not_mem (by omega), fill_of_not_mem (by omega), if_pos h]

theorem withResult_record : RecordAt garbage (withResult garbage bufOut res) bufOut.size res
    (bufOut.size + entrySize res) := by
  refine ⟨rfl, ?_, fun k hk => ?_, fun i low high => ?_⟩
  · have bytes : ∀ i < 8, (withResult garbage bufOut res).byte (bufOut.size + i) =
        .ofNat (res.len / 256 ^ i) := by
      intro i hi
      have word : (UInt64.ofNat res.len).toNat = res.len := by
        rw [UInt64.toNat_ofNat']
        exact Nat.mod_eq_of_lt res.len_lt
      unfold withResult
      dsimp only
      rw [fill_of_not_mem (by omega), fill_of_mem (by omega), leByte, word]
      simp only [Nat.add_sub_cancel_left]
    rw [leValue_of_bytes bytes]
    exact Nat.mod_eq_of_lt res.len_lt
  · unfold withResult
    dsimp only
    rw [fill_of_mem (by omega)]
    simp only [Nat.add_sub_cancel_left, List.get_eq_getElem]
  · unfold withResult
    dsimp only
    rw [fill_of_not_mem (by omega), fill_of_not_mem (by omega), if_neg (by omega)]

theorem pack_cons : pack garbage bufOut (res :: lines) = addResult garbage bufOut res >>=
    fun added => added.elim (.ok none) fun bufOut => pack garbage bufOut lines := rfl

theorem pack_row (room : bufOut.size < 2 ^ 63)
    (packed : pack garbage bufOut lines = .ok (some out)) :
    (∀ res ∈ lines, entrySize res < 2 ^ 31) ∧
      out.size = bufOut.size + (lines.map entrySize).sum ∧ out.size < 2 ^ 63 ∧
      (∀ i < bufOut.size, out.byte i = bufOut.byte i) ∧
      InRow out.size (RecordAt garbage out) bufOut.size lines := by
  induction lines generalizing bufOut with
  | nil =>
      obtain rfl := Option.some.inj (Except.ok.inj packed)
      exact ⟨by simp, by simp, room, fun _ _ => rfl, rfl⟩
  | cons res rest ih =>
      rw [pack_cons, bind_eq_ok] at packed
      obtain ⟨added, adds, packed⟩ := packed
      cases added with
      | none => cases packed
      | some bufOut' =>
          obtain ⟨small, fits, rfl⟩ := (addResult_eq_ok_iff room).1 adds
          obtain ⟨smalls, size, room', same, row⟩ := ih fits packed
          have grown : (withResult garbage bufOut res).size = bufOut.size + entrySize res := rfl
          have some := line_le_entrySize res
          rw [grown] at size same row
          refine ⟨?_, ?_, room', fun i hi => ?_, ?_⟩
          · rw [List.forall_mem_cons]
            exact ⟨small, smalls⟩
          · rw [size, List.map_cons, List.sum_cons, Nat.add_assoc]
          · rw [same i (by omega), withResult_before hi]
          · exact ⟨_, by omega, by omega, withResult_record.congr same, row⟩

theorem pack_total (small : ∀ res ∈ lines, entrySize res < 2 ^ 31)
    (fits : bufOut.size + (lines.map entrySize).sum < 2 ^ 63) :
    ∃ out, pack garbage bufOut lines = .ok (some out) := by
  induction lines generalizing bufOut with
  | nil => exact ⟨bufOut, rfl⟩
  | cons res rest ih =>
      rw [List.map_cons, List.sum_cons] at fits
      have room : bufOut.size < 2 ^ 63 := by omega
      have added : addResult garbage bufOut res = .ok (some (withResult garbage bufOut res)) :=
        (addResult_eq_ok_iff room).2 ⟨small res List.mem_cons_self, by omega, rfl⟩
      have grown : (withResult garbage bufOut res).size = bufOut.size + entrySize res := rfl
      obtain ⟨out, packed⟩ : ∃ out, pack garbage (withResult garbage bufOut res) rest =
          .ok (some out) :=
        ih (fun res hres => small res (List.mem_cons_of_mem _ hres)) (by omega)
      refine ⟨out, ?_⟩
      rw [pack_cons, added, ok_bind]
      exact packed

end Packing

/-! ## The loop of the host -/

namespace Buffer

variable {buf : Buffer} {n ofs : Nat}

theorem str_ends {z : Nat} (nul : buf.byte z = 0) (low : ofs ≤ z) (inside : z < buf.size)
    (room : z < ofs + n) :
    ∃ s, buf.str n ofs = .ok s ∧ 0 ∉ s ∧ buf.byte (ofs + s.length) = 0 := by
  induction n generalizing ofs with
  | zero => omega
  | succ n ih =>
      rw [str, if_pos (by omega)]
      by_cases here : buf.byte ofs = 0
      · exact ⟨[], if_pos here, List.not_mem_nil, here⟩
      · have behind : ofs ≠ z := by
          rintro rfl
          exact here nul
        have lowLater : ofs + 1 ≤ z := by omega
        obtain ⟨s, copied, whole, ends⟩ := ih lowLater (by omega)
        refine ⟨buf.byte ofs :: s, ?_, ?_, ?_⟩
        · rw [if_neg here, copied]
          rfl
        · rw [List.mem_cons, not_or]
          exact ⟨Ne.symm here, whole⟩
        · rw [List.length_cons, Nat.add_comm s.length, ← Nat.add_assoc]
          exact ends

theorem str_eq {s : List UInt8} (whole : 0 ∉ s)
    (held : ∀ k (h : k < s.length), buf.byte (ofs + k) = s[k])
    (ends : buf.byte (ofs + s.length) = 0) (inside : ofs + s.length < buf.size)
    (room : s.length < n) : buf.str n ofs = .ok s := by
  induction s generalizing n ofs with
  | nil =>
      obtain ⟨n, rfl⟩ := Nat.exists_eq_succ_of_ne_zero (Nat.ne_of_gt room)
      rw [List.length_nil, Nat.add_zero] at inside ends
      rw [str, if_pos inside, if_pos ends]
  | cons c rest ih =>
      obtain ⟨n, rfl⟩ := Nat.exists_eq_succ_of_ne_zero (Nat.ne_of_gt (Nat.zero_lt_of_lt room))
      rw [List.mem_cons, not_or] at whole
      rw [List.length_cons] at inside ends room
      have here : buf.byte ofs = c := held 0 (Nat.succ_pos _)
      have later : ∀ k (h : k < rest.length), buf.byte (ofs + 1 + k) = rest[k] := by
        intro k hk
        rw [Nat.add_assoc, Nat.add_comm 1]
        exact held (k + 1) (Nat.succ_lt_succ hk)
      have copied : buf.str n (ofs + 1) = .ok rest := by
        apply ih whole.2 later
        · rwa [Nat.add_assoc, Nat.add_comm 1]
        · omega
        · omega
      rw [str, if_pos (by omega), here, if_neg (Ne.symm whole.1), copied]
      rfl

end Buffer

def textAt (bufOut : Buffer) (ofs : Nat) : List UInt8 :=
  match (hostBuffer bufOut).str (bufOut.size + 2) (ofs + 8) with
  | .ok line => line
  | .error _ => []

def texts (bufOut : Buffer) : Nat → List Result → List (Nat × List UInt8)
  | _, [] => []
  | ofs, res :: rest => (res.len, textAt bufOut ofs) :: texts bufOut (ofs + entrySize res) rest

section Decoding

variable {garbage : Nat → UInt8} {bufOut : Buffer} {res : Result} {lines : List Result}
  {ofs next : Nat}

theorem str_textAt (inside : ofs + 8 ≤ bufOut.size) :
    (hostBuffer bufOut).str (bufOut.size + 2) (ofs + 8) = .ok (textAt bufOut ofs) ∧
      0 ∉ textAt bufOut ofs ∧
      (hostBuffer bufOut).byte (ofs + 8 + (textAt bufOut ofs).length) = 0 := by
  have nul : (hostBuffer bufOut).byte bufOut.size = 0 := if_neg (lt_irrefl _)
  obtain ⟨s, copied, whole, ends⟩ := Buffer.str_ends nul inside (n := bufOut.size + 2)
    (Nat.lt_succ_self _) (by omega)
  rw [textAt, copied]
  exact ⟨rfl, whole, ends⟩

theorem visitResult_eq (record : RecordAt garbage bufOut ofs res next)
    (small : entrySize res < 2 ^ 31) (inside : next ≤ bufOut.size) (room : bufOut.size < 2 ^ 63)
    (printed : List (Nat × List UInt8)) :
    visitResult (hostBuffer bufOut) ⟨printed, ofs⟩ ofs =
      .ok (.go ⟨printed ++ [(res.len, textAt bufOut ofs)], next⟩ next) := by
  have word : wordSize = 2 ^ 64 := rfl
  have next_eq := record.next_eq
  have entry := line_le_entrySize res
  have short := len_lt_of_small small
  have len : leValue (hostBuffer bufOut).byte ofs 8 = res.len := by
    rw [← record.len]
    exact leValue_congr fun i hi => if_pos (by omega)
  have within : ofs + 8 ≤ (hostBuffer bufOut).size := by
    unfold hostBuffer
    dsimp only
    omega
  have text : (hostBuffer bufOut).str ((hostBuffer bufOut).size + 1) (ofs + 8) =
      .ok (textAt bufOut ofs) := (str_textAt (by omega)).1
  unfold visitResult
  rw [Buffer.le_of_inside within, ok_bind, text, ok_bind, len, entrySize_eq (by omega),
    add64_of_lt (by omega), ← next_eq]

theorem scan_texts (row : InRow bufOut.size (RecordAt garbage bufOut) ofs lines)
    (small : ∀ res ∈ lines, entrySize res < 2 ^ 31) (room : bufOut.size < 2 ^ 63)
    (printed : List (Nat × List UInt8)) :
    scan bufOut.size (visitResult (hostBuffer bufOut)) (lines.length + 1) ⟨printed, ofs⟩ ofs =
      some (.ok ⟨printed ++ texts bufOut ofs lines, bufOut.size⟩) := by
  induction lines generalizing ofs printed with
  | nil =>
      obtain rfl : ofs = bufOut.size := row
      rw [scan, if_neg (lt_irrefl _), texts, List.append_nil]
  | cons res rest ih =>
      obtain ⟨next, lt, le, record, later⟩ := row
      have rest := ih later (fun res hres => small res (List.mem_cons_of_mem _ hres))
        (printed ++ [(res.len, textAt bufOut ofs)])
      rw [List.length_cons, scan, if_pos (by omega),
        visitResult_eq record (small res List.mem_cons_self) le room]
      dsimp only
      rw [rest, List.append_assoc, texts, record.next_eq]
      rfl

/-- A zero stands behind a line: in the place of its padding, or else in what follows. -/
def NulBehind (garbage : Nat → UInt8) (ofs : Nat) (res : Result) (rest : List Result) : Prop :=
  if res.len % 8 = 0 then ∀ next ∈ rest.head?, next.len % 256 = 0
  else garbage (ofs + 8 + res.len) = 0

def Closed (garbage : Nat → UInt8) : Nat → List Result → Prop
  | _, [] => True
  | ofs, res :: rest => (0 ∉ res.line ∧ NulBehind garbage ofs res rest) ∧
      Closed garbage (ofs + entrySize res) rest

theorem nulBehind_iff (record : RecordAt garbage bufOut ofs res next)
    (later : InRow bufOut.size (RecordAt garbage bufOut) next lines) (le : next ≤ bufOut.size) :
    (hostBuffer bufOut).byte (ofs + 8 + res.len) = 0 ↔ NulBehind garbage ofs res lines := by
  have next_eq := record.next_eq
  unfold NulBehind
  split_ifs with whole
  · have here : ofs + 8 + res.len = next := by
      rw [next_eq, entrySize]
      omega
    rw [here]
    cases lines with
    | nil =>
        obtain rfl : next = bufOut.size := later
        exact iff_of_true (if_neg (lt_irrefl _)) (by simp)
    | cons other rest =>
        obtain ⟨behind, lt, le', other_at, -⟩ := later
        have low := other_at.len
        rw [leValue] at low
        have first : (bufOut.byte next).toNat = other.len % 256 := by
          have bound := (bufOut.byte next).toNat_lt
          omega
        have byte : (hostBuffer bufOut).byte next = bufOut.byte next := if_pos (by omega)
        simp only [List.head?_cons, Option.mem_def, Option.some.injEq, forall_eq']
        rw [byte, ← UInt8.toNat_inj, first]
        rfl
  · have inside : ofs + 8 + res.len < next := by
      rw [next_eq, entrySize]
      omega
    have byte : (hostBuffer bufOut).byte (ofs + 8 + res.len) = garbage (ofs + 8 + res.len) :=
      (if_pos (by omega)).trans (record.padding _ le_rfl inside)
    rw [byte]

theorem textAt_eq_iff (record : RecordAt garbage bufOut ofs res next)
    (later : InRow bufOut.size (RecordAt garbage bufOut) next lines) (le : next ≤ bufOut.size) :
    textAt bufOut ofs = res.line ↔ 0 ∉ res.line ∧ NulBehind garbage ofs res lines := by
  have next_eq := record.next_eq
  have entry := line_le_entrySize res
  obtain ⟨copied, whole, ends⟩ : (hostBuffer bufOut).str (bufOut.size + 2) (ofs + 8) =
      .ok (textAt bufOut ofs) ∧ _ := str_textAt (by omega)
  rw [← nulBehind_iff record later le]
  constructor
  · intro same
    rw [same] at whole ends
    exact ⟨whole, ends⟩
  · rintro ⟨string, nul⟩
    have len : res.len = res.line.length := rfl
    have size : (hostBuffer bufOut).size = bufOut.size + 1 := rfl
    have held : ∀ k (h : k < res.line.length),
        (hostBuffer bufOut).byte (ofs + 8 + k) = res.line[k] := fun k hk =>
      (if_pos (by omega)).trans (record.line k hk)
    have within : ofs + 8 + res.line.length < (hostBuffer bufOut).size := by omega
    have string := Buffer.str_eq string held nul within (n := bufOut.size + 2) (by omega)
    exact Except.ok.inj (copied.symm.trans string)

theorem texts_eq_iff (row : InRow bufOut.size (RecordAt garbage bufOut) ofs lines) :
    texts bufOut ofs lines = lines.map (fun res => (res.len, res.line)) ↔
      Closed garbage ofs lines := by
  induction lines generalizing ofs with
  | nil => exact iff_of_true rfl trivial
  | cons res rest ih =>
      obtain ⟨next, lt, le, record, later⟩ := row
      have rest := ih later
      rw [record.next_eq] at rest
      rw [texts, List.map_cons, List.cons.injEq, Prod.mk.injEq, rest, Closed,
        textAt_eq_iff record later le]
      simp

end Decoding

/-! ## Both encodings -/

def Decodes (garbage : Nat → UInt8) (lines : List Result) : Prop :=
  ∃ bufOut fuel, pack garbage ⟨0, garbage⟩ lines = .ok (some bufOut) ∧
    decode bufOut fuel =
      some (.ok ⟨lines.map fun res => (res.len, res.line), bufOut.size⟩)

def Packs (garbage : Nat → UInt8) (lines : List Result) : Prop :=
  ∃ bufOut, pack garbage ⟨0, garbage⟩ lines = .ok (some bufOut) ∧
    InRow bufOut.size (RecordAt garbage bufOut) 0 lines

/-- The sizes that `GrepAPP` works with hold the lines. -/
def Sized (lines : List Result) : Prop :=
  (∀ res ∈ lines, entrySize res < 2 ^ 31) ∧ (lines.map entrySize).sum < 2 ^ 63

theorem packs_iff (garbage : Nat → UInt8) (lines : List Result) :
    Packs garbage lines ↔ Sized lines := by
  have room : (Buffer.mk 0 garbage).size < 2 ^ 63 := Nat.two_pow_pos 63
  constructor
  · rintro ⟨bufOut, packed, -⟩
    obtain ⟨small, size, fits, -⟩ := pack_row room packed
    rw [size, Nat.zero_add] at fits
    exact ⟨small, fits⟩
  · rintro ⟨small, fits⟩
    obtain ⟨bufOut, packed⟩ : ∃ out, pack garbage ⟨0, garbage⟩ lines = .ok (some out) :=
      pack_total small (by rwa [Nat.zero_add])
    obtain ⟨-, -, -, -, row⟩ := pack_row room packed
    exact ⟨bufOut, packed, row⟩

theorem decodes_closed_iff (garbage : Nat → UInt8) (lines : List Result) :
    Decodes garbage lines ↔ Sized lines ∧ Closed garbage 0 lines := by
  have room : (Buffer.mk 0 garbage).size < 2 ^ 63 := Nat.two_pow_pos 63
  constructor
  · rintro ⟨bufOut, fuel, packed, decoded⟩
    obtain ⟨small, size, fits, -, row⟩ := pack_row room packed
    have same := scan_agree decoded (scan_texts row small fits [])
    rw [Except.ok.injEq, Decoded.mk.injEq, List.nil_append] at same
    rw [size, Nat.zero_add] at fits
    exact ⟨⟨small, fits⟩, (texts_eq_iff row).1 same.1.symm⟩
  · rintro ⟨sized, closed⟩
    obtain ⟨bufOut, packed, -⟩ := (packs_iff garbage lines).2 sized
    obtain ⟨small, -, fits, -, row⟩ := pack_row room packed
    have decoded := scan_texts row small fits []
    rw [(texts_eq_iff row).2 closed, List.nil_append] at decoded
    exact ⟨bufOut, _, packed, decoded⟩

/-- The applications get the extents of each file back.  `GrepAPP` puts each line where the host
looks for it, if the sizes hold them, and the host prints the lines themselves if in addition
a zero stands behind each, and none inside. -/
theorem encodings_invert_iff (files : List HostFile)
    (apart : ∀ file ∈ files, ∀ e ∈ file.exts, e.block ≠ UINT64_MAX) (garbage : Nat → UInt8)
    (lines : List Result) :
    (∃ lists, convertExts (hostExts files) (files.map HostFile.size) files.length 0 0 = .ok lists ∧
      lists.map (ExtList.file (hostExts files)) = files) ∧
    (Packs garbage lines ↔ Sized lines) ∧
    (Decodes garbage lines ↔ Sized lines ∧ Closed garbage 0 lines) :=
  ⟨convertExts_from (List.nil_append files).symm apart, packs_iff garbage lines,
    decodes_closed_iff garbage lines⟩

def twoLines : List Result :=
  [⟨List.replicate 8 65, by decide⟩, ⟨List.replicate 5 66, by decide⟩]

/-- The first line is printed with the length of the second behind it, whatever the memory held
before. -/
theorem not_decodes_twoLines : ¬ ∃ garbage, Decodes garbage twoLines := by
  rintro ⟨garbage, decodes⟩
  have nul := ((decodes_closed_iff garbage twoLines).1 decodes).2.1.2
  rw [NulBehind, if_pos (by decide)] at nul
  exact absurd (nul _ rfl) (by decide)

theorem encodings_invert_iff_small :
    (∃ lists, convertExts (hostExts [⟨5000, [⟨0, 7, 2⟩]⟩, ⟨0, []⟩])
        [5000, 0] 2 0 0 = .ok lists ∧
      lists.map (ExtList.file (hostExts [⟨5000, [⟨0, 7, 2⟩]⟩, ⟨0, []⟩])) =
        [⟨5000, [⟨0, 7, 2⟩]⟩, ⟨0, []⟩]) ∧
    Decodes (fun _ => 0) [⟨List.replicate 5 66, by decide⟩] := by
  have inverts := encodings_invert_iff [⟨5000, [⟨0, 7, 2⟩]⟩, ⟨0, []⟩] (by decide) (fun _ => 0)
    [⟨List.replicate 5 66, by decide⟩]
  have small : 16 < 2 ^ 31 := by decide
  have fits : 16 < 2 ^ 63 := by decide
  refine ⟨inverts.1, inverts.2.2.2 ⟨⟨fun res hres => ?_, fits⟩, ⟨by decide, ?_⟩, trivial⟩⟩
  · obtain rfl := List.mem_singleton.1 hres
    exact small
  · rw [NulBehind, if_neg (by decide)]

end SimpleSSD.ISC
