import SimpleSSD.HIL.UFS.UPIU

/-!
# The format of packets

What `get` writes into a buffer `set` reads again, except from a packet that is ready for a
transfer, and what `set` accepts can be written again.
-/

namespace SimpleSSD.HIL.UFS

open SimpleSSD.Foundation

/-! ## Fields -/

theorem word_bytes (x : UInt16) :
    (x >>> 8).toUInt8.toUInt16 <<< 8 ||| (x &&& 0xFF).toUInt8.toUInt16 = x := by
  apply UInt16.toNat_inj.1
  have word := x.toNat_lt
  have high : x.toNat >>> 8 % 256 = x.toNat / 2 ^ 8 := by
    rw [Nat.shiftRight_eq_div_pow]
    omega
  have top : (x.toNat / 2 ^ 8) <<< 8 % 65536 = (x.toNat / 2 ^ 8) <<< 8 := by
    rw [Nat.shiftLeft_eq]
    omega
  have low : (x.toNat &&& 255) % 256 = x.toNat % 2 ^ 8 := by
    rw [show (255 : Nat) = 2 ^ 8 - 1 from rfl, Nat.and_two_pow_sub_one_eq_mod]
    omega
  simp only [UInt16.toNat_or, UInt16.toNat_shiftLeft, UInt8.toNat_toUInt16, UInt16.toNat_toUInt8,
    UInt16.toNat_shiftRight, UInt16.toNat_and]
  change (x.toNat >>> 8 % 256) <<< 8 % 65536 ||| (x.toNat &&& 255) % 256 = x.toNat
  rw [high, top, low, ← Nat.shiftLeft_add_eq_or_of_lt (Nat.mod_lt _ (by decide)), Nat.shiftLeft_eq]
  omega

theorem loadBE32_storeBE32 (buffer : Memory) (ofs : Nat) (x : UInt32) :
    loadBE32 (storeBE32 buffer ofs x) ofs = x := by
  have four : load (store buffer ofs (bigEndian 4 x.toNat)) ofs (bigEndian 4 x.toNat).length =
      bigEndian 4 x.toNat := load_store_self
  rw [length_bigEndian] at four
  have word : x.toNat % 256 ^ 4 = x.toNat := Nat.mod_eq_of_lt x.toNat_lt
  rw [loadBE32, storeBE32, four, ofBigEndian_bigEndian, word]
  exact UInt32.ofNat_toNat

theorem loadBE32_congr {buffer buffer' : Memory} {ofs : Nat}
    (same : ∀ i, ofs ≤ i → i < ofs + 4 → buffer i = buffer' i) :
    loadBE32 buffer ofs = loadBE32 buffer' ofs := by
  rw [loadBE32, loadBE32, load_congr same]

theorem store_of_lt {buffer : Memory} {ofs i : Nat} {bytes : List UInt8} (before : i < ofs) :
    store buffer ofs bytes i = buffer i := store_of_not_mem (by omega)

theorem storeBE32_of_lt {buffer : Memory} {ofs i : Nat} {x : UInt32} (before : i < ofs) :
    storeBE32 buffer ofs x i = buffer i := store_of_lt before

theorem loadBE32_store {buffer : Memory} {ofs ofs' : Nat} {bytes : List UInt8}
    (behind : ofs + 4 ≤ ofs') : loadBE32 (store buffer ofs' bytes) ofs = loadBE32 buffer ofs :=
  loadBE32_congr fun i _ _ => store_of_lt (by omega)

theorem loadBE32_storeBE32_behind {buffer : Memory} {ofs ofs' : Nat} {x : UInt32}
    (behind : ofs + 4 ≤ ofs') : loadBE32 (storeBE32 buffer ofs' x) ofs = loadBE32 buffer ofs :=
  loadBE32_store behind

/-! ## Headers -/

theorem UPIUHeader.set_get (h h' : UPIUHeader) {buffer bytes : Memory} {length : Nat}
    (room : 11 < length) (same : ∀ i < 12, bytes i = (h.get buffer length).2 i) :
    h'.set bytes length = (true, { h with transactionType := h.transactionType &&& 0x3F }) := by
  have written : ∀ i (inside : i < 12), bytes i = ([h.transactionType &&& 0x3F, h.flags, h.lun,
      h.taskTag, h.commandSetType, h.function, h.response, h.status, h.ehsLength, h.deviceInfo,
      (h.dataSegmentLength >>> 8).toUInt8, (h.dataSegmentLength &&& 0xFF).toUInt8].get
        ⟨i, inside⟩) := by
    intro i inside
    rw [same i inside, get, if_pos room]
    exact store_of_mem ⟨Nat.zero_le i, by simpa using inside⟩
  rw [set, if_pos room, Prod.mk.injEq, UPIUHeader.mk.injEq]
  have length' := word_bytes h.dataSegmentLength
  rw [written 10 (by decide), written 11 (by decide)]
  exact ⟨rfl, written 0 (by decide), written 1 (by decide), written 2 (by decide),
    written 3 (by decide), written 4 (by decide), written 5 (by decide), written 6 (by decide),
    written 7 (by decide), written 8 (by decide), written 9 (by decide), length'⟩

/-- A class writes its fields behind the header if there is room for them, and then they can be
read. -/
structure Readable (span length : Nat) (buffer : Memory) (out : Except Fault (Bool × Memory))
    (again : Memory → Prop) : Prop where
  short : length < span → ∀ bytes, out ≠ .ok (true, bytes)
  long : span ≤ length →
    ∃ bytes, out = .ok (true, bytes) ∧ (∀ i < 12, bytes i = buffer i) ∧ again bytes

theorem Readable.imp {span length : Nat} {buffer : Memory} {out : Except Fault (Bool × Memory)}
    {again later : Memory → Prop} (readable : Readable span length buffer out again)
    (h : span ≤ length → ∀ bytes, again bytes → later bytes) :
    Readable span length buffer out later := by
  refine ⟨readable.short, fun long => ?_⟩
  obtain ⟨bytes, run, front, first⟩ := readable.long long
  exact ⟨bytes, run, front, h long bytes first⟩

/-! ## Segments -/

def Segmented (h : UPIUHeader) (data : Option (List UInt8)) : Prop :=
  data.map List.length =
    if h.dataSegmentLength.toNat = 0 then none else some h.dataSegmentLength.toNat

instance (h : UPIUHeader) (data : Option (List UInt8)) : Decidable (Segmented h data) :=
  inferInstanceAs (Decidable (_ = _))

variable {h : UPIUHeader} {buffer : Memory} {length : Nat}

theorem getSegment_readable (buffer : Memory) {data : Option (List UInt8)}
    (fits : Segmented h data) (room : 32 ≤ length) :
    Readable (32 + h.dataSegmentLength.toNat) length buffer (h.getSegment buffer length data)
      fun bytes => (∀ i < 32, bytes i = buffer i) ∧
        (h.transactionType &&& 0x80 = 0 → h.setSegment bytes length none = (true, data)) := by
  unfold Segmented at fits
  unfold UPIUHeader.getSegment UPIUHeader.setSegment
  rcases Nat.eq_zero_or_pos h.dataSegmentLength.toNat with none | some'
  · rw [if_pos none, Option.map_eq_none_iff] at fits
    rw [if_neg (by omega)]
    refine ⟨fun short => by omega, fun _ => ⟨buffer, rfl, fun _ _ => rfl, fun _ _ => rfl,
      fun _ => ?_⟩⟩
    rw [if_neg (by omega), fits]
  · rw [if_neg some'.ne', Option.map_eq_some_iff] at fits
    obtain ⟨data, rfl, exactly⟩ := fits
    rw [if_pos some']
    constructor
    case short =>
      intro short bytes run
      rw [if_neg (by omega)] at run
      cases run
    case long =>
      intro long
      have long' : 31 + h.dataSegmentLength.toNat < length := by omega
      refine ⟨store buffer 32 data, ?_, fun i inside => store_of_lt (by omega),
        fun i inside => store_of_lt inside, fun bare => ?_⟩
      · rw [if_pos long', ← exactly]
        simp
      · rw [bare, if_pos some']
        simp only [if_true, Nat.add_zero, if_pos long']
        rw [← exactly, load_store_self]

theorem Query.readable {q : Query} (fits : Segmented h q.data) (room : 32 ≤ length) :
    Readable (32 + h.dataSegmentLength.toNat) length buffer (q.get h buffer length)
      fun bytes => h.transactionType &&& 0x80 = 0 →
        ∀ q' : Query, q'.data = none → q'.set h bytes length = (true, q) := by
  obtain ⟨short, long⟩ := getSegment_readable (store (storeBE32 (storeBE32
    (store (store buffer 12 [q.opcode, q.idn, q.index, q.selector]) 18
      [(q.length >>> 8).toUInt8, (q.length &&& 0xFF).toUInt8]) 20 q.val1) 24 q.val2) 28
        (List.replicate 4 0)) fits room
  refine ⟨short, fun fits => ?_⟩
  obtain ⟨bytes, run, -, same, again⟩ := long fits
  refine ⟨bytes, run, fun i inside => ?_, fun bare q' empty => ?_⟩
  · rw [same i (by omega), store_of_lt (by omega), storeBE32_of_lt (by omega),
      storeBE32_of_lt (by omega), store_of_lt (by omega), store_of_lt (by omega)]
  · have val1 : loadBE32 bytes 20 = q.val1 := by
      rw [loadBE32_congr fun i _ _ => same i (by omega), loadBE32_store (by decide),
        loadBE32_storeBE32_behind (by decide), loadBE32_storeBE32]
    have val2 : loadBE32 bytes 24 = q.val2 := by
      rw [loadBE32_congr fun i _ _ => same i (by omega), loadBE32_store (by decide),
        loadBE32_storeBE32]
    have front : ∀ i, 12 ≤ i → i < 20 → bytes i = store (store buffer 12 [q.opcode, q.idn, q.index,
        q.selector]) 18 [(q.length >>> 8).toUInt8, (q.length &&& 0xFF).toUInt8] i := by
      intro i _ _
      rw [same i (by omega), store_of_lt (by omega), storeBE32_of_lt (by omega),
        storeBE32_of_lt (by omega)]
    have b12 : bytes 12 = q.opcode := front 12 (by decide) (by decide)
    have b13 : bytes 13 = q.idn := front 13 (by decide) (by decide)
    have b14 : bytes 14 = q.index := front 14 (by decide) (by decide)
    have b15 : bytes 15 = q.selector := front 15 (by decide) (by decide)
    have b18 : bytes 18 = (q.length >>> 8).toUInt8 := front 18 (by decide) (by decide)
    have b19 : bytes 19 = (q.length &&& 0xFF).toUInt8 := front 19 (by decide) (by decide)
    rw [Query.set, empty, again bare, val1, val2, b12, b13, b14, b15, b18, b19, word_bytes]

theorem Transfer.readable {t : Transfer} (fits : Segmented h t.data) (room : 32 ≤ length) :
    Readable (32 + h.dataSegmentLength.toNat) length buffer (t.get h buffer length)
      fun bytes => h.transactionType &&& 0x80 = 0 →
        ∀ t' : Transfer, t'.data = none → t'.set h bytes length = (true, t) := by
  obtain ⟨short, long⟩ := getSegment_readable (store (storeBE32 (storeBE32 buffer 12
    t.offset) 16 t.count) 20 (List.replicate 12 0)) fits room
  refine ⟨short, fun fits => ?_⟩
  obtain ⟨bytes, run, -, same, again⟩ := long fits
  refine ⟨bytes, run, fun i inside => ?_, fun bare t' empty => ?_⟩
  · rw [same i (by omega), store_of_lt (by omega), storeBE32_of_lt (by omega),
      storeBE32_of_lt (by omega)]
  · have offset : loadBE32 bytes 12 = t.offset := by
      rw [loadBE32_congr fun i _ _ => same i (by omega), loadBE32_store (by decide),
        loadBE32_storeBE32_behind (by decide), loadBE32_storeBE32]
    have count : loadBE32 bytes 16 = t.count := by
      rw [loadBE32_congr fun i _ _ => same i (by omega), loadBE32_store (by decide),
        loadBE32_storeBE32]
    rw [Transfer.set, empty, again bare, offset, count]

structure Sensible (h : UPIUHeader) (r : Response) : Prop where
  none : h.dataSegmentLength.toNat = 0 → r.senseLength = 0
  few : r.senseLength.toNat ≤ 18
  clear : ∀ k : Fin 18, r.senseLength.toNat ≤ k → r.senseData k = 0

def Response.span (h : UPIUHeader) (r : Response) : Nat :=
  if h.dataSegmentLength.toNat = 0 then 32
  else max (32 + h.dataSegmentLength.toNat) (34 + r.senseLength.toNat)

structure Sense (front bytes : Memory) (senseLength : UInt16) (senseData : Fin 18 → UInt8) :
    Prop where
  front : ∀ i < 32, bytes i = front i
  length : (bytes 32).toUInt16 <<< 8 ||| (bytes 33).toUInt16 = senseLength
  data : ∀ k : Fin 18, k < senseLength.toNat → bytes (34 + k) = senseData k

theorem sense_store (front : Memory) (senseLength : UInt16) (senseData : Fin 18 → UInt8) :
    Sense front (store
      (store front 32 [(senseLength >>> 8).toUInt8, (senseLength &&& 0xFF).toUInt8]) 34
      ((List.ofFn senseData).take senseLength.toNat)) senseLength senseData := by
  constructor
  case front =>
    intro i inside
    rw [store_of_lt (by omega), store_of_lt (by omega)]
  case length =>
    have before : ∀ i < 34, store (store front 32 [(senseLength >>> 8).toUInt8,
        (senseLength &&& 0xFF).toUInt8]) 34 ((List.ofFn senseData).take senseLength.toNat) i =
          store front 32 [(senseLength >>> 8).toUInt8, (senseLength &&& 0xFF).toUInt8] i :=
      fun i inside => store_of_lt inside
    rw [before 32 (by decide), before 33 (by decide)]
    exact word_bytes senseLength
  case data =>
    intro k few
    have inside : 34 ≤ 34 + k.val ∧ 34 + k.val < 34 +
        ((List.ofFn senseData).take senseLength.toNat).length := by
      have := k.isLt
      simp
      omega
    rw [store_of_mem inside, List.get_eq_getElem, List.getElem_take, List.getElem_ofFn]
    exact congrArg senseData (Fin.ext (Nat.add_sub_cancel_left 34 k))

theorem Response.readable {r : Response} (sensible : Sensible h r) (room : 32 ≤ length) :
    Readable (r.span h) length buffer (r.get h buffer length)
      fun bytes => h.transactionType &&& 0x80 = 0 →
        (Response.mk 0 0 fun _ => 0).set h bytes length = .ok (true, r) := by
  obtain ⟨residualCount, senseLength, senseData⟩ := r
  obtain ⟨none', few, clear⟩ := sensible
  dsimp only at none' few clear
  have front : ∀ i < 12, store (storeBE32 buffer 12 residualCount) 16 (List.replicate 16 0) i =
      buffer i := fun i inside => by rw [store_of_lt (by omega), storeBE32_of_lt (by omega)]
  have residual : loadBE32 (store (storeBE32 buffer 12 residualCount) 16 (List.replicate 16 0)) 12 =
      residualCount := by rw [loadBE32_store (by decide), loadBE32_storeBE32]
  unfold span get
  dsimp only
  rcases Nat.eq_zero_or_pos h.dataSegmentLength.toNat with none | some'
  · rw [if_pos none, if_neg (by omega)]
    refine ⟨fun short => by omega, fun _ => ⟨_, rfl, front, fun _ => ?_⟩⟩
    have blank : senseData = fun _ => 0 := funext fun k => clear k (by simp [none' none])
    rw [set, if_neg (by omega), residual, none' none, blank]
  · rw [if_neg some'.ne', if_pos some']
    constructor
    case short =>
      intro short bytes run
      split at run
      next =>
        rw [if_neg (by omega)] at run
        cases run
      next => cases run
    case long =>
      intro long
      have segment : 31 + h.dataSegmentLength.toNat < length := by omega
      have fits : 34 + senseLength.toNat ≤ length := by omega
      have sense := sense_store (store (storeBE32 buffer 12 residualCount) 16
        (List.replicate 16 0)) senseLength senseData
      rw [if_pos segment, if_pos ⟨few, fits⟩]
      refine ⟨_, rfl, fun i inside => ?_, fun bare => ?_⟩
      · rw [sense.front i (by omega), front i inside]
      · rw [set, if_pos some', bare]
        simp only [if_true, Nat.add_zero, if_pos segment, sense.length]
        rw [if_pos ⟨few, fits⟩, loadBE32_congr fun i _ _ => sense.front i (by omega), residual]
        have data : (fun k : Fin 18 => if k.val < senseLength.toNat then
            store (store (store (storeBE32 buffer 12 residualCount) 16 (List.replicate 16 0)) 32
              [(senseLength >>> 8).toUInt8, (senseLength &&& 0xFF).toUInt8]) 34
              ((List.ofFn senseData).take senseLength.toNat) (34 + k) else 0) = senseData := by
          funext k
          by_cases inside : k.val < senseLength.toNat
          · rw [if_pos inside, sense.data k inside]
          · rw [if_neg inside, clear k (Nat.le_of_not_lt inside)]
        rw [data]

/-! ## Packets -/

namespace UPIU

def code (u : UPIU) : UInt8 :=
  match u.body with
  | .plain => u.header.transactionType
  | .command _ _ => OPCODE_COMMAND
  | .response _ => OPCODE_RESPONSE
  | .queryReq _ => OPCODE_QUERY_REQUEST
  | .queryResp _ => OPCODE_QUERY_RESPONSE
  | .dataOut _ => OPCODE_DATA_OUT
  | .dataIn _ => OPCODE_DATA_IN
  | .readyToTransfer _ _ => OPCODE_READY_TO_TRANSFER

def codes : List UInt8 :=
  [OPCODE_COMMAND, OPCODE_DATA_OUT, OPCODE_QUERY_REQUEST, OPCODE_RESPONSE, OPCODE_DATA_IN,
    OPCODE_READY_TO_TRANSFER, OPCODE_QUERY_RESPONSE]

def Fits (header : UPIUHeader) : Body → Prop
  | .plain => header.transactionType ∉ codes
  | .command _ _ | .readyToTransfer _ _ => True
  | .response r => Sensible header r
  | .queryReq q | .queryResp q => Segmented header q.data
  | .dataOut t | .dataIn t => Segmented header t.data

structure WellFormed (u : UPIU) : Prop where
  code : u.header.transactionType = u.code
  low : u.code &&& 0x3F = u.code
  fits : Fits u.header u.body

def span (u : UPIU) : Nat :=
  match u.body with
  | .plain => 12
  | .command _ _ | .readyToTransfer _ _ => 32
  | .response r => r.span u.header
  | _ => 32 + u.header.dataSegmentLength.toNat

def bare (u : UPIU) : UPIU :=
  { u with header := { u.header with transactionType := u.header.transactionType &&& 0x3F } }

end UPIU

variable {u : UPIU}

theorem accepts_of_get {code : UInt8} {bytes : Memory} (typed : u.header.transactionType = code)
    (low : code &&& 0x3F = code) (room : 31 < length)
    (same : ∀ i < 12, bytes i = (u.header.get buffer length).2 i) :
    UPIU.accepts code bytes length := by
  refine ⟨?_, room⟩
  have first : (u.header.get buffer length).2 0 = code := by
    rw [UPIUHeader.get, if_pos (by omega), ← low, ← typed]
    rfl
  rw [same 0 (by decide), first, low]

theorem getAs_set {code : UInt8} {fields : UPIUHeader → Memory → Except Fault (Bool × Memory)}
    {span : Nat} {fresh : UPIU} {again : Except Fault (Bool × UPIU)}
    (typed : u.header.transactionType = code) (low : code &&& 0x3F = code) (least : 32 ≤ span)
    (readable : 31 < length → Readable span length (u.header.get buffer length).2
      (fields u.header (u.header.get buffer length).2) fun bytes =>
        UPIU.accepts code bytes length →
          (∀ h, UPIUHeader.set h bytes length = (true, u.header)) →
            fresh.set bytes length = again) :
    (span ≤ length ↔ ∃ bytes u', u.getAs code buffer length fields = .ok (true, bytes, u')) ∧
      ∀ bytes u', u.getAs code buffer length fields = .ok (true, bytes, u') →
        u' = u ∧ fresh.set bytes length = again := by
  have unfolded : u.getAs code buffer length fields = if 31 < length then
      (fields u.header (u.header.get buffer length).2).map fun out => (out.1, out.2, u)
      else .ok (false, buffer, u) := by
    subst typed
    rfl
  rw [unfolded]
  by_cases room : 31 < length
  · rw [if_pos room]
    by_cases fits : span ≤ length
    · obtain ⟨bytes, run, front, later⟩ := (readable room).long fits
      rw [run]
      refine ⟨iff_of_true fits ⟨bytes, u, rfl⟩, fun bytes' u' out => ?_⟩
      cases out
      refine ⟨rfl, later (accepts_of_get typed low room front) fun h => ?_⟩
      rw [UPIUHeader.set_get u.header h (by omega) front, typed, low, ← typed]
    · have never : ∀ bytes u', (fields u.header (u.header.get buffer length).2).map
          (fun out => (out.1, out.2, u)) ≠ .ok (true, bytes, u') := by
        intro bytes u' out
        cases run : fields u.header (u.header.get buffer length).2 with
        | error e =>
            rw [run] at out
            cases out
        | ok pair =>
            rw [run] at out
            obtain ⟨flag, bytes'⟩ := pair
            cases out
            exact (readable room).short (Nat.lt_of_not_le fits) _ run
      exact ⟨iff_of_false fits fun ⟨bytes, u', out⟩ => never bytes u' out,
        fun bytes u' out => absurd out (never bytes u')⟩
  · rw [if_neg room]
    refine ⟨iff_of_false (by omega) ?_, ?_⟩
    · rintro ⟨_, _, out⟩
      cases out
    · intro _ _ out
      cases out

theorem no_checksum {tt : UInt8} (low : tt &&& 0x3F = tt) : tt &&& 0x80 = 0 := by
  rw [← low, UInt8.and_assoc]
  exact UInt8.and_zero

@[simp] theorem getUPIU_queryReq (garbage : Query) : getUPIU garbage OPCODE_QUERY_REQUEST =
    ⟨.zero, .queryReq { garbage with data := none }⟩ := rfl

@[simp] theorem getUPIU_queryResp (garbage : Query) : getUPIU garbage OPCODE_QUERY_RESPONSE =
    ⟨.zero, .queryResp { garbage with data := none }⟩ := rfl

@[simp] theorem getUPIU_dataOut (garbage : Query) :
    getUPIU garbage OPCODE_DATA_OUT = ⟨.zero, .dataOut ⟨0, 0, none⟩⟩ := rfl

@[simp] theorem getUPIU_dataIn (garbage : Query) :
    getUPIU garbage OPCODE_DATA_IN = ⟨.zero, .dataIn ⟨0, 0, none⟩⟩ := rfl

def Again (garbage : Query) (u : UPIU) : Bool × UPIU :=
  match u.body with
  | .readyToTransfer _ _ => (false, getUPIU garbage OPCODE_READY_TO_TRANSFER)
  | _ => (true, u)

theorem get_set (garbage : Query) (wf : u.WellFormed) (buffer : Memory) (length : Nat) :
    (u.span ≤ length ↔ ∃ bytes u', u.get buffer length = .ok (true, bytes, u')) ∧
      ∀ bytes u', u.get buffer length = .ok (true, bytes, u') →
        u' = u ∧ (getUPIU garbage u.code).set bytes length = .ok (Again garbage u) := by
  obtain ⟨header, body⟩ := u
  obtain ⟨typed, low, fits⟩ := wf
  have bare : header.transactionType &&& 0x80 = 0 := no_checksum (typed ▸ low)
  cases body with
  | plain =>
      dsimp only [UPIU.get, UPIU.span, UPIU.code, Again] at typed low ⊢
      have new : getUPIU garbage header.transactionType =
          ⟨{ UPIUHeader.zero with transactionType := header.transactionType }, .plain⟩ := by
        simp only [UPIU.Fits, UPIU.codes, List.mem_cons, List.not_mem_nil, or_false, not_or] at fits
        simp [getUPIU, fits]
      by_cases room : 11 < length
      · have head : ∀ h, UPIUHeader.set h (header.get buffer length).2 length =
            (true, { header with transactionType := header.transactionType &&& 0x3F }) :=
          fun h => UPIUHeader.set_get header h room fun _ _ => rfl
        have run : (header.get buffer length).1 = true := by simp [UPIUHeader.get, room]
        refine ⟨iff_of_true room ⟨_, _, by rw [run]⟩, fun bytes u' out => ?_⟩
        rw [run] at out
        cases out
        exact ⟨rfl, by simp [new, UPIU.set, head, low]⟩
      · have run : (header.get buffer length).1 = false := by simp [UPIUHeader.get, room]
        refine ⟨iff_of_false room ?_, fun bytes u' out => ?_⟩
        · rintro ⟨bytes, u', out⟩
          simp [run] at out
        · simp [run] at out
  | command expectedDataLength cdb =>
      dsimp only [UPIU.get, UPIU.span, UPIU.code, Again] at typed low ⊢
      refine getAs_set typed low le_rfl fun _ => ⟨fun _ => by omega, fun _ => ?_⟩
      refine ⟨_, rfl, fun i inside => ?_, fun accepts head => ?_⟩
      · rw [fill_of_not_mem (by omega), storeBE32_of_lt (by omega)]
      · have data : loadBE32 (fill (storeBE32 (header.get buffer length).2 12 expectedDataLength) 16
            cdb) 12 = expectedDataLength := by
          rw [loadBE32_congr fun i _ _ => fill_of_not_mem (by omega), loadBE32_storeBE32]
        have cdb' : slice (fill (storeBE32 (header.get buffer length).2 12 expectedDataLength) 16
            cdb) 16 16 = cdb := by
          funext k
          have inside : 16 ≤ 16 + k.val ∧ 16 + k.val < 16 + 16 := by omega
          rw [slice, fill_of_mem inside]
          exact congrArg cdb (Fin.ext (Nat.add_sub_cancel_left 16 k))
        simp [getUPIU, UPIU.set, accepts, head, data, cdb']
  | response r =>
      have least : 32 ≤ r.span header := by
        unfold Response.span
        split <;> omega
      dsimp only [UPIU.get, UPIU.span, UPIU.code, Again] at typed low ⊢
      refine getAs_set typed low least fun room => (Response.readable fits room).imp ?_
      intro _ bytes again accepts head
      have new : getUPIU garbage OPCODE_RESPONSE = ⟨.zero, .response ⟨0, 0, fun _ => 0⟩⟩ := rfl
      simp [new, UPIU.set, accepts, head, again bare, Except.map]
  | queryReq q | queryResp q =>
      dsimp only [UPIU.get, UPIU.span, UPIU.code, Again] at typed low ⊢
      refine getAs_set typed low (Nat.le_add_right _ _) fun room =>
        (Query.readable fits room).imp ?_
      intro _ bytes again accepts head
      simp [UPIU.set, accepts, head, again bare]
  | dataOut t | dataIn t =>
      dsimp only [UPIU.get, UPIU.span, UPIU.code, Again] at typed low ⊢
      refine getAs_set typed low (Nat.le_add_right _ _) fun room =>
        (Transfer.readable fits room).imp ?_
      intro _ bytes again accepts head
      simp [UPIU.set, accepts, head, again bare]
  | readyToTransfer offset count =>
      dsimp only [UPIU.get, UPIU.span, UPIU.code, Again] at typed low ⊢
      refine getAs_set typed low le_rfl fun _ => ⟨fun _ => by omega, fun _ => ?_⟩
      refine ⟨_, rfl, fun i inside => ?_, fun accepts head => ?_⟩
      · rw [store_of_lt (by omega), storeBE32_of_lt (by omega), storeBE32_of_lt (by omega)]
      · have other : ¬ UPIU.accepts OPCODE_DATA_IN
            (store (storeBE32 (storeBE32 (header.get buffer length).2 12 offset) 16 count) 20
              (List.replicate 12 0)) length := fun both =>
          absurd (accepts.1.symm.trans both.1) (by decide)
        have new : getUPIU garbage OPCODE_READY_TO_TRANSFER = ⟨.zero, .readyToTransfer 0 0⟩ := rfl
        rw [new, UPIU.set]
        simp only [if_neg other]

/-! ## What is accepted -/

theorem setSegment_fits {data : Option (List UInt8)} (room : 31 < length)
    (run : h.setSegment buffer length none = (true, data)) :
    Segmented h data ∧ 32 + h.dataSegmentLength.toNat ≤ length := by
  unfold UPIUHeader.setSegment at run
  unfold Segmented
  by_cases some' : 0 < h.dataSegmentLength.toNat
  · rw [if_pos some'] at run
    dsimp only at run
    generalize (if h.transactionType &&& 0x80 = 0 then 0 else 4) = offset at run
    split at run
    next long =>
      cases run
      rw [if_neg some'.ne']
      exact ⟨by simp, by omega⟩
    next => cases run
  · rw [if_neg some'] at run
    cases run
    have none : h.dataSegmentLength.toNat = 0 := by omega
    rw [if_pos none]
    exact ⟨rfl, by omega⟩

theorem Response.set_fits {r : Response} (room : 31 < length)
    (run : (Response.mk 0 0 fun _ => 0).set h buffer length = .ok (true, r)) :
    Sensible h r ∧ r.span h ≤ length := by
  unfold Response.set at run
  unfold Response.span
  by_cases some' : 0 < h.dataSegmentLength.toNat
  · rw [if_pos some'] at run
    dsimp only at run
    generalize (if h.transactionType &&& 0x80 = 0 then 0 else 4) = offset at run
    split at run
    next long =>
      split at run
      next fits =>
        cases run
        refine ⟨⟨fun none => absurd none some'.ne', fits.1, fun k above => ?_⟩, ?_⟩
        · exact if_neg (Nat.not_lt.2 above)
        · rw [if_neg some'.ne']
          have both := fits.2
          dsimp only
          omega
      next => cases run
    next => cases run
  · rw [if_neg some'] at run
    cases run
    have none : h.dataSegmentLength.toNat = 0 := by omega
    rw [if_pos none]
    exact ⟨⟨fun _ => rfl, Nat.zero_le _, fun _ _ => rfl⟩, by omega⟩

def Fresh (code : UInt8) (u : UPIU) : Prop :=
  match u.body with
  | .plain => code ∉ UPIU.codes
  | .response r => r = ⟨0, 0, fun _ => 0⟩ ∧ u.code = code
  | .queryReq q | .queryResp q => q.data = none ∧ u.code = code
  | .dataOut t | .dataIn t => t.data = none ∧ u.code = code
  | .command _ _ | .readyToTransfer _ _ => u.code = code

theorem fresh_getUPIU (garbage : Query) (code : UInt8) : Fresh code (getUPIU garbage code) := by
  unfold getUPIU
  split_ifs <;> simp_all [Fresh, UPIU.code, UPIU.codes]

theorem Query.set_fits {q q' : Query} (room : 31 < length) (new : q.data = none)
    (run : q.set h buffer length = (true, q')) :
    Segmented h q'.data ∧ 32 + h.dataSegmentLength.toNat ≤ length := by
  unfold Query.set at run
  cases segment : h.setSegment buffer length q.data with
  | mk ret data =>
      rw [segment] at run
      cases run
      exact setSegment_fits room (new ▸ segment)

theorem Transfer.set_fits {t t' : Transfer} (room : 31 < length) (new : t.data = none)
    (run : t.set h buffer length = (true, t')) :
    Segmented h t'.data ∧ 32 + h.dataSegmentLength.toNat ≤ length := by
  unfold Transfer.set at run
  cases segment : h.setSegment buffer length t.data with
  | mk ret data =>
      rw [segment] at run
      cases run
      exact setSegment_fits room (new ▸ segment)

theorem class_accepted {garbage : Query} {body : Body} {code : UInt8}
    (typed : h.transactionType = buffer 0) (accepts : UPIU.accepts code buffer length)
    (low : code &&& 0x3F = code)
    (same : ∀ h, (UPIU.mk h body).code = code)
    (again : ∀ h, Again garbage (UPIU.mk h body) = (true, UPIU.mk h body))
    (fits : ∀ tt, UPIU.Fits { h with transactionType := tt } body)
    (long : (UPIU.mk h body).span ≤ length) :
    (UPIU.mk h body).bare.WellFormed ∧ (UPIU.mk h body).span ≤ length ∧
      (UPIU.mk h body).bare.code = buffer 0 &&& 0x3F ∧
        Again garbage (UPIU.mk h body).bare = (true, (UPIU.mk h body).bare) := by
  have opcode : h.transactionType &&& 0x3F = code := by rw [typed, accepts.1]
  refine ⟨⟨opcode.trans (same _).symm, ?_, fits _⟩, long, (same _).trans accepts.1.symm, again _⟩
  rw [UPIU.bare, same, low]

theorem set_accepted (garbage : Query) {fresh : UPIU} (new : Fresh (buffer 0 &&& 0x3F) fresh)
    (run : fresh.set buffer length = .ok (true, u)) :
    u.bare.WellFormed ∧ u.span ≤ length ∧ u.bare.code = buffer 0 &&& 0x3F ∧
      Again garbage u.bare = (true, u.bare) := by
  obtain ⟨header, body⟩ := fresh
  have typed : 11 < length → (header.set buffer length).2.transactionType = buffer 0 := by
    intro room
    rw [UPIUHeader.set, if_pos room]
  unfold UPIU.set at run
  cases body with
  | plain =>
      simp only [Except.ok.injEq, Prod.mk.injEq] at run
      obtain ⟨ret, rfl⟩ := run
      have room : 11 < length := by
        by_contra short
        rw [UPIUHeader.set, if_neg short] at ret
        cases ret
      have low : (buffer 0 &&& 0x3F) &&& 0x3F = buffer 0 &&& 0x3F := by
        rw [UInt8.and_assoc]
        rfl
      have opcode : (header.set buffer length).2.transactionType &&& 0x3F = buffer 0 &&& 0x3F := by
        rw [typed room]
      refine ⟨⟨rfl, ?_, ?_⟩, room, opcode, rfl⟩
      · change _ &&& 0x3F &&& 0x3F = _ &&& 0x3F
        rw [opcode, low]
      · change _ &&& 0x3F ∉ UPIU.codes
        rw [opcode]
        exact new
  | command _ _ =>
      dsimp only at run
      split at run
      next both =>
        have room : 31 < length := both.2
        simp only [Except.ok.injEq, Prod.mk.injEq] at run
        obtain ⟨-, rfl⟩ := run
        exact class_accepted (typed (by omega)) both (by decide) (fun _ => rfl) (fun _ => rfl)
          (fun _ => trivial) room
      next => cases run
  | response r =>
      dsimp only at run
      split at run
      next both =>
        have room : 31 < length := both.2
        obtain ⟨rfl, -⟩ := new
        cases out : Response.set ⟨0, 0, fun _ => 0⟩ (header.set buffer length).2 buffer length with
        | error e =>
            rw [out] at run
            cases run
        | ok pair =>
            obtain ⟨ret, r'⟩ := pair
            rw [out] at run
            cases run
            obtain ⟨sensible, long⟩ := Response.set_fits room out
            exact class_accepted (typed (by omega)) both (by decide) (fun _ => rfl) (fun _ => rfl)
              (fun _ => ⟨sensible.none, sensible.few, sensible.clear⟩) long
      next => cases run
  | queryReq q | queryResp q =>
      dsimp only at run
      split at run
      next both =>
        have room : 31 < length := both.2
        simp only [Except.ok.injEq, Prod.mk.injEq] at run
        obtain ⟨ret, rfl⟩ := run
        obtain ⟨fits, long⟩ := Query.set_fits room new.1 (Prod.ext ret rfl)
        exact class_accepted (typed (by omega)) both (by decide) (fun _ => rfl) (fun _ => rfl)
          (fun _ => fits) long
      next => cases run
  | dataOut t | dataIn t =>
      dsimp only at run
      split at run
      next both =>
        have room : 31 < length := both.2
        simp only [Except.ok.injEq, Prod.mk.injEq] at run
        obtain ⟨ret, rfl⟩ := run
        obtain ⟨fits, long⟩ := Transfer.set_fits room new.1 (Prod.ext ret rfl)
        exact class_accepted (typed (by omega)) both (by decide) (fun _ => rfl) (fun _ => rfl)
          (fun _ => fits) long
      next => cases run
  | readyToTransfer offset count =>
      dsimp only at run
      split at run
      next both =>
        have opcode : OPCODE_READY_TO_TRANSFER = OPCODE_DATA_IN := Eq.trans new both.1
        exact absurd opcode (by decide)
      next => cases run

/-! ## Round trips -/

theorem UPIU.bare_span (u : UPIU) : u.bare.span = u.span := by
  obtain ⟨header, body⟩ := u
  cases body <;> rfl

/-- A packet fits in a buffer exactly if `get` succeeds, and what it writes `set` reads as the same
packet, or refuses if the packet is ready for a transfer.  What `set` accepts of a buffer can be
written into any other of the length, and is accepted there. -/
theorem packets_come_back (garbage : Query) (buffer : Memory) (length : Nat) :
    (∀ u : UPIU, u.WellFormed →
      (u.span ≤ length ↔ ∃ bytes u', u.get buffer length = .ok (true, bytes, u')) ∧
        ∀ bytes u', u.get buffer length = .ok (true, bytes, u') →
          u' = u ∧ (getUPIU garbage u.code).set bytes length = .ok (Again garbage u)) ∧
    ∀ source u, (getUPIU garbage (source 0 &&& 0x3F)).set source length = .ok (true, u) →
      ∃ bytes, u.bare.get buffer length = .ok (true, bytes, u.bare) ∧
        (getUPIU garbage (source 0 &&& 0x3F)).set bytes length = .ok (true, u.bare) := by
  refine ⟨fun u wf => get_set garbage wf buffer length, fun source u run => ?_⟩
  obtain ⟨wf, long, same, whole⟩ := set_accepted garbage (fresh_getUPIU garbage _) run
  obtain ⟨fits, again⟩ := get_set garbage wf buffer length
  obtain ⟨bytes, u', out⟩ := fits.1 (u.bare_span ▸ long)
  obtain ⟨rfl, later⟩ := again bytes u' out
  refine ⟨bytes, out, ?_⟩
  rw [← same, later, whole]

end SimpleSSD.HIL.UFS
