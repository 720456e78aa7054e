import SimpleSSD.Foundation.Bytes
import SimpleSSD.Util.Def
import SimpleSSD.Util.Disk

/-!
# UFS packets

The packets of `hil/ufs/def.cc` with their `set` and `get`.  A buffer is a memory with a length.
-/

namespace SimpleSSD.HIL.UFS

open SimpleSSD.Foundation

def OPCODE_NOP_OUT : UInt8 := 0x00
def OPCODE_COMMAND : UInt8 := 0x01
def OPCODE_DATA_OUT : UInt8 := 0x02
def OPCODE_QUERY_REQUEST : UInt8 := 0x16
def OPCODE_NOP_IN : UInt8 := 0x20
def OPCODE_RESPONSE : UInt8 := 0x21
def OPCODE_DATA_IN : UInt8 := 0x22
def OPCODE_READY_TO_TRANSFER : UInt8 := 0x31
def OPCODE_QUERY_RESPONSE : UInt8 := 0x36

structure UPIUHeader where
  transactionType : UInt8
  flags : UInt8
  lun : UInt8
  taskTag : UInt8
  commandSetType : UInt8
  function : UInt8
  response : UInt8
  status : UInt8
  ehsLength : UInt8
  deviceInfo : UInt8
  dataSegmentLength : UInt16
  deriving DecidableEq, Repr

namespace UPIUHeader

def zero : UPIUHeader := ⟨0, 0, 0, 0, 0, 0, 0, 0, 0, 0, 0⟩

def set (h : UPIUHeader) (buffer : Memory) (length : Nat) : Bool × UPIUHeader :=
  if 11 < length then
    (true, ⟨buffer 0, buffer 1, buffer 2, buffer 3, buffer 4, buffer 5, buffer 6, buffer 7,
      buffer 8, buffer 9, (buffer 10).toUInt16 <<< 8 ||| (buffer 11).toUInt16⟩)
  else (false, h)

def get (h : UPIUHeader) (buffer : Memory) (length : Nat) : Bool × Memory :=
  if 11 < length then
    (true, store buffer 0 [h.transactionType &&& 0x3F, h.flags, h.lun, h.taskTag,
      h.commandSetType, h.function, h.response, h.status, h.ehsLength, h.deviceInfo,
      (h.dataSegmentLength >>> 8).toUInt8, (h.dataSegmentLength &&& 0xFF).toUInt8])
  else (false, buffer)

/-- The segment with the data, behind a checksum of the header if there is one. -/
def setSegment (h : UPIUHeader) (buffer : Memory) (length : Nat) (data : Option (List UInt8)) :
    Bool × Option (List UInt8) :=
  if 0 < h.dataSegmentLength.toNat then
    let offset := if h.transactionType &&& 0x80 = 0 then 0 else 4
    if 31 + offset + h.dataSegmentLength.toNat < length then
      (true, some (load buffer (32 + offset) h.dataSegmentLength.toNat))
    else (false, data)
  else (true, data)

def getSegment (h : UPIUHeader) (buffer : Memory) (length : Nat) (data : Option (List UInt8)) :
    Except Fault (Bool × Memory) :=
  if 0 < h.dataSegmentLength.toNat then
    if 31 + h.dataSegmentLength.toNat < length then
      match data with
      | none => .error .undefined
      | some data =>
          if h.dataSegmentLength.toNat ≤ data.length then
            .ok (true, store buffer 32 (data.take h.dataSegmentLength.toNat))
          else .error .undefined
    else .ok (false, buffer)
  else .ok (true, buffer)

end UPIUHeader

def loadBE32 (buffer : Memory) (ofs : Nat) : UInt32 := .ofNat (ofBigEndian (load buffer ofs 4))

def storeBE32 (buffer : Memory) (ofs : Nat) (x : UInt32) : Memory :=
  store buffer ofs (bigEndian 4 x.toNat)

structure Query where
  opcode : UInt8
  idn : UInt8
  index : UInt8
  selector : UInt8
  length : UInt16
  val1 : UInt32
  val2 : UInt32
  data : Option (List UInt8)
  deriving DecidableEq, Repr

namespace Query

def set (q : Query) (header : UPIUHeader) (buffer : Memory) (length : Nat) : Bool × Query :=
  let (ret, data) := header.setSegment buffer length q.data
  (ret, ⟨buffer 12, buffer 13, buffer 14, buffer 15,
    (buffer 18).toUInt16 <<< 8 ||| (buffer 19).toUInt16, loadBE32 buffer 20, loadBE32 buffer 24,
    data⟩)

/-- The two bytes behind the selector are left as they are. -/
def get (q : Query) (header : UPIUHeader) (buffer : Memory) (length : Nat) :
    Except Fault (Bool × Memory) :=
  let buffer := store buffer 12 [q.opcode, q.idn, q.index, q.selector]
  let buffer := store buffer 18 [(q.length >>> 8).toUInt8, (q.length &&& 0xFF).toUInt8]
  let buffer := storeBE32 (storeBE32 buffer 20 q.val1) 24 q.val2
  header.getSegment (store buffer 28 (List.replicate 4 0)) length q.data

end Query

structure Transfer where
  offset : UInt32
  count : UInt32
  data : Option (List UInt8)
  deriving DecidableEq, Repr

namespace Transfer

def set (t : Transfer) (header : UPIUHeader) (buffer : Memory) (length : Nat) : Bool × Transfer :=
  let (ret, data) := header.setSegment buffer length t.data
  (ret, ⟨loadBE32 buffer 12, loadBE32 buffer 16, data⟩)

def get (t : Transfer) (header : UPIUHeader) (buffer : Memory) (length : Nat) :
    Except Fault (Bool × Memory) :=
  let buffer := storeBE32 (storeBE32 buffer 12 t.offset) 16 t.count
  header.getSegment (store buffer 20 (List.replicate 12 0)) length t.data

end Transfer

structure Response where
  residualCount : UInt32
  senseLength : UInt16
  senseData : Fin 18 → UInt8

namespace Response

def set (r : Response) (header : UPIUHeader) (buffer : Memory) (length : Nat) :
    Except Fault (Bool × Response) :=
  let r := { r with residualCount := loadBE32 buffer 12 }
  if 0 < header.dataSegmentLength.toNat then
    let offset := if header.transactionType &&& 0x80 = 0 then 0 else 4
    if 31 + offset + header.dataSegmentLength.toNat < length then
      let senseLength := (buffer (32 + offset)).toUInt16 <<< 8 ||| (buffer (33 + offset)).toUInt16
      if senseLength.toNat ≤ 18 ∧ 34 + offset + senseLength.toNat ≤ length then
        .ok (true, { r with
          senseLength
          senseData := fun k =>
            if k.val < senseLength.toNat then buffer (34 + offset + k) else r.senseData k })
      else .error .undefined
    else .ok (false, r)
  else .ok (true, r)

def get (r : Response) (header : UPIUHeader) (buffer : Memory) (length : Nat) :
    Except Fault (Bool × Memory) :=
  let buffer := store (storeBE32 buffer 12 r.residualCount) 16 (List.replicate 16 0)
  if 0 < header.dataSegmentLength.toNat then
    if 31 + header.dataSegmentLength.toNat < length then
      if r.senseLength.toNat ≤ 18 ∧ 34 + r.senseLength.toNat ≤ length then
        .ok (true, store
          (store buffer 32 [(r.senseLength >>> 8).toUInt8, (r.senseLength &&& 0xFF).toUInt8]) 34
          ((List.ofFn r.senseData).take r.senseLength.toNat))
      else .error .undefined
    else .ok (false, buffer)
  else .ok (true, buffer)

end Response

inductive Body where
  | plain
  | command (expectedDataLength : UInt32) (cdb : Fin 16 → UInt8)
  | response (r : Response)
  | queryReq (q : Query)
  | queryResp (q : Query)
  | dataOut (t : Transfer)
  | dataIn (t : Transfer)
  | readyToTransfer (offset count : UInt32)

structure UPIU where
  header : UPIUHeader
  body : Body

namespace UPIU

def accepts (code : UInt8) (buffer : Memory) (length : Nat) : Prop :=
  buffer 0 &&& 0x3F = code ∧ 31 < length

instance (code : UInt8) (buffer : Memory) (length : Nat) :
    Decidable (accepts code buffer length) :=
  inferInstanceAs (Decidable (_ ∧ _))

/-- A packet that is ready for a transfer asks for the opcode of one with data. -/
def set (u : UPIU) (buffer : Memory) (length : Nat) : Except Fault (Bool × UPIU) :=
  let (ret, header) := u.header.set buffer length
  match u.body with
  | .plain => .ok (ret, ⟨header, .plain⟩)
  | .command _ _ =>
      if accepts OPCODE_COMMAND buffer length then
        .ok (ret, ⟨header, .command (loadBE32 buffer 12) (slice buffer 16 16)⟩)
      else .ok (false, u)
  | .response r =>
      if accepts OPCODE_RESPONSE buffer length then
        (r.set header buffer length).map fun (ret, r) => (ret, ⟨header, .response r⟩)
      else .ok (false, u)
  | .queryReq q =>
      if accepts OPCODE_QUERY_REQUEST buffer length then
        let (ret, q) := q.set header buffer length
        .ok (ret, ⟨header, .queryReq q⟩)
      else .ok (false, u)
  | .queryResp q =>
      if accepts OPCODE_QUERY_RESPONSE buffer length then
        let (ret, q) := q.set header buffer length
        .ok (ret, ⟨header, .queryResp q⟩)
      else .ok (false, u)
  | .dataOut t =>
      if accepts OPCODE_DATA_OUT buffer length then
        let (ret, t) := t.set header buffer length
        .ok (ret, ⟨header, .dataOut t⟩)
      else .ok (false, u)
  | .dataIn t =>
      if accepts OPCODE_DATA_IN buffer length then
        let (ret, t) := t.set header buffer length
        .ok (ret, ⟨header, .dataIn t⟩)
      else .ok (false, u)
  | .readyToTransfer _ _ =>
      if accepts OPCODE_DATA_IN buffer length then
        .ok (ret, ⟨header, .readyToTransfer (loadBE32 buffer 12) (loadBE32 buffer 16)⟩)
      else .ok (false, u)

/-- What the classes but the plain one have in common: room for 32 bytes, and the opcode. -/
def getAs (code : UInt8) (u : UPIU) (buffer : Memory) (length : Nat)
    (fields : UPIUHeader → Memory → Except Fault (Bool × Memory)) :
    Except Fault (Bool × Memory × UPIU) :=
  if 31 < length then
    let u := { u with header := { u.header with transactionType := code } }
    (fields u.header (u.header.get buffer length).2).map fun (ret, buffer) => (ret, buffer, u)
  else .ok (false, buffer, u)

def get (u : UPIU) (buffer : Memory) (length : Nat) : Except Fault (Bool × Memory × UPIU) :=
  match u.body with
  | .plain =>
      let (ret, buffer) := u.header.get buffer length
      .ok (ret, buffer, u)
  | .command expectedDataLength cdb => u.getAs OPCODE_COMMAND buffer length fun _ buffer =>
      .ok (true, fill (storeBE32 buffer 12 expectedDataLength) 16 cdb)
  | .response r => u.getAs OPCODE_RESPONSE buffer length fun header buffer =>
      r.get header buffer length
  | .queryReq q => u.getAs OPCODE_QUERY_REQUEST buffer length fun header buffer =>
      q.get header buffer length
  | .queryResp q => u.getAs OPCODE_QUERY_RESPONSE buffer length fun header buffer =>
      q.get header buffer length
  | .dataOut t => u.getAs OPCODE_DATA_OUT buffer length fun header buffer =>
      t.get header buffer length
  | .dataIn t => u.getAs OPCODE_DATA_IN buffer length fun header buffer =>
      t.get header buffer length
  | .readyToTransfer offset count => u.getAs OPCODE_READY_TO_TRANSFER buffer length
      fun _ buffer =>
        .ok (true, store (storeBE32 (storeBE32 buffer 12 offset) 16 count) 20
          (List.replicate 12 0))

end UPIU

def getUPIU (garbage : Query) (code : UInt8) : UPIU :=
  if code = OPCODE_COMMAND then ⟨.zero, .command 0 fun _ => 0⟩
  else if code = OPCODE_DATA_OUT then ⟨.zero, .dataOut ⟨0, 0, none⟩⟩
  else if code = OPCODE_QUERY_REQUEST then ⟨.zero, .queryReq { garbage with data := none }⟩
  else if code = OPCODE_RESPONSE then ⟨.zero, .response ⟨0, 0, fun _ => 0⟩⟩
  else if code = OPCODE_DATA_IN then ⟨.zero, .dataIn ⟨0, 0, none⟩⟩
  else if code = OPCODE_READY_TO_TRANSFER then ⟨.zero, .readyToTransfer 0 0⟩
  else if code = OPCODE_QUERY_RESPONSE then ⟨.zero, .queryResp { garbage with data := none }⟩
  else ⟨{ UPIUHeader.zero with transactionType := code }, .plain⟩

end SimpleSSD.HIL.UFS
