import SimpleSSD.HIL.UFS.UPIU

/-!
# Queries of descriptors

`processQueryCommand` of `hil/ufs/device.cc`, between the parts of `processUTPCommand` of
`hil/ufs/host.cc` that read the request and write the response.
-/

namespace SimpleSSD.HIL.UFS

open SimpleSSD.Foundation

def OPCODE_READ_DESCRIPTOR : UInt8 := 0x01

def IDN_DEVICE : UInt8 := 0x00
def IDN_UNIT : UInt8 := 0x02
def IDN_STRING : UInt8 := 0x05
def IDN_POWER : UInt8 := 0x08

def IDN_STRING_LENGTH : Nat := 0xFE
def IDN_UNIT_LENGTH : Nat := 0x23

def deviceDescriptor : List UInt8 :=
  [0x1F, IDN_DEVICE, 0x00, 0x00, 0x00, 0x00, 0x01, 0x04, 0x01, 0x00, 0x01, 0x7F, 0x00, 0x00, 0x00,
    0x00, 0x10, 0x02, 0x00, 0x00, 0x00, 0x01, 0x02, 0x03, 0x00, 0x00, 0x10, 0x10, 0x02, 0x00, 0x00]

/-- Words of `0x0100`, the low byte first. -/
def powerDescriptor : List UInt8 :=
  [0x62, IDN_POWER] ++ (List.replicate 48 [0x00, 0x01]).flatten

/-- The unit descriptors depend on the configuration, and what is behind the end of a string on the
memory before. -/
structure Descriptors where
  lunReportLuns : Fin IDN_UNIT_LENGTH → UInt8
  lunUFSDevice : Fin IDN_UNIT_LENGTH → UInt8
  lunBoot : Fin IDN_UNIT_LENGTH → UInt8
  lunRPMB : Fin IDN_UNIT_LENGTH → UInt8
  lun : Fin IDN_UNIT_LENGTH → UInt8
  strManufacturer : Fin (IDN_STRING_LENGTH - 2) → UInt8
  strProductName : Fin (IDN_STRING_LENGTH - 2) → UInt8
  strSerialNumber : Fin (IDN_STRING_LENGTH - 2) → UInt8
  strOEMID : Fin (IDN_STRING_LENGTH - 2) → UInt8
  strProductRevision : Fin (IDN_STRING_LENGTH - 2) → UInt8

namespace Descriptors

def unitDescriptor (d : Descriptors) (lun : UInt8) : List UInt8 :=
  if lun = 0x80 ||| 0x01 then List.ofFn d.lunReportLuns
  else if lun = 0x80 ||| 0x50 then List.ofFn d.lunUFSDevice
  else if lun = 0x80 ||| 0x30 then List.ofFn d.lunBoot
  else if lun = 0x80 ||| 0x44 then List.ofFn d.lunRPMB
  else if lun = 0x00 then List.ofFn d.lun
  else List.replicate IDN_UNIT_LENGTH 0

def string (d : Descriptors) (index : UInt8) : List UInt8 :=
  if index = 0 then List.ofFn d.strManufacturer
  else if index = 1 then List.ofFn d.strProductName
  else if index = 2 then List.ofFn d.strSerialNumber
  else if index = 3 then List.ofFn d.strOEMID
  else if index = 4 then List.ofFn d.strProductRevision
  else List.replicate (IDN_STRING_LENGTH - 2) 0

end Descriptors

def answer (req : Query) (header : UPIUHeader) (resp : Query) (bytes : List UInt8) :
    UPIUHeader × Query :=
  ({ header with dataSegmentLength := req.length },
    { resp with
      length := UInt16.ofNat bytes.length
      data := some (bytes.take (min req.length.toNat bytes.length)) })

/-- Two bytes of a string are written even if fewer are asked for. -/
def processQueryCommand (d : Descriptors) (lun : UInt8) (req : Query) (header : UPIUHeader)
    (resp : Query) : Except Fault (UPIUHeader × Query) :=
  let resp := { resp with
    opcode := req.opcode
    idn := req.idn
    index := req.index
    selector := req.selector
    length := req.length }
  if req.opcode = OPCODE_READ_DESCRIPTOR then
    if req.idn = IDN_DEVICE then .ok (answer req header resp deviceDescriptor)
    else if req.idn = IDN_UNIT then .ok (answer req header resp (d.unitDescriptor lun))
    else if req.idn = IDN_POWER then .ok (answer req header resp powerDescriptor)
    else if req.idn = IDN_STRING then
      if req.length.toNat < 2 then .error .undefined
      else .ok (answer req header resp (0xFE :: IDN_STRING :: d.string req.index))
    else .ok (header, resp)
  else .ok (header, resp)

def respond (req resp : UPIU) (sizeUPIUResp : Nat) : Except Fault Memory :=
  (UPIU.get { resp with header := { resp.header with taskTag := req.header.taskTag } }
    (fun _ => 0) sizeUPIUResp).map fun out => out.2.1

/-- A query that is not accepted is processed with what it has. -/
def query (d : Descriptors) (garbage garbage' : Query) (transferReq : Memory)
    (offUPIUResp sizeUPIUResp : Nat) : Except Fault Memory := do
  let (_, req) ← (getUPIU garbage OPCODE_QUERY_REQUEST).set transferReq offUPIUResp
  let resp := getUPIU garbage' OPCODE_QUERY_RESPONSE
  match req.body, resp.body with
  | .queryReq q, .queryResp r =>
      let (header, r) ← processQueryCommand d req.header.lun q resp.header r
      respond req ⟨header, .queryResp r⟩ sizeUPIUResp
  | _, _ => .error .undefined

end SimpleSSD.HIL.UFS
