import Mathlib.Data.List.Sort
import SimpleSSD.HIL.UFS.Query

/-!
# The UFS host controller

`hil/ufs/host.cc` from the doorbell register to the interrupt.  Each DMA returns when it will, and
so does the device.  When the events are scheduled is left out.
-/

namespace SimpleSSD.HIL.UFS

open SimpleSSD.Foundation

/-! ## Descriptors of requests -/

structure UTPTransferReqDesc where
  data : Fin 32 → UInt8

namespace UTPTransferReqDesc

/-- The words of a descriptor are stored with the low byte first. -/
def word (d : UTPTransferReqDesc) (ofs size : Nat) : Nat :=
  ofBigEndian (((List.ofFn d.data).drop ofs).take size).reverse

def dw0 (d : UTPTransferReqDesc) : Nat := d.word 0 4
def cmdAddress (d : UTPTransferReqDesc) : Nat := d.word 16 4
def cmdAddressUpper (d : UTPTransferReqDesc) : Nat := d.word 20 4
def respUPIULength (d : UTPTransferReqDesc) : Nat := d.word 24 2
def respUPIUOffset (d : UTPTransferReqDesc) : Nat := d.word 26 2
def prdtLength (d : UTPTransferReqDesc) : Nat := d.word 28 2

def ct (d : UTPTransferReqDesc) : Nat := d.dw0 >>> 28
def base (d : UTPTransferReqDesc) : Nat := d.cmdAddressUpper <<< 32 ||| d.cmdAddress
def offUPIUResp (d : UTPTransferReqDesc) : Nat := d.respUPIUOffset * 4
def sizeUPIUResp (d : UTPTransferReqDesc) : Nat := d.respUPIULength * 4

def clearStatus (d : UTPTransferReqDesc) : UTPTransferReqDesc :=
  ⟨fun k => if 8 ≤ k.val ∧ k.val < 12 then 0 else d.data k⟩

end UTPTransferReqDesc

def CMD_SCSI : Nat := 0
def CMD_NATIVE_UFS_COMMAND : Nat := 1
def CMD_DEVICE_MGMT_FUNCTION : Nat := 2

def UTP_TRANSFER_REQ_DESC_SIZE : Nat := 32

/-! ## Commands -/

def CMD_VERIFY_10 : UInt8 := 0x2F

structure Device where
  descriptors : Descriptors
  totalLogicalPages : Nat
  logicalPageSize : Nat

/-- A check that fails leaves sense data in the response. -/
def processCommand (d : Device) (cmd : Nat) (header : UPIUHeader) (cdb : Fin 16 → UInt8)
    (resp : UPIU) : UPIU :=
  let resp := { resp with header := { resp.header with lun := header.lun } }
  let slba := ofBigEndian [cdb 2, cdb 3, cdb 4, cdb 5]
  let nlb := ofBigEndian [cdb 7, cdb 8]
  if cmd = CMD_SCSI ∧ cdb 0 = CMD_VERIFY_10 ∧
      d.totalLogicalPages * d.logicalPageSize < (slba + nlb) % 2 ^ 32 then
    match resp.body with
    | .response r =>
        ⟨{ resp.header with status := 0, dataSegmentLength := 20 },
          .response { r with
            senseLength := 18
            senseData := fun k => if k = 0 then 0x70 else if k = 2 then 0x05
              else if k = 7 then 0x0A else r.senseData k }⟩
    | _ => resp
  else resp

/-! ## Requests in flight -/

inductive Stage where
  | descriptor (start : Nat)
  | command (desc : UTPTransferReqDesc) (transferReq : Option Memory) (prdtDone : Bool)
  | device (desc : UTPTransferReqDesc) (transferReq : Memory) (req resp : UPIU)
  | response (desc : UTPTransferReqDesc) (transferReq transferResp : Memory)
  | descriptorBack (desc : UTPTransferReqDesc) (start : Nat)

structure RequestContext where
  index : Nat
  stage : Stage

structure Completion where
  finishedAt : Nat
  bitmask : BitVec 32

def bit (i : Nat) : BitVec 32 := 1#32 <<< i

def UTP_TRANSFER_REQ_COMPL : BitVec 32 := 1#32

structure Host where
  is : BitVec 32
  utrlba : Nat
  utrldbr : BitVec 32
  pendingInterrupt : BitVec 32
  lRequestQueue : List Nat
  inFlight : List RequestContext
  lResponseQueue : List Completion
  utpCommand : Nat
  memory : Memory

namespace Host

def init (memory : Memory) : Host := ⟨0, 0, 0, 0, [], [], [], 0, memory⟩

/-- The slots whose bit is set and not pending, from the lowest. -/
def processUTPTransfer (h : Host) : Host :=
  (List.range 32).foldl (fun h i =>
    if h.utrldbr.getLsbD i && !h.pendingInterrupt.getLsbD i then
      { h with
        pendingInterrupt := h.pendingInterrupt ||| bit i
        lRequestQueue := h.lRequestQueue ++ [i] }
    else h) h

def handleRequest (h : Host) : Host :=
  match h.lRequestQueue with
  | [] => h
  | i :: rest =>
      { h with
        lRequestQueue := rest
        inFlight := h.inFlight ++
          [⟨i, .descriptor (add64 h.utrlba (UTP_TRANSFER_REQ_DESC_SIZE * i))⟩] }

def done (desc : UTPTransferReqDesc) (transferReq : Memory) (req resp : UPIU) :
    Except Fault Stage := do
  let transferResp ← respond req resp desc.sizeUPIUResp
  .ok (.response desc transferReq transferResp)

def doRequest (d : Device) (garbage garbage' : Query) (desc : UTPTransferReqDesc)
    (transferReq : Memory) : Except Fault Stage := do
  let reqType := transferReq 0 &&& 0x3F
  let (_, req) ← (getUPIU garbage reqType).set transferReq desc.offUPIUResp
  if reqType = OPCODE_NOP_OUT then done desc transferReq req (getUPIU garbage' OPCODE_NOP_IN)
  else
    match req.body with
    | .queryReq q =>
        let (header, r) ← processQueryCommand d.descriptors req.header.lun q .zero
          { garbage' with data := none }
        .ok (.device desc transferReq req ⟨header, .queryResp r⟩)
    | .command _ cdb =>
        .ok (.device desc transferReq req
          (processCommand d desc.ct req.header cdb (getUPIU garbage' OPCODE_RESPONSE)))
    | _ => .error (.panic "Unapplicable UPIU command type")

def processUTPCommand (desc : UTPTransferReqDesc) : Except Fault Stage :=
  if desc.ct = CMD_SCSI ∨ desc.ct = CMD_NATIVE_UFS_COMMAND ∨ desc.ct = CMD_DEVICE_MGMT_FUNCTION then
    .ok (.command desc none (decide (desc.prdtLength = 0)))
  else .error (.panic "Undefined UTP Transfer command type")

def pushCompletion (h : Host) (now index : Nat) : Host :=
  { h with
    lResponseQueue := h.lResponseQueue.orderedInsert
      (fun a b => a.finishedAt ≤ b.finishedAt) ⟨now, bit index⟩
    utpCommand := h.utpCommand + 1 }

/-- The queue has the completions with the least time in front. -/
def completion (h : Host) (tick : Nat) : Host :=
  let finished := h.lResponseQueue.takeWhile fun c => c.finishedAt ≤ tick
  { h with
    utrldbr := finished.foldl (fun r c => r &&& ~~~c.bitmask) h.utrldbr
    pendingInterrupt := finished.foldl (fun r c => r &&& ~~~c.bitmask) h.pendingInterrupt
    lResponseQueue := h.lResponseQueue.dropWhile fun c => c.finishedAt ≤ tick
    is := if finished = [] then h.is else h.is ||| UTP_TRANSFER_REQ_COMPL }

/-- What happens next: a register is written, memory changes, an event fires, or what the request
at a position waits for is there. -/
inductive Action where
  | writeUTRLDBR (data : BitVec 32)
  | writeUTRLBA (data : Nat)
  | writeUTRLBAU (data : Nat)
  | writeIS (data : BitVec 32)
  | store (start : Nat) (bytes : List UInt8)
  | handleRequest
  | descriptorRead (i : Nat)
  | requestRead (i : Nat) (garbage garbage' : Query)
  | prdtRead (i : Nat) (garbage garbage' : Query)
  | processed (i : Nat)
  | responseWritten (i : Nat)
  | descriptorWritten (i now : Nat)
  | completion (tick : Nat)

def advance (h : Host) (i : Nat) (context : RequestContext) (stage : Except Fault Stage) :
    Option Host :=
  stage.toOption.map fun stage =>
    { h with inFlight := h.inFlight.set i { context with stage := stage } }

/-- A DMA of no bytes does not return, nor does a command that is not one of SCSI. -/
def step (d : Device) (h : Host) : Action → Option Host
  | .writeUTRLDBR data => some { h with utrldbr := h.utrldbr ||| data }.processUTPTransfer
  | .writeUTRLBA data =>
      some { h with utrlba := h.utrlba / 2 ^ 32 * 2 ^ 32 + data / 2 ^ 10 * 2 ^ 10 % 2 ^ 32 }
  | .writeUTRLBAU data => some { h with utrlba := h.utrlba % 2 ^ 32 + data % 2 ^ 32 * 2 ^ 32 }
  | .writeIS data => some { h with is := h.is &&& (~~~data &&& 0x30FFF#32) }
  | .store start bytes => some { h with memory := Foundation.store h.memory start bytes }
  | .handleRequest => some h.handleRequest
  | .descriptorRead i =>
      h.inFlight[i]?.bind fun context =>
        match context.stage with
        | .descriptor start => h.advance i context (processUTPCommand ⟨slice h.memory start 32⟩)
        | _ => none
  | .requestRead i garbage garbage' =>
      h.inFlight[i]?.bind fun context =>
        match context.stage with
        | .command desc none prdtDone =>
            if desc.offUPIUResp = 0 then none
            else
              let transferReq := fun k => h.memory (add64 desc.base k)
              h.advance i context (if prdtDone then doRequest d garbage garbage' desc transferReq
                else .ok (.command desc (some transferReq) false))
        | _ => none
  | .prdtRead i garbage garbage' =>
      h.inFlight[i]?.bind fun context =>
        match context.stage with
        | .command desc transferReq false =>
            h.advance i context (match transferReq with
              | some transferReq => doRequest d garbage garbage' desc transferReq
              | none => .ok (.command desc none true))
        | _ => none
  | .processed i =>
      h.inFlight[i]?.bind fun context =>
        match context.stage with
        | .device desc transferReq req resp =>
            if transferReq 0 &&& 0x3F = OPCODE_COMMAND ∧ desc.ct ≠ CMD_SCSI then none
            else h.advance i context (done desc transferReq req resp)
        | _ => none
  | .responseWritten i =>
      h.inFlight[i]?.bind fun context =>
        match context.stage with
        | .response desc _ transferResp =>
            if desc.sizeUPIUResp = 0 then none
            else
              let memory := fill h.memory (add64 desc.base desc.offUPIUResp)
                (slice transferResp 0 desc.sizeUPIUResp)
              { h with memory := memory }.advance i context (.ok (.descriptorBack desc.clearStatus
                (add64 h.utrlba (UTP_TRANSFER_REQ_DESC_SIZE * context.index))))
        | _ => none
  | .descriptorWritten i now =>
      h.inFlight[i]?.bind fun context =>
        match context.stage with
        | .descriptorBack desc start =>
            some ({ h with
              memory := fill h.memory start desc.data
              inFlight := h.inFlight.eraseIdx i }.pushCompletion now context.index)
        | _ => none
  | .completion tick => some (h.completion tick)

end Host

end SimpleSSD.HIL.UFS
