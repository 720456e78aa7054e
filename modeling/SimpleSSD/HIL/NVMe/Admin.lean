import SimpleSSD.HIL.NVMe.CommandSizes
import SimpleSSD.HIL.NVMe.Interrupt
import SimpleSSD.HIL.NVMe.QueueCommands
import SimpleSSD.HIL.NVMe.Transfer

/-!
# Admin commands

`Subsystem::submitCommand` for the entries of the admin queue, and the handlers behind it.
A handler answers at once or leaves something pending that answers when it calls back; a
command that no handler takes is handed to a namespace.
-/

namespace SimpleSSD.HIL.NVMe

open SimpleSSD.Foundation

structure AdminCommand where
  opcode : UInt8
  useSGL : Bool
  namespaceID : UInt32
  data1 : UInt64
  data2 : UInt64
  dword10 : UInt32
  dword11 : UInt32
  dword12 : UInt32
  dword13 : UInt32
  deriving DecidableEq, Repr

inductive AdminOpcode where
  | deleteIOSQueue
  | createIOSQueue
  | getLogPage
  | deleteIOCQueue
  | createIOCQueue
  | identify
  | abort
  | setFeatures
  | getFeatures
  | asyncEventReq
  | namespaceManagement
  | namespaceAttachment
  | formatNVM
  deriving DecidableEq, Repr

def AdminOpcode.ofCode : Nat → Option AdminOpcode
  | 0x00 => some .deleteIOSQueue
  | 0x01 => some .createIOSQueue
  | 0x02 => some .getLogPage
  | 0x04 => some .deleteIOCQueue
  | 0x05 => some .createIOCQueue
  | 0x06 => some .identify
  | 0x08 => some .abort
  | 0x09 => some .setFeatures
  | 0x0A => some .getFeatures
  | 0x0C => some .asyncEventReq
  | 0x0D => some .namespaceManagement
  | 0x15 => some .namespaceAttachment
  | 0x80 => some .formatNVM
  | _ => none

def TYPE_GENERIC_COMMAND_STATUS : Nat := 0
def TYPE_COMMAND_SPECIFIC_STATUS : Nat := 1

def STATUS_INVALID_OPCODE : Nat := 0x01
def STATUS_INVALID_FIELD : Nat := 0x02
def STATUS_ABORT_INVALID_NAMESPACE : Nat := 0x0B
def STATUS_ABORT_INVALID_FORMAT : Nat := 0x0B

def STATUS_INVALID_QUEUE_ID : Nat := 0x01
def STATUS_INVALID_QUEUE_SIZE : Nat := 0x02
def STATUS_INVALID_LOG_PAGE : Nat := 0x09
def STATUS_INVALID_FORMAT : Nat := 0x0A
def STATUS_INVALID_QUEUE_DELETE : Nat := 0x0C
def STATUS_FEATURE_ID_NOT_SAVEABLE : Nat := 0x0D
def STATUS_NAMESPACE_INSUFFICIENT_CAPACITY : Nat := 0x15
def STATUS_NAMESPACE_ID_UNAVAILABLE : Nat := 0x16
def STATUS_NAMESPACE_ALREADY_ATTACHED : Nat := 0x18
def STATUS_NAMESPACE_IS_PRIVATE : Nat := 0x19
def STATUS_CONTROLLER_LIST_INVALID : Nat := 0x1C

structure Response where
  dword0 : Nat
  status : Nat
  deriving DecidableEq, Repr

namespace Response

def success : Response := ⟨0, STATUS_SUCCESS⟩

def makeStatus (dnr : Bool) (sct sc : Nat) (resp : Response) : Response :=
  { resp with status := NVMe.makeStatus dnr false sct sc }

def IsError (resp : Response) : Prop := resp.status &&& 0x0FFE ≠ 0

instance (resp : Response) : Decidable resp.IsError := inferInstanceAs (Decidable (_ ≠ _))

end Response

structure AdminState where
  controller : Controller
  running : controller.fault = none
  subsystem : Subsystem
  aggregationTime : Nat
  aggregationThreshold : Nat
  aggregationMap : AggregationMap
  queueAllocated : Nat

/-- The configuration, the host memory and what the host has put into the buffer of the
command. -/
structure Surroundings where
  device : Device
  mps : Nat
  sqstride : Nat
  cqstride : Nat
  maxIOSQueue : UInt32
  maxIOCQueue : UInt32
  wrrHigh : Nat
  wrrMedium : Nat
  useWriteCache : Bool
  usedPageCount : Nat → Nat → Nat
  getTick : Tick
  formatFinishedAt : Nat → Tick
  mem : Nat → Nat
  managementData : Subsystem.ManagementData
  uninitialised : Information
  ctrlList : Nat → UInt16

inductive Pending where
  | doQueue (list : PRPList) (resp : Response)
  | write (size offset length : Nat) (resp : Response)
  | create (nsid : Nat) (resp : Response)
  | attachment (sel nsid : Nat) (resp : Response)
  | format (range : LPNRange) (erase : Bool) (resp : Response)

structure Handled where
  processed : Bool
  responses : List Response
  pending : List Pending
  state : AdminState

namespace AdminState

def answer (resp : Response) (s : AdminState) : Handled := ⟨true, [resp], [], s⟩

def drop (s : AdminState) : Handled := ⟨true, [], [], s⟩

def await (pending : Pending) (s : AdminState) : Handled := ⟨true, [], [pending], s⟩

def onController (f : Controller → Nat × Controller) (s : AdminState) :
    Except Fault (Nat × AdminState) :=
  match fault : (f s.controller).2.fault with
  | none => .ok ((f s.controller).1, { s with controller := (f s.controller).2, running := fault })
  | some f => .error f

/-- The end of `Controller::deleteCQueue`: the coalescing data of the vector goes with the last
I/O completion queue that has it.  An erase at the end of the map is undefined. -/
def dropVector (iv : Nat) (s : AdminState) : Except Fault AdminState :=
  if s.controller.sameIV iv then .ok s
  else if (s.aggregationMap.info iv).isSome then
    .ok { s with aggregationMap := s.aggregationMap.erase iv }
  else .error .undefined

end AdminState

namespace AdminCommand

def dataPointer (c : AdminCommand) : DataPointer := ⟨c.useSGL, c.data1.toNat, c.data2.toNat⟩

def low (c : AdminCommand) : Nat := c.dword10.toNat &&& 0xFFFF

def high (c : AdminCommand) : Nat := (c.dword10.toNat &&& 0xFFFF0000) >>> 16

/-! ## Queues -/

def maxQueueEntry : Nat := 4096

/-- The number of entries, which is one more than the field and is kept in 16 bits. -/
def entrySize (c : AdminCommand) : Nat := (c.high + 1) % 2 ^ 16

def cqid (c : AdminCommand) : Nat := (c.dword11.toNat &&& 0xFFFF0000) >>> 16

def iv (c : AdminCommand) : Nat := (c.dword11.toNat &&& 0xFFFF0000) >>> 16

def priority (c : AdminCommand) : Nat := (c.dword11.toNat &&& 0x06) >>> 1

def pc (c : AdminCommand) : Bool := c.dword11.toNat &&& 0x01 ≠ 0

def deleteSQueue (c : AdminCommand) (s : AdminState) : Except Fault Handled := do
  let (ret, s) ← s.onController fun u => u.deleteSQueue c.low
  if ret = 1 then
    .ok (s.answer (Response.success.makeStatus false TYPE_COMMAND_SPECIFIC_STATUS
      STATUS_INVALID_QUEUE_ID))
  else .ok (s.answer .success)

/-- The context of the answer is made before the controller is asked, and only a queue that
is created calls back. -/
def createSQueue (env : Surroundings) (c : AdminCommand) (s : AdminState) :
    Except Fault Handled :=
  if maxQueueEntry < c.entrySize then
    .ok (s.answer (Response.success.makeStatus false TYPE_COMMAND_SPECIFIC_STATUS
      STATUS_INVALID_QUEUE_SIZE))
  else do
    let (ret, s) ← s.onController fun u => u.createSQueue c.low c.cqid c.entrySize c.priority
    if ret = 0 then
      .ok (s.await (.doQueue (.ofBase (memoryPageSize env.mps) c.data1.toNat
        (c.entrySize * env.sqstride) c.pc) .success))
    else .ok s.drop

def deleteCQueue (c : AdminCommand) (s : AdminState) : Except Fault Handled := do
  let iv := s.controller.interruptVector c.low
  let (ret, s) ← s.onController fun u => u.deleteCQueue c.low
  if ret = 1 then
    .ok (s.answer (Response.success.makeStatus false TYPE_COMMAND_SPECIFIC_STATUS
      STATUS_INVALID_QUEUE_ID))
  else if ret = 2 then
    .ok (s.answer (Response.success.makeStatus false TYPE_COMMAND_SPECIFIC_STATUS
      STATUS_INVALID_QUEUE_DELETE))
  else do
    let s ← s.dropVector iv
    .ok (s.answer .success)

def createCQueue (env : Surroundings) (c : AdminCommand) (s : AdminState) :
    Except Fault Handled :=
  if maxQueueEntry < c.entrySize then
    .ok (s.answer (Response.success.makeStatus false TYPE_COMMAND_SPECIFIC_STATUS
      STATUS_INVALID_QUEUE_SIZE))
  else do
    let (ret, s) ← s.onController fun u => u.createCQueue c.low c.iv
    if ret = 0 then
      .ok ({ s with aggregationMap := s.aggregationMap.insert c.iv .reset }.await
        (.doQueue (.ofBase (memoryPageSize env.mps) c.data1.toNat
          (c.entrySize * env.cqstride) c.pc) .success))
    else .ok s.drop

def abort (c : AdminCommand) (s : AdminState) : Except Fault Handled := do
  let (ret, s) ← s.onController fun u => u.abort c.low c.high
  let resp := Response.success.makeStatus true TYPE_GENERIC_COMMAND_STATUS STATUS_SUCCESS
  .ok (s.answer { resp with dword0 := if ret = 0 then 1 else 0 })

/-! ## Log pages -/

def LOG_ERROR_INFORMATION : Nat := 0x01
def LOG_SMART_HEALTH_INFORMATION : Nat := 0x02
def LOG_FIRMWARE_SLOT_INFORMATION : Nat := 0x03

def reqSize (c : AdminCommand) : Nat :=
  ((((c.dword11.toNat &&& 0xFFFF) <<< 16 ||| c.high) + 1) % 2 ^ 32) * 4 % 2 ^ 32

def logOffset (c : AdminCommand) : Nat := c.dword13.toNat <<< 32 ||| c.dword12.toNat

/-- One log page goes to the transfer, one to the namespaces, and the answer comes on top. -/
def getLogPage (c : AdminCommand) (s : AdminState) : Handled :=
  if c.low = LOG_ERROR_INFORMATION ∨ c.low = LOG_FIRMWARE_SLOT_INFORMATION then s.answer .success
  else if c.low = LOG_SMART_HEALTH_INFORMATION then
    if c.namespaceID.toNat = Subsystem.NSID_ALL then
      s.await (.write c.reqSize c.logOffset 512 .success)
    else { s.answer .success with processed := false }
  else
    s.answer (Response.success.makeStatus true TYPE_COMMAND_SPECIFIC_STATUS
      STATUS_INVALID_LOG_PAGE)

/-! ## Identify -/

def CNS_IDENTIFY_NAMESPACE : Nat := 0x00
def CNS_IDENTIFY_CONTROLLER : Nat := 0x01
def CNS_ACTIVE_NAMESPACE_LIST : Nat := 0x02
def CNS_ALLOCATED_NAMESPACE_LIST : Nat := 0x10
def CNS_IDENTIFY_ALLOCATED_NAMESPACE : Nat := 0x11
def CNS_ATTACHED_CONTROLLER_LIST : Nat := 0x12
def CNS_CONTROLLER_LIST : Nat := 0x13

def cns (c : AdminCommand) : Nat := c.dword10.toNat &&& 0xFF

def identified (c : AdminCommand) (s : Subsystem) : List Namespace :=
  let nsid := c.namespaceID.toNat
  if c.cns = CNS_IDENTIFY_NAMESPACE then
    if nsid = Subsystem.NSID_ALL then []
    else s.lNamespaces.filter fun ns => ns.attached ∧ ns.nsid = nsid
  else if c.cns = CNS_ACTIVE_NAMESPACE_LIST then
    s.lNamespaces.filter fun ns => ns.attached ∧ nsid < ns.nsid
  else if c.cns = CNS_ALLOCATED_NAMESPACE_LIST then
    s.lNamespaces.filter fun ns => nsid < ns.nsid
  else if c.cns = CNS_IDENTIFY_ALLOCATED_NAMESPACE then
    s.lNamespaces.filter fun ns => ns.nsid = nsid
  else []

def listsNamespaces (c : AdminCommand) : Bool :=
  c.cns = CNS_ACTIVE_NAMESPACE_LIST ∨ c.cns = CNS_ALLOCATED_NAMESPACE_LIST

/-- The utilization of a namespace is divided by its LBA size, and a list of numbers is
written without a look at the end of the buffer. -/
def FillsBuffer (c : AdminCommand) (s : Subsystem) : Prop :=
  if c.listsNamespaces then (c.identified s).length ≤ 1024
  else ∀ ns ∈ c.identified s, ns.info.lbaSize ≠ 0

instance (c : AdminCommand) (s : Subsystem) : Decidable (c.FillsBuffer s) := by
  unfold FillsBuffer
  infer_instance

def identify (c : AdminCommand) (s : AdminState) : Except Fault Handled :=
  if c.listsNamespaces ∧ Subsystem.NSID_ALL - 1 ≤ c.namespaceID.toNat then
    .ok (s.answer (Response.success.makeStatus true TYPE_GENERIC_COMMAND_STATUS
      STATUS_ABORT_INVALID_NAMESPACE))
  else if c.FillsBuffer s.subsystem then .ok (s.await (.write 0x1000 0 0x1000 .success))
  else .error .undefined

/-! ## Features -/

def FEATURE_ARBITRATION : Nat := 0x01
def FEATURE_VOLATILE_WRITE_CACHE : Nat := 0x06
def FEATURE_NUMBER_OF_QUEUES : Nat := 0x07
def FEATURE_INTERRUPT_COALESCING : Nat := 0x08
def FEATURE_INTERRUPT_VECTOR_CONFIGURATION : Nat := 0x09

def fid (c : AdminCommand) : Nat := c.dword10.toNat &&& 0x00FF

def save (c : AdminCommand) : Bool := c.dword10.toNat &&& 0x80000000 ≠ 0

def vector (c : AdminCommand) : Nat := c.dword11.toNat &&& 0xFFFF

def enable (c : AdminCommand) : Bool := c.dword11.toNat &&& 0x10000 ≠ 0

def asksForTooMany (c : AdminCommand) : Bool :=
  c.dword11.toNat &&& 0xFFFF = 0xFFFF ∨ c.dword11.toNat &&& 0xFFFF0000 = 0xFFFF0000

def granted (env : Surroundings) (c : AdminCommand) : UInt32 :=
  let low : UInt32 := 0xFFFF
  let high : UInt32 := 0xFFFF0000
  let submission :=
    if env.maxIOSQueue ≤ c.dword11 &&& low then (c.dword11 &&& high) ||| (env.maxIOSQueue - 1)
    else c.dword11
  if env.maxIOCQueue ≤ (submission &&& high) >>> 16 then
    (submission &&& low) ||| ((env.maxIOCQueue - 1) <<< 16)
  else submission

def setFeatures (env : Surroundings) (c : AdminCommand) (s : AdminState) : Handled :=
  if c.save then
    s.answer (Response.success.makeStatus false TYPE_COMMAND_SPECIFIC_STATUS
      STATUS_FEATURE_ID_NOT_SAVEABLE)
  else if c.fid = FEATURE_NUMBER_OF_QUEUES then
    if c.asksForTooMany then
      s.answer (Response.success.makeStatus false TYPE_GENERIC_COMMAND_STATUS
        STATUS_INVALID_FIELD)
    else
      let dword0 := (c.granted env).toNat
      { s with queueAllocated := dword0 }.answer { Response.success with dword0 := dword0 }
  else if c.fid = FEATURE_INTERRUPT_COALESCING then
    { s with
      aggregationTime := Completions.coalescingTime ((c.dword11.toNat >>> 8) &&& 0xFF)
      aggregationThreshold := c.dword11.toNat &&& 0xFF }.answer .success
  else if c.fid = FEATURE_INTERRUPT_VECTOR_CONFIGURATION then
    { s with aggregationMap := s.aggregationMap.set c.vector (.enable c.enable) }.answer .success
  else
    s.answer (Response.success.makeStatus true TYPE_GENERIC_COMMAND_STATUS STATUS_INVALID_FIELD)

def getCoalescing (iv : Nat) (s : AdminState) : Bool :=
  (s.aggregationMap.info iv).any AggregationInfo.valid

def getFeatures (env : Surroundings) (c : AdminCommand) (s : AdminState) : Handled :=
  if c.fid = FEATURE_ARBITRATION then
    s.answer { Response.success with dword0 :=
      ((sub64 (mul64 env.wrrHigh env.wrrMedium) 1 % 2 ^ 8) <<< 24 |||
        sub64 env.wrrMedium 1 <<< 16 ||| 0x03) % 2 ^ 32 }
  else if c.fid = FEATURE_VOLATILE_WRITE_CACHE then
    s.answer { Response.success with dword0 := if env.useWriteCache then 1 else 0 }
  else if c.fid = FEATURE_NUMBER_OF_QUEUES then
    s.answer { Response.success with dword0 := s.queueAllocated }
  else if c.fid = FEATURE_INTERRUPT_COALESCING then
    s.answer { Response.success with dword0 :=
      s.aggregationThreshold % 2 ^ 8 + s.aggregationTime / 100000000 % 2 ^ 8 * 2 ^ 8 }
  else if c.fid = FEATURE_INTERRUPT_VECTOR_CONFIGURATION then
    s.answer { Response.success with dword0 :=
      (if getCoalescing c.vector s then c.vector ||| 0x10000 else c.vector) }
  else
    s.answer (Response.success.makeStatus true TYPE_GENERIC_COMMAND_STATUS STATUS_INVALID_FIELD)

/-! ## Namespaces -/

def sel (c : AdminCommand) : Nat := c.dword10.toNat &&& 0x0F

/-- `err` is set for a field that is invalid and for an answer that is put off, and keeps
either from being answered. -/
def namespaceManagement (env : Surroundings) (c : AdminCommand) (s : AdminState) : Handled :=
  let nsid := c.namespaceID.toNat
  if (c.sel = 0 ∧ nsid ≠ 0) ∨ 1 < c.sel then s.drop
  else if c.sel = 0 then
    let unused := Subsystem.unusedNsid NSID_LOWEST s.subsystem.lNamespaces
    if unused = Subsystem.NSID_ALL then
      s.answer (Response.success.makeStatus false TYPE_COMMAND_SPECIFIC_STATUS
        STATUS_NAMESPACE_ID_UNAVAILABLE)
    else s.await (.create unused .success)
  else
    let (found, subsystem) := Subsystem.destroyNamespace env.device nsid s.subsystem
    if found then { s with subsystem := subsystem }.answer .success
    else
      { s with subsystem := subsystem }.answer (Response.success.makeStatus false
        TYPE_GENERIC_COMMAND_STATUS STATUS_ABORT_INVALID_NAMESPACE)

def namespaceAttachment (c : AdminCommand) (s : AdminState) : Handled :=
  s.await (.attachment c.sel c.namespaceID.toNat .success)

/-- The namespace is changed before the request reaches HIL. -/
def formatNVM (env : Surroundings) (c : AdminCommand) (s : AdminState) : Handled :=
  let (reply, subsystem) := Subsystem.formatNVM env.device env.usedPageCount
    ⟨c.dword10.toNat, c.namespaceID.toNat⟩ s.subsystem
  let s := { s with subsystem := subsystem }
  match reply with
  | .invalidFormat =>
      s.answer (Response.success.makeStatus false TYPE_GENERIC_COMMAND_STATUS
        STATUS_INVALID_FORMAT)
  | .abortInvalidNamespace =>
      s.answer (Response.success.makeStatus false TYPE_GENERIC_COMMAND_STATUS
        STATUS_ABORT_INVALID_NAMESPACE)
  | .submitted range erase => s.await (.format range erase .success)

/-! ## Submission -/

/-- The switch over the opcode; a response that is set and not sent is made again below. -/
def handle (env : Surroundings) (c : AdminCommand) (s : AdminState) : Except Fault Handled :=
  match AdminOpcode.ofCode c.opcode.toNat with
  | some .deleteIOSQueue => c.deleteSQueue s
  | some .createIOSQueue => c.createSQueue env s
  | some .getLogPage => .ok (c.getLogPage s)
  | some .deleteIOCQueue => c.deleteCQueue s
  | some .createIOCQueue => c.createCQueue env s
  | some .identify => c.identify s
  | some .abort => c.abort s
  | some .setFeatures => .ok (c.setFeatures env s)
  | some .getFeatures => .ok (c.getFeatures env s)
  | some .namespaceManagement => .ok (c.namespaceManagement env s)
  | some .namespaceAttachment => .ok (c.namespaceAttachment s)
  | some .formatNVM => .ok (c.formatNVM env s)
  | some .asyncEventReq | none => .ok ⟨false, [], [], s⟩

/-- `Namespace::submitCommand` for an entry of the admin queue. -/
def onNamespace (env : Surroundings) (c : AdminCommand) (ns : Namespace) :
    List Response × List Pending :=
  if env.getTick < env.formatFinishedAt ns.nsid then
    ([Response.success.makeStatus false TYPE_GENERIC_COMMAND_STATUS STATUS_FORMAT_IN_PROGRESS],
      [])
  else if AdminOpcode.ofCode c.opcode.toNat = some .getLogPage then
    if c.low = LOG_SMART_HEALTH_INFORMATION then
      if c.namespaceID.toNat = ns.nsid then
        ([], [.write c.reqSize c.logOffset 512 .success])
      else
        ([Response.success.makeStatus true TYPE_COMMAND_SPECIFIC_STATUS
          STATUS_NAMESPACE_NOT_ATTACHED], [])
    else
      ([Response.success.makeStatus true TYPE_COMMAND_SPECIFIC_STATUS STATUS_INVALID_LOG_PAGE],
        [])
  else
    ([Response.success.makeStatus true TYPE_GENERIC_COMMAND_STATUS STATUS_INVALID_OPCODE], [])

/-- A command that is not processed goes to its namespace, if there is one. -/
def submit (env : Surroundings) (c : AdminCommand) (s : AdminState) : Except Fault Handled := do
  let handled ← c.handle env s
  if handled.processed then .ok handled
  else
    match s.subsystem.target c.namespaceID.toNat with
    | some ns =>
        let (responses, pending) := c.onNamespace env ns
        .ok { handled with
          responses := handled.responses ++ responses
          pending := handled.pending ++ pending }
    | none =>
        .ok { handled with responses := handled.responses ++
          [Response.success.makeStatus false TYPE_GENERIC_COMMAND_STATUS
            STATUS_ABORT_INVALID_NAMESPACE] }

/-! ## Callbacks -/

/-- The lambda of Namespace Management.  A format or a setting that is refused is answered
with an error, and the namespace is created all the same. -/
def createDone (env : Surroundings) (nsid : Nat) (resp : Response) (s : AdminState) :
    Except Fault (Response × AdminState) :=
  let info := Subsystem.managementInformation env.device env.managementData env.uninitialised
  let resp :=
    if nLBAFormat ≤ info.lbaFormatIndex then
      resp.makeStatus false TYPE_GENERIC_COMMAND_STATUS STATUS_ABORT_INVALID_FORMAT
    else if info.namespaceSharingCapabilities ≠ 0 ∨ info.dataProtectionSettings ≠ 0 then
      resp.makeStatus false TYPE_GENERIC_COMMAND_STATUS STATUS_INVALID_FIELD
    else resp
  (Subsystem.createNamespace env.device nsid info s.subsystem).map fun (ret, _, subsystem) =>
    (if ret then { resp with dword0 := nsid }
      else resp.makeStatus false TYPE_COMMAND_SPECIFIC_STATUS
        STATUS_NAMESPACE_INSUFFICIENT_CAPACITY,
      { s with subsystem := subsystem })

/-- The controllers of the list, the number of which stands before them.  A list that is
longer than the buffer is read beyond it. -/
def controllers (env : Surroundings) : Except Fault (List Nat) :=
  if (env.ctrlList 0).toNat ≤ 2047 then
    .ok ((List.range (env.ctrlList 0).toNat).map fun i => (env.ctrlList (i + 1)).toNat)
  else .error .undefined

/-- The answer to an attachment or a detachment whose list is in order.  The last namespace
with the number that is refused decides. -/
def attached (sel nsid : Nat) (resp : Response) (s : Subsystem) : Response :=
  let named := s.lNamespaces.filter fun ns => ns.nsid = nsid
  if sel = 0 then
    if named = [] then
      resp.makeStatus true TYPE_GENERIC_COMMAND_STATUS STATUS_ABORT_INVALID_NAMESPACE
    else if named.any (·.attached) then
      resp.makeStatus true TYPE_COMMAND_SPECIFIC_STATUS STATUS_NAMESPACE_ALREADY_ATTACHED
    else resp
  else if sel = 1 then
    if named.any (!·.attached) then
      resp.makeStatus true TYPE_COMMAND_SPECIFIC_STATUS STATUS_NAMESPACE_NOT_ATTACHED
    else resp
  else resp.makeStatus false TYPE_GENERIC_COMMAND_STATUS STATUS_INVALID_FIELD

def attachmentDone (env : Surroundings) (sel nsid : Nat) (resp : Response) (s : AdminState) :
    Except Fault (Response × AdminState) :=
  (controllers env).map fun list =>
    if 1 < list.length ∧ sel = 0 then
      (resp.makeStatus false TYPE_COMMAND_SPECIFIC_STATUS STATUS_NAMESPACE_IS_PRIVATE, s)
    else if list.head? ≠ some 0 then
      (resp.makeStatus false TYPE_COMMAND_SPECIFIC_STATUS STATUS_CONTROLLER_LIST_INVALID, s)
    else
      (attached sel nsid resp s.subsystem,
        { s with subsystem := Subsystem.namespaceAttachment sel nsid s.subsystem })

def callBack (f : AdminState → Except Fault (Response × AdminState)) :
    Nat → List Response × AdminState → Except Fault (List Response × AdminState)
  | 0, state => .ok state
  | calls + 1, (responses, s) => do
      let (resp, s) ← f s
      callBack f calls (responses ++ [resp], s)

/-- What has come of a command: the answers, the bytes of a transfer to the host that has
called back, and the state before and after the callbacks. -/
structure Outcome where
  submitted : AdminState
  before : AdminState
  responses : List Response
  moved : Option Nat
  after : AdminState

/-- A pending part calls back, after some reads of its list have ended.  HIL calls back for
each request. -/
def finish (env : Surroundings) (c : AdminCommand) (reads : Nat) (o : Outcome) :
    Pending → Except Fault Outcome
  | .doQueue list resp => do
      let list ← list.readAll env.mem reads
      .ok { o with responses := o.responses ++ List.replicate list.initialized resp }
  | .write size offset length resp => do
      let moved ← c.dataPointer.run env.mem (memoryPageSize env.mps) reads size offset length
      .ok { o with
        responses := o.responses ++ List.replicate moved.calls resp
        moved := if moved.calls = 0 then o.moved else some moved.bytes }
  | .create nsid resp => do
      let moved ← c.dataPointer.run env.mem (memoryPageSize env.mps) reads 0x1000 0 0x1000
      let (responses, after) ←
        callBack (createDone env nsid resp) moved.calls (o.responses, o.after)
      .ok { o with responses := responses, after := after }
  | .attachment sel nsid resp => do
      let moved ← c.dataPointer.run env.mem (memoryPageSize env.mps) reads 0x1000 0 0x1000
      let (responses, after) ←
        callBack (attachmentDone env sel nsid resp) moved.calls (o.responses, o.after)
      .ok { o with responses := responses, after := after }
  | .format _ _ resp => .ok { o with responses := o.responses ++ [resp] }

def outcome (env : Surroundings) (meanwhile : AdminState → AdminState) (reads : Nat)
    (c : AdminCommand) (s : AdminState) : Except Fault Outcome := do
  let handled ← c.submit env s
  let before := meanwhile handled.state
  handled.pending.foldlM (finish env c reads)
    ⟨handled.state, before, handled.responses, none, before⟩

end AdminCommand

end SimpleSSD.HIL.NVMe
