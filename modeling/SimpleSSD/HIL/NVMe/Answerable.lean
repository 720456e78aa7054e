import SimpleSSD.HIL.NVMe.Admin
import SimpleSSD.HIL.NVMe.Collection
import SimpleSSD.HIL.NVMe.NamespaceManagement

/-!
# Answerable commands

What it means that an admin command is answered once, and not as a success unless it was
carried out, the condition for it, and the commands on queues.
-/

namespace SimpleSSD.HIL.NVMe

open SimpleSSD.Foundation

namespace AdminCommand

/-! ## What a command asks for -/

def entries (c : AdminCommand) : Nat := c.high + 1

def logBytes (c : AdminCommand) : Nat := min c.reqSize (512 - c.logOffset)

def knownCNS : List Nat :=
  [CNS_IDENTIFY_NAMESPACE, CNS_IDENTIFY_CONTROLLER, CNS_ACTIVE_NAMESPACE_LIST,
    CNS_ALLOCATED_NAMESPACE_LIST, CNS_IDENTIFY_ALLOCATED_NAMESPACE, CNS_ATTACHED_CONTROLLER_LIST,
    CNS_CONTROLLER_LIST]

/-- The data structure is one of these, and not the one of all namespaces together. -/
def Identifies (c : AdminCommand) : Prop :=
  c.cns ∈ knownCNS ∧ (c.cns = CNS_IDENTIFY_NAMESPACE → c.namespaceID.toNat ≠ Subsystem.NSID_ALL)

instance (c : AdminCommand) : Decidable c.Identifies := inferInstanceAs (Decidable (_ ∧ _))

def named (nsid : Nat) (s : Subsystem) : List Namespace :=
  s.lNamespaces.filter fun ns => ns.nsid = nsid

/-- The list of the buffer is complete, it leaves no access without bytes, and it covers so
many of the bytes. -/
def Transfers (env : Surroundings) (c : AdminCommand) (reads size offset length least : Nat) :
    Prop :=
  ∃ chunks, c.dataPointer.build env.mem (memoryPageSize env.mps) reads size = .ok (1, chunks) ∧
    (∀ piece ∈ accesses (pieces offset length chunks 0), 0 < piece.size) ∧
    least ≤ ((pieces offset length chunks 0).map Piece.size).sum

def BaseReady (env : Surroundings) (reads : Nat) (list : PRPList) : Prop :=
  ∃ done, list.readAll env.mem reads = .ok done ∧ done.initialized = 1

end AdminCommand

namespace Controller

/-- Delete I/O Submission Queue stays inside its list, and finds the completion queue of
every command that it aborts. -/
def Deletable (sqid : Nat) (c : Controller) : Prop :=
  sqid < c.ppSQueue.length ∧ (0 < sqid → (c.queue? sqid).isSome →
    runsPast sqid c.lSQFIFO = false ∧ ∀ req ∈ erasedBy sqid c.lSQFIFO, c.HasCQ req.cqID)

def Scannable (cqid : Nat) (c : Controller) : Prop :=
  cqid < c.ppCQueue.length ∧
    (0 < cqid → c.HasCQ cqid → c.ScanFinds cqid ∨ c.ppCQueue.length ≤ c.ppSQueue.length)

/-- Another I/O completion queue has the vector. -/
def SharesVector (cqid : Nat) (c : Controller) : Prop :=
  ∃ i q, 0 < i ∧ i ≠ cqid ∧ c.ppCQueue[i]? = some (some q) ∧
    q.interruptVector = c.interruptVector cqid

def Abortable (sqid cid : Nat) (c : Controller) : Prop :=
  ∀ req, c.lSQFIFO.find? (fun req => req.sqID = sqid ∧ req.entry.commandID = cid) = some req →
    (c.queue? sqid).isSome ∧ c.HasCQ req.cqID

end Controller

namespace AdminCommand

/-- When the queue goes, the entry of its vector is there, if it is to be erased.  So it is for
queues that were created by the command. -/
def Coalesced (cqid : Nat) (s : AdminState) : Prop :=
  0 < cqid → s.controller.HasCQ cqid → ¬s.controller.ScanFinds cqid →
    s.controller.SharesVector cqid ∨
      (s.aggregationMap.info (s.controller.interruptVector cqid)).isSome

/-- There is no room for the namespace, or the ranges of the others lie in the device one
behind the other. -/
def RangesFit (env : Surroundings) (s : Subsystem) : Prop :=
  let info := Subsystem.managementInformation env.device env.managementData env.uninitialised
  sub64 env.device.totalLogicalPages s.allocatedLogicalPages <
      Subsystem.requestedPages env.device info ∨
    (invert env.device.totalLogicalPages s.allocatedRanges).isOk = true

/-- The condition on a command.

* A new queue has an id that is free and fewer than 65536 entries, its completion queue
  exists, and its list can be read.  The other commands on queues stay inside their tables
  and lists, and a vector that is to be erased has its entry.
* A log page is the one that is transferred, and is asked for without a namespace.
* Identify names a data structure that exists and fits the buffer.
* Coalescing is enabled for a vector that has an entry.
* Namespace Management has a selector it knows, and no namespace id for a create; a
  namespace that is detached exists.
* Where data is transferred, the transfer calls back, and is long enough. -/
def Answerable (env : Surroundings) (meanwhile : AdminState → AdminState) (reads : Nat)
    (c : AdminCommand) (s : AdminState) : Prop :=
  match AdminOpcode.ofCode c.opcode.toNat with
  | some .deleteIOSQueue => s.controller.Deletable c.low
  | some .createIOSQueue =>
      maxQueueEntry < c.entrySize ∨
        (c.entrySize = c.entries ∧ c.low < s.controller.ppSQueue.length ∧
          s.controller.queue? c.low = none ∧ s.controller.HasCQ c.cqid ∧
          BaseReady env reads (.ofBase (memoryPageSize env.mps) c.data1.toNat
            (c.entrySize * env.sqstride) c.pc))
  | some .getLogPage =>
      c.low ≠ LOG_ERROR_INFORMATION ∧ c.low ≠ LOG_FIRMWARE_SLOT_INFORMATION ∧
        (c.low = LOG_SMART_HEALTH_INFORMATION → c.namespaceID.toNat = Subsystem.NSID_ALL ∧
          c.Transfers env reads c.reqSize c.logOffset 512 c.logBytes)
  | some .deleteIOCQueue => s.controller.Scannable c.low ∧ Coalesced c.low s
  | some .createIOCQueue =>
      maxQueueEntry < c.entrySize ∨
        (c.entrySize = c.entries ∧ c.low < s.controller.ppCQueue.length ∧
          ¬s.controller.HasCQ c.low ∧
          BaseReady env reads (.ofBase (memoryPageSize env.mps) c.data1.toNat
            (c.entrySize * env.cqstride) c.pc))
  | some .identify =>
      (c.listsNamespaces ∧ Subsystem.NSID_ALL - 1 ≤ c.namespaceID.toNat) ∨
        (c.Identifies ∧ c.FillsBuffer s.subsystem ∧
          c.Transfers env reads 0x1000 0 0x1000 0x1000)
  | some .abort => s.controller.Abortable c.low c.high
  | some .setFeatures =>
      c.save = false → c.fid = FEATURE_INTERRUPT_VECTOR_CONFIGURATION → c.enable = true →
        (s.aggregationMap.info c.vector).isSome
  | some .namespaceManagement =>
      (c.sel = 0 ∧ c.namespaceID.toNat = 0 ∧
        (Subsystem.unusedNsid NSID_LOWEST s.subsystem.lNamespaces = Subsystem.NSID_ALL ∨
          (c.Transfers env reads 0x1000 0 0x1000 0 ∧ RangesFit env (meanwhile s).subsystem))) ∨
      c.sel = 1
  | some .namespaceAttachment =>
      c.Transfers env reads 0x1000 0 0x1000 0 ∧ (env.ctrlList 0).toNat ≤ 2047 ∧
        (c.sel = 1 → env.ctrlList 0 ≠ 0 → env.ctrlList 1 = 0 →
          named c.namespaceID.toNat (meanwhile s).subsystem ≠ [])
  | some .getFeatures | some .formatNVM | some .asyncEventReq | none => True

end AdminCommand

/-! ## The controller -/

namespace Controller

variable {c : Controller} {sqid cqid cid sqHead status : Nat} {req : SQEntryWrapper}

end Controller

/-! ## One handler after the other -/

namespace AdminState

variable {s : AdminState} {f : Controller → Nat × Controller}

end AdminState

namespace AdminCommand

variable {env : Surroundings} {meanwhile : AdminState → AdminState} {reads : Nat}
  {c : AdminCommand} {s s' : AdminState} {handled : Handled} {resp : Response}

end AdminCommand

end SimpleSSD.HIL.NVMe
