import SimpleSSD.HIL.NVMe.Subsystem

/-!
# Commands on a namespace

`Namespace::read`, `write`, `compare` and `datasetManagement` decide whether a
command is accepted and which blocks it names; `Subsystem::convertUnit` turns
blocks into logical pages.  The namespace management commands of the host stand
beside them, so that a run may interleave both.
-/

namespace SimpleSSD.HIL.NVMe

open SimpleSSD.Foundation

structure Blocks where
  slba : Nat
  nlb : Nat
  deriving DecidableEq, Repr

structure DatasetManagementRange where
  attr : UInt32
  nlb : UInt32
  slba : UInt64
  deriving DecidableEq, Repr

inductive NVMOpcode where
  | read
  | write
  | compare
  | datasetManagement
  deriving DecidableEq, Repr

/-- The words of a submission entry, and the buffer a dataset management command
points to. -/
structure NVMCommand where
  opcode : NVMOpcode
  dword10 : UInt32
  dword11 : UInt32
  dword12 : UInt32
  buffer : Nat → DatasetManagementRange

namespace NVMCommand

def slba (c : NVMCommand) : Nat := c.dword11.toNat <<< 32 ||| c.dword10.toNat

def nlb (c : NVMCommand) : Nat := ((c.dword12.toNat &&& 0xFFFF) + 1) % 2 ^ 16

def nr (c : NVMCommand) : Nat := (c.dword10.toNat &&& 0xFF) + 1

def ad (c : NVMCommand) : Bool := c.dword11.toNat &&& 0x04 ≠ 0

def Accepted (c : NVMCommand) (ns : Namespace) : Prop :=
  ns.attached ∧
    match c.opcode with
    | .read | .write | .compare => c.nlb ≠ 0
    | .datasetManagement => c.ad

instance (c : NVMCommand) (ns : Namespace) : Decidable (c.Accepted ns) := by
  unfold Accepted
  cases c.opcode <;> exact inferInstance

def blocks (c : NVMCommand) : List Blocks :=
  match c.opcode with
  | .read | .write | .compare => [⟨c.slba, c.nlb⟩]
  | .datasetManagement =>
      (List.range c.nr).map fun i => ⟨(c.buffer i).slba.toNat, (c.buffer i).nlb.toNat⟩

theorem slba_lt (c : NVMCommand) : c.slba < wordSize := by
  have high : c.dword11.toNat <<< 32 < 2 ^ 64 := by
    have := c.dword11.toNat_lt
    rw [Nat.shiftLeft_eq]
    omega
  have low : c.dword10.toNat < 2 ^ 64 := by
    have := c.dword10.toNat_lt
    omega
  exact Nat.or_lt_two_pow high low

theorem blocks_lt {c : NVMCommand} {b : Blocks} (hmem : b ∈ c.blocks) :
    b.slba < wordSize ∧ b.nlb < 2 ^ 32 := by
  have first : c.slba < wordSize ∧ c.nlb < 2 ^ 32 := by
    refine ⟨c.slba_lt, ?_⟩
    unfold nlb
    omega
  cases hop : c.opcode with
  | read | write | compare =>
      simp only [blocks, hop, List.mem_singleton] at hmem
      rw [hmem]
      exact first
  | datasetManagement =>
      simp only [blocks, hop, List.mem_map] at hmem
      obtain ⟨i, -, rfl⟩ := hmem
      exact ⟨(c.buffer i).slba.toNat_lt, (c.buffer i).nlb.toNat_lt⟩

end NVMCommand

namespace Subsystem

/-- Blocks of a page, or pages of a block where a block is the larger. -/
def convertUnit (d : Device) (info : Information) (b : Blocks) (req : Request) :
    Except Fault Request :=
  if info.lbaSize = 0 then .error .undefined
  else
    let lbaratio := d.logicalPageSize / info.lbaSize % 2 ^ 32
    if lbaratio = 0 then
      let lbaratio := info.lbaSize / d.logicalPageSize % 2 ^ 32
      let slpn := mul64 b.slba lbaratio
      let nlp := mul64 b.nlb lbaratio
      .ok { req with
        range := ⟨add64 slpn info.range.slpn, nlp⟩
        offset := 0
        length := mul64 b.nlb info.lbaSize }
    else
      let slpn := b.slba / lbaratio
      let off := b.slba % lbaratio
      let nlp := sub64 (add64 (add64 b.nlb off) lbaratio) 1 / lbaratio
      .ok { req with
        range := ⟨add64 slpn info.range.slpn, nlp⟩
        offset := mul64 off info.lbaSize
        length := mul64 b.nlb info.lbaSize }

/-! ## Commands of the host -/

def NSID_ALL : Nat := 0xFFFFFFFF

def target (s : Subsystem) (namespaceID : Nat) : Option Namespace :=
  if namespaceID < NSID_ALL then s.lNamespaces.find? fun ns => ns.nsid = namespaceID
  else s.lNamespaces.head?

structure ManagementData where
  size : UInt64
  capacity : UInt64
  lbaFormatIndex : UInt8
  dataProtectionSettings : UInt8
  namespaceSharingCapabilities : UInt8
  deriving DecidableEq, Repr

def managementInformation (d : Device) (data : ManagementData) (uninitialised : Information) :
    Information :=
  { uninitialised with
    size := data.size.toNat
    capacity := data.capacity.toNat
    lbaFormatIndex := data.lbaFormatIndex.toNat
    dataProtectionSettings := data.dataProtectionSettings.toNat
    namespaceSharingCapabilities := data.namespaceSharingCapabilities.toNat
    lbaSize := d.lbaSize data.lbaFormatIndex.toNat
    range := ⟨0, 0⟩ }

def unusedNsid (nsid : Nat) : List Namespace → Nat
  | [] => nsid
  | ns :: rest => if ns.nsid = nsid then unusedNsid (nsid + 1) rest else nsid

/-- A create whose format, sharing or protection is refused is carried out all the same;
only the status differs. -/
def namespaceManagement (d : Device) (data : ManagementData) (uninitialised : Information)
    (s : Subsystem) : Except Fault (Bool × Information × Subsystem) :=
  let nsid := unusedNsid NSID_LOWEST s.lNamespaces
  let info := managementInformation d data uninitialised
  if nsid = NSID_ALL then .ok (false, info, s) else createNamespace d nsid info s

def attach (sel nsid : Nat) (ns : Namespace) : Namespace :=
  if ns.nsid = nsid then
    if sel = 0 then { ns with attached := true }
    else if sel = 1 then { ns with attached := false }
    else ns
  else ns

def namespaceAttachment (sel nsid : Nat) (s : Subsystem) : Subsystem :=
  { s with lNamespaces := s.lNamespaces.map (attach sel nsid) }

inductive Submission where
  | management (data : ManagementData) (uninitialised : Information)
  | delete (nsid : Nat)
  | attachment (sel nsid : Nat)
  | format (c : FormatCommand) (usedPageCount : Nat → Nat → Nat)
  | nvm (namespaceID : Nat) (c : NVMCommand)

/-- Reads, writes and trims do not change the namespaces. -/
def submitCommand (d : Device) (s : Subsystem) : Submission → Option Subsystem
  | .management data uninitialised =>
      (namespaceManagement d data uninitialised s).toOption.map fun out => out.2.2
  | .delete nsid => some (destroyNamespace d nsid s).2
  | .attachment sel nsid => some (namespaceAttachment sel nsid s)
  | .format c usedPageCount => some (formatNVM d usedPageCount c s).2
  | .nvm _ _ => some s

end Subsystem

end SimpleSSD.HIL.NVMe
