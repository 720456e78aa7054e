import Mathlib.Data.List.Sort
import SimpleSSD.Foundation.Fallible
import SimpleSSD.Util.Def

/-!
# Namespaces of the NVMe subsystem

`createNamespace` collects the page ranges of the live namespaces, sorts them,
inverts them into the unallocated ranges and takes the first that is large
enough.  `destroyNamespace` and `formatNVM` change the list of namespaces and
the counter of allocated pages, and `init` creates the default namespaces.
-/

namespace SimpleSSD.HIL.NVMe

open SimpleSSD.Foundation

structure Information where
  size : Nat
  capacity : Nat
  utilization : Nat
  sizeInByteL : Nat
  sizeInByteH : Nat
  lbaFormatIndex : Nat
  dataProtectionSettings : Nat
  namespaceSharingCapabilities : Nat
  lbaSize : Nat
  range : LPNRange
  deriving DecidableEq, Repr

def Information.ofSize (info : Information) (size : Nat) : Information :=
  { info with size := size, capacity := size }

structure Namespace where
  nsid : Nat
  info : Information
  attached : Bool
  deriving DecidableEq, Repr

structure Device where
  totalLogicalPages : Nat
  logicalPageSize : Nat
  strayLbaSize : Nat → Nat
  totalLogicalPages_lt : totalLogicalPages < wordSize
  logicalPageSize_pos : 0 < logicalPageSize

structure Subsystem where
  lNamespaces : List Namespace
  allocatedLogicalPages : Nat
  deriving DecidableEq, Repr

def nLBAFormat : Nat := 4

def lbaSizes : List Nat := [512, 1024, 2048, 4096]

def Device.lbaSize (d : Device) (lbaFormatIndex : Nat) : Nat :=
  lbaSizes[lbaFormatIndex]?.getD (d.strayLbaSize lbaFormatIndex)

def NSID_LOWEST : Nat := 1

/-! ## Unallocated ranges -/

/-- The merging loop of `createNamespace` over the positions `iter` and `next`,
where the length stands for `end()`. -/
def mergeFrom (allocated : List LPNRange) (iter next : Nat) : Nat → List LPNRange
  | 0 => allocated
  | fuel + 1 =>
      if iter ≠ allocated.length ∨ next + 1 = allocated.length then allocated
      else
        match allocated[iter]?, allocated[next + 1]? with
        | some a, some b =>
            if add64 a.slpn a.nlp = b.slpn then
              mergeFrom (allocated.eraseIdx iter) iter iter fuel
            else mergeFrom allocated (iter + 1) (next + 1) fuel
        | _, _ => allocated

def merge (allocated : List LPNRange) : List LPNRange :=
  if allocated.length ≠ 0 then mergeFrom allocated 0 0 (allocated.length + 1) else allocated

def splitLast (unallocated : List LPNRange) (iter : LPNRange) :
    Except Fault (List LPNRange) :=
  match unallocated.getLast? with
  | none => .error .undefined
  | some last =>
      if last.slpn ≤ iter.slpn ∧ add64 iter.slpn iter.nlp ≤ add64 last.slpn last.nlp then
        .ok (unallocated.dropLast ++
          [⟨last.slpn, sub64 iter.slpn last.slpn⟩,
            ⟨add64 iter.slpn iter.nlp,
              sub64 (sub64 (add64 last.slpn last.nlp) iter.slpn) iter.nlp⟩])
      else .error (.panic "BUG")

def invert (totalLogicalPages : Nat) (allocated : List LPNRange) :
    Except Fault (List LPNRange) :=
  allocated.foldlM splitLast [⟨0, totalLogicalPages⟩]

namespace Subsystem

/-- The ranges of the live namespaces in the order of their first pages. -/
def allocatedRanges (s : Subsystem) : List LPNRange :=
  merge ((s.lNamespaces.map (·.info.range)).insertionSort fun a b => a.slpn ≤ b.slpn)

def allocate (info : Information) (unallocated : List LPNRange) (requested : Nat) :
    Information :=
  match unallocated.find? fun r => requested ≤ r.nlp with
  | none => info
  | some r => { info with range := ⟨r.slpn, requested⟩ }

def insertNamespace (s : Subsystem) (ns : Namespace) : List Namespace :=
  (s.lNamespaces ++ [ns]).insertionSort fun a b => a.nsid ≤ b.nsid

def requestedPages (d : Device) (info : Information) : Nat :=
  mul64 (info.size / d.logicalPageSize) (d.lbaSize info.lbaFormatIndex)

/-- The information is passed by pointer: the one returned is what the caller sees. -/
def createNamespace (d : Device) (nsid : Nat) (info : Information) (s : Subsystem) :
    Except Fault (Bool × Information × Subsystem) :=
  let requested := requestedPages d info
  if sub64 d.totalLogicalPages s.allocatedLogicalPages < requested then
    .ok (false, info, s)
  else do
    let unallocated ← invert d.totalLogicalPages s.allocatedRanges
    let placed := allocate info unallocated requested
    if placed.range.nlp = 0 then
      .ok (false, placed, s)
    else
      let filled := { placed with
        sizeInByteL := mul64 requested d.logicalPageSize
        sizeInByteH := 0 }
      .ok (true, filled,
        { lNamespaces := s.insertNamespace ⟨nsid, filled, false⟩
          allocatedLogicalPages := add64 s.allocatedLogicalPages requested })

def destroyNamespace (d : Device) (nsid : Nat) (s : Subsystem) : Bool × Subsystem :=
  match s.lNamespaces.find? fun ns => ns.nsid = nsid with
  | none => (false, s)
  | some ns =>
      (true,
        { lNamespaces := s.lNamespaces.eraseP fun ns => ns.nsid = nsid
          allocatedLogicalPages := sub64 s.allocatedLogicalPages
            (mul64 ns.info.size ns.info.lbaSize / d.logicalPageSize) })

/-! ## Format NVM -/

structure FormatCommand where
  dword10 : Nat
  namespaceID : Nat
  deriving DecidableEq, Repr

namespace FormatCommand

def ses (c : FormatCommand) : Nat := (c.dword10 &&& 0x0E00) >>> 9
def pil (c : FormatCommand) : Nat := c.dword10 &&& 0x0100
def pi (c : FormatCommand) : Nat := (c.dword10 &&& 0xE0) >>> 5
def mset (c : FormatCommand) : Nat := c.dword10 &&& 0x10
def lbaf (c : FormatCommand) : Nat := c.dword10 &&& 0x0F

def invalid (c : FormatCommand) : Bool :=
  (c.ses ≠ 0 ∧ c.ses ≠ 1) ∨ c.pil ≠ 0 ∨ c.mset ≠ 0 ∨ c.pi ≠ 0 ∨ nLBAFormat ≤ c.lbaf

end FormatCommand

/-- The status a Format NVM command is answered with at once, or the request it
sends to HIL, which erases or trims the range. -/
inductive FormatReply where
  | invalidFormat
  | abortInvalidNamespace
  | submitted (range : LPNRange) (erase : Bool)
  deriving DecidableEq, Repr

def formatInformation (d : Device) (usedPageCount : Nat → Nat → Nat) (lbaf : Nat)
    (info : Information) : Information :=
  let lbaSize := d.lbaSize lbaf
  let size := mul64 d.totalLogicalPages d.logicalPageSize / lbaSize
  { info with
    lbaFormatIndex := lbaf
    lbaSize := lbaSize
    size := size
    capacity := size
    utilization :=
      mul64 (usedPageCount info.range.slpn (add64 info.range.slpn info.range.nlp))
        d.logicalPageSize / lbaSize }

def updateInformation (nsid : Nat) (f : Information → Information) :
    List Namespace → List Namespace
  | [] => []
  | ns :: rest =>
      if ns.nsid = nsid then { ns with info := f ns.info } :: rest
      else ns :: updateInformation nsid f rest

def formatNVM (d : Device) (usedPageCount : Nat → Nat → Nat) (c : FormatCommand)
    (s : Subsystem) : FormatReply × Subsystem :=
  if c.invalid then (.invalidFormat, s)
  else
    match s.lNamespaces.find? fun ns => ns.nsid = c.namespaceID with
    | none => (.abortInvalidNamespace, s)
    | some ns =>
        (.submitted ns.info.range (c.ses = 1),
          { s with
            lNamespaces := updateInformation c.namespaceID
              (formatInformation d usedPageCount c.lbaf) s.lNamespaces })

/-! ## Default namespaces -/

/-- `DefaultNamespace` and `LBASize` of the configuration, and what the memory of
the local `Information` holds before it is filled. -/
structure Defaults where
  defaultNamespaces : Nat
  lbaSize : Nat
  uninitialised : Information

def attachLast (namespaces : List Namespace) : List Namespace :=
  match namespaces.getLast? with
  | none => namespaces
  | some last => namespaces.dropLast ++ [{ last with attached := true }]

def Defaults.information (conf : Defaults) (lba : Nat) : Information :=
  { conf.uninitialised with
    lbaFormatIndex := lbaSizes.idxOf lba
    lbaSize := lba
    dataProtectionSettings := 0
    namespaceSharingCapabilities := 0
    range := ⟨0, 0⟩ }

def createDefault (d : Device) (size : Nat) (state : Information × Subsystem) (i : Nat) :
    Except Fault (Information × Subsystem) := do
  let (created, info, s) ←
    createNamespace d (NSID_LOWEST + i) (state.1.ofSize size) state.2
  if created then
    .ok (info, { s with lNamespaces := attachLast s.lNamespaces })
  else .error (.panic "Failed to create namespace")

def blank : Subsystem := ⟨[], 0⟩

def init (d : Device) (conf : Defaults) : Except Fault Subsystem :=
  let nNamespaces := conf.defaultNamespaces % 2 ^ 16
  let lba := conf.lbaSize % 2 ^ 32
  if nNamespaces = 0 then .ok blank
  else if lba ∈ lbaSizes then do
    let totalSize := mul64 d.totalLogicalPages d.logicalPageSize / lba
    let (_, s) ← (List.range nNamespaces).foldlM
      (createDefault d (totalSize / nNamespaces)) (conf.information lba, blank)
    .ok s
  else .error (.panic "Failed to setting LBA size (512B ~ 4KB)")

/-! ## Sequences of commands -/

inductive Command where
  | create (nsid : Nat) (info : Information)
  | destroy (nsid : Nat)
  | format (c : FormatCommand) (usedPageCount : Nat → Nat → Nat)

def execute (d : Device) (s : Subsystem) : Command → Except Fault Subsystem
  | .create nsid info => (createNamespace d nsid info s).map fun out => out.2.2
  | .destroy nsid => .ok (destroyNamespace d nsid s).2
  | .format c usedPageCount => .ok (formatNVM d usedPageCount c s).2

def executeAll (d : Device) (s : Subsystem) (commands : List Command) :
    Except Fault Subsystem :=
  commands.foldlM (execute d) s

def Command.EmptyRange : Command → Prop
  | .create _ info => info.range.nlp = 0
  | _ => True

end Subsystem

end SimpleSSD.HIL.NVMe
