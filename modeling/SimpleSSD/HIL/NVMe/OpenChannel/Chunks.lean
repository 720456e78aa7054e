import SimpleSSD.Foundation.PageLog
import SimpleSSD.Foundation.Repeats
import SimpleSSD.HIL.NVMe.CommandSizes
import SimpleSSD.HIL.NVMe.OpenChannel.Address

/-!
# Chunks of open-channel drives

`OpenChannelSSD20` of `hil/nvme/ocssd.cc`.  A command is turned into pages, each page is checked
against the descriptor of its chunk, and the flash gets the pages that are not marked in the
completion entry.
-/

namespace SimpleSSD.HIL.NVMe.OpenChannelSSD20

open Foundation PAL

def TYPE_MEDIA_AND_DATA_INTEGRITY_ERROR : Nat := 2

def STATUS_DEALLOCATED_OR_UNWRITTEN_LOGICAL_BLOCK : Nat := 0x87

def mediaError (sc : Nat) : Nat := makeStatus false false TYPE_MEDIA_AND_DATA_INTEGRITY_ERROR sc

structure Reply where
  status : Nat
  dword0 : Nat
  reserved : Nat
  deriving DecidableEq, Repr

namespace Reply

def zero : Reply := ⟨0, 0, 0⟩

def mark (resp : Reply) (idx : Nat) : Reply :=
  if idx ≤ 0xFFFFFFFF then { resp with dword0 := resp.dword0 ||| idx }
  else { resp with reserved := resp.reserved ||| idx >>> 32 }

def mask (resp : Reply) : Nat := resp.reserved <<< 32 % 2 ^ 64 ||| resp.dword0

end Reply

def convertUnit (cfg : PAL.Config) (lbaList : List Nat) (block mode : Bool) :
    List CPDPBP × List ChunkUpdateEntry :=
  let lbas := if mode then lbaList
    else (lbaList.head?.bind fun front => lbaList.getLast?.map fun back =>
      List.range' front (back - front)).getD []
  lbas.foldl (fun (list, chunk) lba =>
    let (temp, entry) := convert cfg lba
    if list.getLast?.any (OpenChannelSSD12.repeats block · temp) then (list, chunk)
    else (list ++ [temp], chunk ++ [entry])) ([], [])

structure Loop where
  pDescriptor : List ChunkDescriptor
  err : Bool
  idx : Nat
  resp : Reply

/-- What a command does with a descriptor: the error flag, the status if it sets one, and the
descriptor behind it. -/
abbrev Visit := Bool → ChunkDescriptor → Nat → Bool × Option Nat × ChunkDescriptor

def Loop.visit (visit : Visit) (s : Loop) (entry : ChunkUpdateEntry) : Except Fault Loop :=
  match s.pDescriptor[entry.pDesc]? with
  | none => .error .undefined
  | some desc =>
      let (err, status, desc) := visit s.err desc entry.pageIdx
      let resp := status.elim s.resp fun status => { s.resp with status := status }
      let resp := if err then resp.mark s.idx else resp
      .ok ⟨s.pDescriptor.set entry.pDesc desc, err, s.idx <<< 1 % 2 ^ 64, resp⟩

def removeInvalid (mask : Nat) (list : List CPDPBP) : List CPDPBP :=
  (list.foldl (fun (kept, idx) addr =>
    (if mask &&& idx ≠ 0 then kept else kept ++ [addr], idx <<< 1 % 2 ^ 64)) ([], 1)).1

inductive PALCall where
  | read (addr : CPDPBP)
  | write (addr : CPDPBP)
  | erase (addr : CPDPBP)
  deriving DecidableEq, Repr

structure State where
  pDescriptor : List ChunkDescriptor
  calls : List PALCall
  deriving DecidableEq, Repr

def State.init (cfg : PAL.Config) : State := ⟨initDescriptors cfg, []⟩

def internal (cfg : PAL.Config) (visit : Visit) (call : CPDPBP → PALCall) (lbaList : List Nat)
    (block mode : Bool) (s : State) : Except Fault (State × Reply) := do
  let (list, chunk) := convertUnit cfg lbaList block mode
  let loop ← chunk.foldlM (Loop.visit visit) ⟨s.pDescriptor, false, 1, .zero⟩
  let (resp, list) :=
    if loop.err then (loop.resp, removeInvalid loop.resp.mask list)
    else ({ loop.resp with dword0 := 0xFFFFFFFF, reserved := 0xFFFFFFFF }, list)
  .ok (⟨loop.pDescriptor, s.calls ++ list.map call⟩, resp)

def readVisit : Visit := fun err desc _ =>
  (err, if desc.chunkState = some .offline then
    some (mediaError STATUS_DEALLOCATED_OR_UNWRITTEN_LOGICAL_BLOCK) else none, desc)

/-- The flag stays set for the entries behind the first that is out of order. -/
def writeVisit (cfg : PAL.Config) : Visit := fun err desc pageIdx =>
  let writeSize := (Geometry.of cfg).writeSize
  if err ∨ desc.chunkState = some .offline ∨ desc.chunkState = some .closed ∨
      desc.chunkState = some .open ∧ pageIdx < desc.writePointer / writeSize then
    (true, some (mediaError 0xF2), desc)
  else
    (false, none, { desc with
      writePointer := (pageIdx + 1) * writeSize % 2 ^ 32
      chunkState := some (if pageIdx = cfg.page - 1 then .closed else .open) })

def eraseVisit : Visit := fun err desc _ =>
  match desc.chunkState with
  | some .offline => (true, some (mediaError 0xC0), desc)
  | some .free | some .open => (true, some (mediaError 0xC1), desc)
  | some .closed | none => (err, none, { desc with writePointer := 0, chunkState := some .free })

def readInternal (cfg : PAL.Config) (lbaList : List Nat) (mode : Bool) :=
  internal cfg readVisit .read lbaList false mode

def writeInternal (cfg : PAL.Config) (lbaList : List Nat) (mode : Bool) :=
  internal cfg (writeVisit cfg) .write lbaList false mode

def eraseInternal (cfg : PAL.Config) (lbaList : List Nat) (mode : Bool) :=
  internal cfg eraseVisit .erase lbaList true mode

/-- The words of a vector command, and the memory of the host. -/
structure Vector where
  slba : Nat
  dword12 : Nat
  memory : Nat → Nat

def Vector.nlb (v : Vector) : Nat := v.dword12 % 2 ^ 6 + 1

/-- One address is in the command, more of them are in memory. -/
def Vector.lbaList (v : Vector) : List Nat :=
  if 1 < v.nlb then (List.range v.nlb).map fun i => v.memory (v.slba + i * 8) else [v.slba]

inductive Command where
  | read (slba dword12 : Nat)
  | write (slba dword12 : Nat)
  | datasetManagement (dword11 : Nat)
  | vectorChunkRead (v : Vector)
  | vectorChunkWrite (v : Vector)
  | vectorChunkReset (v : Vector)

def scalarBlocks (dword12 : Nat) : Nat := (dword12 % 2 ^ 16 + 1) % 2 ^ 16

/-- The two numbers go in as if they were the two ends of a range. -/
def submitCommand (cfg : PAL.Config) (s : State) : Command → Except Fault (State × Reply)
  | .read slba dword12 =>
      if scalarBlocks dword12 = 0 then .ok (s, .zero)
      else readInternal cfg [slba, scalarBlocks dword12] false s
  | .write slba dword12 =>
      if scalarBlocks dword12 = 0 then .ok (s, .zero)
      else writeInternal cfg [slba, scalarBlocks dword12] false s
  -- a DMA context is used as if it were the context of the command
  | .datasetManagement dword11 =>
      if dword11 &&& 0x04 = 0 then .ok (s, .zero) else .error .undefined
  | .vectorChunkRead v => readInternal cfg v.lbaList true s
  | .vectorChunkWrite v => writeInternal cfg v.lbaList true s
  | .vectorChunkReset v => eraseInternal cfg v.lbaList true s

end SimpleSSD.HIL.NVMe.OpenChannelSSD20
