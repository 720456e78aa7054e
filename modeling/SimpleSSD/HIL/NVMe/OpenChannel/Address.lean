import SimpleSSD.Foundation.Arrays
import SimpleSSD.Foundation.Digits
import SimpleSSD.PAL.Config
import SimpleSSD.Util.Algorithm

/-!
# Addresses of open-channel drives

The addresses of `hil/nvme/ocssd.cc`.  The host learns the lengths of the fields from the drive,
puts its addresses together by them, and the drive takes them apart with masks of its own.
-/

namespace SimpleSSD.HIL.NVMe

open Foundation PAL

def lbaSize : Nat := 4096

/-- `structure` of a drive: channels, ways, blocks, and sectors of a block and of a page. -/
structure Geometry where
  group : Nat
  parallelUnit : Nat
  chunk : Nat
  chunkSize : Nat
  writeSize : Nat
  deriving DecidableEq, Repr

def superPageSize (cfg : PAL.Config) : Nat :=
  if cfg.useMultiPlaneOperation then cfg.pageSize * cfg.plane % 2 ^ 32 else cfg.pageSize

def Geometry.of (cfg : PAL.Config) : Geometry where
  group := cfg.channel
  parallelUnit := cfg.package * cfg.die % 2 ^ 32
  chunk := cfg.block * (if cfg.useMultiPlaneOperation then 1 else cfg.plane) % 2 ^ 32
  chunkSize := cfg.page * superPageSize cfg % 2 ^ 32 / lbaSize
  writeSize := superPageSize cfg / lbaSize

structure Mask where
  padding : Nat
  channelMask : Nat
  channelShift : Nat
  wayMask : Nat
  wayShift : Nat
  dieMask : Nat
  dieShift : Nat
  planeMask : Nat
  planeShift : Nat
  blockMask : Nat
  blockShift : Nat
  pageMask : Nat
  pageShift : Nat
  sectorMask : Nat

def Mask.cut (word mask shift : Nat) : Nat := (word &&& mask) >>> shift % 2 ^ 32

/-! ## Version 1.2 -/

namespace OpenChannelSSD12

def ppaMask (cfg : PAL.Config) : Mask :=
  let structure' := Geometry.of cfg
  let (sectorMask, pageShift) := generateMask (superPageSize cfg / lbaSize) 0
  let (pageMask, blockShift) := generateMask cfg.page pageShift
  let (blockMask, wayShift) := generateMask structure'.chunk blockShift
  let (wayMask, channelShift) := generateMask structure'.parallelUnit wayShift
  let (channelMask, _) := generateMask structure'.group channelShift
  -- planes and dies have no field of their own
  let sum := sectorMask ^^^ pageMask ^^^ blockMask ^^^ 0 ^^^ 0 ^^^ wayMask ^^^ channelMask
  { padding := 2 ^ 64 - 1 - sum
    channelMask, channelShift, wayMask, wayShift
    dieMask := 0, dieShift := wayShift, planeMask := 0, planeShift := wayShift
    blockMask, blockShift, pageMask, pageShift, sectorMask }

def parsePPA (mask : Mask) (ppa : Nat) : Option CPDPBP :=
  if ppa &&& mask.padding = 0 then
    some {
      channel := Mask.cut ppa mask.channelMask mask.channelShift
      package := Mask.cut ppa mask.wayMask mask.wayShift
      die := Mask.cut ppa mask.dieMask mask.dieShift
      plane := Mask.cut ppa mask.planeMask mask.planeShift
      block := Mask.cut ppa mask.blockMask mask.blockShift
      page := Mask.cut ppa mask.pageMask mask.pageShift }
  else none

def convertUnit (cfg : PAL.Config) (addr : CPDPBP) : CPDPBP :=
  let addr := { addr with die := addr.package % cfg.die, package := addr.package / cfg.die }
  if cfg.useMultiPlaneOperation then { addr with plane := 0 }
  else { addr with plane := addr.block % cfg.plane, block := addr.block / cfg.plane }

/-- Whether an address is of the page before it in a list, or of its block. -/
def repeats (block : Bool) (back temp : CPDPBP) : Bool :=
  back.channel = temp.channel && back.package = temp.package && back.die = temp.die &&
    back.plane = temp.plane && back.block = temp.block && (block || back.page = temp.page)

def mergeList (cfg : PAL.Config) (lbaList : List Nat) (block : Bool) : List CPDPBP :=
  lbaList.foldl (fun list lba =>
    match parsePPA (ppaMask cfg) lba with
    | none => list
    | some temp =>
        let temp := convertUnit cfg temp
        if list.getLast?.any (repeats block · temp) then list else list ++ [temp]) []

structure PPAFormat where
  channel : Nat × Nat
  lun : Nat × Nat
  plane : Nat × Nat
  block : Nat × Nat
  page : Nat × Nat
  sector : Nat × Nat
  deriving DecidableEq, Repr

def deviceIdentification (mask : Mask) : PPAFormat where
  channel := (mask.channelShift % 2 ^ 8, popcount64 mask.channelMask)
  lun := ((ffsl (mask.wayMask ||| mask.dieMask) + 255) % 2 ^ 8,
    popcount64 (mask.wayMask ||| mask.dieMask))
  plane := (mask.planeShift % 2 ^ 8, popcount64 mask.planeMask)
  block := (mask.blockShift % 2 ^ 8, popcount64 mask.blockMask)
  page := (mask.pageShift % 2 ^ 8, popcount64 mask.pageMask)
  sector := (0, popcount64 mask.sectorMask)

end OpenChannelSSD12

/-! ## Version 2.0 -/

structure ChunkAddress where
  g : Nat
  p : Nat
  c : Nat
  l : Nat
  deriving DecidableEq, Repr

inductive ChunkState where
  | free
  | closed
  | «open»
  | offline
  deriving DecidableEq, Repr

/-- `calloc` leaves a state that is none of the four. -/
structure ChunkDescriptor where
  chunkState : Option ChunkState
  chunkType : Nat
  slba : Nat
  nlb : Nat
  writePointer : Nat
  deriving DecidableEq, Repr

structure ChunkUpdateEntry where
  pDesc : Nat
  pageIdx : Nat
  deriving DecidableEq, Repr

namespace OpenChannelSSD20

/-- The fields that are not set here are not read. -/
def ppaMask (cfg : PAL.Config) : Mask :=
  let structure' := Geometry.of cfg
  let (sectorMask, blockShift) := generateMask structure'.chunkSize 0
  let (blockMask, wayShift) := generateMask structure'.chunk blockShift
  let (wayMask, channelShift) := generateMask structure'.parallelUnit wayShift
  let (channelMask, _) := generateMask structure'.group channelShift
  { padding := 0, channelMask, channelShift, wayMask, wayShift
    dieMask := 0, dieShift := 0, planeMask := 0, planeShift := 0
    blockMask, blockShift, pageMask := 0, pageShift := 0, sectorMask }

def makeLBA (mask : Mask) (a : ChunkAddress) : Nat :=
  (a.l &&& mask.sectorMask) ||| (a.c <<< mask.blockShift % 2 ^ 32 &&& mask.blockMask) |||
    (a.p <<< mask.wayShift % 2 ^ 32 &&& mask.wayMask) |||
    (a.g <<< mask.channelShift % 2 ^ 32 &&& mask.channelMask)

def parseLBA (mask : Mask) (lba : Nat) : ChunkAddress where
  g := Mask.cut lba mask.channelMask mask.channelShift
  p := Mask.cut lba mask.wayMask mask.wayShift
  c := Mask.cut lba mask.blockMask mask.blockShift
  l := (lba &&& mask.sectorMask) % 2 ^ 32

def getChunkDescriptor (structure' : Geometry) (g p c : Nat) : Nat :=
  (g * structure'.parallelUnit * structure'.chunk + p * structure'.chunk + c) % 2 ^ 32

def descriptorLength (structure' : Geometry) : Nat :=
  structure'.group * structure'.parallelUnit * structure'.chunk % 2 ^ 32

def chunks (structure' : Geometry) : List (Nat × Nat × Nat) :=
  (List.range structure'.group).flatMap fun g =>
    (List.range structure'.parallelUnit).flatMap fun p =>
      (List.range structure'.chunk).map fun c => (g, p, c)

def initDescriptors (cfg : PAL.Config) : List ChunkDescriptor :=
  (chunks (Geometry.of cfg)).foldl (fun pDescriptor (g, p, c) =>
    pDescriptor.set (getChunkDescriptor (Geometry.of cfg) g p c)
      ⟨some .free, 0x01, makeLBA (ppaMask cfg) ⟨g, p, c, 0⟩, (Geometry.of cfg).chunkSize, 0⟩)
    (List.replicate (descriptorLength (Geometry.of cfg)) ⟨none, 0, 0, 0, 0⟩)

def convert (cfg : PAL.Config) (lba : Nat) : CPDPBP × ChunkUpdateEntry :=
  let structure' := Geometry.of cfg
  let a := parseLBA (ppaMask cfg) lba
  let plane := if cfg.useMultiPlaneOperation then 0 else a.c % cfg.plane
  let block := if cfg.useMultiPlaneOperation then a.c else a.c / cfg.plane
  let page := a.l / structure'.writeSize
  (⟨a.g, a.p / cfg.die, a.p % cfg.die, plane, block, page⟩,
    ⟨getChunkDescriptor structure' a.g a.p a.c, page⟩)

/-- What the geometry page says of the addresses: the lengths of the fields and the numbers of
groups, parallel units, chunks and sectors. -/
structure GeometryPage where
  groupBits : Nat
  parallelUnitBits : Nat
  chunkBits : Nat
  sectorBits : Nat
  group : Nat
  parallelUnit : Nat
  chunk : Nat
  chunkSize : Nat
  writeSize : Nat
  deriving DecidableEq, Repr

def geometry (cfg : PAL.Config) : GeometryPage where
  groupBits := popcount64 (ppaMask cfg).channelMask
  parallelUnitBits := popcount64 (ppaMask cfg).wayMask
  chunkBits := popcount64 (ppaMask cfg).blockMask
  sectorBits := popcount64 (ppaMask cfg).sectorMask
  group := (Geometry.of cfg).group % 2 ^ 16
  parallelUnit := (Geometry.of cfg).parallelUnit % 2 ^ 16
  chunk := (Geometry.of cfg).chunk
  chunkSize := (Geometry.of cfg).chunkSize
  writeSize := (Geometry.of cfg).writeSize

end OpenChannelSSD20

end SimpleSSD.HIL.NVMe
