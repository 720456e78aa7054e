import Mathlib.Data.List.Sort
import Mathlib.Algebra.Order.Ring.Rat
import SimpleSSD.FTL.Block
import SimpleSSD.Foundation.Fallible

/-!
# The page mapping

`ftl/page_mapping.cc`.  The hash maps of mappings and of blocks in use are
partial functions; where the code iterates over the blocks, the order is a
parameter.  Float comparisons and float weights are parameters of the
configuration.

`accesses`, `contents` and `host` are observations that no function of the
mapping reads: the accesses to flash and DRAM, the version each physical unit
holds, and what the host has stored.
-/

namespace SimpleSSD.FTL

open SimpleSSD.Foundation

structure Parameter where
  totalPhysicalBlocks : Nat
  totalLogicalBlocks : Nat
  pagesInBlock : Nat
  ioUnitInPage : Nat
  pageCountToMaxPerf : Nat
  deriving DecidableEq, Repr

structure PALRequest where
  blockIndex : Nat
  pageIndex : Nat
  ioFlag : List Bool
  deriving DecidableEq, Repr

inductive Access where
  | palRead (req : PALRequest)
  | palWrite (req : PALRequest)
  | palErase (req : PALRequest)
  | dramRead (size : Nat)
  | dramWrite (size : Nat)
  deriving DecidableEq, Repr

inductive CPUFunction where
  | read
  | write
  | trim
  | format
  | readInternal
  | writeInternal
  | trimInternal
  | eraseInternal
  | selectVictimBlock
  | doGarbageCollection
  deriving DecidableEq, Repr

/-- The devices below: the tick at which an access is finished, from the
accesses before it, and the firmware latencies.  `sum` adds up ticks. -/
structure Timing where
  finish : List Access → Access → Tick → Tick
  latency : CPUFunction → Tick
  sum : Tick → Tick → Tick := add64

def Timing.applyLatency (timing : Timing) (function : CPUFunction) (tick : Tick) : Tick :=
  timing.sum tick (timing.latency function)

inductive GCMode where
  | mode0
  | mode1
  | other
  deriving DecidableEq, Repr

inductive EvictPolicy where
  | greedy
  | costBenefit
  | random
  | dChoice
  | other
  deriving DecidableEq, Repr

structure Config where
  param : Parameter
  bRandomTweak : Bool
  gcMode : GCMode
  policy : EvictPolicy
  dChoiceParam : Nat
  /-- blocks to reclaim in mode 0 -/
  reclaimBlock : Nat
  /-- blocks to reclaim in mode 1, from the number of free blocks -/
  reclaimTarget : Nat → Nat
  /-- `freeBlockRatio() < gcThreshold`, from the number of free blocks -/
  belowThreshold : Nat → Bool
  /-- the cost-benefit weight, from the valid units and the age -/
  costBenefit : Nat → Tick → ℚ
  badBlockThreshold : Nat
  timing : Timing

namespace Config

variable (cfg : Config)

def bitsetSize : Nat := if cfg.bRandomTweak then cfg.param.ioUnitInPage else 1

def slotOf (unit : Nat) : Nat := if cfg.bRandomTweak then unit else 0

def unmapped : Nat × Nat := (cfg.param.totalPhysicalBlocks, cfg.param.pagesInBlock)

def live (entry : Nat × Nat) : Bool :=
  decide (entry.1 < cfg.param.totalPhysicalBlocks) &&
    decide (entry.2 < cfg.param.pagesInBlock)

def unitFlags (size idx : Nat) : List Bool :=
  if cfg.bRandomTweak then (List.range size).map (· == idx) else List.replicate size true

end Config

/-- A request from the cache layer or the initial filling: one flag for each
I/O unit, or without the tweak a single flag for the whole page. -/
structure Request (cfg : Config) where
  lpn : Nat
  ioFlag : List Bool
  sized : ioFlag.length = cfg.param.ioUnitInPage ∨
    (cfg.bRandomTweak = false ∧ ioFlag.length = 1)

namespace Request

variable {cfg : Config} (req : Request cfg)

def test (idx : Nat) : Bool := req.ioFlag.getD idx false

def selects (idx : Nat) : Bool := req.test idx || !cfg.bRandomTweak

def hostUnit (unit : Nat) : Bool :=
  if req.ioFlag.length = cfg.param.ioUnitInPage then req.test unit else true

end Request

/-- Choices the language or a random source makes during one write. -/
structure Choices where
  /-- iteration order of the blocks in use -/
  iterate : List Nat → List Nat
  iterate_perm : ∀ keys, (iterate keys).Perm keys
  /-- random draws of the victim selection -/
  draws : List Nat

/-- What the host has stored: the version it last wrote to each unit, and the
mapping entries it has written since their last trim. -/
structure HostRecord where
  latest : Nat → Nat → Option Nat
  written : Nat → Nat → Bool
  clock : Nat

namespace HostRecord

variable {cfg : Config}

def empty : HostRecord where
  latest := fun _ _ => none
  written := fun _ _ => false
  clock := 0

def write (req : Request cfg) (host : HostRecord) : HostRecord where
  clock := host.clock + 1
  written := fun lpn slot =>
    (lpn == req.lpn && decide (slot < cfg.bitsetSize) && req.selects slot) ||
      host.written lpn slot
  latest := fun lpn unit =>
    if lpn = req.lpn ∧ req.hostUnit unit = true ∧ req.selects (cfg.slotOf unit) = true then
      some host.clock
    else host.latest lpn unit

def trim (lpn : Nat) (host : HostRecord) : HostRecord :=
  { host with
    written := fun lpn' slot => lpn' != lpn && host.written lpn' slot
    latest := fun lpn' unit => if lpn' = lpn then none else host.latest lpn' unit }

end HostRecord

structure PageMapping where
  table : Nat → Option (Nat → Nat × Nat)
  blocks : Nat → Option Block
  freeBlocks : List Block
  nFreeBlocks : Nat
  lastFreeBlock : List Nat
  lastFreeBlockIOMap : List Bool
  lastFreeBlockIndex : Nat
  bReclaimMore : Bool
  accesses : List Access
  contents : Nat → Nat → Nat → Option Nat
  host : HostRecord

namespace PageMapping

variable (cfg : Config)

def access (a : Access) (tick : Tick) (s : PageMapping) : Tick × PageMapping :=
  (cfg.timing.finish s.accesses a tick, { s with accesses := a :: s.accesses })

def setBlock (b : Nat) (blk : Block) (s : PageMapping) : PageMapping :=
  { s with blocks := Function.update s.blocks b (some blk) }

def setEntry (lpn idx : Nat) (entry : Nat × Nat) (s : PageMapping) : PageMapping :=
  { s with
    table := Function.update s.table lpn
      ((s.table lpn).map fun entries => Function.update entries idx entry) }

/-! ## Free blocks -/

/-- The first free block of the wanted class, or else the first of all. -/
def takeFree (idx : Nat) (free : List Block) : Option (Block × List Block) :=
  match free.find? fun blk => blk.idx % cfg.param.pageCountToMaxPerf == idx with
  | some blk =>
      some (blk, free.eraseP fun blk => blk.idx % cfg.param.pageCountToMaxPerf == idx)
  | none =>
      match free with
      | [] => none
      | blk :: rest => some (blk, rest)

def getFreeBlock (idx : Nat) (s : PageMapping) : Except Fault (Nat × PageMapping) :=
  if cfg.param.pageCountToMaxPerf ≤ idx then .error (.panic "Index out of range")
  else if s.nFreeBlocks = 0 then .error (.panic "No free block left")
  else
    match takeFree cfg idx s.freeBlocks with
    | none => .error .undefined
    | some (blk, rest) =>
        if (s.blocks blk.idx).isSome then .error (.panic "Corrupted")
        else
          .ok (blk.idx, { s with
            blocks := Function.update s.blocks blk.idx (some blk)
            freeBlocks := rest
            nFreeBlocks := s.nFreeBlocks - 1 })

def rotate (iomap : List Bool) (s : PageMapping) : PageMapping :=
  if !cfg.bRandomTweak || (s.lastFreeBlockIOMap.zipWith (· && ·) iomap).any id then
    { s with
      lastFreeBlockIndex :=
        if s.lastFreeBlockIndex + 1 = cfg.param.pageCountToMaxPerf then 0
        else s.lastFreeBlockIndex + 1
      lastFreeBlockIOMap := iomap }
  else { s with lastFreeBlockIOMap := s.lastFreeBlockIOMap.zipWith (· || ·) iomap }

def getLastFreeBlock (iomap : List Bool) (s : PageMapping) :
    Except Fault (Nat × PageMapping) :=
  let s := rotate cfg iomap s
  match s.lastFreeBlock[s.lastFreeBlockIndex]? with
  | none => .error .outOfRange
  | some last =>
      match s.blocks last with
      | none => .error (.panic "Corrupted")
      | some blk =>
          if blk.getNextWritePageIndex = cfg.param.pagesInBlock then do
            let (fresh, s) ← getFreeBlock cfg s.lastFreeBlockIndex s
            .ok (fresh, { s with
              lastFreeBlock := s.lastFreeBlock.set s.lastFreeBlockIndex fresh
              bReclaimMore := true })
          else .ok (last, s)

/-! ## Victim selection -/

def blockKeys (s : PageMapping) : List Nat :=
  (List.range cfg.param.totalPhysicalBlocks).filter fun b => (s.blocks b).isSome

def victimWeight (tick : Tick) (blk : Block) : ℚ :=
  match cfg.policy with
  | .costBenefit =>
      cfg.costBenefit blk.getValidPageCountRaw (sub64 tick blk.lastAccessed)
  | _ => blk.getValidPageCountRaw

def calculateVictimWeight (choices : Choices) (tick : Tick) (s : PageMapping) :
    Except Fault (List (Nat × ℚ)) :=
  if cfg.policy = .other then .error (.panic "Invalid evict policy")
  else
    .ok ((choices.iterate (s.blockKeys cfg)).filterMap fun b =>
      match s.blocks b with
      | none => none
      | some blk =>
          if blk.getNextWritePageIndex = cfg.param.pagesInBlock then
            some (b, victimWeight cfg tick blk)
          else none)

/-- Draw `wanted` different candidates; a candidate that was drawn is marked. -/
def drawCandidates : Nat → List Nat → List (Option (Nat × ℚ)) →
    Except Fault (List (Nat × ℚ))
  | 0, _, _ => .ok []
  | _ + 1, [], _ => .error .noDraw
  | wanted + 1, idx :: draws, weight =>
      match weight[idx]? with
      | none => .error .outOfRange
      | some none => drawCandidates (wanted + 1) draws weight
      | some (some candidate) => do
          let selected ← drawCandidates wanted draws (weight.set idx none)
          .ok (candidate :: selected)

def reclaimCount (s : PageMapping) : Except Fault Nat :=
  match cfg.gcMode with
  | .mode0 => .ok cfg.reclaimBlock
  | .mode1 => .ok (cfg.reclaimTarget s.nFreeBlocks)
  | .other => .error (.panic "Invalid GC mode")

def sampleVictims (choices : Choices) (nBlocks : Nat) (weight : List (Nat × ℚ)) :
    Except Fault (List (Nat × ℚ)) :=
  match cfg.policy with
  | .random => drawCandidates nBlocks choices.draws (weight.map some)
  | .dChoice =>
      drawCandidates (mul64 cfg.dChoiceParam nBlocks) choices.draws (weight.map some)
  | _ => .ok weight

def selectVictimBlock (choices : Choices) (tick : Tick) (s : PageMapping) :
    Except Fault (List Nat × Tick × PageMapping) := do
  let count ← reclaimCount cfg s
  let nBlocks := if s.bReclaimMore then add64 count cfg.param.pageCountToMaxPerf else count
  let s := { s with bReclaimMore := false }
  let weight ← calculateVictimWeight cfg choices tick s
  let candidates ← sampleVictims cfg choices nBlocks weight
  let sorted := candidates.insertionSort fun a b => a.2 ≤ b.2
  .ok ((sorted.take nBlocks).map Prod.fst,
    cfg.timing.applyLatency .selectVictimBlock tick, s)

/-! ## Erase -/

/-- Insert behind the last free block with no more erases. -/
def insertFree (blk : Block) (free : List Block) : List Block :=
  let worn := fun other : Block => decide (blk.eraseCount < other.eraseCount)
  (free.reverse.dropWhile worn).reverse ++ blk :: (free.reverse.takeWhile worn).reverse

/-- The search for the place steps back from the end, and an empty list has nothing there. -/
def reinsert (blk : Block) (s : PageMapping) : Except Fault PageMapping :=
  if blk.eraseCount < cfg.badBlockThreshold then
    if s.freeBlocks.isEmpty then .error .undefined
    else .ok { s with
      freeBlocks := insertFree blk s.freeBlocks
      nFreeBlocks := s.nFreeBlocks + 1 }
  else .ok s

def eraseInternal (req : PALRequest) (tick : Tick) (s : PageMapping) :
    Except Fault (Tick × PageMapping) :=
  match s.blocks req.blockIndex with
  | none => .error (.panic "No such block")
  | some blk =>
      if blk.getValidPageCount ≠ 0 then
        .error (.panic "There are valid pages in victim block")
      else do
        let done := access cfg (.palErase req) tick { s with
          contents := Function.update s.contents req.blockIndex fun _ _ => none }
        let s ← reinsert cfg blk.erase done.2
        .ok (cfg.timing.applyLatency .eraseInternal done.1,
          { s with blocks := Function.update s.blocks req.blockIndex none })

/-! ## Garbage collection -/

structure Copy where
  source : Nat × Nat
  req : PALRequest
  deriving DecidableEq, Repr

/-- Requests are collected first and carried out afterwards. -/
structure Collection where
  mapping : PageMapping
  tick : Tick
  reads : List PALRequest
  writes : List Copy

/-- Move the mapping of one unit of a live page to the open block `dst`. -/
def relocateUnit (block page dst : Nat) (bit : Nat → Bool) (lpns : Nat → Nat)
    (w : Collection) (idx : Nat) : Except Fault Collection :=
  if bit idx then
    match w.mapping.blocks block with
    | none => .error .undefined
    | some blk => do
        let blk ← blk.invalidate page idx
        let s := w.mapping.setBlock block blk
        match s.table (lpns idx) with
        | none => .error (.panic "Invalid mapping table entry")
        | some _ =>
            let done := access cfg (.dramRead (8 * cfg.param.ioUnitInPage)) w.tick s
            match done.2.blocks dst with
            | none => .error .undefined
            | some free => do
                let newPage := free.nextWritePageIndex idx
                let s := done.2.setEntry (lpns idx) idx (dst, newPage)
                let free ← free.write newPage (lpns idx) idx 0
                let flag := cfg.unitFlags cfg.param.ioUnitInPage idx
                .ok { w with
                  mapping := s.setBlock dst free
                  tick := done.1
                  writes := w.writes ++ [⟨(block, page), ⟨dst, newPage, flag⟩⟩] }
  else .ok w

/-- The units of a page to relocate; without the tweak all of them. -/
def liveUnits (info : Nat → Bool) : Nat → Bool :=
  if cfg.bRandomTweak then info else fun unit => decide (unit < cfg.param.ioUnitInPage)

def relocatePage (block : Nat) (w : Collection) (page : Nat) : Except Fault Collection :=
  match w.mapping.blocks block with
  | none => .error .undefined
  | some blk =>
      let info := blk.getPageInfo page
      if (List.range cfg.param.ioUnitInPage).any info then do
        let bit := liveUnits cfg info
        let iomap := (List.range cfg.param.ioUnitInPage).map bit
        let (dst, s) ← getLastFreeBlock cfg iomap w.mapping
        (List.range cfg.bitsetSize).foldlM
          (relocateUnit cfg block page dst bit (blk.lpns page))
          { w with mapping := s, reads := w.reads ++ [⟨block, page, iomap⟩] }
      else .ok w

def collectBlock (w : Collection) (block : Nat) : Except Fault Collection :=
  match w.mapping.blocks block with
  | none => .error (.panic "Invalid block")
  | some _ => (List.range cfg.param.pagesInBlock).foldlM (relocatePage cfg block) w

def issueAll (beginAt : Tick) (requests : List Access) (finishedAt : Tick)
    (s : PageMapping) : Tick × PageMapping :=
  requests.foldl (fun (acc : Tick × PageMapping) a =>
    let done := access cfg a beginAt acc.2
    (max acc.1 done.1, done.2)) (finishedAt, s)

/-- Whether a flash request covers a unit; flags of another size than the
superpage stand for the whole of it. -/
def PALRequest.covers (req : PALRequest) (unit : Nat) : Bool :=
  if req.ioFlag.length = cfg.param.ioUnitInPage then req.ioFlag.getD unit false else true

/-- Contents after the queued copies: all are read before the first is written. -/
def flush (before : Nat → Nat → Nat → Option Nat) (writes : List Copy) :
    Nat → Nat → Nat → Option Nat :=
  writes.foldl (fun contents copy => fun b p u =>
    if b = copy.req.blockIndex ∧ p = copy.req.pageIndex ∧
        PALRequest.covers cfg copy.req u = true then
      before copy.source.1 copy.source.2 u
    else contents b p u) before

def doGarbageCollection (blocksToReclaim : List Nat) (tick : Tick) (s : PageMapping) :
    Except Fault (Tick × PageMapping) :=
  if blocksToReclaim = [] then .ok (tick, s)
  else do
    let w ← blocksToReclaim.foldlM (collectBlock cfg) ⟨s, tick, [], []⟩
    let reads := issueAll cfg w.tick (w.reads.map .palRead) tick w.mapping
    let writes := issueAll cfg reads.1 (w.writes.map fun copy => .palWrite copy.req) tick
      { reads.2 with contents := flush cfg reads.2.contents w.writes }
    let erases ← blocksToReclaim.foldlM
      (fun (acc : Tick × PageMapping) block => do
        let done ← eraseInternal cfg
          ⟨block, 0, List.replicate cfg.param.ioUnitInPage true⟩ reads.1 acc.2
        .ok (max acc.1 done.1, done.2)) (tick, writes.2)
    .ok (cfg.timing.applyLatency .doGarbageCollection (max writes.1 erases.1), erases.2)

/-! ## Read -/

def readUnit (req : Request cfg) (entries : Nat → Nat × Nat) (tick : Tick)
    (acc : Tick × PageMapping) (idx : Nat) : Except Fault (Tick × PageMapping) :=
  if req.selects idx && cfg.live (entries idx) then
    match acc.2.blocks (entries idx).1 with
    | none => .error (.panic "Block is not in use")
    | some blk => do
        let blk ← blk.read (entries idx).2 idx tick
        let done := access cfg
          (.palRead ⟨(entries idx).1, (entries idx).2, cfg.unitFlags req.ioFlag.length idx⟩) tick
          (acc.2.setBlock (entries idx).1 blk)
        .ok (max acc.1 done.1, done.2)
  else .ok acc

def readInternal (req : Request cfg) (tick : Tick) (s : PageMapping) :
    Except Fault (Tick × PageMapping) :=
  match s.table req.lpn with
  | none => .ok (tick, s)
  | some entries => do
      let looked := access cfg
        (.dramRead (if cfg.bRandomTweak then 8 * req.ioFlag.count true else 8)) tick s
      let done ← (List.range cfg.bitsetSize).foldlM
        (readUnit cfg req entries looked.1) (tick, looked.2)
      .ok (cfg.timing.applyLatency .readInternal done.1, done.2)

/-! ## Write -/

def invalidateUnit (req : Request cfg) (entries : Nat → Nat × Nat) (s : PageMapping)
    (idx : Nat) : Except Fault PageMapping :=
  if req.selects idx && cfg.live (entries idx) then
    match s.blocks (entries idx).1 with
    | none => .error .undefined
    | some blk => do
        let blk ← blk.invalidate (entries idx).2 idx
        .ok (s.setBlock (entries idx).1 blk)
  else .ok s

/-- Invalidate what the request overwrites, or create an empty mapping. -/
def detach (req : Request cfg) (s : PageMapping) : Except Fault PageMapping :=
  match s.table req.lpn with
  | none =>
      .ok { s with table := Function.update s.table req.lpn (some fun _ => cfg.unmapped) }
  | some entries => (List.range cfg.bitsetSize).foldlM (invalidateUnit cfg req entries) s

def fetch (entry : Nat × Nat) (unit : Nat) (s : PageMapping) : Option Nat :=
  if cfg.live entry then s.contents entry.1 entry.2 unit else none

/-- Write the units of one mapping entry into the open block; units the host
does not write are merged from the old page when it is read before. -/
def writeUnit (req : Request cfg) (block stamp : Nat) (tick : Tick)
    (readBeforeWrite sendToPAL : Bool) (acc : Tick × PageMapping) (idx : Nat) :
    Except Fault (Tick × PageMapping) :=
  if req.selects idx then
    match acc.2.blocks block, acc.2.table req.lpn with
    | some blk, some entries => do
        let pageIndex := blk.nextWritePageIndex idx
        let old := entries idx
        let blk ← blk.write pageIndex req.lpn idx tick
        let s := acc.2.setBlock block blk
        let merged := fun unit =>
          if readBeforeWrite && sendToPAL then fetch cfg old unit s else none
        let fetched :=
          if readBeforeWrite && sendToPAL then
            access cfg (.palRead ⟨old.1, old.2, req.ioFlag.map not⟩) tick s
          else (tick, s)
        let s := fetched.2.setEntry req.lpn idx (block, pageIndex)
        let done :=
          if sendToPAL then
            access cfg (.palWrite ⟨block, pageIndex, cfg.unitFlags req.ioFlag.length idx⟩)
                fetched.1 s
          else (fetched.1, s)
        .ok (max acc.1 done.1, { done.2 with
          contents := fun b p unit =>
            if b = block ∧ p = pageIndex ∧ unit < cfg.param.ioUnitInPage ∧
                cfg.slotOf unit = idx then
              if req.hostUnit unit then some stamp else merged unit
            else done.2.contents b p unit })
    | _, _ => .error .undefined
  else .ok acc

def collectIfNeeded (choices : Choices) (tick : Tick) (sendToPAL : Bool)
    (s : PageMapping) : Except Fault PageMapping :=
  if cfg.belowThreshold s.nFreeBlocks then
    if sendToPAL then do
      let (list, beginAt, s) ← selectVictimBlock cfg choices tick s
      let done ← doGarbageCollection cfg list beginAt s
      .ok done.2
    else .error (.panic "ftl: GC triggered while in initialization")
  else .ok s

def accessMapping (req : Request cfg) (tick : Tick) (sendToPAL : Bool) (s : PageMapping) :
    Tick × PageMapping :=
  let size := if cfg.bRandomTweak then 8 * req.ioFlag.count true else 8
  if sendToPAL then
    let read := access cfg (.dramRead size) tick s
    access cfg (.dramWrite size) read.1 read.2
  else (tick, s)

def writeInternal (choices : Choices) (req : Request cfg) (tick : Tick) (sendToPAL : Bool)
    (s : PageMapping) : Except Fault (Tick × PageMapping) := do
  let s ← detach cfg req s
  let (block, s) ← getLastFreeBlock cfg req.ioFlag s
  if (s.blocks block).isNone then .error (.panic "No such block")
  else
    let looked := accessMapping cfg req tick sendToPAL s
    let readBeforeWrite := !cfg.bRandomTweak && !req.ioFlag.all id
    let done ← (List.range cfg.bitsetSize).foldlM
      (writeUnit cfg req block s.host.clock looked.1 readBeforeWrite sendToPAL)
      (tick, { looked.2 with host := looked.2.host.write req })
    let finished :=
      if sendToPAL then cfg.timing.applyLatency .writeInternal done.1 else looked.1
    let s ← collectIfNeeded cfg choices finished sendToPAL done.2
    .ok (finished, s)

/-! ## Trim -/

def trimUnit (entries : Nat → Nat × Nat) (s : PageMapping) (idx : Nat) :
    Except Fault PageMapping :=
  match s.blocks (entries idx).1 with
  | none => .error (.panic "Block is not in use")
  | some blk => do
      let blk ← blk.invalidate (entries idx).2 idx
      .ok (s.setBlock (entries idx).1 blk)

def trimInternal (req : Request cfg) (tick : Tick) (s : PageMapping) :
    Except Fault (Tick × PageMapping) :=
  match s.table req.lpn with
  | none => .ok (tick, { s with host := s.host.trim req.lpn })
  | some entries => do
      let looked := access cfg
        (.dramRead (if cfg.bRandomTweak then 8 * req.ioFlag.count true else 8)) tick s
      let s ← (List.range cfg.bitsetSize).foldlM (trimUnit entries) looked.2
      .ok (cfg.timing.applyLatency .trimInternal looked.1, { s with
        table := Function.update s.table req.lpn none
        host := s.host.trim req.lpn })

/-! ## Interface -/

def read (req : Request cfg) (tick : Tick) (s : PageMapping) :
    Except Fault (Tick × PageMapping) := do
  let done ←
    (if 0 < req.ioFlag.count true then readInternal cfg req tick s else .ok (tick, s))
  .ok (cfg.timing.applyLatency .read done.1, done.2)

def write (choices : Choices) (req : Request cfg) (tick : Tick) (s : PageMapping) :
    Except Fault (Tick × PageMapping) := do
  let done ←
    (if 0 < req.ioFlag.count true then writeInternal cfg choices req tick true s
    else .ok (tick, s))
  .ok (cfg.timing.applyLatency .write done.1, done.2)

def trim (req : Request cfg) (tick : Tick) (s : PageMapping) :
    Except Fault (Tick × PageMapping) := do
  let done ← trimInternal cfg req tick s
  .ok (cfg.timing.applyLatency .trim done.1, done.2)

/-! ## Construction and filling -/

def construct : Except Fault PageMapping :=
  (List.range cfg.param.pageCountToMaxPerf).foldlM (fun s i => do
    let (block, s) ← getFreeBlock cfg i s
    .ok { s with lastFreeBlock := s.lastFreeBlock.set i block })
    { table := fun _ => none
      blocks := fun _ => none
      freeBlocks := (List.range cfg.param.totalPhysicalBlocks).map fun idx =>
        .new idx cfg.param.pagesInBlock cfg.param.ioUnitInPage
      nFreeBlocks := cfg.param.totalPhysicalBlocks
      lastFreeBlock := List.replicate cfg.param.pageCountToMaxPerf 0
      lastFreeBlockIOMap := List.replicate cfg.param.ioUnitInPage false
      lastFreeBlockIndex := 0
      bReclaimMore := false
      accesses := []
      contents := fun _ _ _ => none
      host := .empty }

inductive FillingMode where
  | mode0
  | mode1
  | mode2
  deriving DecidableEq, Repr

/-- The numbers of pages `initializeFTL` computes from the fill ratios, and its
random draws. -/
structure Filling where
  mode : FillingMode
  nPagesToWarmup : Nat
  nPagesToInvalidate : Nat
  warmupDraw : Nat → Nat
  invalidateDraw : Nat → Nat

def Filling.lpns (filling : Filling) : List Nat :=
  match filling.mode with
  | .mode0 => List.range filling.nPagesToWarmup ++ List.range filling.nPagesToInvalidate
  | .mode1 => List.range filling.nPagesToWarmup ++
      (List.range filling.nPagesToInvalidate).map filling.invalidateDraw
  | .mode2 => (List.range filling.nPagesToWarmup).map filling.warmupDraw ++
      (List.range filling.nPagesToInvalidate).map filling.invalidateDraw

def fillRequest (lpn : Nat) : Request cfg where
  lpn := lpn
  ioFlag := List.replicate cfg.param.ioUnitInPage true
  sized := .inl (List.length_replicate)

def initializeFTL (choices : Choices) (filling : Filling) (s : PageMapping) :
    Except Fault PageMapping :=
  filling.lpns.foldlM (fun s lpn => do
    let done ← writeInternal cfg choices (fillRequest cfg lpn) 0 false s
    .ok done.2) s

/-! ## Reads and trims that return -/

section Returns

variable {cfg : Config} {req : Request cfg} {entries : Nat → Nat × Nat} {tick tick' : Tick}
  {s s' : PageMapping} {acc acc' done : Tick × PageMapping} {idx : Nat}

theorem readUnit_eq_ok (h : readUnit cfg req entries tick acc idx = .ok acc') :
    (¬(req.selects idx && cfg.live (entries idx)) = true ∧ acc' = acc) ∨
    ∃ blk blk', (req.selects idx && cfg.live (entries idx)) = true ∧
      acc.2.blocks (entries idx).1 = some blk ∧ blk.read (entries idx).2 idx tick = .ok blk' ∧
      ∃ read, read = access cfg
          (.palRead ⟨(entries idx).1, (entries idx).2, cfg.unitFlags req.ioFlag.length idx⟩) tick
          (acc.2.setBlock (entries idx).1 blk') ∧
        acc' = (max acc.1 read.1, read.2) := by
  unfold readUnit at h
  by_cases hsel : (req.selects idx && cfg.live (entries idx)) = true
  · rw [if_pos hsel] at h
    cases hblk : acc.2.blocks (entries idx).1 with
    | none =>
        rw [hblk] at h
        cases h
    | some blk =>
        rw [hblk] at h
        obtain ⟨blk', hread, hpair⟩ := bind_eq_ok.1 h
        cases hpair
        exact .inr ⟨blk, blk', hsel, rfl, hread, _, rfl, rfl⟩
  · rw [if_neg hsel] at h
    cases h
    exact .inl ⟨hsel, rfl⟩

def lookUp (cfg : Config) (req : Request cfg) (tick : Tick) (s : PageMapping) :
    Tick × PageMapping :=
  access cfg (.dramRead (if cfg.bRandomTweak then 8 * req.ioFlag.count true else 8)) tick s

theorem readInternal_eq_ok (h : readInternal cfg req tick s = .ok done) :
    (s.table req.lpn = none ∧ done = (tick, s)) ∨
    ∃ entries last, s.table req.lpn = some entries ∧
      (List.range cfg.bitsetSize).foldlM (readUnit cfg req entries (lookUp cfg req tick s).1)
        (tick, (lookUp cfg req tick s).2) = .ok last ∧
      done = (cfg.timing.applyLatency .readInternal last.1, last.2) := by
  unfold readInternal at h
  cases htable : s.table req.lpn with
  | none =>
      rw [htable] at h
      cases h
      exact .inl ⟨rfl, rfl⟩
  | some entries =>
      rw [htable] at h
      obtain ⟨last, hloop, hpair⟩ := bind_eq_ok.1 h
      cases hpair
      exact .inr ⟨entries, last, rfl, hloop, rfl⟩

theorem read_eq_ok (h : read cfg req tick s = .ok (tick', s')) :
    s' = s ∨
    ∃ entries last, s.table req.lpn = some entries ∧
      (List.range cfg.bitsetSize).foldlM (readUnit cfg req entries (lookUp cfg req tick s).1)
        (tick, (lookUp cfg req tick s).2) = .ok last ∧ s' = last.2 := by
  obtain ⟨done, hdone, hpair⟩ := bind_eq_ok.1 h
  cases hpair
  by_cases hcount : 0 < req.ioFlag.count true
  · rw [if_pos hcount] at hdone
    rcases readInternal_eq_ok hdone with ⟨-, rfl⟩ | ⟨entries, last, htable, hloop, rfl⟩
    · exact .inl rfl
    · exact .inr ⟨entries, last, htable, hloop, rfl⟩
  · rw [if_neg hcount] at hdone
    cases hdone
    exact .inl rfl

theorem trimInternal_eq_ok (h : trimInternal cfg req tick s = .ok done) :
    (s.table req.lpn = none ∧ done = (tick, { s with host := s.host.trim req.lpn })) ∨
    ∃ entries last, s.table req.lpn = some entries ∧
      (List.range cfg.bitsetSize).foldlM (trimUnit entries) (lookUp cfg req tick s).2 = .ok last ∧
      done = (cfg.timing.applyLatency .trimInternal (lookUp cfg req tick s).1, { last with
        table := Function.update last.table req.lpn none
        host := last.host.trim req.lpn }) := by
  unfold trimInternal at h
  cases htable : s.table req.lpn with
  | none =>
      rw [htable] at h
      cases h
      exact .inl ⟨rfl, rfl⟩
  | some entries =>
      rw [htable] at h
      obtain ⟨last, hloop, hpair⟩ := bind_eq_ok.1 h
      cases hpair
      exact .inr ⟨entries, last, rfl, hloop, rfl⟩

end Returns

end PageMapping

end SimpleSSD.FTL
