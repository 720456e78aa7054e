import Mathlib.Logic.Function.Basic
import SimpleSSD.Util.Def

/-!
# The generic cache

`icl/generic_cache.cc`.  The cache is the set and way array of lines with the
staging array of evictions; a pointer to a line is its set and way.  The random
policy draws from a stream, and the flash and DRAM below answer an access with
the tick at which it is finished.
-/

namespace SimpleSSD.ICL

open SimpleSSD.Foundation

structure Line where
  tag : Nat
  lastAccessed : Tick
  insertedAt : Tick
  dirty : Bool
  valid : Bool
  deriving DecidableEq, Repr

def Line.evict (flush : Bool) (finishedAt : Tick) (l : Line) : Line where
  tag := if flush then 0 else l.tag
  lastAccessed := finishedAt
  insertedAt := finishedAt
  dirty := false
  valid := if flush then false else l.valid

structure Request where
  offset : Nat
  length : Nat
  slpn : Nat
  deriving DecidableEq, Repr

structure FTLRequest where
  lpn : Nat
  ioFlag : List Bool
  deriving DecidableEq, Repr

inductive Access where
  | ftlRead (req : FTLRequest)
  | ftlWrite (req : FTLRequest)
  | ftlTrim (req : FTLRequest)
  | ftlFormat (range : LPNRange)
  | dramRead (size : Nat)
  | dramWrite (size : Nat)
  deriving DecidableEq, Repr

inductive CPUFunction where
  | read
  | write
  | flush
  | trim
  | format
  deriving DecidableEq, Repr

inductive EvictPolicy where
  | random
  | fifo
  | leastRecentlyUsed
  deriving DecidableEq, Repr

inductive Mode where
  | superpage
  | all
  deriving DecidableEq, Repr

/-- What the constructor reads: the shape of the flash, the options of the
cache, the devices and the random source. -/
structure Config where
  superPageSize : Nat
  parallelIO : Nat
  ioUnitInPage : Nat
  parallelIO_pos : 0 < parallelIO
  ioUnitInPage_pos : 0 < ioUnitInPage
  bRandomTweak : Bool
  cacheSize : Nat
  /-- the way size option; 0 means fully associative -/
  wayOption : Nat
  prefetchIOCount : Nat
  /-- the float comparison with the prefetch ratio -/
  prefetchReached : Nat → Bool
  useReadCaching : Bool
  useWriteCaching : Bool
  useReadPrefetch : Bool
  /-- `bSuperPage` before the constructor, which only ever sets it -/
  bSuperPageInit : Bool
  prefetchMode : Mode
  evictMode : Mode
  policy : EvictPolicy
  cacheLatency : Tick
  latency : CPUFunction → Tick
  /-- how ticks are added up -/
  sum : Tick → Tick → Tick := add64
  finish : List Access → Access → Tick → Tick
  draw : Nat → Nat
  /-- the distribution is built from the option, before a zero is replaced -/
  draw_lt : ∀ i, draw i < if wayOption = 0 then 2 ^ 32 else wayOption

namespace Config

variable (cfg : Config)

def lineCountInSuperPage : Nat := if cfg.bRandomTweak then cfg.ioUnitInPage else 1

def lineCountInMaxIO : Nat := cfg.parallelIO * cfg.lineCountInSuperPage

def lineSize : Nat :=
  if cfg.bRandomTweak then cfg.superPageSize / cfg.ioUnitInPage else cfg.superPageSize

def bSuperPage : Bool :=
  cfg.superPageSize / cfg.ioUnitInPage != cfg.superPageSize || cfg.bSuperPageInit

def waySize : Nat :=
  if cfg.wayOption = 0 then max (cfg.cacheSize / cfg.lineSize) 1 % 2 ^ 32 else cfg.wayOption

def setSize : Nat :=
  if cfg.wayOption = 0 then 1
  else max (cfg.cacheSize / cfg.lineSize / cfg.wayOption) 1 % 2 ^ 32

def calcSetIndex (lca : Nat) : Nat := lca % cfg.setSize

def calcIOPosition (lca : Nat) : Nat × Nat :=
  let tmp := lca % cfg.lineCountInMaxIO
  (tmp % cfg.lineCountInSuperPage, tmp / cfg.lineCountInSuperPage)

def unitFlag (unit : Nat) : List Bool :=
  (List.range cfg.lineCountInSuperPage).map (· == unit)

def applyLatency (function : CPUFunction) (tick : Tick) : Tick :=
  cfg.sum tick (cfg.latency function)

def reqInternal (lca : Nat) : FTLRequest :=
  ⟨lca / cfg.lineCountInSuperPage, cfg.unitFlag (lca % cfg.lineCountInSuperPage)⟩

def cells : List (Nat × Nat) :=
  (List.range cfg.lineCountInSuperPage).flatMap fun row =>
    (List.range cfg.parallelIO).map fun col => (row, col)

def ways : List (Nat × Nat) :=
  (List.range cfg.setSize).flatMap fun set =>
    (List.range cfg.waySize).map fun way => (set, way)

end Config

structure SequentialDetect where
  enabled : Bool
  lastRequest : Request
  hitCounter : Nat
  accessCounter : Nat

structure GenericCache where
  cacheData : Nat → Nat → Line
  evictData : Nat → Nat → Option (Nat × Nat)
  readDetect : SequentialDetect
  prefetchTrigger : Nat
  lastPrefetched : Nat
  drawn : Nat
  /-- accesses to the layers below, latest first -/
  accesses : List Access

namespace GenericCache

variable (cfg : Config)

def construct : GenericCache where
  cacheData := fun _ _ => ⟨0, 0, 0, false, false⟩
  evictData := fun _ _ => none
  readDetect := ⟨false, ⟨0, 0, 0⟩, 0, 0⟩
  prefetchTrigger := wordSize - 1
  lastPrefetched := 0
  drawn := 0
  accesses := []

def access (a : Access) (tick : Tick) (s : GenericCache) : Tick × GenericCache :=
  (cfg.finish s.accesses a tick, { s with accesses := a :: s.accesses })

def line (p : Nat × Nat) (s : GenericCache) : Line := s.cacheData p.1 p.2

def setLine (p : Nat × Nat) (l : Line) (s : GenericCache) : GenericCache :=
  { s with
    cacheData := Function.update s.cacheData p.1
      (Function.update (s.cacheData p.1) p.2 l) }

def setEvict (cell : Nat × Nat) (p : Option (Nat × Nat)) (s : GenericCache) : GenericCache :=
  { s with
    evictData := Function.update s.evictData cell.1
      (Function.update (s.evictData cell.1) cell.2 p) }

/-! ## Choosing a way -/

/-- The way with the smallest key below the largest word; `start` if none. -/
def minWay (key : Nat → Nat) (eligible : Nat → Bool) (start : Nat) (ways : List Nat) :
    Nat × Nat :=
  ways.foldl (fun best way =>
    if eligible way && decide (key way < best.2) then (way, key way) else best)
    (start, wordSize - 1)

def getEmptyWay (setIdx : Nat) (tick : Tick) (s : GenericCache) : Nat × Tick :=
  let empty := fun way => !(s.cacheData setIdx way).valid
  let ways := List.range cfg.waySize
  ((minWay (fun way => (s.cacheData setIdx way).insertedAt) empty cfg.waySize ways).1,
    cfg.sum tick (cfg.cacheLatency * 8 * ways.countP empty))

def getValidWay (lca : Nat) (tick : Tick) (s : GenericCache) : Nat × Tick :=
  let set := s.cacheData (cfg.calcSetIndex lca)
  match (List.range cfg.waySize).find? fun way => (set way).valid && (set way).tag == lca with
  | some way => (way, cfg.sum tick (cfg.cacheLatency * 8 * (way + 1)))
  | none => (cfg.waySize, cfg.sum tick (cfg.cacheLatency * 8 * cfg.waySize))

def evictFunction (setIdx : Nat) (tick : Tick) (s : GenericCache) : Nat × Tick × GenericCache :=
  let oldest := fun key =>
    ((minWay (fun way => key (s.cacheData setIdx way)) (fun _ => true) 0
      (List.range cfg.waySize)).1, cfg.sum tick (cfg.cacheLatency * 8 * cfg.waySize), s)
  match cfg.policy with
  | .random => (cfg.draw s.drawn, tick, { s with drawn := s.drawn + 1 })
  | .fifo => oldest Line.insertedAt
  | .leastRecentlyUsed => oldest Line.lastAccessed

def compareFunction (a b : Option (Nat × Nat)) (s : GenericCache) :
    Option (Nat × Nat) × GenericCache :=
  match a, b with
  | some p, some q =>
      match cfg.policy with
      | .random =>
          (if cfg.waySize / 2 < cfg.draw s.drawn then a else b,
            { s with drawn := s.drawn + 1 })
      | .fifo => (if (s.line p).insertedAt < (s.line q).insertedAt then a else b, s)
      | .leastRecentlyUsed =>
          (if (s.line p).lastAccessed < (s.line q).lastAccessed then a else b, s)
  | some _, none => (a, s)
  | none, _ => (b, s)

/-! ## Eviction -/

def evictCell (tick : Tick) (flush : Bool) (s : GenericCache) (cell : Nat × Nat) :
    GenericCache :=
  match s.evictData cell.1 cell.2 with
  | none => s
  | some p =>
      let l := s.line p
      let done :=
        if l.valid && l.dirty then
          access cfg (.ftlWrite ⟨l.tag / cfg.lineCountInSuperPage, cfg.unitFlag cell.1⟩) tick s
        else (tick, s)
      (done.2.setLine p (l.evict flush done.1)).setEvict cell none

def evictCache (tick : Tick) (flush : Bool) (s : GenericCache) : GenericCache :=
  cfg.cells.foldl (evictCell cfg tick flush) s

/-! ## Read -/

def checkSequential (req : Request) (data : SequentialDetect) : SequentialDetect :=
  let last := data.lastRequest
  let counted :=
    if (last.slpn * cfg.lineSize + last.offset + last.length) % wordSize =
        (req.slpn * cfg.lineSize + req.offset) % wordSize then
      if data.enabled then data
      else
        let hits := (data.hitCounter + 1) % 2 ^ 32
        let bytes := (data.accessCounter + last.offset + last.length) % 2 ^ 32
        { data with
          hitCounter := hits
          accessCounter := bytes
          enabled := decide (cfg.prefetchIOCount ≤ hits) && cfg.prefetchReached bytes }
    else { data with enabled := false, hitCounter := 0, accessCounter := 0 }
  { counted with lastRequest := req }

structure Fill where
  cache : GenericCache
  finishedAt : Tick
  readList : List (Nat × Nat × Nat)

def claimLine (lca : Nat) (p : Nat × Nat) (beginAt : Tick) (w : Fill) : Fill where
  cache := w.cache.setLine p
    { w.cache.line p with
      insertedAt := beginAt, lastAccessed := beginAt, valid := true, dirty := false }
  finishedAt := max w.finishedAt beginAt
  readList := w.readList ++ [(lca, p)]

def stageVictim (p : Nat × Nat) (s : GenericCache) : GenericCache :=
  if (s.line p).dirty then s.setEvict (cfg.calcIOPosition (s.line p).tag) (some p) else s

/-- Find a way for one page, unless the page is in the cache. -/
def fillLine (tick : Tick) (w : Fill) (lca : Nat) : Except Fault Fill :=
  let found := getValidWay cfg lca tick w.cache
  if found.1 ≠ cfg.waySize then .ok w
  else
    let setIdx := cfg.calcSetIndex lca
    let empty := getEmptyWay cfg setIdx found.2 w.cache
    if empty.1 ≠ cfg.waySize then .ok (claimLine lca (setIdx, empty.1) empty.2 w)
    else
      let victim := evictFunction cfg setIdx empty.2 w.cache
      if cfg.waySize ≤ victim.1 then .error .undefined
      else
        .ok (claimLine lca (setIdx, victim.1) victim.2.1
          { w with cache := stageVictim cfg (setIdx, victim.1) victim.2.2 })

def loadLine (slpn : Nat) (tick : Tick) (acc : Tick × GenericCache)
    (entry : Nat × Nat × Nat) : Tick × GenericCache :=
  let fetched := access cfg (.ftlRead (cfg.reqInternal entry.1)) tick acc.2
  let stored := access cfg (.dramWrite cfg.lineSize) (acc.2.line entry.2).insertedAt fetched.2
  let beginAt := max fetched.1 stored.1
  (if entry.1 = slpn then beginAt else acc.1,
    stored.2.setLine entry.2
      { stored.2.line entry.2 with insertedAt := beginAt, lastAccessed := beginAt, tag := entry.1 })

def fillSize (s : GenericCache) : Nat :=
  if s.readDetect.enabled then
    if cfg.prefetchMode = .all || !cfg.bSuperPage then cfg.lineCountInMaxIO
    else cfg.lineCountInSuperPage
  else 1

def fillPages (slpn : Nat) (s : GenericCache) : List Nat :=
  (List.range (fillSize cfg s)).map (slpn + ·)

def readAhead (slpn : Nat) (s : GenericCache) : GenericCache :=
  if s.readDetect.enabled then
    { s with
      prefetchTrigger := slpn + fillSize cfg s / 2
      lastPrefetched := slpn + fillSize cfg s }
  else s

/-- The pages from `slpn` on are read from flash; `arrived` is the tick a hit
returns to after a prefetch. -/
def fillCache (slpn : Nat) (hit : Bool) (arrived tick : Tick) (s : GenericCache) :
    Except Fault (Tick × GenericCache) := do
  let w ← (fillPages cfg slpn s).foldlM (fillLine cfg tick) ⟨readAhead cfg slpn s, tick, []⟩
  let loaded := w.readList.foldl (loadLine cfg slpn w.finishedAt)
    (w.finishedAt, evictCache cfg w.finishedAt true w.cache)
  .ok (if s.readDetect.enabled && hit then arrived else loaded.1, loaded.2)

inductive Lookup where
  | hit (tick : Tick) (cache : GenericCache)
  | prefetch (slpn : Nat) (arrived tick : Tick) (cache : GenericCache)
  | miss (slpn : Nat) (tick : Tick) (cache : GenericCache)

def lookUp (req : Request) (tick : Tick) (s : GenericCache) : Lookup :=
  let s :=
    if cfg.useReadPrefetch then
      { s with readDetect := checkSequential cfg req s.readDetect }
    else s
  let found := getValidWay cfg req.slpn tick s
  if found.1 ≠ cfg.waySize then
    let p := (cfg.calcSetIndex req.slpn, found.1)
    let hitAt := max found.2 (s.line p).insertedAt
    let done := access cfg (.dramRead req.length) hitAt
      (s.setLine p { s.line p with lastAccessed := hitAt })
    if cfg.useReadPrefetch && req.slpn == s.prefetchTrigger then
      .prefetch s.lastPrefetched done.1 found.2 done.2
    else .hit done.1 done.2
  else .miss req.slpn found.2 s

def read (req : Request) (tick : Tick) (s : GenericCache) :
    Except Fault (Bool × Tick × GenericCache) :=
  if cfg.useReadCaching then
    match lookUp cfg req tick s with
    | .hit tick s => .ok (true, cfg.applyLatency .read tick, s)
    | .prefetch slpn arrived tick s => do
        let filled ← fillCache cfg slpn true arrived tick s
        .ok (true, cfg.applyLatency .read filled.1, filled.2)
    | .miss slpn tick s => do
        let filled ← fillCache cfg slpn false tick tick s
        .ok (false, cfg.applyLatency .read filled.1, filled.2)
  else
    let stored := access cfg (.dramWrite req.length) tick s
    let done := access cfg (.ftlRead (cfg.reqInternal req.slpn)) stored.1 stored.2
    .ok (false, done)

/-! ## Write -/

/-- Stage every valid line; of two for one position the policy keeps one. -/
def stageLine (s : GenericCache) (p : Nat × Nat) : GenericCache :=
  if (s.line p).valid then
    let cell := cfg.calcIOPosition (s.line p).tag
    let kept := compareFunction cfg (s.evictData cell.1 cell.2) (some p) s
    kept.2.setEvict cell kept.1
  else s

def mergeCell (s : GenericCache) (cell : Nat × Nat) : GenericCache :=
  let kept := compareFunction cfg (s.evictData cell.1 cell.2)
    (s.evictData cell.1 (cell.2 + 1)) s
  (kept.2.setEvict (cell.1, cell.2 + 1) kept.1).setEvict cell none

def mergeColumns (s : GenericCache) : GenericCache :=
  if cfg.evictMode = .superpage then
    ((List.range cfg.lineCountInSuperPage).flatMap fun row =>
      (List.range (cfg.parallelIO - 1)).map fun col => (row, col)).foldl (mergeCell cfg) s
  else s

def haveSet (setIdx : Nat) (s : GenericCache) : Bool :=
  cfg.cells.any fun cell =>
    match s.evictData cell.1 cell.2 with
    | none => false
    | some p => cfg.calcSetIndex (s.line p).tag == setIdx

def stageSet (setIdx : Nat) (s : GenericCache) : GenericCache :=
  if haveSet cfg setIdx s then s
  else
    let chosen := (List.range cfg.waySize).foldl
      (fun (acc : Option (Nat × Nat) × GenericCache) way =>
        if (acc.2.line (setIdx, way)).valid then
          compareFunction cfg acc.1 (some (setIdx, way)) acc.2
        else acc) (none, s)
    match chosen.1 with
    | none => chosen.2
    | some p => chosen.2.setEvict (cfg.calcIOPosition (chosen.2.line p).tag) (some p)

def evictForWrite (setIdx : Nat) (tick : Tick) (s : GenericCache) : GenericCache :=
  evictCache cfg tick true (stageSet cfg setIdx (mergeColumns cfg
    (cfg.ways.foldl (stageLine cfg) s)))

/-- Put written data into a line; data that went to flash is not dirty. -/
def storeLine (p : Nat × Nat) (req : Request) (dirty : Bool) (flash tick : Tick)
    (s : GenericCache) : Tick × GenericCache :=
  let l := s.line p
  let storedAt := max tick l.insertedAt
  let at' := if dirty then storedAt else flash
  access cfg (.dramWrite req.length) storedAt
    (s.setLine p ⟨req.slpn, at', at', dirty, true⟩)

def write (req : Request) (tick : Tick) (s : GenericCache) :
    Except Fault (Bool × Tick × GenericCache) :=
  let dirty := decide (req.length < cfg.lineSize)
  let sent :=
    if dirty then (tick, s) else access cfg (.ftlWrite (cfg.reqInternal req.slpn)) tick s
  if cfg.useWriteCaching then
    let setIdx := cfg.calcSetIndex req.slpn
    let found := getValidWay cfg req.slpn tick sent.2
    if found.1 ≠ cfg.waySize then
      let done := storeLine cfg (setIdx, found.1) req dirty sent.1 found.2 sent.2
      .ok (true, cfg.applyLatency .write done.1, done.2)
    else
      let empty := getEmptyWay cfg setIdx found.2 sent.2
      if empty.1 ≠ cfg.waySize then
        let done := storeLine cfg (setIdx, empty.1) req dirty sent.1 empty.2 sent.2
        .ok (true, cfg.applyLatency .write done.1, done.2)
      else
        let tick := cfg.sum empty.2 (cfg.cacheLatency * cfg.setSize * cfg.waySize * 8)
        let s := evictForWrite cfg setIdx tick sent.2
        let freed := getEmptyWay cfg setIdx tick s
        if freed.1 = cfg.waySize then .error (.panic "Cache corrupted!")
        else
          let done := access cfg (.dramWrite req.length) freed.2 s
          .ok (false, cfg.applyLatency .write done.1,
            done.2.setLine (setIdx, freed.1) ⟨req.slpn, done.1, done.1, true, true⟩)
  else
    let done :=
      if dirty then access cfg (.ftlWrite (cfg.reqInternal req.slpn)) tick sent.2 else sent
    .ok (false, access cfg (.dramRead req.length) done.1 done.2)

/-! ## Flush, trim and format -/

structure Sweep where
  cache : GenericCache
  tick : Tick
  finishedAt : Tick
  ioFlag : List Bool

def sweepStart (tick : Tick) (s : GenericCache) : Sweep :=
  ⟨s, tick, tick, List.replicate cfg.lineCountInSuperPage false⟩

def sweepLine (request : FTLRequest → Access) (l : Line) (w : Sweep) : Sweep :=
  let flags := w.ioFlag.set (l.tag % cfg.lineCountInSuperPage) true
  let done := access cfg (request ⟨l.tag / cfg.lineCountInSuperPage, flags⟩) w.tick w.cache
  { w with cache := done.2, finishedAt := max w.finishedAt done.1, ioFlag := flags }

def invalidateLine (p : Nat × Nat) (w : Sweep) : Sweep :=
  { w with cache := w.cache.setLine p { w.cache.line p with valid := false } }

def flushLine (range : LPNRange) (w : Sweep) (p : Nat × Nat) : Sweep :=
  let w := { w with tick := cfg.sum w.tick (cfg.cacheLatency * 8) }
  let l := w.cache.line p
  if range.Contains l.tag then
    invalidateLine p (if l.dirty then sweepLine cfg .ftlWrite l w else w)
  else w

def flush (range : LPNRange) (tick : Tick) (s : GenericCache) : Tick × GenericCache :=
  if cfg.useReadCaching || cfg.useWriteCaching then
    let w := cfg.ways.foldl (flushLine cfg range) (sweepStart cfg tick s)
    (cfg.applyLatency .flush (max w.tick w.finishedAt), w.cache)
  else (tick, s)

def trimLine (range : LPNRange) (w : Sweep) (p : Nat × Nat) : Sweep :=
  let w := { w with tick := cfg.sum w.tick (cfg.cacheLatency * 8) }
  let l := w.cache.line p
  if range.Contains l.tag then invalidateLine p (sweepLine cfg .ftlTrim l w) else w

def trim (range : LPNRange) (tick : Tick) (s : GenericCache) : Tick × GenericCache :=
  if cfg.useReadCaching || cfg.useWriteCaching then
    let w := cfg.ways.foldl (trimLine cfg range) (sweepStart cfg tick s)
    (cfg.applyLatency .trim (max w.tick w.finishedAt), w.cache)
  else (tick, s)

def formatLine (acc : Tick × GenericCache) (lpn : Nat) : Tick × GenericCache :=
  let found := getValidWay cfg lpn acc.1 acc.2
  if found.1 ≠ cfg.waySize then
    let p := (cfg.calcSetIndex lpn, found.1)
    (found.2, acc.2.setLine p { acc.2.line p with valid := false })
  else (found.2, acc.2)

def format (range : LPNRange) (tick : Tick) (s : GenericCache) : Tick × GenericCache :=
  let cleared :=
    if cfg.useReadCaching || cfg.useWriteCaching then
      ((List.range range.nlp).map (range.slpn + ·)).foldl (formatLine cfg) (tick, s)
    else (tick, s)
  let converted : LPNRange :=
    ⟨range.slpn / cfg.lineCountInSuperPage,
      add64 (sub64 range.nlp 1 / cfg.lineCountInSuperPage) 1⟩
  let done := access cfg (.ftlFormat converted) cleared.1 cleared.2
  (cfg.applyLatency .format done.1, done.2)

end GenericCache

end SimpleSSD.ICL
