import SimpleSSD.ICL.WriteBack

/-!
# What lines and flash hold

The functions of the cache move data between the lines, the flash and the host
without naming it.  Here a line and a logical page each hold a value, and every
function is given the moves that go with it: a request to the flash carries, for each
of its units, the value of the line or of the host request that set the unit.
-/

namespace SimpleSSD.ICL

open SimpleSSD.Foundation

structure Contents (D : Type) where
  line : Nat × Nat → D
  store : Nat → D

namespace Contents

variable {D : Type} (cfg : Config)

def setLine (p : Nat × Nat) (v : D) (d : Contents D) : Contents D :=
  { d with line := Function.update d.line p v }

def write (req : FTLRequest) (units : Nat → D) (d : Contents D) : Contents D :=
  { d with store := fun lca =>
      if lca / cfg.lineCountInSuperPage = req.lpn ∧
          req.ioFlag.getD (lca % cfg.lineCountInSuperPage) false = true then
        units (lca % cfg.lineCountInSuperPage)
      else d.store lca }

def put (lca : Nat) (v : D) (d : Contents D) : Contents D :=
  d.write cfg (cfg.reqInternal lca) fun _ => v

end Contents

namespace GenericCache

variable {D : Type} (cfg : Config)

/-! ## Eviction -/

def evictCellData (tick : Tick) (flush : Bool) (s : GenericCache × Contents D)
    (cell : Nat × Nat) : GenericCache × Contents D :=
  (evictCell cfg tick flush s.1 cell,
    match s.1.evictData cell.1 cell.2 with
    | none => s.2
    | some p =>
        let l := s.1.line p
        if l.valid && l.dirty then
          s.2.write cfg ⟨l.tag / cfg.lineCountInSuperPage, cfg.unitFlag cell.1⟩
            fun _ => s.2.line p
        else s.2)

def evictCacheData (tick : Tick) (flush : Bool) (s : GenericCache) (d : Contents D) :
    GenericCache × Contents D :=
  cfg.cells.foldl (evictCellData cfg tick flush) (s, d)

/-! ## Read -/

/-- The value of the page `slpn` is what the host is given. -/
def loadLineData (slpn : Nat) (acc : Contents D × Option D) (entry : Nat × Nat × Nat) :
    Contents D × Option D :=
  let fetched := acc.1.store entry.1
  (acc.1.setLine entry.2 fetched, if entry.1 = slpn then some fetched else acc.2)

def fillCacheData (slpn : Nat) (tick : Tick) (s : GenericCache) (d : Contents D) :
    Except Fault (Contents D × Option D) := do
  let w ← (fillPages cfg slpn s).foldlM (fillLine cfg tick) ⟨readAhead cfg slpn s, tick, []⟩
  .ok (w.readList.foldl (loadLineData slpn)
    ((evictCacheData cfg w.finishedAt true w.cache d).2, none))

def hitData (req : Request) (tick : Tick) (s : GenericCache) (d : Contents D) : D :=
  d.line (cfg.calcSetIndex req.slpn, (getValidWay cfg req.slpn tick s).1)

def readData (req : Request) (tick : Tick) (s : GenericCache) (d : Contents D) :
    Except Fault (Contents D × Option D) :=
  if cfg.useReadCaching then
    match lookUp cfg req tick s with
    | .hit _ _ => .ok (d, some (hitData cfg req tick s d))
    | .prefetch slpn _ tick' s' => do
        let filled ← fillCacheData cfg slpn tick' s' d
        .ok (filled.1, some (hitData cfg req tick s d))
    | .miss slpn tick' s' => fillCacheData cfg slpn tick' s' d
  else .ok (d, some (d.store req.slpn))

/-! ## Write -/

def evictForWriteData (setIdx : Nat) (tick : Tick) (s : GenericCache) (d : Contents D) :
    GenericCache × Contents D :=
  evictCacheData cfg tick true (stageSet cfg setIdx (mergeColumns cfg
    (cfg.ways.foldl (stageLine cfg) s))) d

def writeData (req : Request) (v : D) (tick : Tick) (s : GenericCache) (d : Contents D) :
    Contents D :=
  let dirty := decide (req.length < cfg.lineSize)
  let sent :=
    if dirty then (tick, s) else access cfg (.ftlWrite (cfg.reqInternal req.slpn)) tick s
  let sentData := if dirty then d else d.put cfg req.slpn v
  if cfg.useWriteCaching then
    let setIdx := cfg.calcSetIndex req.slpn
    let found := getValidWay cfg req.slpn tick sent.2
    if found.1 ≠ cfg.waySize then sentData.setLine (setIdx, found.1) v
    else
      let empty := getEmptyWay cfg setIdx found.2 sent.2
      if empty.1 ≠ cfg.waySize then sentData.setLine (setIdx, empty.1) v
      else
        let tick := cfg.sum empty.2 (cfg.cacheLatency * cfg.setSize * cfg.waySize * 8)
        let evicted := evictForWriteData cfg setIdx tick sent.2 sentData
        evicted.2.setLine (setIdx, (getEmptyWay cfg setIdx tick evicted.1).1) v
  else if dirty then sentData.put cfg req.slpn v
  else sentData

/-! ## Flush -/

/-- The value of a dirty line joins those of the units set before. -/
def flushLineData (range : LPNRange) (w : Sweep × Contents D × (Nat → D)) (p : Nat × Nat) :
    Sweep × Contents D × (Nat → D) :=
  let l := w.1.cache.line p
  (flushLine cfg range w.1 p,
    if range.Contains l.tag ∧ l.dirty = true then
      let unit := l.tag % cfg.lineCountInSuperPage
      let units := Function.update w.2.2 unit (w.2.1.line p)
      (w.2.1.write cfg ⟨l.tag / cfg.lineCountInSuperPage, w.1.ioFlag.set unit true⟩ units, units)
    else w.2)

def flushData (range : LPNRange) (tick : Tick) (s : GenericCache) (d : Contents D) :
    Contents D :=
  if cfg.useReadCaching || cfg.useWriteCaching then
    (cfg.ways.foldl (flushLineData cfg range) (sweepStart cfg tick s, d, d.store)).2.1
  else d

/-! ## Runs -/

/-- The cache with its contents, the version last written to each page, and what the
reads have returned. -/
structure World (D : Type) where
  cache : GenericCache
  data : Contents D
  latest : Nat → D
  returned : List (Option D)

def World.start (store : Nat → D) (line : Nat × Nat → D) : World D :=
  ⟨construct, ⟨line, store⟩, store, []⟩

inductive DataOp (D : Type) where
  | read (req : Request) (tick : Tick)
  | write (req : Request) (tick : Tick) (version : D)
  | flush (range : LPNRange) (tick : Tick)

def DataOp.op : DataOp D → Op
  | .read req tick => .read req tick
  | .write req tick _ => .write req tick
  | .flush range tick => .flush range tick

def DataOp.apply (w : World D) : DataOp D → Except Fault (World D)
  | .read req tick => do
      let done ← GenericCache.read cfg req tick w.cache
      let data ← readData cfg req tick w.cache w.data
      .ok { w with cache := done.2.2, data := data.1, returned := w.returned ++ [data.2] }
  | .write req tick version => do
      let done ← GenericCache.write cfg req tick w.cache
      .ok { w with
        cache := done.2.2
        data := writeData cfg req version tick w.cache w.data
        latest := Function.update w.latest req.slpn version }
  | .flush range tick =>
      .ok { w with
        cache := (GenericCache.flush cfg range tick w.cache).2
        data := flushData cfg range tick w.cache w.data }

def runData (ops : List (DataOp D)) (w : World D) : Except Fault (World D) :=
  ops.foldlM (DataOp.apply cfg) w

def plainAnswers (latest : Nat → D) : List (DataOp D) → List D
  | [] => []
  | .read req _ :: rest => latest req.slpn :: plainAnswers latest rest
  | .write req _ version :: rest => plainAnswers (Function.update latest req.slpn version) rest
  | .flush _ _ :: rest => plainAnswers latest rest

/-! ## The cache of a run with contents -/

variable {cfg}

theorem evictCacheData_cache (tick : Tick) (flush : Bool) (s : GenericCache)
    (d : Contents D) : (evictCacheData cfg tick flush s d).1 = evictCache cfg tick flush s := by
  unfold evictCacheData evictCache
  induction cfg.cells generalizing s d with
  | nil => rfl
  | cons cell cells ih => exact ih _ _

variable (cfg) in
theorem flushLinesData_sweep (range : LPNRange) (lines : List (Nat × Nat))
    (w : Sweep × Contents D × (Nat → D)) :
    (lines.foldl (flushLineData cfg range) w).1 = lines.foldl (flushLine cfg range) w.1 := by
  induction lines generalizing w with
  | nil => rfl
  | cons p lines ih => exact ih _

theorem fillCacheData_total {slpn : Nat} {hit : Bool} {arrived tick : Tick} {s : GenericCache}
    {done : Tick × GenericCache} (run : fillCache cfg slpn hit arrived tick s = .ok done)
    (d : Contents D) : ∃ filled, fillCacheData cfg slpn tick s d = .ok filled := by
  obtain ⟨w, hfill, -⟩ := bind_eq_ok.1 run
  exact ⟨_, bind_eq_ok.2 ⟨w, hfill, rfl⟩⟩

theorem readData_total {req : Request} {tick : Tick} {s : GenericCache}
    {done : Bool × Tick × GenericCache} (run : read cfg req tick s = .ok done)
    (d : Contents D) : ∃ data, readData cfg req tick s d = .ok data := by
  unfold read at run
  unfold readData
  split_ifs at run ⊢
  · cases hlook : lookUp cfg req tick s with
    | hit arrived s' => exact ⟨_, rfl⟩
    | prefetch slpn arrived tick' s' =>
        simp only [hlook] at run
        obtain ⟨filled, hfill, -⟩ := bind_eq_ok.1 run
        obtain ⟨data, hdata⟩ := fillCacheData_total hfill d
        exact ⟨_, bind_eq_ok.2 ⟨data, hdata, rfl⟩⟩
    | miss slpn tick' s' =>
        simp only [hlook] at run
        obtain ⟨filled, hfill, -⟩ := bind_eq_ok.1 run
        exact fillCacheData_total hfill d
  · exact ⟨_, rfl⟩

theorem apply_erase {op : DataOp D} {w w' : World D} (run : op.apply cfg w = .ok w') :
    op.op.apply cfg w.cache = .ok w'.cache := by
  cases op with
  | read req tick =>
      obtain ⟨done, hread, hrest⟩ := bind_eq_ok.1 run
      obtain ⟨data, -, hw⟩ := bind_eq_ok.1 hrest
      cases hw
      exact bind_eq_ok.2 ⟨done, hread, rfl⟩
  | write req tick version =>
      obtain ⟨done, hwrite, hw⟩ := bind_eq_ok.1 run
      cases hw
      exact bind_eq_ok.2 ⟨done, hwrite, rfl⟩
  | flush range tick =>
      cases run
      rfl

theorem apply_lift {op : DataOp D} {w : World D} {s : GenericCache}
    (run : op.op.apply cfg w.cache = .ok s) : ∃ w', op.apply cfg w = .ok w' ∧ w'.cache = s := by
  cases op with
  | read req tick =>
      obtain ⟨done, hread, hs⟩ := bind_eq_ok.1 run
      cases hs
      obtain ⟨data, hdata⟩ := readData_total hread w.data
      exact ⟨_, bind_eq_ok.2 ⟨done, hread, bind_eq_ok.2 ⟨data, hdata, rfl⟩⟩, rfl⟩
  | write req tick version =>
      obtain ⟨done, hwrite, hs⟩ := bind_eq_ok.1 run
      cases hs
      exact ⟨_, bind_eq_ok.2 ⟨done, hwrite, rfl⟩, rfl⟩
  | flush range tick =>
      cases run
      exact ⟨_, rfl, rfl⟩

theorem run_iff_runData (ops : List (DataOp D)) (w : World D) (s : GenericCache) :
    run cfg (ops.map DataOp.op) w.cache = .ok s ↔
      ∃ w', runData cfg ops w = .ok w' ∧ w'.cache = s := by
  induction ops generalizing w with
  | nil => exact ⟨fun h => ⟨w, rfl, Except.ok.inj h⟩, fun ⟨w', h, hs⟩ => by cases h; exact hs ▸ rfl⟩
  | cons op rest ih =>
      simp only [run, runData, List.map_cons, List.foldlM_cons]
      constructor
      · intro h
        obtain ⟨mid, hstep, hrest⟩ := bind_eq_ok.1 h
        obtain ⟨w₁, hw₁, rfl⟩ := apply_lift hstep
        obtain ⟨w', hw', hs⟩ := (ih w₁).1 hrest
        exact ⟨w', bind_eq_ok.2 ⟨w₁, hw₁, hw'⟩, hs⟩
      · rintro ⟨w', h, hs⟩
        obtain ⟨w₁, hw₁, hrest⟩ := bind_eq_ok.1 h
        exact bind_eq_ok.2 ⟨w₁.cache, apply_erase hw₁, (ih w₁).2 ⟨w', hrest, hs⟩⟩

end GenericCache

end SimpleSSD.ICL
