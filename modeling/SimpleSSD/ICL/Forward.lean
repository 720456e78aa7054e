import SimpleSSD.FTL.Forward
import SimpleSSD.ICL.Requests
import SimpleSSD.ICL.WriteBack

/-!
# Time in the storage stack

The cache saves and restores ticks around a prefetch, takes the latest of several accesses
and waits for the tick at which a line was inserted.  None of this turns the clock back.
-/

namespace SimpleSSD.ICL

open SimpleSSD.Foundation

/-- The accesses of `read` and `write`: flash requests have a flag for each unit. -/
def Access.Fits (cfg : Config) : Access → Prop
  | .ftlRead req | .ftlWrite req | .ftlTrim req =>
      req.ioFlag.length = cfg.lineCountInSuperPage
  | .ftlFormat _ => False
  | .dramRead _ | .dramWrite _ => True

/-- What the flash translation layer and the DRAM, each in some state, return for an access
that begins at a tick. -/
inductive Answers (ftl : FTL.Config) (ftlLatency : FTL.CPUFunction → Tick)
    (dram : DRAM.Config) : Access → Tick → Tick → Prop
  | ftlRead {req : FTL.Request ftl} {tick : Tick} {s : FTL.PageMapping}
      {done : Tick × FTL.PageMapping} (h : FTL.read ftl ftlLatency req tick s = .ok done) :
      Answers ftl ftlLatency dram (.ftlRead ⟨req.lpn, req.ioFlag⟩) tick done.1
  | ftlWrite {choices : FTL.Choices} {req : FTL.Request ftl} {tick : Tick}
      {s : FTL.PageMapping} {done : Tick × FTL.PageMapping}
      (h : FTL.write ftl ftlLatency choices req tick s = .ok done) :
      Answers ftl ftlLatency dram (.ftlWrite ⟨req.lpn, req.ioFlag⟩) tick done.1
  | ftlTrim {req : FTL.Request ftl} {tick : Tick} {s : FTL.PageMapping}
      {done : Tick × FTL.PageMapping} (h : FTL.trim ftl ftlLatency req tick s = .ok done) :
      Answers ftl ftlLatency dram (.ftlTrim ⟨req.lpn, req.ioFlag⟩) tick done.1
  | dramRead (size : Nat) (tick : Tick) (d : DRAM.SimpleDRAM) :
      Answers ftl ftlLatency dram (.dramRead size) tick (d.read dram size tick).1
  | dramWrite (size : Nat) (tick : Tick) (d : DRAM.SimpleDRAM) :
      Answers ftl ftlLatency dram (.dramWrite size) tick (d.write dram size tick).1

/-- Every access of the cache that ends has been answered by the layers below, in the
states they are in by then. -/
def OnFTL (cfg : Config) (ftl : FTL.Config) (ftlLatency : FTL.CPUFunction → Tick)
    (dram : DRAM.Config) : Prop :=
  ∀ accesses a tick, Access.Fits cfg a →
    Answers ftl ftlLatency dram a tick (cfg.finish accesses a tick)

section Answered

variable {ftl : FTL.Config} {ftlLatency : FTL.CPUFunction → Tick} {dram : DRAM.Config}

theorem Answers.le {a : Access} {tick finishedAt : Tick} (below : FTL.OnDRAM ftl dram)
    (sums : ftl.Sums) (later : ∀ tick latency, tick ≤ dram.sum tick latency)
    (h : Answers ftl ftlLatency dram a tick finishedAt) : tick ≤ finishedAt := by
  cases h with
  | ftlRead h =>
      exact (FTL.PageMapping.read_forward sums _).andThen (fun _ => sums _ _) _ _ _ h
  | ftlWrite h =>
      exact (FTL.PageMapping.write_forward sums _ _).andThen (fun _ => sums _ _) _ _ _ h
  | ftlTrim h =>
      exact (FTL.PageMapping.trim_forward sums below later _).andThen (fun _ => sums _ _) _ _ _ h
  | dramRead size tick d => exact DRAM.SimpleDRAM.updateDelay_forward later _ _ d
  | dramWrite size tick d => exact DRAM.SimpleDRAM.updateDelay_forward later _ _ d

end Answered

def Timed (cfg : Config) : Prop :=
  ∀ accesses a tick, Access.Fits cfg a → tick ≤ cfg.finish accesses a tick

def Config.Sums (cfg : Config) : Prop := ∀ tick latency, tick ≤ cfg.sum tick latency

theorem OnFTL.timed {cfg : Config} {ftl : FTL.Config} {ftlLatency : FTL.CPUFunction → Tick}
    {dram : DRAM.Config} (below : OnFTL cfg ftl ftlLatency dram) (onDRAM : FTL.OnDRAM ftl dram)
    (sums : ftl.Sums) (later : ∀ tick latency, tick ≤ dram.sum tick latency) : Timed cfg :=
  fun accesses a tick fits => (below accesses a tick fits).le onDRAM sums later

namespace GenericCache

variable {cfg : Config} {tick bound : Tick} {s : GenericCache}

/-! ## Looking for a way -/

theorem getValidWay_forward (sums : cfg.Sums) (lca : Nat) (tick : Tick) (s : GenericCache) :
    tick ≤ (getValidWay cfg lca tick s).2 := by
  unfold getValidWay
  dsimp only
  split
  · exact sums _ _
  · exact sums _ _

theorem getEmptyWay_forward (sums : cfg.Sums) (setIdx : Nat) (tick : Tick) (s : GenericCache) :
    tick ≤ (getEmptyWay cfg setIdx tick s).2 :=
  sums _ _

/-! ## Read -/

theorem reqInternal_fits (cfg : Config) (lca : Nat) :
    (cfg.reqInternal lca).ioFlag.length = cfg.lineCountInSuperPage := by
  simp [Config.reqInternal, Config.unitFlag]

theorem fillLine_forward {w w' : Fill} {lca : Nat} (h : fillLine cfg tick w lca = .ok w') :
    w.finishedAt ≤ w'.finishedAt := by
  unfold fillLine at h
  dsimp only at h
  split_ifs at h
  · cases h
    exact le_rfl
  · cases h
    exact Nat.le_max_left _ _
  · cases h
    exact Nat.le_max_left _ _

theorem loadLine_forward (timed : Timed cfg) {slpn : Nat} {acc : Tick × GenericCache}
    {entry : Nat × Nat × Nat} (h : tick ≤ acc.1) : tick ≤ (loadLine cfg slpn tick acc entry).1 := by
  change tick ≤ ite _ _ _
  split_ifs
  · exact (timed _ (.ftlRead _) _ (reqInternal_fits cfg _)).trans (le_max_left _ _)
  · exact h

/-- After a prefetch the clock is put back to `arrived`, which is behind the begin of the
request all the same. -/
theorem fillCache_forward (timed : Timed cfg) {slpn : Nat} {hit : Bool} {arrived : Tick}
    {done : Tick × GenericCache} (began : bound ≤ tick) (arrives : bound ≤ arrived)
    (h : fillCache cfg slpn hit arrived tick s = .ok done) : bound ≤ done.1 := by
  obtain ⟨w, hfill, hdone⟩ := bind_eq_ok.1 h
  cases hdone
  have chosen : tick ≤ w.finishedAt :=
    foldlM_invariant_mem (fun w : Fill => tick ≤ w.finishedAt)
      (fun _ _ _ _ reached step => reached.trans (fillLine_forward step)) hfill le_rfl
  change bound ≤ ite _ _ _
  split_ifs
  · exact arrives
  · have loaded : w.finishedAt ≤ (w.readList.foldl (loadLine cfg slpn w.finishedAt)
        (w.finishedAt, evictCache cfg w.finishedAt true w.cache)).1 :=
      foldl_bound Prod.fst (fun _ _ reached => loadLine_forward timed reached) le_rfl
    exact (began.trans chosen).trans loaded

/-- Where a lookup leads, no tick is before the begin of the request. -/
def Lookup.After (bound : Tick) : Lookup → Prop
  | .hit tick _ => bound ≤ tick
  | .prefetch _ arrived tick _ => bound ≤ arrived ∧ bound ≤ tick
  | .miss _ tick _ => bound ≤ tick

theorem lookUp_after (sums : cfg.Sums) (timed : Timed cfg) (req : Request) (tick : Tick)
    (s : GenericCache) : (lookUp cfg req tick s).After tick := by
  unfold lookUp
  generalize (if cfg.useReadPrefetch then
    { s with readDetect := checkSequential cfg req s.readDetect } else s) = s
  have found := getValidWay_forward sums req.slpn tick s
  dsimp only
  split_ifs
  · exact ⟨(found.trans (Nat.le_max_left _ _)).trans (timed _ (.dramRead _) _ trivial), found⟩
  · exact (found.trans (Nat.le_max_left _ _)).trans (timed _ (.dramRead _) _ trivial)
  · exact found

theorem read_forward (sums : cfg.Sums) (timed : Timed cfg) {req : Request}
    {result : Bool × Tick × GenericCache} (h : read cfg req tick s = .ok result) :
    tick ≤ result.2.1 := by
  unfold read at h
  by_cases caching : cfg.useReadCaching = true
  · rw [if_pos caching] at h
    have after := lookUp_after sums timed req tick s
    cases hlook : lookUp cfg req tick s with
    | hit hitAt s₁ =>
        rw [hlook] at h after
        cases h
        exact after.trans (sums _ _)
    | prefetch slpn arrived foundAt s₁ =>
        rw [hlook] at h after
        obtain ⟨filled, hfill, hdone⟩ := bind_eq_ok.1 h
        cases hdone
        exact (fillCache_forward timed after.2 after.1 hfill).trans (sums _ _)
    | miss slpn foundAt s₁ =>
        rw [hlook] at h after
        obtain ⟨filled, hfill, hdone⟩ := bind_eq_ok.1 h
        cases hdone
        exact (fillCache_forward timed after after hfill).trans (sums _ _)
  · rw [if_neg caching] at h
    cases h
    exact (timed _ (.dramWrite _) _ trivial).trans
      (timed _ (.ftlRead _) _ (reqInternal_fits cfg _))

/-! ## Write -/

theorem storeLine_forward (timed : Timed cfg) {p : Nat × Nat} {req : Request} {dirty : Bool}
    {flash : Tick} (began : bound ≤ tick) :
    bound ≤ (storeLine cfg p req dirty flash tick s).1 :=
  (began.trans (Nat.le_max_left _ _)).trans (timed _ (.dramWrite _) _ trivial)

theorem write_forward (sums : cfg.Sums) (timed : Timed cfg) {req : Request}
    {result : Bool × Tick × GenericCache} (h : write cfg req tick s = .ok result) :
    tick ≤ result.2.1 := by
  have flash : ∀ s, tick ≤ (access cfg (.ftlWrite (cfg.reqInternal req.slpn)) tick s).1 :=
    fun s => timed _ (.ftlWrite _) _ (reqInternal_fits cfg _)
  unfold write at h
  extract_lets dirty sent at h
  have sentAt : tick ≤ sent.1 := by
    change tick ≤ Prod.fst (ite _ _ _)
    split_ifs
    · exact le_rfl
    · exact flash s
  clear_value sent
  by_cases caching : cfg.useWriteCaching = true
  · rw [if_pos caching] at h
    have found := getValidWay_forward sums req.slpn tick sent.2
    have empty := found.trans (getEmptyWay_forward sums (cfg.calcSetIndex req.slpn)
      (getValidWay cfg req.slpn tick sent.2).2 sent.2)
    split_ifs at h
    · cases h
      exact (storeLine_forward timed found).trans (sums _ _)
    · cases h
      exact (storeLine_forward timed empty).trans (sums _ _)
    · cases h
      have freed := getEmptyWay_forward sums (cfg.calcSetIndex req.slpn)
      have evicted := empty.trans (sums _ (cfg.cacheLatency * cfg.setSize * cfg.waySize * 8))
      exact ((evicted.trans (freed _ _)).trans
        (timed _ (.dramWrite _) _ trivial)).trans (sums _ _)
  · rw [if_neg caching] at h
    cases h
    have written : tick ≤ (if dirty then
        access cfg (.ftlWrite (cfg.reqInternal req.slpn)) tick sent.2 else sent).1 := by
      split_ifs
      · exact flash sent.2
      · exact sentAt
    exact written.trans (timed _ (.dramRead _) _ trivial)

/-! ## Flush and trim -/

theorem flushLine_forward (sums : cfg.Sums) {range : LPNRange} {w : Sweep} {p : Nat × Nat}
    (h : bound ≤ w.tick) : bound ≤ (flushLine cfg range w p).tick := by
  have h := h.trans (sums _ (cfg.cacheLatency * 8))
  unfold flushLine
  dsimp only
  split_ifs
  all_goals exact h

theorem trimLine_forward (sums : cfg.Sums) {range : LPNRange} {w : Sweep} {p : Nat × Nat}
    (h : bound ≤ w.tick) : bound ≤ (trimLine cfg range w p).tick := by
  have h := h.trans (sums _ (cfg.cacheLatency * 8))
  unfold trimLine
  dsimp only
  split_ifs
  all_goals exact h

theorem flush_forward (sums : cfg.Sums) (range : LPNRange) (tick : Tick) (s : GenericCache) :
    tick ≤ (flush cfg range tick s).1 := by
  unfold flush
  split_ifs
  · have swept : tick ≤ (cfg.ways.foldl (flushLine cfg range) (sweepStart cfg tick s)).tick :=
      foldl_bound Sweep.tick (fun _ _ h => flushLine_forward sums h) le_rfl
    exact (swept.trans (Nat.le_max_left _ _)).trans (sums _ _)
  · exact le_rfl

theorem trim_forward (sums : cfg.Sums) (range : LPNRange) (tick : Tick) (s : GenericCache) :
    tick ≤ (trim cfg range tick s).1 := by
  unfold trim
  split_ifs
  · have swept : tick ≤ (cfg.ways.foldl (trimLine cfg range) (sweepStart cfg tick s)).tick :=
      foldl_bound Sweep.tick (fun _ _ h => trimLine_forward sums h) le_rfl
    exact (swept.trans (Nat.le_max_left _ _)).trans (sums _ _)
  · exact le_rfl

end GenericCache

/-! ## The stack -/

section Stack

variable {cfg : Config}

theorem perform_forward
    {cache : Request → Tick → GenericCache → Except Fault (Bool × Tick × GenericCache)}
    {tick : Tick} {acc next : Tick × GenericCache} {req : Request}
    (h : perform cache tick acc req = .ok next) : acc.1 ≤ next.1 := by
  obtain ⟨⟨hit, beginAt, s⟩, -, hdone⟩ := bind_eq_ok.1 h
  cases hdone
  exact Nat.le_max_left _ _

theorem read_forward (sums : cfg.Sums) (latency : CPUFunction → Tick) (logicalPageSize : Nat)
    (req : HIL.Request) : Forward (read cfg latency logicalPageSize req) := by
  intro tick s done h
  obtain ⟨⟨finishedAt, s'⟩, hloop, hdone⟩ := bind_eq_ok.1 h
  cases hdone
  have reached := foldlM_forward (fun _ _ _ step => perform_forward step) hloop
  exact reached.trans (sums _ _)

theorem write_forward (sums : cfg.Sums) (latency : CPUFunction → Tick) (logicalPageSize : Nat)
    (req : HIL.Request) : Forward (write cfg latency logicalPageSize req) := by
  intro tick s done h
  obtain ⟨⟨finishedAt, s'⟩, hloop, hdone⟩ := bind_eq_ok.1 h
  cases hdone
  have reached := foldlM_forward (fun _ _ _ step => perform_forward step) hloop
  exact reached.trans (sums _ _)

/-- The cache and the layers below.  What these answer depends on how they add up ticks, and
is answered by the layers of `src` for every way to do so. -/
structure Stack where
  cache : Config
  ftl : FTL.Config
  dram : DRAM.Config
  ftlLatency : FTL.CPUFunction → Tick
  finish : (Tick → Tick → Tick) → List Access → Access → Tick → Tick
  ftlFinish : (Tick → Tick → Tick) → List FTL.Access → FTL.Access → Tick → Tick
  onFTL : ∀ sum, OnFTL { cache with sum := sum, finish := finish sum }
    { ftl with timing := { ftl.timing with sum := sum, finish := ftlFinish sum } } ftlLatency
    { dram with sum := sum }
  onDRAM : ∀ sum, FTL.OnDRAM
    { ftl with timing := { ftl.timing with sum := sum, finish := ftlFinish sum } }
    { dram with sum := sum }

namespace Stack

variable (st : Stack) (sum : Tick → Tick → Tick)

def cacheBy : Config := { st.cache with sum := sum, finish := st.finish sum }

def ftlBy : FTL.Config :=
  { st.ftl with timing := { st.ftl.timing with sum := sum, finish := st.ftlFinish sum } }

def requestBy (req : FTL.Request st.ftl) : FTL.Request (st.ftlBy sum) :=
  ⟨req.lpn, req.ioFlag, req.sized⟩

end Stack

/-- Unless a sum of ticks leaves the word, no operation of the page mapping, of the cache or of
the layer above it returns with a tick before the one it was given.  The flash itself is not
needed for this, since its accesses are only ever maximised over. -/
theorem stack_forward (st : Stack) (latency : CPUFunction → Tick) (logicalPageSize : Nat) :
    ((∀ req, ForwardInWord fun sum =>
        FTL.PageMapping.read (st.ftlBy sum) (st.requestBy sum req)) ∧
      (∀ choices req, ForwardInWord fun sum =>
        FTL.PageMapping.write (st.ftlBy sum) choices (st.requestBy sum req)) ∧
      ∀ req, ForwardInWord fun sum =>
        FTL.PageMapping.trim (st.ftlBy sum) (st.requestBy sum req)) ∧
    ((∀ req, ForwardInWord fun sum tick s =>
        (GenericCache.read (st.cacheBy sum) req tick s).map Prod.snd) ∧
      (∀ req, ForwardInWord fun sum tick s =>
        (GenericCache.write (st.cacheBy sum) req tick s).map Prod.snd) ∧
      (∀ range, ForwardInWord fun sum tick s =>
        (.ok (GenericCache.flush (st.cacheBy sum) range tick s) : Except Fault _)) ∧
      ∀ range, ForwardInWord fun sum tick s =>
        (.ok (GenericCache.trim (st.cacheBy sum) range tick s) : Except Fault _)) ∧
    (∀ req, ForwardInWord fun sum => read (st.cacheBy sum) latency logicalPageSize req) ∧
      (∀ req, ForwardInWord fun sum => write (st.cacheBy sum) latency logicalPageSize req) ∧
      (∀ range, ForwardInWord fun sum tick s =>
        (.ok (flush (st.cacheBy sum) latency range tick s) : Except Fault _)) ∧
      ∀ range, ForwardInWord fun sum tick s =>
        (.ok (trim (st.cacheBy sum) latency range tick s) : Except Fault _) := by
  have sums : (st.cacheBy (· + ·)).Sums := fun _ _ => Nat.le_add_right _ _
  have ftlSums : (st.ftlBy (· + ·)).Sums := fun _ _ => Nat.le_add_right _ _
  have dramSums : ∀ tick latency : Tick, tick ≤ tick + latency := fun _ _ => Nat.le_add_right _ _
  have timed : Timed (st.cacheBy (· + ·)) :=
    (st.onFTL (· + ·)).timed (st.onDRAM (· + ·)) ftlSums dramSums
  have flushes := GenericCache.flush_forward sums
  have trims := GenericCache.trim_forward sums
  have second : ∀ {op : Tick → GenericCache → Except Fault (Bool × Tick × GenericCache)},
      (∀ tick s result, op tick s = .ok result → tick ≤ result.2.1) →
        Forward fun tick s => (op tick s).map Prod.snd := by
    intro op forward tick s done h
    obtain ⟨result, hresult, rfl⟩ := map_eq_ok.1 h
    exact forward tick s result hresult
  refine ⟨⟨?_, ?_, ?_⟩, ⟨?_, ?_, ?_, ?_⟩, ?_, ?_, ?_, ?_⟩
  · exact fun req => (FTL.PageMapping.read_forward ftlSums _).inWord
  · exact fun choices req => (FTL.PageMapping.write_forward ftlSums choices _).inWord
  · exact fun req => (FTL.PageMapping.trim_forward ftlSums (st.onDRAM (· + ·)) dramSums _).inWord
  · exact fun req => (second fun _ _ _ h => GenericCache.read_forward sums timed h).inWord
  · exact fun req => (second fun _ _ _ h => GenericCache.write_forward sums timed h).inWord
  · exact fun range => (Forward.of_le (flushes range)).inWord
  · exact fun range => (Forward.of_le (trims range)).inWord
  · exact fun req => (read_forward sums latency logicalPageSize req).inWord
  · exact fun req => (write_forward sums latency logicalPageSize req).inWord
  · exact fun range => (Forward.of_le fun tick s => (flushes range tick s).trans (sums _ _)).inWord
  · exact fun range => (Forward.of_le fun tick s => (trims range tick s).trans (sums _ _)).inWord

/-! ## A small stack -/

def smallDRAM : DRAM.Config where
  pageSize := 64
  latency pages := 30 * pages

def smallFTLFinish (sum : Tick → Tick → Tick) : List FTL.Access → FTL.Access → Tick → Tick
  | _, .dramRead size, tick | _, .dramWrite size, tick =>
      (DRAM.SimpleDRAM.read { smallDRAM with sum := sum } size tick ⟨0, false⟩).1
  | _, _, tick => sum tick 100

/-- Three blocks of two pages, written as a whole. -/
def smallFlash : FTL.Config where
  param := ⟨3, 1, 2, 1, 1⟩
  bRandomTweak := false
  gcMode := .mode0
  policy := .greedy
  dChoiceParam := 0
  reclaimBlock := 1
  reclaimTarget := fun _ => 0
  belowThreshold := fun n => decide (n < 1)
  costBenefit := fun _ _ => 0
  badBlockThreshold := 10
  timing := { finish := smallFTLFinish add64, latency := fun _ => 1 }

def emptyFlash : FTL.PageMapping where
  table := fun _ => none
  blocks := Function.update (fun _ => none) 0 (some (.new 0 2 1))
  freeBlocks := [.new 1 2 1, .new 2 2 1]
  nFreeBlocks := 2
  lastFreeBlock := [0]
  lastFreeBlockIOMap := [false]
  lastFreeBlockIndex := 0
  bReclaimMore := false
  accesses := []
  contents := fun _ _ _ => none
  host := .empty

def anyOrder : FTL.Choices := ⟨id, List.Perm.refl, []⟩

section

variable (sum : Tick → Tick → Tick)

def smallFlashBy : FTL.Config :=
  { smallFlash with timing := { smallFlash.timing with sum := sum, finish := smallFTLFinish sum } }

theorem emptyFlash_reads (req : FTL.Request (smallFlashBy sum)) (tick : Tick) :
    ∃ done, FTL.read (smallFlashBy sum) (fun _ => 1) req tick emptyFlash = .ok done := by
  unfold FTL.read FTL.PageMapping.read
  split_ifs
  · exact ⟨_, rfl⟩
  · exact ⟨_, rfl⟩

theorem emptyFlash_trims (req : FTL.Request (smallFlashBy sum)) (tick : Tick) :
    ∃ done, FTL.trim (smallFlashBy sum) (fun _ => 1) req tick emptyFlash = .ok done :=
  ⟨_, rfl⟩

theorem emptyFlash_writes (req : FTL.Request (smallFlashBy sum)) (tick : Tick) :
    ∃ done, FTL.write (smallFlashBy sum) (fun _ => 1) anyOrder req tick emptyFlash = .ok done := by
  obtain ⟨lpn, ioFlag, sized⟩ := req
  have single : ioFlag.length = 1 := sized.elim id And.right
  obtain ⟨flag, rfl⟩ := List.length_eq_one_iff.1 single
  cases flag with
  | false => exact ⟨_, rfl⟩
  | true =>
      simp [FTL.write, FTL.PageMapping.write, FTL.PageMapping.writeInternal,
        FTL.PageMapping.detach, FTL.PageMapping.getLastFreeBlock, FTL.PageMapping.rotate,
        FTL.PageMapping.accessMapping, FTL.PageMapping.access, FTL.PageMapping.writeUnit,
        FTL.PageMapping.collectIfNeeded, FTL.PageMapping.setBlock, FTL.PageMapping.setEntry,
        FTL.Block.new, FTL.Block.erase, FTL.Block.write, FTL.Block.getNextWritePageIndex,
        FTL.Config.bitsetSize, FTL.Request.selects, emptyFlash, smallFlashBy, smallFlash, bind,
        Except.bind, pure, Except.pure]

def flashRequest (req : FTLRequest) : FTL.Request (smallFlashBy sum) where
  lpn := req.lpn
  ioFlag := [req.ioFlag.getD 0 false]
  sized := .inl rfl

def endOf (op : Tick → FTL.PageMapping → Except Fault (Tick × FTL.PageMapping))
    (tick : Tick) : Tick :=
  match op tick emptyFlash with
  | .ok done => done.1
  | .error _ => tick

def smallFinish : List Access → Access → Tick → Tick
  | _, .ftlRead req, tick =>
      endOf (FTL.read (smallFlashBy sum) (fun _ => 1) (flashRequest sum req)) tick
  | _, .ftlWrite req, tick =>
      endOf (FTL.write (smallFlashBy sum) (fun _ => 1) anyOrder (flashRequest sum req)) tick
  | _, .ftlTrim req, tick =>
      endOf (FTL.trim (smallFlashBy sum) (fun _ => 1) (flashRequest sum req)) tick
  | _, .ftlFormat _, tick => tick
  | _, .dramRead size, tick | _, .dramWrite size, tick =>
      (DRAM.SimpleDRAM.read { smallDRAM with sum := sum } size tick ⟨0, false⟩).1

def smallCache : Config := { GenericCache.oneLine with finish := smallFinish add64 }

theorem endOf_eq {op : Tick → FTL.PageMapping → Except Fault (Tick × FTL.PageMapping)}
    {tick : Tick} {done : Tick × FTL.PageMapping} (h : op tick emptyFlash = .ok done) :
    endOf op tick = done.1 := by
  rw [endOf, h]

theorem flashRequest_eq {req : FTLRequest}
    (fits : req.ioFlag.length = smallCache.lineCountInSuperPage) :
    (⟨(flashRequest sum req).lpn, (flashRequest sum req).ioFlag⟩ : FTLRequest) = req := by
  obtain ⟨lpn, ioFlag⟩ := req
  obtain ⟨flag, rfl⟩ := List.length_eq_one_iff.1 fits
  rfl

theorem smallCache_onFTL : OnFTL { smallCache with sum := sum, finish := smallFinish sum }
    (smallFlashBy sum) (fun _ => 1) { smallDRAM with sum := sum } := by
  intro accesses a tick fits
  change Answers _ _ _ a tick (smallFinish sum accesses a tick)
  cases a with
  | ftlRead req =>
      obtain ⟨done, h⟩ := emptyFlash_reads sum (flashRequest sum req) tick
      have answered : Answers (smallFlashBy sum) (fun _ => 1) { smallDRAM with sum := sum } _ tick
        done.1 := .ftlRead h
      rw [flashRequest_eq sum fits] at answered
      rw [smallFinish, endOf_eq h]
      exact answered
  | ftlWrite req =>
      obtain ⟨done, h⟩ := emptyFlash_writes sum (flashRequest sum req) tick
      have answered : Answers (smallFlashBy sum) (fun _ => 1) { smallDRAM with sum := sum } _ tick
        done.1 := .ftlWrite h
      rw [flashRequest_eq sum fits] at answered
      rw [smallFinish, endOf_eq h]
      exact answered
  | ftlTrim req =>
      obtain ⟨done, h⟩ := emptyFlash_trims sum (flashRequest sum req) tick
      have answered : Answers (smallFlashBy sum) (fun _ => 1) { smallDRAM with sum := sum } _ tick
        done.1 := .ftlTrim h
      rw [flashRequest_eq sum fits] at answered
      rw [smallFinish, endOf_eq h]
      exact answered
  | ftlFormat range => exact fits.elim
  | dramRead size => exact .dramRead size tick _
  | dramWrite size => exact .dramWrite size tick _

end

def smallStack : Stack where
  cache := smallCache
  ftl := smallFlash
  dram := smallDRAM
  ftlLatency := fun _ => 1
  finish := smallFinish
  ftlFinish := smallFTLFinish
  onFTL := smallCache_onFTL
  onDRAM := fun _ _ _ _ => ⟨⟨0, false⟩, rfl⟩

def firstPage : FTL.Request smallFlash := ⟨0, [true], .inl rfl⟩

theorem firstPage_inWord : InWord fun sum => FTL.PageMapping.write (smallStack.ftlBy sum) anyOrder
    (smallStack.requestBy sum firstPage) 10 emptyFlash := by
  intro sum agree
  have small : ∀ a b, a + b < 1000 → sum a b = a + b :=
    fun a b lt => agree a b (lt.trans (by decide))
  simp [FTL.PageMapping.write, FTL.PageMapping.writeInternal, FTL.PageMapping.detach,
    FTL.PageMapping.getLastFreeBlock, FTL.PageMapping.rotate, FTL.PageMapping.accessMapping,
    FTL.PageMapping.access, FTL.PageMapping.writeUnit, FTL.PageMapping.collectIfNeeded,
    FTL.PageMapping.setBlock, FTL.PageMapping.setEntry, FTL.Block.new, FTL.Block.erase,
    FTL.Block.write, FTL.Block.getNextWritePageIndex, FTL.Config.bitsetSize, FTL.Config.unmapped,
    FTL.Config.unitFlags, FTL.Config.slotOf, FTL.Request.selects, FTL.Request.hostUnit,
    FTL.Request.test, FTL.Timing.applyLatency, Stack.ftlBy, Stack.requestBy, smallStack, smallFlash,
    smallFTLFinish, smallDRAM, DRAM.SimpleDRAM.read, DRAM.SimpleDRAM.updateDelay,
    DRAM.SimpleDRAM.pageCount, emptyFlash, firstPage, bind, Except.bind, pure, Except.pure, small,
    add64, wordSize]
  rfl

/-- A page written to the small flash at tick 10. -/
theorem stack_forward_small : ∃ done, FTL.PageMapping.write (smallStack.ftlBy add64) anyOrder
    (smallStack.requestBy add64 firstPage) 10 emptyFlash = .ok done ∧ 10 ≤ done.1 := by
  obtain ⟨done, hdone⟩ := exists_of_isOk (x := FTL.PageMapping.write (smallStack.ftlBy add64)
    anyOrder (smallStack.requestBy add64 firstPage) 10 emptyFlash) (by decide +kernel)
  have forward := (stack_forward smallStack (fun _ => 1) 4096).1.2.1 anyOrder firstPage
  exact ⟨done, hdone, forward 10 emptyFlash firstPage_inWord done hdone⟩

/-- Near the largest tick the lookup alone leaves the word. -/
theorem read_wraps : ¬ ∀ (st : Stack) (req : Request) (tick : Tick) (s : GenericCache)
    (result : Bool × Tick × GenericCache), tick < wordSize →
      GenericCache.read (st.cacheBy add64) req tick s = .ok result → tick ≤ result.2.1 := by
  intro forward
  have early : ((GenericCache.read (smallStack.cacheBy add64) ⟨0, 512, 0⟩ (2 ^ 64 - 1)
      GenericCache.construct).map fun result => decide (result.2.1 < 2 ^ 64 - 1)) =
        .ok true := by
    decide +kernel
  obtain ⟨result, hresult, hearly⟩ := map_eq_ok.1 early
  exact not_le.2 (of_decide_eq_true hearly)
    (forward smallStack ⟨0, 512, 0⟩ (2 ^ 64 - 1) .construct result (by decide) hresult)

end Stack

end SimpleSSD.ICL
