import SimpleSSD.FTL.Grounding

/-!
# Requests to flash

The flash requests of reads, writes and collections, each with the blocks when it is made.
Where a step returns, they are what it adds to the log of accesses.
-/

namespace SimpleSSD.FTL

open SimpleSSD.Foundation

def Access.toFlash : Access → Bool
  | .palRead _ | .palWrite _ | .palErase _ => true
  | .dramRead _ | .dramWrite _ => false

namespace PageMapping

structure Issue where
  blocks : Nat → Option Block
  access : Access

variable (cfg : Config)

/-! ## Issues -/

def unitReads (req : Request cfg) (entries : Nat → Nat × Nat) (tick : Tick)
    (call : (Tick × PageMapping) × Nat) : List Issue :=
  if req.selects call.2 && cfg.live (entries call.2) then
    match call.1.2.blocks (entries call.2).1 with
    | none => []
    | some blk =>
        match blk.read (entries call.2).2 call.2 tick with
        | .error _ => []
        | .ok _ => [⟨call.1.2.blocks, .palRead ⟨(entries call.2).1, (entries call.2).2,
            cfg.unitFlags req.ioFlag.length call.2⟩⟩]
  else []

def readIssues (req : Request cfg) (tick : Tick) (s : PageMapping) : List Issue :=
  match s.table req.lpn with
  | none => []
  | some entries =>
      let looked := access cfg
        (.dramRead (if cfg.bRandomTweak then 8 * req.ioFlag.count true else 8)) tick s
      (visits (readUnit cfg req entries looked.1) (List.range cfg.bitsetSize)
        (tick, looked.2)).flatMap (unitReads cfg req entries looked.1)

/-- The requests of one call of `writeUnit`: the old page is read before the new one is
written. -/
def unitIssues (req : Request cfg) (sendToPAL : Bool) (start : Nat × Tick × PageMapping)
    (call : (Tick × PageMapping) × Nat) : List Issue :=
  if sendToPAL && req.selects call.2 then
    match call.1.2.blocks start.1, call.1.2.table req.lpn with
    | some blk, some entries =>
        match blk.write (blk.nextWritePageIndex call.2) req.lpn call.2 start.2.1 with
        | .error _ => []
        | .ok _ =>
            let old : PALRequest :=
              ⟨(entries call.2).1, (entries call.2).2, req.ioFlag.map not⟩
            let new : PALRequest := ⟨start.1, blk.nextWritePageIndex call.2,
              cfg.unitFlags req.ioFlag.length call.2⟩
            (if !cfg.bRandomTweak && !req.ioFlag.all id then
              [⟨call.1.2.blocks, .palRead old⟩] else []) ++ [⟨call.1.2.blocks, .palWrite new⟩]
    | _, _ => []
  else []

def hostIssues (req : Request cfg) (tick : Tick) (sendToPAL : Bool) (s : PageMapping) :
    List Issue :=
  match beginWrite cfg req tick sendToPAL s with
  | .error _ => []
  | .ok start =>
      (visits (writeStep cfg req sendToPAL start) (List.range cfg.bitsetSize)
        (tick, recorded cfg req start.2.2)).flatMap (unitIssues cfg req sendToPAL start)

def eraseIssues (call : (Tick × PageMapping) × Nat) : List Issue :=
  match call.1.2.blocks call.2 with
  | none => []
  | some blk =>
      if blk.getValidPageCount = 0 then
        [⟨call.1.2.blocks, .palErase ⟨call.2, 0, List.replicate cfg.param.ioUnitInPage true⟩⟩]
      else []

/-- A collection makes its requests when all of them are collected, the reads before the
writes. -/
def collectionIssues (list : List Nat) (tick : Tick) (s : PageMapping) : List Issue :=
  match list.foldlM (collectBlock cfg) ⟨s, tick, [], []⟩ with
  | .error _ => []
  | .ok w =>
      (w.reads.map fun pal => ⟨s.blocks, .palRead pal⟩) ++
        (w.writes.map fun copy => ⟨s.blocks, .palWrite copy.req⟩) ++
          (eraseCalls cfg list tick s).flatMap (eraseIssues cfg)

def internalIssues (choices : Choices) (req : Request cfg) (tick : Tick) (sendToPAL : Bool)
    (s : PageMapping) : List Issue :=
  hostIssues cfg req tick sendToPAL s ++
    (collections cfg choices req tick sendToPAL s).flatMap fun gc =>
      collectionIssues cfg gc.1 gc.2.1 gc.2.2

variable {cfg}

def Step.issues (s : PageMapping) : Step cfg → List Issue
  | .call (.fill choices lpn) => internalIssues cfg choices (fillRequest cfg lpn) 0 false s
  | .call (.op (.write choices req tick)) =>
      if 0 < req.ioFlag.count true then internalIssues cfg choices req tick true s else []
  | .call (.op (.read req tick)) =>
      if 0 < req.ioFlag.count true then readIssues cfg req tick s else []
  | .call (.op (.trim _ _)) => []
  | .format choices range tick =>
      (collected cfg choices range s).flatMap fun gc => collectionIssues cfg gc.2 tick gc.1

variable {s s' : PageMapping} {list rest : List Nat} {b block dst page idx : Nat}
  {tick tick' : Tick} {req : Request cfg} {entries : Nat → Nat × Nat} {choices : Choices}
  {w w' : Collection} {bit : Nat → Bool} {lpns : Nat → Nat} {iomap : List Bool}
  {acc acc' : Tick × PageMapping} {sendToPAL : Bool} {start : Nat × Tick × PageMapping}

/-! ## The log -/

def flashLog (s : PageMapping) : List Access := s.accesses.filter Access.toFlash

theorem flashLog_of_eq (h : s'.accesses = s.accesses) : s'.flashLog = s.flashLog := by
  unfold flashLog
  rw [h]

theorem readUnit_log (h : readUnit cfg req entries tick acc idx = .ok acc') :
    acc'.2.flashLog =
      ((unitReads cfg req entries tick (acc, idx)).map Issue.access).reverse ++ acc.2.flashLog := by
  unfold unitReads
  dsimp only
  rcases readUnit_eq_ok h with ⟨hsel, rfl⟩ | ⟨blk, blk', hsel, hblk, hread, _, rfl, rfl⟩
  · rw [if_neg hsel]
    rfl
  · rw [if_pos hsel]
    simp only [hblk, hread]
    rfl

theorem writeStep_log (h : writeStep cfg req sendToPAL start acc idx = .ok acc') :
    acc'.2.flashLog =
      ((unitIssues cfg req sendToPAL start (acc, idx)).map Issue.access).reverse ++
        acc.2.flashLog := by
  unfold writeStep writeUnit at h
  unfold unitIssues
  dsimp only
  by_cases hsel : req.selects idx = true
  · rw [if_pos hsel] at h
    cases hblk : acc.2.blocks start.1 with
    | none =>
        simp only [hblk] at h
        cases h
    | some blk =>
        cases htable : acc.2.table req.lpn with
        | none =>
            simp only [hblk, htable] at h
            cases h
        | some entries =>
            simp only [hblk, htable] at h
            obtain ⟨blk', hwrite, h⟩ := bind_eq_ok.1 h
            cases h
            simp only [hsel, hwrite]
            cases sendToPAL with
            | false => simp [flashLog, setEntry, setBlock]
            | true => cases !cfg.bRandomTweak && !req.ioFlag.all id <;> rfl
  · rw [if_neg hsel] at h
    cases h
    simp [hsel]

theorem eraseStep_log (h : eraseStep cfg tick acc block = .ok acc') :
    acc'.2.flashLog =
      ((eraseIssues cfg (acc, block)).map Issue.access).reverse ++ acc.2.flashLog := by
  obtain ⟨⟨done, mid⟩, herase, hpair⟩ := bind_eq_ok.1 h
  cases hpair
  obtain ⟨blk, free, nFree, hblk, hcount, -, rfl⟩ := eraseInternal_eq_ok herase
  have hused : acc.2.blocks block = some blk := hblk
  simp only [eraseIssues, hused, hcount, if_true]
  rfl

theorem relocateUnit_log (run : relocateUnit cfg block page dst bit lpns w idx = .ok w') :
    w'.mapping.flashLog = w.mapping.flashLog := by
  by_cases hbit : bit idx = true
  · obtain ⟨blk, blk', entries, free, free', -, -, -, -, -, rfl⟩ := relocateUnit_eq_ok hbit run
    rfl
  · cases relocateUnit_unselected hbit run
    rfl

theorem collectBlocks_log (run : list.foldlM (collectBlock cfg) w = .ok w') :
    w'.mapping.flashLog = w.mapping.flashLog := by
  refine foldlM_invariant_mem (fun mid : Collection => mid.mapping.flashLog = w.mapping.flashLog)
    (fun block _ mid next h hstep => ?_) run rfl
  unfold collectBlock at hstep
  split at hstep
  · cases hstep
  · refine foldlM_invariant_mem (fun mid : Collection => mid.mapping.flashLog = w.mapping.flashLog)
      (fun page _ mid next h hstep => ?_) hstep h
    unfold relocatePage at hstep
    split at hstep
    · cases hstep
    · dsimp only at hstep
      split_ifs at hstep
      · obtain ⟨⟨dst, opened⟩, hopen, hstep⟩ := bind_eq_ok.1 hstep
        have hopened := flashLog_of_eq (getLastFreeBlock_opened hopen).accesses
        exact foldlM_invariant_mem
          (fun mid : Collection => mid.mapping.flashLog = w.mapping.flashLog)
          (fun idx _ mid next h hstep => (relocateUnit_log hstep).trans h) hstep (hopened.trans h)
      · cases hstep
        exact h

theorem carryOut_log (tick : Tick) (w : Collection) :
    (carryOut cfg tick w).2.2.flashLog =
      ((w.reads.map Access.palRead) ++
        w.writes.map fun copy => Access.palWrite copy.req).reverse ++ w.mapping.flashLog := by
  unfold carryOut flashLog
  simp only [issueAll_accesses, List.filter_append, List.reverse_append, List.append_assoc]
  congr 1
  · rw [List.filter_eq_self]
    simp [Access.toFlash]
  · congr 1
    rw [List.filter_eq_self]
    simp [Access.toFlash]

theorem doGarbageCollection_log (run : doGarbageCollection cfg list tick s = .ok (tick', s')) :
    s'.flashLog =
      ((collectionIssues cfg list tick s).map Issue.access).reverse ++ s.flashLog := by
  rcases doGarbageCollection_eq_ok cfg run with
    ⟨rfl, rfl⟩ | ⟨w, erases, hcollect, herases, rfl⟩
  · rfl
  · have hlog := visits_log (fun acc : Tick × PageMapping => acc.2.flashLog)
      (fun call => (eraseIssues cfg call).map Issue.access)
      (fun _ _ _ hstep => by simpa using eraseStep_log hstep) herases
    rw [hlog, carryOut_log, collectBlocks_log hcollect]
    simp [collectionIssues, eraseCalls, hcollect, List.map_flatMap, Function.comp_def]

theorem invalidateAll_log {f : PageMapping → Nat → Except Fault PageMapping} {sel : Nat → Bool}
    (hf : Invalidates cfg entries sel f) (run : list.foldlM f s = .ok s') :
    s'.flashLog = s.flashLog := by
  refine foldlM_invariant_mem (fun mid : PageMapping => mid.flashLog = s.flashLog)
    (fun idx _ mid next h hstep => ?_) run rfl
  rcases hf mid idx next hstep with ⟨-, _, _, -, -, rfl⟩ | ⟨rfl, -⟩
  · exact h
  · exact h

theorem trimUnits_log (cfg : Config) (run : list.foldlM (trimUnit entries) s = .ok s') :
    s'.flashLog = s.flashLog := by
  have hinvalidates : Invalidates cfg entries (fun _ => true) (trimUnit entries) :=
    trimUnit_invalidates
  exact invalidateAll_log hinvalidates run

theorem beginWrite_log (run : beginWrite cfg req tick sendToPAL s = .ok start) :
    start.2.2.flashLog = s.flashLog := by
  obtain ⟨opened, s₁, s₂, hdetach, hopen, rfl⟩ := beginWrite_eq_ok run
  have hdetached : s₁.flashLog = s.flashLog := by
    unfold detach at hdetach
    split at hdetach
    · cases hdetach
      rfl
    · exact invalidateAll_log invalidateUnit_invalidates hdetach
  refine Eq.trans ?_ ((flashLog_of_eq (getLastFreeBlock_opened hopen).accesses).trans hdetached)
  cases sendToPAL <;> rfl

theorem writeInternal_log
    (run : writeInternal cfg choices req tick sendToPAL s = .ok (tick', s')) :
    s'.flashLog =
      ((internalIssues cfg choices req tick sendToPAL s).map Issue.access).reverse ++
        s.flashLog := by
  obtain ⟨begun, done, hbegin, hloop, rfl, hcollect⟩ := writeInternal_eq_ok run
  have hwritten := visits_log (fun acc : Tick × PageMapping => acc.2.flashLog)
    (fun call => (unitIssues cfg req sendToPAL begun call).map Issue.access)
    (fun _ _ _ hstep => by simpa using writeStep_log hstep) hloop
  have hrecorded : (recorded cfg req begun.2.2).flashLog = s.flashLog := beginWrite_log hbegin
  rcases collectIfNeeded_eq_ok hcollect with
    ⟨hbelow, rfl⟩ | ⟨hbelow, rfl, list, beginAt, finished, -, hselect, hgc⟩
  · rw [hwritten, hrecorded]
    simp [internalIssues, hostIssues, collections, hbegin, hloop, hbelow, List.map_flatMap]
  · have hselected : flashLog { done.2 with bReclaimMore := false } = done.2.flashLog := rfl
    have hselect : selectVictimBlock cfg choices
        (cfg.timing.applyLatency .writeInternal done.1) done.2 =
          .ok (list, beginAt, { done.2 with bReclaimMore := false }) := hselect
    rw [doGarbageCollection_log hgc, hselected, hwritten, hrecorded]
    simp [internalIssues, hostIssues, collections, hbegin, hloop, hbelow, hselect,
      List.map_flatMap]

theorem formatPages_log {range : LPNRange} {done : PageMapping × List Nat}
    (run : formatPages cfg choices range s = .ok done) : done.1.flashLog = s.flashLog := by
  refine foldlM_invariant_mem
    (fun acc : PageMapping × List Nat => acc.1.flashLog = s.flashLog)
    (fun lpn _ acc acc' h hstep => ?_) run rfl
  rcases formatPage_eq_ok hstep with ⟨-, rfl⟩ | ⟨entries, trimmed, -, htrim, rfl⟩
  · exact h
  · exact (trimUnits_log cfg htrim).trans h

theorem readInternal_log (run : readInternal cfg req tick s = .ok (tick', s')) :
    s'.flashLog = ((readIssues cfg req tick s).map Issue.access).reverse ++ s.flashLog := by
  rcases readInternal_eq_ok run with ⟨htable, hpair⟩ | ⟨entries, last, htable, hloop, hpair⟩
  · cases hpair
    simp [readIssues, htable]
  · cases hpair
    have hread := visits_log (fun acc : Tick × PageMapping => acc.2.flashLog)
      (fun call => (unitReads cfg req entries _ call).map Issue.access)
      (fun _ _ _ hstep => by simpa using readUnit_log hstep) hloop
    rw [hread]
    simp only [readIssues, htable, List.map_flatMap]
    rfl

theorem issues_logged {step : Step cfg} (run : step.apply s = .ok s') :
    s'.flashLog = ((step.issues s).map Issue.access).reverse ++ s.flashLog := by
  cases step with
  | format choices range tick =>
      obtain ⟨⟨done, mid⟩, hformat, hpair⟩ := bind_eq_ok.1 run
      cases hpair
      obtain ⟨⟨t, list⟩, hpages, hformat⟩ := bind_eq_ok.1 hformat
      obtain ⟨⟨done', collected⟩, hgc, hpair⟩ := bind_eq_ok.1 hformat
      cases hpair
      rw [doGarbageCollection_log hgc, formatPages_log hpages]
      simp [Step.issues, PageMapping.collected, hpages]
  | call request =>
      cases request with
      | fill choices lpn =>
          obtain ⟨⟨done, mid⟩, hwrite, hpair⟩ := bind_eq_ok.1 run
          cases hpair
          exact writeInternal_log hwrite
      | op op =>
          cases op with
          | write choices req tick =>
              obtain ⟨⟨done, mid⟩, hwrite, hpair⟩ := bind_eq_ok.1 run
              cases hpair
              obtain ⟨⟨done', mid'⟩, hinternal, hpair⟩ := bind_eq_ok.1 hwrite
              cases hpair
              by_cases hcount : 0 < req.ioFlag.count true
              · rw [if_pos hcount] at hinternal
                simpa only [Step.issues, hcount, if_true] using writeInternal_log hinternal
              · rw [if_neg hcount] at hinternal
                cases hinternal
                simp only [Step.issues, hcount, if_false]
                rfl
          | read req tick =>
              obtain ⟨⟨done, mid⟩, hread, hpair⟩ := bind_eq_ok.1 run
              cases hpair
              obtain ⟨⟨done', mid'⟩, hinternal, hpair⟩ := bind_eq_ok.1 hread
              cases hpair
              by_cases hcount : 0 < req.ioFlag.count true
              · rw [if_pos hcount] at hinternal
                simpa only [Step.issues, hcount, if_true] using readInternal_log hinternal
              · rw [if_neg hcount] at hinternal
                cases hinternal
                simp only [Step.issues, hcount, if_false]
                rfl
          | trim req tick =>
              obtain ⟨⟨done, mid⟩, htrim, hpair⟩ := bind_eq_ok.1 run
              cases hpair
              obtain ⟨⟨done', mid'⟩, hinternal, hpair⟩ := bind_eq_ok.1 htrim
              cases hpair
              rcases trimInternal_eq_ok hinternal with
                ⟨-, hpair⟩ | ⟨entries, last, -, hloop, hpair⟩
              · cases hpair
                rfl
              · cases hpair
                exact (trimUnits_log cfg hloop :)

end PageMapping

end SimpleSSD.FTL
