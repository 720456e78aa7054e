import SimpleSSD.FTL.CollectionCalls

/-!
# Write discipline

Each write goes to the next page of its unit, which is erased, and a block is erased
only when nothing in it is valid, in any run.
-/

namespace SimpleSSD.FTL.PageMapping

open SimpleSSD.Foundation

variable {cfg : Config} {s s' : PageMapping} {rest : List Nat} {block idx : Nat}
  {tick tick' : Tick} {req : Request cfg} {e : Fault} {choices : Choices}

/-! ## Writes of the host -/

structure WritingInOrder (cfg : Config) (req : Request cfg) (host : HostRecord) (block : Nat)
    (rest : List Nat) (acc : Tick × PageMapping) : Prop where
  bound : ∀ idx ∈ rest, idx < cfg.bitsetSize
  nodup : rest.Nodup
  writing : Writing cfg req host rest acc.2
  sequential : Sequential acc.2
  ready : 0 < cfg.param.pagesInBlock → Ready cfg block rest acc.2

variable {sendToPAL : Bool} {start : Nat × Tick × PageMapping} {acc acc' : Tick × PageMapping}

theorem WritingInOrder.step (h : WritingInOrder cfg req start.2.2.host start.1 (idx :: rest) acc)
    (hmerges : Merges req (!cfg.bRandomTweak && !req.ioFlag.all id && sendToPAL))
    (run : writeStep cfg req sendToPAL start acc idx = .ok acc') :
    WritingInOrder cfg req start.2.2.host start.1 rest acc' := by
  obtain ⟨hnotin, hnodup⟩ := List.nodup_cons.1 h.nodup
  have hwriting := h.writing.writeUnit (h.bound idx List.mem_cons_self) hnotin hmerges run
  have hblocks : Sequential acc'.2 ∧
      (0 < cfg.param.pagesInBlock → Ready cfg start.1 rest acc'.2) := by
    by_cases hsel : req.selects idx = true
    · obtain ⟨blk, blk', entries, page, accesses, rfl, hblk, -, hwrite, hacc⟩ :=
        writeUnit_eq_ok hsel run
      rw [hacc]
      have hwritten := (h.sequential.inUse start.1 blk hblk).write hwrite
      exact ⟨(h.sequential.setBlock hwritten).congr rfl rfl,
        fun hpages => ((h.ready hpages).write hblk hnotin hwrite).congr rfl⟩
    · cases writeUnit_unselected hsel run
      exact ⟨h.sequential, fun hpages => (h.ready hpages).tail⟩
  exact ⟨fun i hi => h.bound i (List.mem_cons_of_mem idx hi), hnodup, hwriting, hblocks.1,
    hblocks.2⟩

theorem WritingInOrder.first (tick' : Tick) (h : Intact cfg s.contents ∅ s)
    (hsequential : Sequential s)
    (hunits : 0 < cfg.param.ioUnitInPage)
    (run : beginWrite cfg req tick sendToPAL s = .ok start) :
    WritingInOrder cfg req start.2.2.host start.1 (List.range cfg.bitsetSize)
      (tick', recorded cfg req start.2.2) := by
  obtain ⟨hwriting, -⟩ := h.beginWrite run
  obtain ⟨block, s₁, s₂, hdetach, hopen, rfl⟩ := beginWrite_eq_ok run
  obtain ⟨hdetached, -⟩ := h.detach hdetach
  have hopened := (hsequential.detach hdetach).getLastFreeBlock hopen
  obtain ⟨accesses, hlooked⟩ := accessMapping_eq req tick sendToPAL s₂
  have hblocks : (recorded cfg req (accessMapping cfg req tick sendToPAL s₂).2).blocks =
      s₂.blocks := by
    rw [hlooked]
    rfl
  have hfree : (recorded cfg req (accessMapping cfg req tick sendToPAL s₂).2).freeBlocks =
      s₂.freeBlocks := by
    rw [hlooked]
    rfl
  exact ⟨fun i => List.mem_range.1, List.nodup_range, hwriting, hopened.congr hblocks hfree,
    fun hpages => (getLastFreeBlock_ready (hsequential.detach hdetach) hdetached hpages hunits
      hopen).congr hblocks⟩

theorem WritingInOrder.writes (h : WritingInOrder cfg req start.2.2.host block (idx :: rest) acc)
    (hunits : 0 < cfg.param.ioUnitInPage) (hpages : 0 < cfg.param.pagesInBlock) :
    ∀ call ∈ unitWrites cfg req block (acc, idx), call.Disciplined cfg := by
  intro call hcall
  unfold unitWrites at hcall
  dsimp only at hcall
  split_ifs at hcall
  · split at hcall
    · rename_i blk entries hblk htable
      rw [List.mem_singleton.1 hcall]
      obtain ⟨-, -, hsound⟩ := h.writing.intact.inUse block blk hblk
      exact disciplined_of_ready (h.ready hpages) hblk (h.sequential.inUse block blk hblk) hsound
        (lt_of_lt_of_le (h.bound idx List.mem_cons_self) (bitsetSize_le hunits))
    · cases hcall
  · cases hcall

theorem WritingInOrder.harmless
    (h : WritingInOrder cfg req start.2.2.host start.1 (idx :: rest) acc)
    (run : writeStep cfg req sendToPAL start acc idx = .error e) : Harmless e := by
  unfold writeStep writeUnit at run
  by_cases hsel : req.selects idx = true
  · rw [if_pos hsel] at run
    split at run
    · rename_i blk entries hblk htable
      rcases bind_eq_error.1 run with hwrite | ⟨blk', -, hdone⟩
      · exact Plain.harmless (plain_of_bounds
          ((h.sequential.inUse start.1 blk hblk).write_eq_error hwrite))
      · cases hdone
    · cases run
      decide
  · rw [if_neg hsel] at run
    cases run

theorem detach_eq_error (run : detach cfg req s = .error e) : e = .undefined ∨ e = .outOfRange := by
  unfold detach at run
  split at run
  · cases run
  · rename_i entries htable
    obtain ⟨v, -, herror⟩ := exists_visit_of_error run
    unfold invalidateUnit at herror
    by_cases hsel : (req.selects v.2 && cfg.live (entries v.2)) = true
    · rw [if_pos hsel] at herror
      split at herror
      · cases herror
        exact .inl rfl
      · rcases bind_eq_error.1 herror with hinv | ⟨blk', -, hdone⟩
        · exact .inr (Block.invalidate_eq_error hinv)
        · cases hdone
    · rw [if_neg hsel] at herror
      cases herror

theorem detach_plain (run : detach cfg req s = .error e) : Plain e := by
  rcases detach_eq_error run with rfl | rfl <;> decide

theorem beginWrite_harmless (run : beginWrite cfg req tick sendToPAL s = .error e) :
    Harmless e := by
  rcases bind_eq_error.1 run with hdetach | ⟨s₁, -, run⟩
  · exact (detach_plain hdetach).harmless
  · rcases bind_eq_error.1 run with hopen | ⟨opened, -, run⟩
    · exact openingFaults_harmless e (getLastFreeBlock_eq_error hopen)
    · dsimp only at run
      split_ifs at run
      cases run
      decide

theorem writeInternal_collects (h : Intact cfg s.contents ∅ s) (hsequential : Sequential s)
    (hunits : 2 ≤ cfg.param.ioUnitInPage)
    (hmerges : Merges req (!cfg.bRandomTweak && !req.ioFlag.all id && sendToPAL)) :
    ∀ gc ∈ collections cfg choices req tick sendToPAL s,
      Intact cfg gc.2.2.contents ∅ gc.2.2 ∧ Sequential gc.2.2 ∧
        ∀ b ∈ gc.1, Full cfg gc.2.2 b := by
  intro gc hgc
  unfold collections at hgc
  split at hgc
  · cases hgc
  · rename_i start hbegin
    split at hgc
    · cases hgc
    · rename_i done hloop
      split_ifs at hgc
      · split at hgc
        · cases hgc
        · rename_i selected hselect
          rw [List.mem_singleton.1 hgc]
          obtain ⟨list, beginAt, mid⟩ := selected
          have hfirst := WritingInOrder.first tick h hsequential (by omega) hbegin
          obtain ⟨hintact, -⟩ := hfirst.writing.writeUnits hmerges hloop
          have hdone := foldlM_invariant (WritingInOrder cfg req start.2.2.host start.1)
            (fun idx rest acc acc' hinv hstep => hinv.step hmerges hstep) hloop hfirst
          obtain ⟨hfull, rfl⟩ := selectVictimBlock_eq_ok hselect
          exact ⟨hintact.congr rfl rfl rfl rfl, hdone.sequential.congr rfl rfl, hfull⟩
      · cases hgc

theorem internalWrites_disciplined (h : Intact cfg s.contents ∅ s)
    (hsequential : Sequential s) (hunits : 2 ≤ cfg.param.ioUnitInPage)
    (hpages : 0 < cfg.param.pagesInBlock)
    (hmerges : Merges req (!cfg.bRandomTweak && !req.ioFlag.all id && sendToPAL)) :
    ∀ call ∈ internalWrites cfg choices req tick sendToPAL s, call.Disciplined cfg := by
  intro call hcall
  rcases List.mem_append.1 hcall with hhost | hgc
  · unfold hostWrites at hhost
    split at hhost
    · cases hhost
    · rename_i start hbegin
      obtain ⟨v, hv, hcall⟩ := List.mem_flatMap.1 hhost
      obtain ⟨rest, hinv⟩ := visits_invariant (WritingInOrder cfg req start.2.2.host start.1)
        (fun idx rest acc acc' hinv hstep => hinv.step hmerges hstep)
        (WritingInOrder.first tick h hsequential (by omega) hbegin) v hv
      exact hinv.writes (by omega) hpages call hcall
  · obtain ⟨gc, hgc, hcall⟩ := List.mem_flatMap.1 hgc
    obtain ⟨hintact, hseq, hfull⟩ :=
      writeInternal_collects h hsequential hunits hmerges gc hgc
    exact collectionWrites_disciplined hintact hseq hfull hunits hpages call hcall

theorem internalErases_drained (h : Intact cfg s.contents ∅ s)
    (hsequential : Sequential s) (hunits : 2 ≤ cfg.param.ioUnitInPage)
    (hmerges : Merges req (!cfg.bRandomTweak && !req.ioFlag.all id && sendToPAL)) :
    ∀ blk ∈ internalErases cfg choices req tick sendToPAL s, blk.getValidPageCount = 0 := by
  intro blk hblk
  obtain ⟨gc, hgc, hblk⟩ := List.mem_flatMap.1 hblk
  obtain ⟨hintact, hseq, hfull⟩ := writeInternal_collects h hsequential hunits hmerges gc hgc
  exact erasedBlocks_drained hintact hseq hfull hunits blk hblk

theorem Sequential.writeInternal (h : Intact cfg s.contents ∅ s) (hsequential : Sequential s)
    (hunits : 2 ≤ cfg.param.ioUnitInPage)
    (hmerges : Merges req (!cfg.bRandomTweak && !req.ioFlag.all id && sendToPAL))
    (run : writeInternal cfg choices req tick sendToPAL s = .ok (tick', s')) : Sequential s' := by
  obtain ⟨start, done, hbegin, hloop, rfl, hcollect⟩ := writeInternal_eq_ok run
  have hfirst := WritingInOrder.first tick h hsequential (by omega) hbegin
  obtain ⟨hintact, -⟩ := hfirst.writing.writeUnits hmerges hloop
  have hdone := foldlM_invariant (WritingInOrder cfg req start.2.2.host start.1)
    (fun idx rest acc acc' hinv hstep => hinv.step hmerges hstep) hloop hfirst
  rcases collectIfNeeded_eq_ok hcollect with
    ⟨-, rfl⟩ | ⟨-, -, list, beginAt, finished, hfull, -, hgc⟩
  · exact hdone.sequential
  · exact Sequential.doGarbageCollection (s := { done.2 with bReclaimMore := false })
      (hintact.congr rfl rfl rfl rfl) (hdone.sequential.congr rfl rfl) hfull hunits hgc

theorem writeInternal_harmless (h : Intact cfg s.contents ∅ s) (hsequential : Sequential s)
    (hunits : 2 ≤ cfg.param.ioUnitInPage)
    (hmerges : Merges req (!cfg.bRandomTweak && !req.ioFlag.all id && sendToPAL))
    (run : writeInternal cfg choices req tick sendToPAL s = .error e) : Harmless e := by
  rw [writeInternal_eq] at run
  rcases bind_eq_error.1 run with hbegin | ⟨start, hbegin, run⟩
  · exact beginWrite_harmless hbegin
  have hfirst := WritingInOrder.first tick h hsequential (by omega) hbegin
  rcases bind_eq_error.1 run with hloop | ⟨done, hloop, run⟩
  · obtain ⟨v, hv, herror⟩ := exists_visit_of_error hloop
    obtain ⟨rest, hinv⟩ := visits_invariant (WritingInOrder cfg req start.2.2.host start.1)
      (fun idx rest acc acc' hinv hstep => hinv.step hmerges hstep) hfirst v hv
    exact hinv.harmless herror
  obtain ⟨hintact, -⟩ := hfirst.writing.writeUnits hmerges hloop
  have hdone := foldlM_invariant (WritingInOrder cfg req start.2.2.host start.1)
    (fun idx rest acc acc' hinv hstep => hinv.step hmerges hstep) hloop hfirst
  rcases bind_eq_error.1 run with hcollect | ⟨s₃, -, hpair⟩
  · unfold collectIfNeeded at hcollect
    split_ifs at hcollect
    · rcases bind_eq_error.1 hcollect with hselect | ⟨⟨list, beginAt, mid⟩, hselect, hcollect⟩
      · exact (selectVictimBlock_plain hselect).harmless
      · obtain ⟨hfull, rfl⟩ := selectVictimBlock_eq_ok hselect
        rcases bind_eq_error.1 hcollect with hgc | ⟨collected, -, hpair⟩
        · exact doGarbageCollection_harmless (s := { done.2 with bReclaimMore := false })
            (hintact.congr rfl rfl rfl rfl) (hdone.sequential.congr rfl rfl) hfull hunits hgc
        · cases hpair
    · cases hcollect
      decide
  · cases hpair

/-! ## Reads and trims -/

theorem Sequential.readUnit {entries : Nat → Nat × Nat} {acc acc' : Tick × PageMapping}
    (h : Sequential acc.2) (run : readUnit cfg req entries tick acc idx = .ok acc') :
    Sequential acc'.2 := by
  rcases readUnit_eq_ok run with ⟨-, rfl⟩ | ⟨blk, blk', -, hblk, hread, _, rfl, rfl⟩
  · exact h
  · exact (h.setBlock ((h.inUse _ blk hblk).read hread)).congr rfl rfl

theorem readUnit_plain {entries : Nat → Nat × Nat} {acc : Tick × PageMapping}
    (run : readUnit cfg req entries tick acc idx = .error e) : Plain e := by
  unfold readUnit at run
  by_cases hsel : (req.selects idx && cfg.live (entries idx)) = true
  · rw [if_pos hsel] at run
    split at run
    · cases run
      decide
    · rcases bind_eq_error.1 run with hread | ⟨blk', -, hpair⟩
      · exact plain_of_bounds (Block.read_eq_error hread)
      · cases hpair
  · rw [if_neg hsel] at run
    cases run

theorem Sequential.read (h : Sequential s) (run : read cfg req tick s = .ok (tick', s')) :
    Sequential s' := by
  rcases read_eq_ok run with rfl | ⟨entries, last, -, hloop, rfl⟩
  · exact h
  · have hlast := foldlM_invariant_mem (fun acc : Tick × PageMapping => Sequential acc.2)
      (fun idx _ acc acc' hacc hstep => hacc.readUnit hstep) hloop
    exact hlast (h.congr rfl rfl)

theorem read_plain (run : read cfg req tick s = .error e) : Plain e := by
  rcases bind_eq_error.1 run with hdone | ⟨done, -, hpair⟩
  · by_cases hcount : 0 < req.ioFlag.count true
    · rw [if_pos hcount] at hdone
      unfold readInternal at hdone
      split at hdone
      · cases hdone
      · rcases bind_eq_error.1 hdone with hloop | ⟨last, -, hpair⟩
        · obtain ⟨v, -, herror⟩ := exists_visit_of_error hloop
          exact readUnit_plain herror
        · cases hpair
    · rw [if_neg hcount] at hdone
      cases hdone
  · cases hpair

theorem Sequential.trim (h : Sequential s) (run : trim cfg req tick s = .ok (tick', s')) :
    Sequential s' := by
  obtain ⟨⟨done, mid⟩, hdone, hpair⟩ := bind_eq_ok.1 run
  cases hpair
  rcases trimInternal_eq_ok hdone with ⟨-, hpair⟩ | ⟨entries, last, -, hloop, hpair⟩
  · cases hpair
    exact h.congr rfl rfl
  · cases hpair
    have hunits : Invalidates cfg entries (fun _ => true) (trimUnit entries) :=
      trimUnit_invalidates
    exact ((h.access _).invalidateAll hunits hloop).congr rfl rfl

theorem trim_plain (run : trim cfg req tick s = .error e) : Plain e := by
  rcases bind_eq_error.1 run with hdone | ⟨done, -, hpair⟩
  · unfold trimInternal at hdone
    split at hdone
    · cases hdone
    · rcases bind_eq_error.1 hdone with hloop | ⟨last, -, hpair⟩
      · obtain ⟨v, -, herror⟩ := exists_visit_of_error hloop
        unfold trimUnit at herror
        split at herror
        · cases herror
          decide
        · rcases bind_eq_error.1 herror with hinv | ⟨blk', -, hpair⟩
          · exact plain_of_bounds (.inl (Block.invalidate_eq_error hinv))
          · cases hpair
      · cases hpair
  · cases hpair

/-! ## Runs -/

/-- A step of a run: a page of the initial filling, or a request. -/
inductive Call (cfg : Config) where
  | fill (choices : Choices) (lpn : Nat)
  | op (op : Op cfg)

namespace Call

def apply (s : PageMapping) : Call cfg → Except Fault PageMapping
  | .fill choices lpn => do
      let done ← PageMapping.writeInternal cfg choices (fillRequest cfg lpn) 0 false s
      .ok done.2
  | .op request => Op.apply s request

def writes (s : PageMapping) : Call cfg → List BlockWrite
  | .fill choices lpn => internalWrites cfg choices (fillRequest cfg lpn) 0 false s
  | .op (.write choices req tick) =>
      if 0 < req.ioFlag.count true then internalWrites cfg choices req tick true s else []
  | .op _ => []

def erases (s : PageMapping) : Call cfg → List Block
  | .fill choices lpn => internalErases cfg choices (fillRequest cfg lpn) 0 false s
  | .op (.write choices req tick) =>
      if 0 < req.ioFlag.count true then internalErases cfg choices req tick true s else []
  | .op _ => []

def ofRun (choices : Choices) (filling : Filling) (ops : List (Op cfg)) : List (Call cfg) :=
  filling.lpns.map (.fill choices) ++ ops.map .op

end Call

variable {filling : Filling} {ops : List (Op cfg)} {calls : List (Call cfg)} {call : Call cfg}

theorem run_eq_calls (choices : Choices) (filling : Filling) (ops : List (Op cfg)) :
    run cfg choices filling ops =
      (construct cfg >>= (Call.ofRun choices filling ops).foldlM Call.apply) := by
  unfold run
  congr 1
  funext s
  simp only [Call.ofRun, List.foldlM_append, List.foldlM_map]
  rfl

theorem Call.apply_eq_ok (run : call.apply s = .ok s') :
    s' = s ∨
    (∃ choices req tick sendToPAL tick',
      writeInternal cfg choices req tick sendToPAL s = .ok (tick', s')) ∨
    (∃ req tick tick', read cfg req tick s = .ok (tick', s')) ∨
    ∃ req tick tick', trim cfg req tick s = .ok (tick', s') := by
  cases call with
  | fill choices lpn =>
      obtain ⟨⟨done, mid⟩, hwrite, hpair⟩ := bind_eq_ok.1 run
      cases hpair
      exact .inr (.inl ⟨choices, _, _, _, done, hwrite⟩)
  | op op =>
      cases op with
      | write choices req tick =>
          obtain ⟨⟨done, mid⟩, hwrite, hpair⟩ := bind_eq_ok.1 run
          cases hpair
          obtain ⟨⟨done', mid'⟩, hinternal, hpair⟩ := bind_eq_ok.1 hwrite
          cases hpair
          by_cases hcount : 0 < req.ioFlag.count true
          · rw [if_pos hcount] at hinternal
            exact .inr (.inl ⟨choices, req, tick, true, done', hinternal⟩)
          · rw [if_neg hcount] at hinternal
            cases hinternal
            exact .inl rfl
      | read req tick =>
          obtain ⟨⟨done, mid⟩, hread, hpair⟩ := bind_eq_ok.1 run
          cases hpair
          exact .inr (.inr (.inl ⟨req, tick, done, hread⟩))
      | trim req tick =>
          obtain ⟨⟨done, mid⟩, htrim, hpair⟩ := bind_eq_ok.1 run
          cases hpair
          exact .inr (.inr (.inr ⟨req, tick, done, htrim⟩))

structure Disciplined (cfg : Config) (s : PageMapping) : Prop where
  intact : Intact cfg s.contents ∅ s
  sequential : Sequential s

theorem construct_disciplined (h : construct cfg = .ok s) : Disciplined cfg s := by
  refine ⟨(construct_intact h).1, ?_⟩
  refine foldlM_invariant_mem Sequential ?_ h ⟨fun b blk hblk => ?_, fun blk hblk => ?_⟩
  · intro i _ s s' hs hstep
    obtain ⟨⟨block, mid⟩, hget, hpair⟩ := bind_eq_ok.1 hstep
    cases hpair
    exact (hs.getFreeBlock hget).congr rfl rfl
  · cases hblk
  · obtain ⟨idx, -, rfl⟩ := List.mem_map.1 hblk
    exact Block.new_sequential idx

theorem Disciplined.apply (h : Disciplined cfg s) (hunits : 2 ≤ cfg.param.ioUnitInPage)
    (run : call.apply s = .ok s') : Disciplined cfg s' := by
  cases call with
  | fill choices lpn =>
      obtain ⟨⟨done, mid⟩, hwrite, hpair⟩ := bind_eq_ok.1 run
      cases hpair
      exact ⟨(h.intact.writeInternal hunits (merges_fill lpn _) hwrite).1,
        Sequential.writeInternal h.intact h.sequential hunits (merges_fill lpn _) hwrite⟩
  | op op =>
      refine ⟨(h.intact.apply hunits run).1, ?_⟩
      cases op with
      | write choices req tick =>
          obtain ⟨⟨done, mid⟩, hwrite, hpair⟩ := bind_eq_ok.1 run
          cases hpair
          obtain ⟨⟨done', mid'⟩, hinternal, hpair⟩ := bind_eq_ok.1 hwrite
          cases hpair
          split_ifs at hinternal
          · exact Sequential.writeInternal h.intact h.sequential hunits (merges_write req)
              hinternal
          · cases hinternal
            exact h.sequential
      | read req tick =>
          obtain ⟨⟨done, mid⟩, hread, hpair⟩ := bind_eq_ok.1 run
          cases hpair
          exact h.sequential.read hread
      | trim req tick =>
          obtain ⟨⟨done, mid⟩, htrim, hpair⟩ := bind_eq_ok.1 run
          cases hpair
          exact h.sequential.trim htrim

theorem Disciplined.harmless (h : Disciplined cfg s) (hunits : 2 ≤ cfg.param.ioUnitInPage)
    (run : call.apply s = .error e) : Harmless e := by
  cases call with
  | fill choices lpn =>
      rcases bind_eq_error.1 run with hwrite | ⟨done, -, hpair⟩
      · exact writeInternal_harmless h.intact h.sequential hunits (merges_fill lpn _) hwrite
      · cases hpair
  | op op =>
      cases op with
      | write choices req tick =>
          rcases bind_eq_error.1 run with hwrite | ⟨done, -, hpair⟩
          · rcases bind_eq_error.1 hwrite with hinternal | ⟨done, -, hpair⟩
            · split_ifs at hinternal
              exact writeInternal_harmless h.intact h.sequential hunits (merges_write req)
                hinternal
            · cases hpair
          · cases hpair
      | read req tick =>
          rcases bind_eq_error.1 run with hread | ⟨done, -, hpair⟩
          · exact (read_plain hread).harmless
          · cases hpair
      | trim req tick =>
          rcases bind_eq_error.1 run with htrim | ⟨done, -, hpair⟩
          · exact (trim_plain htrim).harmless
          · cases hpair

theorem Disciplined.writes (h : Disciplined cfg s) (hunits : 2 ≤ cfg.param.ioUnitInPage)
    (hpages : 0 < cfg.param.pagesInBlock) (call : Call cfg) :
    ∀ write ∈ call.writes s, write.Disciplined cfg := by
  cases call with
  | fill choices lpn =>
      exact internalWrites_disciplined h.intact h.sequential hunits hpages (merges_fill lpn _)
  | op op =>
      cases op with
      | write choices req tick =>
          simp only [Call.writes]
          split_ifs
          · exact internalWrites_disciplined h.intact h.sequential hunits hpages
              (merges_write req)
          · simp
      | read req tick => simp [Call.writes]
      | trim req tick => simp [Call.writes]

theorem Disciplined.erases (h : Disciplined cfg s) (hunits : 2 ≤ cfg.param.ioUnitInPage)
    (call : Call cfg) : ∀ blk ∈ call.erases s, blk.getValidPageCount = 0 := by
  cases call with
  | fill choices lpn =>
      exact internalErases_drained h.intact h.sequential hunits (merges_fill lpn _)
  | op op =>
      cases op with
      | write choices req tick =>
          simp only [Call.erases]
          split_ifs
          · exact internalErases_drained h.intact h.sequential hunits (merges_write req)
          · simp
      | read req tick => simp [Call.erases]
      | trim req tick => simp [Call.erases]

theorem construct_harmless (h : construct cfg = .error e) : Harmless e := by
  obtain ⟨v, -, herror⟩ := exists_visit_of_error h
  rcases bind_eq_error.1 herror with hget | ⟨done, -, hpair⟩
  · exact openingFaults_harmless e (getFreeBlock_eq_error hget)
  · cases hpair

/-- In every run each write goes to the next page of its unit, which is erased and, if
blocks have pages at all, within the block; what reaches an erase has no valid page;
and no run ends in one of the four panics. -/
theorem write_discipline (hunits : 2 ≤ cfg.param.ioUnitInPage) :
    (∀ (choices : Choices) (filling : Filling) (ops : List (Op cfg)),
      ∀ fault ∈ disciplinePanics, run cfg choices filling ops ≠ .error fault) ∧
    ∀ start, construct cfg = .ok start →
      ∀ (calls : List (Call cfg)) (s : PageMapping), calls.foldlM Call.apply start = .ok s →
        ∀ call : Call cfg,
          (0 < cfg.param.pagesInBlock → ∀ write ∈ call.writes s, write.Disciplined cfg) ∧
          (∀ blk ∈ call.erases s, blk.getValidPageCount = 0) ∧
          ∀ fault ∈ disciplinePanics, call.apply s ≠ .error fault := by
  constructor
  · intro choices filling ops fault hfault hrun
    rw [run_eq_calls] at hrun
    rcases bind_eq_error.1 hrun with hconstruct | ⟨start, hconstruct, hcalls⟩
    · exact construct_harmless hconstruct hfault
    · obtain ⟨v, hv, herror⟩ := exists_visit_of_error hcalls
      obtain ⟨-, hdisciplined⟩ := visits_invariant_mem (Disciplined cfg)
        (fun call _ s s' h hstep => h.apply hunits hstep) (construct_disciplined hconstruct) v hv
      exact hdisciplined.harmless hunits herror hfault
  · intro start hconstruct calls s hcalls call
    have hdisciplined := foldlM_invariant_mem (Disciplined cfg)
      (fun call _ s s' h hstep => h.apply hunits hstep) hcalls (construct_disciplined hconstruct)
    exact ⟨fun hpages => hdisciplined.writes hunits hpages call,
      hdisciplined.erases hunits call,
      fun fault hfault herror => hdisciplined.harmless hunits herror hfault⟩

theorem write_discipline_small : ∃ start s, construct smallConfig = .ok start ∧
    (Call.ofRun plainChoices smallFilling smallOps).foldlM Call.apply start = .ok s ∧
      ∀ write ∈ Call.writes s (.op (.write plainChoices (smallRequest 0 true true) 6)),
        write.Disciplined smallConfig := by
  obtain ⟨s, hrun⟩ := smallRun_ok
  rw [run_eq_calls] at hrun
  obtain ⟨start, hconstruct, hcalls⟩ := bind_eq_ok.1 hrun
  have hcall := (write_discipline (by decide)).2 start hconstruct _ s hcalls
    (.op (.write plainChoices (smallRequest 0 true true) 6))
  exact ⟨start, s, hconstruct, hcalls, hcall.1 (by decide)⟩

def pagelessConfig : Config := { smallConfig with param := ⟨4, 2, 0, 2, 1⟩ }

def pagelessRequest : Request pagelessConfig := ⟨0, [true, true], .inl rfl⟩

/-- In blocks without pages the first write is behind the last page. -/
theorem pageless_write : ¬ ∀ cfg : Config, 2 ≤ cfg.param.ioUnitInPage →
    ∀ start, construct cfg = .ok start →
      ∀ (calls : List (Call cfg)) (s : PageMapping), calls.foldlM Call.apply start = .ok s →
        ∀ call : Call cfg, ∀ write ∈ call.writes s, write.page < cfg.param.pagesInBlock := by
  intro inside
  have hcalls : (do
      let start ← construct pagelessConfig
      .ok ((Call.op (.write plainChoices pagelessRequest 0)).writes start).length) =
        (.ok 1 : Except Fault Nat) := by
    decide +kernel
  obtain ⟨start, hconstruct, hwrites⟩ := bind_eq_ok.1 hcalls
  obtain ⟨write, hwrite⟩ := List.exists_mem_of_length_pos
    (lt_of_lt_of_eq Nat.zero_lt_one (Except.ok.inj hwrites).symm)
  have hlt := inside pagelessConfig (by decide) start hconstruct [] start rfl _ write hwrite
  exact absurd hlt (Nat.not_lt_zero _)

end SimpleSSD.FTL.PageMapping
