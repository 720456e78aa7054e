import SimpleSSD.FTL.OpenSlots

/-!
# Where blocks go

A block leaves the free blocks in `getFreeBlock` and comes back, or is dropped, in
`eraseInternal`.  Everything else that requests do keeps the free blocks and how often each
block has been erased.
-/

namespace SimpleSSD.FTL

open SimpleSSD.Foundation

def Access.erases (b : Nat) : Access → Bool
  | .palErase req => req.blockIndex == b
  | _ => false

namespace PageMapping

def erasesOf (s : PageMapping) (b : Nat) : Nat := s.accesses.countP (Access.erases b)

structure Quiet (s s' : PageMapping) : Prop where
  freeBlocks : s'.freeBlocks = s.freeBlocks
  nFreeBlocks : s'.nFreeBlocks = s.nFreeBlocks
  blocks : ∀ b, (s'.blocks b).map (fun blk => (blk.idx, blk.eraseCount)) =
    (s.blocks b).map fun blk => (blk.idx, blk.eraseCount)
  erasesOf : ∀ b, s'.erasesOf b = s.erasesOf b

variable {cfg : Config} {s s' s'' : PageMapping} {list : List Nat}
  {b block dst page idx i : Nat} {blk blk' : Block} {tick tick' : Tick}
  {iomap : List Bool} {req : Request cfg} {choices : Choices} {w w' : Collection}
  {bit : Nat → Bool} {lpns : Nat → Nat} {Inv : PageMapping → Prop}

/-! ## Quiet steps -/

namespace Quiet

theorem refl (s : PageMapping) : Quiet s s := ⟨rfl, rfl, fun _ => rfl, fun _ => rfl⟩

theorem trans (h : Quiet s s') (h' : Quiet s' s'') : Quiet s s'' :=
  ⟨h'.freeBlocks.trans h.freeBlocks, h'.nFreeBlocks.trans h.nFreeBlocks,
    fun b => (h'.blocks b).trans (h.blocks b), fun b => (h'.erasesOf b).trans (h.erasesOf b)⟩

theorem issue (issued : List Access) (plain : ∀ a ∈ issued, ∀ b, a.erases b = false)
    (hb : s'.blocks = s.blocks) (hf : s'.freeBlocks = s.freeBlocks)
    (hn : s'.nFreeBlocks = s.nFreeBlocks) (ha : s'.accesses = issued ++ s.accesses) :
    Quiet s s' := by
  refine ⟨hf, hn, fun b => by rw [hb], fun b => ?_⟩
  have hzero : issued.countP (Access.erases b) = 0 := by
    simpa [List.countP_eq_zero] using fun a ha => plain a ha b
  simp [PageMapping.erasesOf, ha, List.countP_append, hzero]

theorem of_eq (hb : s'.blocks = s.blocks) (hf : s'.freeBlocks = s.freeBlocks)
    (hn : s'.nFreeBlocks = s.nFreeBlocks) (ha : s'.accesses = s.accesses) : Quiet s s' :=
  issue [] (by simp) hb hf hn ha

theorem setBlock (hblk : s.blocks b = some blk) (hidx : blk'.idx = blk.idx)
    (hcount : blk'.eraseCount = blk.eraseCount) : Quiet s (s.setBlock b blk') := by
  refine ⟨rfl, rfl, fun b' => ?_, fun _ => rfl⟩
  by_cases heq : b' = b
  · subst heq
    simp [PageMapping.setBlock, hblk, hidx, hcount]
  · simp [PageMapping.setBlock, heq]

theorem foldlM {α β : Type} {f : β → α → Except Fault β} (state : β → PageMapping)
    (step : ∀ a b b', f b a = .ok b' → Quiet (state b) (state b')) {l : List α} {b b' : β}
    (run : l.foldlM f b = .ok b') : Quiet (state b) (state b') :=
  foldlM_invariant_mem (fun mid => Quiet (state b) (state mid))
    (fun a _ mid mid' h hstep => h.trans (step a mid mid' hstep)) run (.refl _)

theorem eq_none_iff (h : Quiet s s') (b : Nat) : s'.blocks b = none ↔ s.blocks b = none := by
  rw [← Option.map_eq_none_iff, h.blocks b, Option.map_eq_none_iff]

theorem old (h : Quiet s s') (hblk : s'.blocks b = some blk) :
    ∃ old, s.blocks b = some old ∧ blk.idx = old.idx ∧ blk.eraseCount = old.eraseCount := by
  have hsame := h.blocks b
  rw [hblk] at hsame
  cases hold : s.blocks b with
  | none => simp [hold] at hsame
  | some old =>
      simp only [hold, Option.map_some, Option.some.injEq, Prod.mk.injEq] at hsame
      exact ⟨old, rfl, hsame.1, hsame.2⟩

end Quiet

theorem write_eraseCount {lpn : Nat} (h : blk.write page lpn idx tick = .ok blk') :
    blk'.eraseCount = blk.eraseCount := by
  obtain ⟨-, -, -, -, rfl⟩ := Block.write_eq_ok h
  rfl

theorem invalidate_eraseCount (h : blk.invalidate page idx = .ok blk') :
    blk'.eraseCount = blk.eraseCount := by
  obtain ⟨-, rfl⟩ := Block.invalidate_eq_ok h
  rfl

theorem read_eraseCount (h : blk.read page idx tick = .ok blk') :
    blk'.eraseCount = blk.eraseCount := by
  obtain ⟨accessed, rfl⟩ := Block.read_eq_ok h
  rfl

theorem invalidateAll_quiet {entries : Nat → Nat × Nat} {sel : Nat → Bool}
    {f : PageMapping → Nat → Except Fault PageMapping} (hf : Invalidates cfg entries sel f)
    (run : list.foldlM f s = .ok s') : Quiet s s' := by
  refine Quiet.foldlM id (fun idx mid mid' hstep => ?_) run
  rcases hf mid idx mid' hstep with ⟨-, blk, blk', hblk, hinv, rfl⟩ | ⟨rfl, -⟩
  · exact .setBlock hblk (invalidate_idx hinv) (invalidate_eraseCount hinv)
  · exact .refl _

theorem detach_quiet (run : detach cfg req s = .ok s') : Quiet s s' := by
  unfold detach at run
  split at run
  · cases run
    exact .of_eq rfl rfl rfl rfl
  · exact invalidateAll_quiet invalidateUnit_invalidates run

theorem writeUnit_accesses {stamp : Nat} {readBeforeWrite sendToPAL : Bool}
    {acc acc' : Tick × PageMapping}
    (h : writeUnit cfg req block stamp tick readBeforeWrite sendToPAL acc idx = .ok acc') :
    ∃ issued, acc'.2.accesses = issued ++ acc.2.accesses ∧
      ∀ a ∈ issued, ∀ b, a.erases b = false := by
  unfold writeUnit at h
  split at h
  · split at h
    · obtain ⟨blk', hwrite, h⟩ := bind_eq_ok.1 h
      cases h
      cases sendToPAL with
      | false => exact ⟨[], by cases readBeforeWrite <;> rfl, by simp⟩
      | true =>
          cases readBeforeWrite with
          | false => exact ⟨[_], rfl, by simp [Access.erases]⟩
          | true => exact ⟨[_, _], rfl, by simp [Access.erases]⟩
    · cases h
  · cases h
    exact ⟨[], rfl, by simp⟩

theorem writeStep_quiet {sendToPAL : Bool} {start : Nat × Tick × PageMapping}
    {acc acc' : Tick × PageMapping} (run : writeStep cfg req sendToPAL start acc idx = .ok acc') :
    Quiet acc.2 acc'.2 := by
  obtain ⟨issued, hissued, plain⟩ := writeUnit_accesses run
  by_cases hsel : req.selects idx = true
  · obtain ⟨blk, blk', entries, page, accesses, -, hblk, -, hwrite, hacc⟩ :=
      writeUnit_eq_ok hsel run
    refine (Quiet.setBlock hblk (write_idx hwrite) (write_eraseCount hwrite)).trans ?_
    exact .issue issued plain (by rw [hacc]; rfl) (by rw [hacc]; rfl) (by rw [hacc]; rfl) hissued
  · cases writeUnit_unselected hsel run
    exact .refl _

theorem relocateUnit_quiet (run : relocateUnit cfg block page dst bit lpns w idx = .ok w') :
    Quiet w.mapping w'.mapping := by
  by_cases hbit : bit idx = true
  · obtain ⟨blk, blk', entries, free, free', hblk, hinv, -, hfree, hwrite, rfl⟩ :=
      relocateUnit_eq_ok hbit run
    have hinvalid := Quiet.setBlock hblk (invalidate_idx hinv) (invalidate_eraseCount hinv)
    have hwritten := Quiet.setBlock hfree (write_idx hwrite) (write_eraseCount hwrite)
    refine (hinvalid.trans hwritten).trans ?_
    exact .issue [.dramRead (8 * cfg.param.ioUnitInPage)] (by simp [Access.erases]) rfl rfl rfl rfl
  · cases relocateUnit_unselected hbit run
    exact .refl _

theorem readUnit_quiet {entries : Nat → Nat × Nat} {acc acc' : Tick × PageMapping}
    (run : readUnit cfg req entries tick acc idx = .ok acc') : Quiet acc.2 acc'.2 := by
  rcases readUnit_eq_ok run with ⟨-, rfl⟩ | ⟨blk, blk', -, hblk, hread, _, rfl, rfl⟩
  · exact .refl _
  · exact (Quiet.setBlock hblk (read_idx hread) (read_eraseCount hread)).trans
      (.issue [_] (by simp [Access.erases]) rfl rfl rfl rfl)

theorem access_quiet (cfg : Config) (size : Nat) (tick : Tick) (s : PageMapping) :
    Quiet s (access cfg (.dramRead size) tick s).2 :=
  .issue [.dramRead size] (by simp [Access.erases]) rfl rfl rfl rfl

theorem read_quiet (run : read cfg req tick s = .ok (tick', s')) : Quiet s s' := by
  rcases read_eq_ok run with rfl | ⟨entries, last, -, hloop, rfl⟩
  · exact .refl _
  · have hread := Quiet.foldlM Prod.snd (fun idx acc acc' hstep => readUnit_quiet hstep) hloop
    exact (access_quiet cfg _ tick s).trans hread

theorem trim_quiet (run : trim cfg req tick s = .ok (tick', s')) : Quiet s s' := by
  obtain ⟨⟨done, mid⟩, hdone, hpair⟩ := bind_eq_ok.1 run
  cases hpair
  rcases trimInternal_eq_ok hdone with ⟨-, hpair⟩ | ⟨entries, last, -, hloop, hpair⟩
  · cases hpair
    exact .of_eq rfl rfl rfl rfl
  · cases hpair
    have hunits : Invalidates cfg entries (fun _ => true) (trimUnit entries) :=
      trimUnit_invalidates
    exact ((access_quiet cfg _ tick s).trans (invalidateAll_quiet hunits hloop)).trans
      (.of_eq rfl rfl rfl rfl)

theorem accessMapping_quiet (req : Request cfg) (tick : Tick) (sendToPAL : Bool)
    (s : PageMapping) : Quiet s (accessMapping cfg req tick sendToPAL s).2 := by
  cases sendToPAL with
  | true => exact .issue [_, _] (by simp [Access.erases]) rfl rfl rfl rfl
  | false => exact .refl _

theorem issueAll_accesses (cfg : Config) (beginAt finishedAt : Tick) (requests : List Access)
    (s : PageMapping) :
    (issueAll cfg beginAt requests finishedAt s).2.accesses = requests.reverse ++ s.accesses := by
  unfold issueAll
  induction requests generalizing finishedAt s with
  | nil => rfl
  | cons a rest ih =>
      rw [List.foldl_cons, ih]
      simp [access]

theorem carryOut_quiet (cfg : Config) (tick : Tick) (w : Collection) :
    Quiet w.mapping (carryOut cfg tick w).2.2 := by
  obtain ⟨accesses, contents, heq⟩ := carryOut_eq cfg tick w
  refine .issue ((w.writes.map fun copy => .palWrite copy.req).reverse ++
    (w.reads.map .palRead).reverse) ?_ (by rw [heq]) (by rw [heq]) (by rw [heq]) ?_
  · intro a ha b
    simp only [List.mem_append, List.mem_reverse, List.mem_map] at ha
    rcases ha with ⟨copy, -, rfl⟩ | ⟨pal, -, rfl⟩
    · rfl
    · rfl
  · unfold carryOut
    simp only [issueAll_accesses, List.append_assoc]

/-! ## Collections -/

structure Opens (cfg : Config) (Inv : PageMapping → Prop) : Prop where
  quiet : ∀ {s s' : PageMapping}, Quiet s s' → Inv s → Inv s'
  getFreeBlock : ∀ {i b : Nat} {s s' : PageMapping},
    getFreeBlock cfg i s = .ok (b, s') → Inv s → Inv s'

structure Moves (cfg : Config) (Inv : PageMapping → Prop) : Prop extends Opens cfg Inv where
  eraseInternal : ∀ {req : PALRequest} {tick tick' : Tick} {s s' : PageMapping},
    eraseInternal cfg req tick s = .ok (tick', s') → Inv s → Inv s'

namespace Opens

theorem same (keeps : Opens cfg Inv) (h : Inv s) (hb : s'.blocks = s.blocks)
    (hf : s'.freeBlocks = s.freeBlocks) (hn : s'.nFreeBlocks = s.nFreeBlocks)
    (ha : s'.accesses = s.accesses) : Inv s' :=
  keeps.quiet (.of_eq hb hf hn ha) h

theorem getLastFreeBlock (keeps : Opens cfg Inv)
    (run : getLastFreeBlock cfg iomap s = .ok (b, s')) (h : Inv s) : Inv s' := by
  obtain ⟨index, flags, hrotate⟩ := rotate_eq cfg iomap s
  have hrotated : Inv { s with lastFreeBlockIndex := index, lastFreeBlockIOMap := flags } :=
    keeps.same h rfl rfl rfl rfl
  simp only [PageMapping.getLastFreeBlock, hrotate] at run
  split at run
  · cases run
  · split at run
    · cases run
    · split_ifs at run
      · obtain ⟨⟨fresh, mid⟩, hget, hpair⟩ := bind_eq_ok.1 run
        cases hpair
        exact keeps.same (keeps.getFreeBlock hget hrotated) rfl rfl rfl rfl
      · cases run
        exact hrotated

theorem relocatePage (keeps : Opens cfg Inv) (run : relocatePage cfg block w page = .ok w')
    (h : Inv w.mapping) : Inv w'.mapping := by
  unfold PageMapping.relocatePage at run
  split at run
  · cases run
  · dsimp only at run
    split_ifs at run
    · obtain ⟨⟨dst, opened⟩, hopen, run⟩ := bind_eq_ok.1 run
      exact keeps.quiet (Quiet.foldlM Collection.mapping
        (fun idx w w' hstep => relocateUnit_quiet hstep) run) (keeps.getLastFreeBlock hopen h)
    · cases run
      exact h

theorem collectBlocks (keeps : Opens cfg Inv) (run : list.foldlM (collectBlock cfg) w = .ok w')
    (h : Inv w.mapping) : Inv w'.mapping := by
  refine foldlM_invariant_mem (fun w : Collection => Inv w.mapping) ?_ run h
  intro block _ w w' h hstep
  unfold collectBlock at hstep
  split at hstep
  · cases hstep
  · exact foldlM_invariant_mem (fun w : Collection => Inv w.mapping)
      (fun page _ w w' h hstep => keeps.relocatePage hstep h) hstep h

end Opens

def Worn (cfg : Config) (s : PageMapping) (b : Nat) : Prop :=
  ∃ blk, s.blocks b = some blk ∧ cfg.badBlockThreshold ≤ blk.erase.eraseCount

theorem Worn.of_eq (h : Worn cfg s b) (hb : s'.blocks b = s.blocks b) : Worn cfg s' b := by
  obtain ⟨blk, hblk, hworn⟩ := h
  exact ⟨blk, hb.trans hblk, hworn⟩

theorem opens_worn : Opens cfg (Worn cfg · b) := by
  constructor
  · rintro s s' hquiet ⟨blk, hblk, hworn⟩
    cases hblk' : s'.blocks b with
    | none => simp [hquiet.eq_none_iff, hblk] at hblk'
    | some blk' =>
        obtain ⟨old, hold, -, hcount⟩ := hquiet.old hblk'
        cases Option.some.inj (hblk.symm.trans hold)
        exact ⟨blk', hblk', by simpa [Block.erase, hcount] using hworn⟩
  · rintro i fresh s s' run ⟨blk, hblk, hworn⟩
    obtain ⟨blk', rest, -, rfl, hnone, rfl⟩ := getFreeBlock_eq_ok run
    have hne : b ≠ blk'.idx := by
      rintro rfl
      cases hnone.symm.trans hblk
    exact ⟨blk, (Function.update_of_ne hne _ _).trans hblk, hworn⟩

namespace Moves

variable {sendToPAL : Bool}

theorem eraseStep (keeps : Moves cfg Inv) {acc acc' : Tick × PageMapping}
    (run : eraseStep cfg tick acc block = .ok acc') (h : Inv acc.2) : Inv acc'.2 := by
  obtain ⟨⟨done, mid⟩, herase, hpair⟩ := bind_eq_ok.1 run
  cases hpair
  exact keeps.eraseInternal herase h

theorem carriedOut (keeps : Moves cfg Inv)
    (run : list.foldlM (collectBlock cfg) ⟨s, tick, [], []⟩ = .ok w) (h : Inv s) :
    Inv (carryOut cfg tick w).2.2 :=
  keeps.quiet (carryOut_quiet cfg tick w) (keeps.collectBlocks run h)

theorem doGarbageCollection (keeps : Moves cfg Inv)
    (run : doGarbageCollection cfg list tick s = .ok (tick', s')) (h : Inv s) : Inv s' := by
  rcases doGarbageCollection_eq_ok cfg run with ⟨-, rfl⟩ | ⟨w, erases, hcollect, herases, rfl⟩
  · exact h
  · exact foldlM_invariant_mem (fun acc : Tick × PageMapping => Inv acc.2)
      (fun block _ acc acc' h hstep => keeps.eraseStep hstep h) herases
      (keeps.carriedOut hcollect h)

theorem eraseCalls (keeps : Moves cfg Inv) (h : Inv s) :
    ∀ call ∈ eraseCalls cfg list tick s, Inv call.1.2 := by
  intro call hcall
  unfold PageMapping.eraseCalls at hcall
  split at hcall
  · cases hcall
  · rename_i w hcollect
    have hstart := keeps.carriedOut hcollect h
    obtain ⟨-, hinv⟩ := visits_invariant_mem (fun acc : Tick × PageMapping => Inv acc.2)
      (fun block _ acc acc' h hstep => keeps.eraseStep hstep h)
      (b := (tick, (carryOut cfg tick w).2.2)) hstart call hcall
    exact hinv

theorem written (keeps : Moves cfg Inv) {start : Nat × Tick × PageMapping}
    {done : Tick × PageMapping} (hbegin : beginWrite cfg req tick sendToPAL s = .ok start)
    (hloop : (List.range cfg.bitsetSize).foldlM (writeStep cfg req sendToPAL start)
      (tick, recorded cfg req start.2.2) = .ok done) (h : Inv s) : Inv done.2 := by
  obtain ⟨opened, s₁, s₂, hdetach, hopen, rfl⟩ := beginWrite_eq_ok hbegin
  have hdetached := keeps.quiet (detach_quiet hdetach) h
  have hopened := keeps.getLastFreeBlock hopen hdetached
  have hlooked := keeps.quiet (accessMapping_quiet req tick sendToPAL s₂) hopened
  have hrecorded : Inv (recorded cfg req (accessMapping cfg req tick sendToPAL s₂).2) :=
    keeps.same hlooked rfl rfl rfl rfl
  exact keeps.quiet
    (Quiet.foldlM Prod.snd (fun idx acc acc' hstep => writeStep_quiet hstep) hloop) hrecorded

theorem writeInternal (keeps : Moves cfg Inv)
    (run : writeInternal cfg choices req tick sendToPAL s = .ok (tick', s')) (h : Inv s) :
    Inv s' := by
  obtain ⟨start, done, hbegin, hloop, rfl, hcollect⟩ := writeInternal_eq_ok run
  have hwritten := keeps.written hbegin hloop h
  rcases collectIfNeeded_eq_ok hcollect with
    ⟨-, rfl⟩ | ⟨-, -, list, beginAt, finished, -, -, hgc⟩
  · exact hwritten
  · exact keeps.doGarbageCollection hgc (keeps.same hwritten rfl rfl rfl rfl)

theorem collections (keeps : Moves cfg Inv) (h : Inv s) :
    ∀ gc ∈ collections cfg choices req tick sendToPAL s, Inv gc.2.2 := by
  intro gc hgc
  unfold PageMapping.collections at hgc
  split at hgc
  · cases hgc
  · rename_i start hbegin
    split at hgc
    · cases hgc
    · rename_i done hloop
      split_ifs at hgc
      · split at hgc
        · cases hgc
        · rename_i selected hselect
          cases List.mem_singleton.1 hgc
          obtain ⟨list, beginAt, mid⟩ := gc
          obtain ⟨-, rfl⟩ := selectVictimBlock_eq_ok hselect
          exact keeps.same (keeps.written hbegin hloop h) rfl rfl rfl rfl
      · cases hgc

theorem callCollections (keeps : Moves cfg Inv) (h : Inv s) (call : Call cfg) :
    ∀ gc ∈ call.collections s, Inv gc.2.2 := by
  intro gc hgc
  unfold Call.collections at hgc
  split at hgc
  · exact keeps.collections h gc hgc
  · split_ifs at hgc
    · exact keeps.collections h gc hgc
    · cases hgc
  · cases hgc

theorem apply (keeps : Moves cfg Inv) {call : Call cfg} (run : call.apply s = .ok s')
    (h : Inv s) : Inv s' := by
  rcases call.apply_eq_ok run with
    rfl | ⟨choices, req, tick, sendToPAL, tick', hwrite⟩ | ⟨req, tick, tick', hread⟩ |
      ⟨req, tick, tick', htrim⟩
  · exact h
  · exact keeps.writeInternal hwrite h
  · exact keeps.quiet (read_quiet hread) h
  · exact keeps.quiet (trim_quiet htrim) h

end Moves

end PageMapping

end SimpleSSD.FTL
