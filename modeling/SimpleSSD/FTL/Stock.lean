import SimpleSSD.FTL.OpenSlots

/-!
# The stock of blocks

A block leaves its slot only when it is full, so a block in use that is not open is full.
The count of free blocks is the length of their list, and these are different blocks out of
use, whatever the slots name.
-/

namespace SimpleSSD.FTL.PageMapping

open SimpleSSD.Foundation

structure Stocked (cfg : Config) (slots : List Nat) (s : PageMapping) : Prop where
  closed : ∀ b, s.blocks b ≠ none → b ∈ slots ∨ Full cfg s b
  count : s.nFreeBlocks = s.freeBlocks.length
  shelf : OpenSlots [] s

structure Inside (cfg : Config) (s s' : PageMapping) : Prop extends SameSlots s s' where
  nFreeBlocks : s'.nFreeBlocks = s.nFreeBlocks
  full : ∀ b, b ∉ s.lastFreeBlock → Full cfg s b → Full cfg s' b

variable {cfg : Config} {s s' s'' : PageMapping} {slots list : List Nat}
  {b block dst page idx i : Nat} {blk blk' : Block} {tick tick' : Tick} {iomap : List Bool}
  {req : Request cfg} {choices : Choices} {w w' : Collection} {bit : Nat → Bool}
  {lpns : Nat → Nat} {lpn : Nat}

/-! ## Steps within blocks -/

namespace Inside

theorem refl (s : PageMapping) : Inside cfg s s :=
  ⟨.refl s, rfl, fun _ _ h => h⟩

theorem trans (h : Inside cfg s s') (h' : Inside cfg s' s'') : Inside cfg s s'' := by
  refine ⟨h.toSameSlots.trans h'.toSameSlots, h'.nFreeBlocks.trans h.nFreeBlocks,
    fun b hb hfull => ?_⟩
  exact h'.full b (by rwa [h.lastFreeBlock]) (h.full b hb hfull)

theorem of_eq (hl : s'.lastFreeBlock = s.lastFreeBlock) (hf : s'.freeBlocks = s.freeBlocks)
    (hn : s'.nFreeBlocks = s.nFreeBlocks) (hb : s'.blocks = s.blocks) : Inside cfg s s' := by
  refine ⟨.of_eq hl hf hb, hn, fun b _ hfull => ?_⟩
  unfold Full
  rwa [hb]

theorem setBlock (hblk : s.blocks b = some blk) (hidx : blk'.idx = blk.idx)
    (hnext : blk'.getNextWritePageIndex = blk.getNextWritePageIndex) :
    Inside cfg s (s.setBlock b blk') := by
  refine ⟨.setBlock hblk hidx, rfl, fun b' _ hfull => ?_⟩
  by_cases heq : b' = b
  · subst heq
    obtain ⟨old, hold, hcount⟩ := hfull
    cases Option.some.inj (hblk.symm.trans hold)
    exact ⟨blk', Function.update_self .., hnext.trans hcount⟩
  · obtain ⟨old, hold, hcount⟩ := hfull
    exact ⟨old, (Function.update_of_ne heq _ _).trans hold, hcount⟩

theorem setOpen (hopen : b ∈ s.lastFreeBlock) (hblk : s.blocks b = some blk)
    (hidx : blk'.idx = blk.idx) : Inside cfg s (s.setBlock b blk') := by
  refine ⟨.setBlock hblk hidx, rfl, fun b' hnot hfull => ?_⟩
  obtain ⟨old, hold, hcount⟩ := hfull
  have hne : b' ≠ b := fun heq => hnot (heq ▸ hopen)
  exact ⟨old, (Function.update_of_ne hne _ _).trans hold, hcount⟩

theorem foldlM {α β : Type} {f : β → α → Except Fault β} (state : β → PageMapping)
    (step : ∀ a b b', f b a = .ok b' → Inside cfg (state b) (state b')) {l : List α} {b b' : β}
    (run : l.foldlM f b = .ok b') : Inside cfg (state b) (state b') :=
  foldlM_invariant_mem (fun mid => Inside cfg (state b) (state mid))
    (fun a _ mid mid' h hstep => h.trans (step a mid mid' hstep)) run (.refl _)

theorem foldlM_open {α β : Type} {f : β → α → Except Fault β} (state : β → PageMapping)
    (step : ∀ a b b', dst ∈ (state b).lastFreeBlock → f b a = .ok b' →
      Inside cfg (state b) (state b')) {l : List α} {b b' : β}
    (hopen : dst ∈ (state b).lastFreeBlock) (run : l.foldlM f b = .ok b') :
    Inside cfg (state b) (state b') := by
  refine foldlM_invariant_mem (fun mid => Inside cfg (state b) (state mid))
    (fun a _ mid mid' h hstep => h.trans (step a mid mid' ?_ hstep)) run (.refl _)
  rwa [h.lastFreeBlock]

end Inside

theorem Stocked.inside (h : Stocked cfg s.lastFreeBlock s) (hin : Inside cfg s s') :
    Stocked cfg s'.lastFreeBlock s' := by
  constructor
  · intro b hb
    rw [hin.lastFreeBlock]
    have hused : s.blocks b ≠ none := by
      intro hnone
      have hsame := hin.blocks b
      rw [hnone, Option.map_none, Option.map_eq_none_iff] at hsame
      exact hb hsame
    by_cases hopen : b ∈ s.lastFreeBlock
    · exact .inl hopen
    · exact .inr (hin.full b hopen ((h.closed b hused).resolve_left hopen))
  · rw [hin.nFreeBlocks, hin.freeBlocks]
    exact h.count
  · exact h.shelf.same hin.toSameSlots

theorem invalidate_next (h : blk.invalidate page idx = .ok blk') :
    blk'.getNextWritePageIndex = blk.getNextWritePageIndex := by
  obtain ⟨-, rfl⟩ := Block.invalidate_eq_ok h
  rfl

theorem invalidateAll_inside {entries : Nat → Nat × Nat} {sel : Nat → Bool}
    {f : PageMapping → Nat → Except Fault PageMapping} (hf : Invalidates cfg entries sel f)
    (run : list.foldlM f s = .ok s') : Inside cfg s s' := by
  refine Inside.foldlM id (fun idx mid mid' hstep => ?_) run
  rcases hf mid idx mid' hstep with ⟨-, blk, blk', hblk, hinv, rfl⟩ | ⟨rfl, -⟩
  · exact .setBlock hblk (invalidate_idx hinv) (invalidate_next hinv)
  · exact .refl _

theorem detach_inside (run : detach cfg req s = .ok s') : Inside cfg s s' := by
  unfold detach at run
  split at run
  · cases run
    exact .of_eq rfl rfl rfl rfl
  · exact invalidateAll_inside invalidateUnit_invalidates run

theorem writeStep_inside {sendToPAL : Bool} {start : Nat × Tick × PageMapping}
    {acc acc' : Tick × PageMapping} (hopen : start.1 ∈ acc.2.lastFreeBlock)
    (run : writeStep cfg req sendToPAL start acc idx = .ok acc') : Inside cfg acc.2 acc'.2 := by
  by_cases hsel : req.selects idx = true
  · obtain ⟨blk, blk', entries, page, accesses, -, hblk, -, hwrite, hacc⟩ :=
      writeUnit_eq_ok hsel run
    rw [hacc]
    exact (Inside.setOpen hopen hblk (write_idx hwrite)).trans (.of_eq rfl rfl rfl rfl)
  · cases writeUnit_unselected hsel run
    exact .refl _

theorem relocateUnit_inside (hopen : dst ∈ w.mapping.lastFreeBlock)
    (run : relocateUnit cfg block page dst bit lpns w idx = .ok w') :
    Inside cfg w.mapping w'.mapping := by
  by_cases hbit : bit idx = true
  · obtain ⟨blk, blk', entries, free, free', hblk, hinv, -, hfree, hwrite, rfl⟩ :=
      relocateUnit_eq_ok hbit run
    have hinvalid : Inside cfg w.mapping (w.mapping.setBlock block blk') :=
      .setBlock hblk (invalidate_idx hinv) (invalidate_next hinv)
    have hwritten : Inside cfg (w.mapping.setBlock block blk')
        ((w.mapping.setBlock block blk').setBlock dst free') :=
      .setOpen hopen hfree (write_idx hwrite)
    exact (hinvalid.trans hwritten).trans (.of_eq rfl rfl rfl rfl)
  · cases relocateUnit_unselected hbit run
    exact .refl _

theorem readUnit_inside {entries : Nat → Nat × Nat} {acc acc' : Tick × PageMapping}
    (run : readUnit cfg req entries tick acc idx = .ok acc') : Inside cfg acc.2 acc'.2 := by
  rcases readUnit_eq_ok run with ⟨-, rfl⟩ | ⟨blk, blk', -, hblk, hread, _, rfl, rfl⟩
  · exact .refl _
  · have hnext : blk'.getNextWritePageIndex = blk.getNextWritePageIndex := by
      obtain ⟨accessed, rfl⟩ := Block.read_eq_ok hread
      rfl
    exact (Inside.setBlock hblk (read_idx hread) hnext).trans (.of_eq rfl rfl rfl rfl)

theorem read_inside (run : read cfg req tick s = .ok (tick', s')) : Inside cfg s s' := by
  rcases read_eq_ok run with rfl | ⟨entries, last, -, hloop, rfl⟩
  · exact .refl _
  · have hlooked : Inside cfg s (lookUp cfg req tick s).2 := .of_eq rfl rfl rfl rfl
    have hread := Inside.foldlM Prod.snd (fun idx acc acc' hstep => readUnit_inside hstep) hloop
    exact hlooked.trans hread

theorem trim_inside (run : trim cfg req tick s = .ok (tick', s')) : Inside cfg s s' := by
  obtain ⟨⟨done, mid⟩, hdone, hpair⟩ := bind_eq_ok.1 run
  cases hpair
  rcases trimInternal_eq_ok hdone with ⟨-, hpair⟩ | ⟨entries, last, -, hloop, hpair⟩
  · cases hpair
    exact .of_eq rfl rfl rfl rfl
  · cases hpair
    have hunits : Invalidates cfg entries (fun _ => true) (trimUnit entries) :=
      trimUnit_invalidates
    have hlooked : Inside cfg s (lookUp cfg req tick s).2 := .of_eq rfl rfl rfl rfl
    exact (hlooked.trans (invalidateAll_inside hunits hloop)).trans (.of_eq rfl rfl rfl rfl)

/-! ## Opening and erasing -/

theorem OpenSlots.drop (h : OpenSlots slots s) : OpenSlots [] s :=
  ⟨by simp, List.nodup_nil, h.indexed, h.free, h.freeDistinct⟩

theorem OpenSlots.congr (h : OpenSlots slots s) (hb : s'.blocks = s.blocks)
    (hf : s'.freeBlocks = s.freeBlocks) : OpenSlots slots s' :=
  ⟨hb ▸ h.inUse, h.distinct, hb ▸ h.indexed, hf ▸ hb ▸ h.free, hf ▸ h.freeDistinct⟩

namespace Stocked

theorem getFreeBlock (h : Stocked cfg slots s) (run : getFreeBlock cfg i s = .ok (b, s')) :
    Stocked cfg (b :: slots) s' := by
  have hshelf := h.shelf.getFreeBlock run
  obtain ⟨blk, rest, hperm, -, -, rfl⟩ := getFreeBlock_eq_ok run
  refine ⟨?_, ?_, hshelf.drop⟩
  · intro b' hb'
    by_cases heq : b' = b
    · exact .inl (heq ▸ List.mem_cons_self)
    · have hkept : Function.update s.blocks b (some blk) b' = s.blocks b' :=
        Function.update_of_ne heq _ _
      rcases h.closed b' (by rwa [← hkept]) with hopen | ⟨old, hold, hcount⟩
      · exact .inl (List.mem_cons_of_mem b hopen)
      · exact .inr ⟨old, hkept.trans hold, hcount⟩
  · have hlength := hperm.length_eq
    rw [List.length_cons, ← h.count] at hlength
    change s.nFreeBlocks - 1 = rest.length
    omega

theorem set (h : Stocked cfg (b :: slots) s)
    (hfull : ∀ old, slots[i]? = some old → Full cfg s old) (hi : i < slots.length) :
    Stocked cfg (slots.set i b) s := by
  refine ⟨fun b' hb' => ?_, h.count, h.shelf⟩
  rcases h.closed b' hb' with hopen | hclosed
  · rcases List.mem_cons.1 hopen with rfl | hold
    · exact .inl (List.mem_set hi b')
    · obtain ⟨j, hj, rfl⟩ := List.getElem_of_mem hold
      by_cases heq : i = j
      · subst heq
        exact .inr (hfull _ (List.getElem?_eq_getElem hj))
      · refine .inl (List.mem_iff_getElem.2 ⟨j, by rwa [List.length_set], ?_⟩)
        rw [List.getElem_set_ne heq]
  · exact .inr hclosed

theorem getLastFreeBlock (h : Stocked cfg s.lastFreeBlock s)
    (run : getLastFreeBlock cfg iomap s = .ok (b, s')) :
    Stocked cfg s'.lastFreeBlock s' ∧ b ∈ s'.lastFreeBlock ∧
      s'.lastFreeBlock.length = s.lastFreeBlock.length := by
  obtain ⟨index, flags, hrotate⟩ := rotate_eq cfg iomap s
  have hrotated : Stocked cfg s.lastFreeBlock
      { s with lastFreeBlockIndex := index, lastFreeBlockIOMap := flags } :=
    ⟨h.closed, h.count, h.shelf.congr rfl rfl⟩
  simp only [PageMapping.getLastFreeBlock, hrotate] at run
  split at run
  · cases run
  · rename_i last hlast
    split at run
    · cases run
    · rename_i blk hblk
      split_ifs at run with hfull
      · obtain ⟨⟨fresh, mid⟩, hget, hpair⟩ := bind_eq_ok.1 run
        have hopened := hrotated.getFreeBlock hget
        obtain ⟨blk', rest, -, -, hnone, rfl⟩ := getFreeBlock_eq_ok hget
        cases hpair
        have hindex : index < s.lastFreeBlock.length := (List.getElem?_eq_some_iff.1 hlast).1
        refine ⟨⟨(hopened.set (fun old hold => ?_) hindex).closed, hopened.count,
          hopened.shelf.congr rfl rfl⟩, List.mem_set hindex fresh, List.length_set⟩
        cases Option.some.inj (hlast.symm.trans hold)
        have hne : last ≠ fresh := by
          rintro rfl
          cases hnone.symm.trans hblk
        exact ⟨blk, (Function.update_of_ne hne _ _).trans hblk, hfull⟩
      · cases run
        exact ⟨hrotated, List.mem_of_getElem? hlast, rfl⟩

theorem insertFree_length (blk : Block) (free : List Block) :
    (insertFree blk free).length = free.length + 1 :=
  (insertFree_perm blk free).length_eq

theorem eraseInternal (h : Stocked cfg slots s) {req : PALRequest}
    (run : eraseInternal cfg req tick s = .ok (tick', s')) : Stocked cfg slots s' := by
  refine ⟨?_, ?_, h.shelf.eraseInternal List.not_mem_nil run⟩
  · obtain ⟨blk, free, nFree, -, -, -, rfl⟩ := eraseInternal_eq_ok run
    intro b hb
    have hne : b ≠ req.blockIndex := by
      rintro rfl
      exact hb (Function.update_self ..)
    have hkept : Function.update s.blocks req.blockIndex none b = s.blocks b :=
      Function.update_of_ne hne _ _
    rcases h.closed b (by rwa [← hkept]) with hopen | ⟨old, hold, hcount⟩
    · exact .inl hopen
    · exact .inr ⟨old, hkept.trans hold, hcount⟩
  · obtain ⟨blk, mid, -, -, hmid, rfl⟩ := eraseInternal_reinserts run
    rcases reinsert_eq_ok hmid with ⟨-, -, rfl⟩ | ⟨-, rfl⟩
    · exact (congrArg (· + 1) h.count).trans (insertFree_length ..).symm
    · exact h.count

end Stocked

/-! ## Collections -/

/-- The stock while a collection runs, with as many slots as before. -/
def Stocking (cfg : Config) (n : Nat) (s : PageMapping) : Prop :=
  Stocked cfg s.lastFreeBlock s ∧ s.lastFreeBlock.length = n

variable {n : Nat}

theorem Stocking.inside (h : Stocking cfg n s) (hin : Inside cfg s s') : Stocking cfg n s' :=
  ⟨h.1.inside hin, hin.lastFreeBlock ▸ h.2⟩

theorem Stocking.relocatePage (h : Stocking cfg n w.mapping)
    (run : relocatePage cfg block w page = .ok w') : Stocking cfg n w'.mapping := by
  unfold PageMapping.relocatePage at run
  split at run
  · cases run
  · dsimp only at run
    split_ifs at run
    · obtain ⟨⟨dst, opened⟩, hopen, run⟩ := bind_eq_ok.1 run
      obtain ⟨hopened, hdst, hlength⟩ := h.1.getLastFreeBlock hopen
      have hstart : Stocking cfg n opened := ⟨hopened, hlength.trans h.2⟩
      exact hstart.inside (Inside.foldlM_open Collection.mapping
        (fun idx w w' hdst hstep => relocateUnit_inside hdst hstep) hdst run)
    · cases run
      exact h

theorem Stocking.collectBlock (h : Stocking cfg n w.mapping)
    (run : collectBlock cfg w block = .ok w') : Stocking cfg n w'.mapping := by
  unfold PageMapping.collectBlock at run
  split at run
  · cases run
  · exact foldlM_invariant_mem (fun w : Collection => Stocking cfg n w.mapping)
      (fun page _ w w' h hstep => h.relocatePage hstep) run h

theorem carryOut_inside (cfg : Config) (tick : Tick) (w : Collection) :
    Inside cfg w.mapping (carryOut cfg tick w).2.2 := by
  obtain ⟨accesses, contents, heq⟩ := carryOut_eq cfg tick w
  rw [heq]
  exact .of_eq rfl rfl rfl rfl

theorem Stocking.eraseStep {acc acc' : Tick × PageMapping} (h : Stocking cfg n acc.2)
    (run : eraseStep cfg tick acc block = .ok acc') : Stocking cfg n acc'.2 := by
  obtain ⟨⟨done, mid⟩, herase, hpair⟩ := bind_eq_ok.1 run
  cases hpair
  have hstocked := h.1.eraseInternal herase
  obtain ⟨blk, free, nFree, -, -, -, rfl⟩ := eraseInternal_eq_ok herase
  exact ⟨hstocked, h.2⟩

theorem Stocking.doGarbageCollection (h : Stocking cfg n s)
    (run : doGarbageCollection cfg list tick s = .ok (tick', s')) : Stocking cfg n s' := by
  rcases doGarbageCollection_eq_ok cfg run with ⟨-, rfl⟩ | ⟨w, erases, hcollect, herases, rfl⟩
  · exact h
  · have hcollected := foldlM_invariant_mem (fun w : Collection => Stocking cfg n w.mapping)
      (fun block _ w w' h hstep => h.collectBlock hstep) hcollect h
    have hstart := hcollected.inside (carryOut_inside cfg tick w)
    exact foldlM_invariant_mem (fun acc : Tick × PageMapping => Stocking cfg n acc.2)
      (fun block _ acc acc' h hstep => h.eraseStep hstep) herases hstart

/-! ## Runs -/

variable {sendToPAL : Bool} {start : Nat × Tick × PageMapping}

theorem Stocking.beginWrite (h : Stocking cfg n s)
    (run : beginWrite cfg req tick sendToPAL s = .ok start) :
    Stocking cfg n start.2.2 ∧ start.1 ∈ start.2.2.lastFreeBlock := by
  obtain ⟨block, s₁, s₂, hdetach, hopen, rfl⟩ := beginWrite_eq_ok run
  have hdetached := h.inside (detach_inside hdetach)
  obtain ⟨hopened, hblock, hlength⟩ := hdetached.1.getLastFreeBlock hopen
  obtain ⟨accesses, hlooked⟩ := accessMapping_eq req tick sendToPAL s₂
  rw [hlooked]
  exact ⟨⟨⟨hopened.closed, hopened.count, hopened.shelf.congr rfl rfl⟩,
    hlength.trans hdetached.2⟩, hblock⟩

theorem Stocking.writeInternal (h : Stocking cfg n s)
    (run : writeInternal cfg choices req tick sendToPAL s = .ok (tick', s')) :
    Stocking cfg n s' := by
  obtain ⟨start, done, hbegin, hloop, rfl, hcollect⟩ := writeInternal_eq_ok run
  obtain ⟨hstart, hblock⟩ := h.beginWrite hbegin
  have hrecorded : Stocking cfg n (recorded cfg req start.2.2) :=
    hstart.inside (.of_eq rfl rfl rfl rfl)
  have hloops : Inside cfg (recorded cfg req start.2.2) done.2 :=
    Inside.foldlM_open Prod.snd
      (fun idx acc acc' hopen hstep => writeStep_inside hopen hstep)
      (b := (tick, recorded cfg req start.2.2)) hblock hloop
  have hwritten := hrecorded.inside hloops
  rcases collectIfNeeded_eq_ok hcollect with
    ⟨-, rfl⟩ | ⟨-, -, list, beginAt, finished, -, -, hgc⟩
  · exact hwritten
  · have hselected : Stocking cfg n { done.2 with bReclaimMore := false } :=
      hwritten.inside (.of_eq rfl rfl rfl rfl)
    exact hselected.doGarbageCollection hgc

variable {call : Call cfg}

theorem Stocking.apply (h : Stocking cfg n s) (run : call.apply s = .ok s') :
    Stocking cfg n s' := by
  rcases call.apply_eq_ok run with
    rfl | ⟨choices, req, tick, sendToPAL, tick', hwrite⟩ | ⟨req, tick, tick', hread⟩ |
      ⟨req, tick, tick', htrim⟩
  · exact h
  · exact h.writeInternal hwrite
  · exact h.inside (read_inside hread)
  · exact h.inside (trim_inside htrim)

/-- While the slots are filled in order, the blocks in use are those of the slots before. -/
def StockingFrom (cfg : Config) (rest : List Nat) (s : PageMapping) : Prop :=
  ∃ n, rest = (List.range cfg.param.pageCountToMaxPerf).drop n ∧
    s.lastFreeBlock.length = cfg.param.pageCountToMaxPerf ∧
    Stocked cfg (s.lastFreeBlock.take n) s

theorem StockingFrom.step {rest : List Nat} (h : StockingFrom cfg (i :: rest) s)
    (run : getFreeBlock cfg i s = .ok (b, s')) :
    StockingFrom cfg rest { s' with lastFreeBlock := s'.lastFreeBlock.set i b } := by
  obtain ⟨n, hrest, hlength, hstocked⟩ := h
  have hlt : n < (List.range cfg.param.pageCountToMaxPerf).length := by
    by_contra hge
    rw [List.drop_eq_nil_of_le (not_lt.1 hge)] at hrest
    cases hrest
  rw [List.drop_eq_getElem_cons hlt, List.cons.injEq, List.getElem_range] at hrest
  obtain ⟨rfl, htail⟩ := hrest
  rw [List.length_range] at hlt
  have hopened := hstocked.getFreeBlock run
  obtain ⟨blk, free, -, -, -, rfl⟩ := getFreeBlock_eq_ok run
  refine ⟨i + 1, htail, List.length_set.trans hlength, fun b' hb' => ?_, hopened.count,
    hopened.shelf.congr rfl rfl⟩
  dsimp only
  rw [take_succ_set (by rwa [hlength])]
  refine (hopened.closed b' hb').imp_left fun hmem => ?_
  rw [List.mem_append, List.mem_singleton]
  exact (List.mem_cons.1 hmem).symm

theorem ConstructingFrom.shelf {rest : List Nat} (h : ConstructingFrom cfg rest s) :
    OpenSlots [] s := by
  obtain ⟨n, -, -, hconstructing⟩ := h
  exact hconstructing.slots.drop

theorem construct_stocking (h : construct cfg = .ok s) :
    Stocking cfg cfg.param.pageCountToMaxPerf s := by
  have hdone := foldlM_invariant (StockingFrom cfg) (fun i rest s s' hinv hstep => ?_) h
    ⟨0, rfl, List.length_replicate, fun b hb => absurd rfl hb, by simp,
      constructing_start.shelf⟩
  · obtain ⟨n, hrest, hlength, hstocked⟩ := hdone
    have hge := List.drop_eq_nil_iff.1 hrest.symm
    rw [List.length_range, ← hlength] at hge
    exact ⟨List.take_of_length_le hge ▸ hstocked, hlength⟩
  · obtain ⟨⟨block, mid⟩, hget, hpair⟩ := bind_eq_ok.1 hstep
    cases hpair
    exact hinv.step hget

end SimpleSSD.FTL.PageMapping
