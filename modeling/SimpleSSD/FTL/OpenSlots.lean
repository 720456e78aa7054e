import SimpleSSD.FTL.WriteDiscipline

/-!
# Open blocks

Each slot of `lastFreeBlock` names a block in use, and different slots name
different blocks.  A collection may erase any block that is full, and an open
block stays in its slot while it is full; the slots are safe as long as no victim
is one of them.
-/

namespace SimpleSSD.FTL.PageMapping

open SimpleSSD.Foundation

/-- The slots hold different blocks in use, and no free block is in use. -/
structure OpenSlots (slots : List Nat) (s : PageMapping) : Prop where
  inUse : ∀ b ∈ slots, s.blocks b ≠ none
  distinct : slots.Nodup
  indexed : ∀ b blk, s.blocks b = some blk → blk.idx = b
  free : ∀ blk ∈ s.freeBlocks, s.blocks blk.idx = none
  freeDistinct : (s.freeBlocks.map Block.idx).Nodup

structure SameSlots (s s' : PageMapping) : Prop where
  lastFreeBlock : s'.lastFreeBlock = s.lastFreeBlock
  freeBlocks : s'.freeBlocks = s.freeBlocks
  blocks : ∀ b, (s'.blocks b).map Block.idx = (s.blocks b).map Block.idx

variable {cfg : Config} {s s' s'' : PageMapping} {slots list reclaimed : List Nat}
  {b block dst page idx i : Nat} {blk blk' : Block} {tick tick' : Tick} {e : Fault}
  {iomap : List Bool} {req : Request cfg} {choices : Choices} {w w' : Collection}
  {bit : Nat → Bool} {lpns : Nat → Nat} {lpn : Nat}

/-! ## Steps within blocks -/

namespace SameSlots

theorem refl (s : PageMapping) : SameSlots s s := ⟨rfl, rfl, fun _ => rfl⟩

theorem trans (h : SameSlots s s') (h' : SameSlots s' s'') : SameSlots s s'' :=
  ⟨h'.lastFreeBlock.trans h.lastFreeBlock, h'.freeBlocks.trans h.freeBlocks,
    fun b => (h'.blocks b).trans (h.blocks b)⟩

theorem of_eq (hl : s'.lastFreeBlock = s.lastFreeBlock) (hf : s'.freeBlocks = s.freeBlocks)
    (hb : s'.blocks = s.blocks) : SameSlots s s' :=
  ⟨hl, hf, fun b => by rw [hb]⟩

theorem setBlock (hblk : s.blocks b = some blk) (hidx : blk'.idx = blk.idx) :
    SameSlots s (s.setBlock b blk') := by
  refine ⟨rfl, rfl, fun b' => ?_⟩
  by_cases heq : b' = b
  · subst heq
    simp [PageMapping.setBlock, hblk, hidx]
  · simp [PageMapping.setBlock, heq]

theorem foldlM {α β : Type} {f : β → α → Except Fault β} (state : β → PageMapping)
    (step : ∀ a b b', f b a = .ok b' → SameSlots (state b) (state b')) {l : List α} {b b' : β}
    (run : l.foldlM f b = .ok b') : SameSlots (state b) (state b') :=
  foldlM_invariant_mem (fun mid => SameSlots (state b) (state mid))
    (fun a _ mid mid' h hstep => h.trans (step a mid mid' hstep)) run (.refl _)

end SameSlots

theorem write_idx {tick : Tick} (h : blk.write page lpn idx tick = .ok blk') :
    blk'.idx = blk.idx := by
  obtain ⟨-, -, -, -, rfl⟩ := Block.write_eq_ok h
  rfl

theorem invalidate_idx (h : blk.invalidate page idx = .ok blk') : blk'.idx = blk.idx := by
  obtain ⟨-, rfl⟩ := Block.invalidate_eq_ok h
  rfl

theorem read_idx (h : blk.read page idx tick = .ok blk') : blk'.idx = blk.idx := by
  obtain ⟨accessed, rfl⟩ := Block.read_eq_ok h
  rfl

theorem invalidateAll_sameSlots {entries : Nat → Nat × Nat} {sel : Nat → Bool}
    {f : PageMapping → Nat → Except Fault PageMapping} (hf : Invalidates cfg entries sel f)
    (run : list.foldlM f s = .ok s') : SameSlots s s' := by
  refine SameSlots.foldlM id (fun idx mid mid' hstep => ?_) run
  rcases hf mid idx mid' hstep with ⟨-, blk, blk', hblk, hinv, rfl⟩ | ⟨rfl, -⟩
  · exact .setBlock hblk (invalidate_idx hinv)
  · exact .refl _

theorem detach_sameSlots (run : detach cfg req s = .ok s') : SameSlots s s' := by
  unfold detach at run
  split at run
  · cases run
    exact .of_eq rfl rfl rfl
  · exact invalidateAll_sameSlots invalidateUnit_invalidates run

theorem writeStep_sameSlots {sendToPAL : Bool} {start : Nat × Tick × PageMapping}
    {acc acc' : Tick × PageMapping} (run : writeStep cfg req sendToPAL start acc idx = .ok acc') :
    SameSlots acc.2 acc'.2 := by
  by_cases hsel : req.selects idx = true
  · obtain ⟨blk, blk', entries, page, accesses, -, hblk, -, hwrite, hacc⟩ :=
      writeUnit_eq_ok hsel run
    rw [hacc]
    exact (SameSlots.setBlock hblk (write_idx hwrite)).trans (.of_eq rfl rfl rfl)
  · cases writeUnit_unselected hsel run
    exact .refl _

theorem relocateUnit_sameSlots (run : relocateUnit cfg block page dst bit lpns w idx = .ok w') :
    SameSlots w.mapping w'.mapping := by
  by_cases hbit : bit idx = true
  · obtain ⟨blk, blk', entries, free, free', hblk, hinv, -, hfree, hwrite, rfl⟩ :=
      relocateUnit_eq_ok hbit run
    have hinvalid := SameSlots.setBlock hblk (invalidate_idx hinv)
    have hwritten := SameSlots.setBlock hfree (write_idx hwrite)
    exact (hinvalid.trans hwritten).trans (.of_eq rfl rfl rfl)
  · cases relocateUnit_unselected hbit run
    exact .refl _

theorem readUnit_sameSlots {entries : Nat → Nat × Nat} {acc acc' : Tick × PageMapping}
    (run : readUnit cfg req entries tick acc idx = .ok acc') : SameSlots acc.2 acc'.2 := by
  rcases readUnit_eq_ok run with ⟨-, rfl⟩ | ⟨blk, blk', -, hblk, hread, _, rfl, rfl⟩
  · exact .refl _
  · exact (SameSlots.setBlock hblk (read_idx hread)).trans (.of_eq rfl rfl rfl)

/-! ## Opening and erasing -/

namespace OpenSlots

theorem same (h : OpenSlots slots s) (hsame : SameSlots s s') : OpenSlots slots s' := by
  have hnone : ∀ b, s.blocks b = none ↔ s'.blocks b = none := fun b => by
    have heq := hsame.blocks b
    rw [← Option.map_eq_none_iff (f := Block.idx), ← heq, Option.map_eq_none_iff]
  refine ⟨fun b hb hnot => h.inUse b hb ((hnone b).2 hnot), h.distinct, fun b blk hblk => ?_, ?_,
    hsame.freeBlocks ▸ h.freeDistinct⟩
  · have heq := hsame.blocks b
    rw [hblk] at heq
    cases hold : s.blocks b with
    | none => simp [hold] at heq
    | some old =>
        simp only [hold, Option.map_some, Option.some.injEq] at heq
        exact heq.trans (h.indexed b old hold)
  · intro blk hblk
    exact (hnone blk.idx).1 (h.free blk (hsame.freeBlocks ▸ hblk))

theorem getFreeBlock (h : OpenSlots slots s) (run : getFreeBlock cfg i s = .ok (b, s')) :
    OpenSlots (b :: slots) s' := by
  obtain ⟨blk, rest, hperm, rfl, hnone, rfl⟩ := getFreeBlock_eq_ok run
  have hdistinct := (hperm.map Block.idx).nodup_iff.1 h.freeDistinct
  rw [List.map_cons, List.nodup_cons] at hdistinct
  refine ⟨fun b hb => ?_, List.nodup_cons.2 ⟨fun hmem => h.inUse _ hmem hnone, h.distinct⟩,
    fun b other hother => ?_, fun other hother => ?_, hdistinct.2⟩
  · by_cases heq : b = blk.idx
    · simp [heq]
    · rcases List.mem_cons.1 hb with rfl | hold
      · exact absurd rfl heq
      · simpa [heq] using h.inUse b hold
  · rcases mem_update_blocks (s := s) hother with ⟨rfl, rfl⟩ | hold
    · rfl
    · exact h.indexed b other hold
  · have hne : other.idx ≠ blk.idx := fun heq =>
      hdistinct.1 (heq ▸ List.mem_map_of_mem hother)
    change Function.update s.blocks blk.idx (some blk) other.idx = none
    rw [Function.update_of_ne hne]
    exact h.free other (hperm.mem_iff.2 (List.mem_cons_of_mem blk hother))

theorem getFreeBlock_eq_error (h : OpenSlots slots s)
    (run : PageMapping.getFreeBlock cfg i s = .error e) : Plain e := by
  unfold PageMapping.getFreeBlock at run
  split_ifs at run
  · cases run
    decide
  · cases run
    decide
  · split at run
    · cases run
      decide
    · rename_i blk rest htake
      have hnone := h.free blk ((takeFree_perm htake).mem_iff.2 List.mem_cons_self)
      simp [hnone] at run

theorem set (h : OpenSlots (b :: slots) s) (i : Nat) : OpenSlots (slots.set i b) s := by
  obtain ⟨hnew, hdistinct⟩ := List.nodup_cons.1 h.distinct
  refine ⟨fun b' hb' => ?_, hdistinct.set hnew, h.indexed, h.free, h.freeDistinct⟩
  rcases List.mem_or_eq_of_mem_set hb' with hold | rfl
  · exact h.inUse b' (List.mem_cons_of_mem b hold)
  · exact h.inUse b' List.mem_cons_self

theorem eraseInternal (h : OpenSlots slots s) {req : PALRequest} (hapart : req.blockIndex ∉ slots)
    (run : eraseInternal cfg req tick s = .ok (tick', s')) : OpenSlots slots s' := by
  obtain ⟨blk, free, nFree, hblk, -, hfree, rfl⟩ := eraseInternal_eq_ok run
  have hidx := h.indexed _ blk hblk
  have hother : ∀ other ∈ s.freeBlocks, other.idx ≠ req.blockIndex := by
    intro other hmem heq
    have hnone := h.free other hmem
    rw [heq, hblk] at hnone
    cases hnone
  refine ⟨fun b hb => ?_, h.distinct, fun b other hmem => ?_, fun other hmem => ?_, ?_⟩
  · have hne : b ≠ req.blockIndex := fun heq => hapart (heq ▸ hb)
    simpa [hne] using h.inUse b hb
  · by_cases heq : b = req.blockIndex
    · simp [heq] at hmem
    · exact h.indexed b other (by simpa [heq] using hmem)
  · rcases mem_erasedFree hfree hmem with rfl | hold
    · change Function.update s.blocks req.blockIndex none blk.idx = none
      rw [hidx, Function.update_self]
    · change Function.update s.blocks req.blockIndex none other.idx = none
      rw [Function.update_of_ne (hother other hold)]
      exact h.free other hold
  · rcases hfree with rfl | hperm
    · exact h.freeDistinct
    · rw [(hperm.map Block.idx).nodup_iff, List.map_cons, List.nodup_cons]
      refine ⟨fun hmem => ?_, h.freeDistinct⟩
      obtain ⟨other, hold, heq⟩ := List.mem_map.1 hmem
      exact hother other hold (heq.trans hidx)

end OpenSlots

structure Sparing (reclaimed : List Nat) (s : PageMapping) : Prop where
  slots : OpenSlots s.lastFreeBlock s
  spared : ∀ b ∈ reclaimed, b ∉ s.lastFreeBlock
  inUse : ∀ b ∈ reclaimed, s.blocks b ≠ none

theorem Sparing.same (h : Sparing reclaimed s) (hsame : SameSlots s s') :
    Sparing reclaimed s' := by
  refine ⟨hsame.lastFreeBlock ▸ h.slots.same hsame, hsame.lastFreeBlock ▸ h.spared,
    fun b hb hnone => h.inUse b hb ?_⟩
  have heq := hsame.blocks b
  rw [hnone, Option.map_none] at heq
  exact Option.map_eq_none_iff.1 heq.symm

theorem Sparing.getLastFreeBlock (h : Sparing reclaimed s)
    (run : getLastFreeBlock cfg iomap s = .ok (b, s')) : Sparing reclaimed s' := by
  have hkept := (getLastFreeBlock_opened run).blocks
  have hinUse : ∀ b' ∈ reclaimed, s'.blocks b' ≠ none := by
    intro b' hb'
    obtain ⟨blk, hblk⟩ := Option.ne_none_iff_exists'.1 (h.inUse b' hb')
    simp [hkept b' blk hblk]
  rcases getLastFreeBlock_eq_ok run with ⟨blk, -, -, hb, hf, hl, -⟩ |
    ⟨mid, mid', hb, hf, hfresh, hb', hf', -, hl⟩
  · refine ⟨hl ▸ h.slots.same (.of_eq hl hf hb), hl ▸ h.spared, hinUse⟩
  · have hmid : OpenSlots s.lastFreeBlock mid :=
      ⟨hb ▸ h.slots.inUse, h.slots.distinct, hb ▸ h.slots.indexed, hf ▸ hb ▸ h.slots.free,
        hf ▸ h.slots.freeDistinct⟩
    have hopened := (hmid.getFreeBlock hfresh).set s'.lastFreeBlockIndex
    refine ⟨?_, fun b' hb' hmem => ?_, hinUse⟩
    · rw [hl]
      exact ⟨hb' ▸ hopened.inUse, hopened.distinct, hb' ▸ hopened.indexed,
        hf' ▸ hb' ▸ hopened.free, hf' ▸ hopened.freeDistinct⟩
    · rw [hl] at hmem
      rcases List.mem_or_eq_of_mem_set hmem with hold | rfl
      · exact h.spared b' hb' hold
      · obtain ⟨blk, rest, -, -, hnone, -⟩ := getFreeBlock_eq_ok hfresh
        exact h.inUse b' hb' (hb ▸ hnone)

theorem OpenSlots.getLastFreeBlock_eq_error (h : OpenSlots s.lastFreeBlock s)
    (run : getLastFreeBlock cfg iomap s = .error e) : Plain e := by
  obtain ⟨index, flags, hrotate⟩ := rotate_eq cfg iomap s
  simp only [getLastFreeBlock, hrotate] at run
  split at run
  · cases run
    decide
  · rename_i last hlast
    split at run
    · rename_i hnone
      exact absurd hnone (h.inUse last (List.mem_of_getElem? hlast))
    · split_ifs at run
      rcases bind_eq_error.1 run with hfresh | ⟨fresh, -, hdone⟩
      · have hrotated : OpenSlots s.lastFreeBlock
            { s with lastFreeBlockIndex := index, lastFreeBlockIOMap := flags } :=
          h.same (.of_eq rfl rfl rfl)
        exact hrotated.getFreeBlock_eq_error hfresh
      · cases hdone

/-! ## Collections -/

theorem relocatePage_sparing (h : Sparing reclaimed w.mapping)
    (run : relocatePage cfg block w page = .ok w') : Sparing reclaimed w'.mapping := by
  unfold relocatePage at run
  split at run
  · cases run
  · dsimp only at run
    split_ifs at run
    · obtain ⟨⟨dst, opened⟩, hopen, run⟩ := bind_eq_ok.1 run
      have hopened := h.getLastFreeBlock hopen
      exact hopened.same (SameSlots.foldlM Collection.mapping
        (fun idx w w' hstep => relocateUnit_sameSlots hstep) run)
    · cases run
      exact h

theorem collectBlock_sparing (h : Sparing reclaimed w.mapping)
    (run : collectBlock cfg w block = .ok w') : Sparing reclaimed w'.mapping := by
  unfold collectBlock at run
  split at run
  · cases run
  · exact foldlM_invariant_mem (fun w : Collection => Sparing reclaimed w.mapping)
      (fun page _ w w' h hstep => relocatePage_sparing h hstep) run h

theorem carryOut_sameSlots (cfg : Config) (tick : Tick) (w : Collection) :
    SameSlots w.mapping (carryOut cfg tick w).2.2 := by
  obtain ⟨accesses, contents, heq⟩ := carryOut_eq cfg tick w
  rw [heq]
  exact .of_eq rfl rfl rfl

structure ErasingSpared (list : List Nat) (acc : Tick × PageMapping) : Prop where
  slots : OpenSlots acc.2.lastFreeBlock acc.2
  spared : ∀ b ∈ list, b ∉ acc.2.lastFreeBlock

theorem ErasingSpared.step {acc acc' : Tick × PageMapping} (h : ErasingSpared list acc)
    (hblock : block ∈ list) (run : eraseStep cfg tick acc block = .ok acc') :
    ErasingSpared list acc' := by
  obtain ⟨⟨done, mid⟩, herase, hpair⟩ := bind_eq_ok.1 run
  cases hpair
  have hslots := h.slots.eraseInternal (h.spared block hblock) herase
  obtain ⟨blk, free, nFree, -, -, -, rfl⟩ := eraseInternal_eq_ok herase
  exact ⟨hslots, h.spared⟩

theorem eraseCalls_spared (h : Sparing list s) :
    ∀ call ∈ eraseCalls cfg list tick s, call.2 ∉ call.1.2.lastFreeBlock := by
  intro call hcall
  unfold eraseCalls at hcall
  split at hcall
  · cases hcall
  · rename_i w hcollect
    have hcollected := foldlM_invariant_mem (fun w : Collection => Sparing list w.mapping)
      (fun block _ w w' h hstep => collectBlock_sparing h hstep) hcollect h
    have hstart := hcollected.same (carryOut_sameSlots cfg tick w)
    obtain ⟨hmem, herasing⟩ := visits_invariant_mem (ErasingSpared list)
      (fun block hblock acc acc' h hstep => h.step hblock hstep)
      (b := (tick, (carryOut cfg tick w).2.2)) ⟨hstart.slots, hstart.spared⟩ call hcall
    exact herasing.spared call.2 hmem

theorem doGarbageCollection_slots (h : Sparing list s)
    (run : doGarbageCollection cfg list tick s = .ok (tick', s')) :
    OpenSlots s'.lastFreeBlock s' := by
  rcases doGarbageCollection_eq_ok cfg run with ⟨-, rfl⟩ | ⟨w, erases, hcollect, herases, rfl⟩
  · exact h.slots
  · have hcollected := foldlM_invariant_mem (fun w : Collection => Sparing list w.mapping)
      (fun block _ w w' h hstep => collectBlock_sparing h hstep) hcollect h
    have hstart := hcollected.same (carryOut_sameSlots cfg tick w)
    exact (foldlM_invariant_mem (ErasingSpared list)
      (fun block hblock acc acc' h hstep => h.step hblock hstep) herases
      ⟨hstart.slots, hstart.spared⟩).slots

/-! ## Faults -/

def Uncorrupted (e : Fault) : Prop := e ≠ .panic "Corrupted"

instance (e : Fault) : Decidable (Uncorrupted e) :=
  inferInstanceAs (Decidable (e ≠ .panic "Corrupted"))

theorem Plain.uncorrupted (h : Plain e) : Uncorrupted e := by
  rintro rfl
  revert h
  decide

theorem write_uncorrupted (h : blk.write page lpn idx tick = .error e) : Uncorrupted e := by
  unfold Block.write at h
  split_ifs at h <;> cases h <;> decide

theorem relocateUnit_uncorrupted
    (run : relocateUnit cfg block page dst bit lpns w idx = .error e) : Uncorrupted e := by
  unfold relocateUnit at run
  by_cases hbit : bit idx = true
  · rw [if_pos hbit] at run
    split at run
    · cases run
      decide
    · rcases bind_eq_error.1 run with hinv | ⟨blk', -, run⟩
      · exact (plain_of_bounds (.inl (Block.invalidate_eq_error hinv))).uncorrupted
      · dsimp only at run
        split at run
        · cases run
          decide
        · split at run
          · cases run
            decide
          · rcases bind_eq_error.1 run with hwrite | ⟨free', -, hdone⟩
            · exact write_uncorrupted hwrite
            · cases hdone
  · rw [if_neg hbit] at run
    cases run

theorem relocatePage_uncorrupted (h : Sparing reclaimed w.mapping)
    (run : relocatePage cfg block w page = .error e) : Uncorrupted e := by
  unfold relocatePage at run
  split at run
  · cases run
    decide
  · dsimp only at run
    split_ifs at run
    rcases bind_eq_error.1 run with hopen | ⟨⟨dst, opened⟩, -, run⟩
    · exact (h.slots.getLastFreeBlock_eq_error hopen).uncorrupted
    · obtain ⟨v, -, herror⟩ := exists_visit_of_error run
      exact relocateUnit_uncorrupted herror

theorem collectBlock_uncorrupted (h : Sparing reclaimed w.mapping)
    (run : collectBlock cfg w block = .error e) : Uncorrupted e := by
  unfold collectBlock at run
  split at run
  · cases run
    decide
  · obtain ⟨v, hv, herror⟩ := exists_visit_of_error run
    obtain ⟨-, hsparing⟩ := visits_invariant_mem
      (fun w : Collection => Sparing reclaimed w.mapping)
      (fun page _ w w' h hstep => relocatePage_sparing h hstep) h v hv
    exact relocatePage_uncorrupted hsparing herror

theorem eraseStep_uncorrupted {acc : Tick × PageMapping}
    (run : eraseStep cfg tick acc block = .error e) : Uncorrupted e := by
  rcases bind_eq_error.1 run with herase | ⟨done, -, hdone⟩
  · rcases eraseInternal_eq_error herase with rfl | rfl | ⟨rfl, -⟩
    · decide
    · decide
    · decide
  · cases hdone

theorem doGarbageCollection_uncorrupted (h : Sparing list s)
    (run : doGarbageCollection cfg list tick s = .error e) : Uncorrupted e := by
  by_cases hempty : list = []
  · unfold doGarbageCollection at run
    rw [if_pos hempty] at run
    cases run
  · rw [doGarbageCollection_eq cfg tick s hempty] at run
    rcases bind_eq_error.1 run with hcollect | ⟨w, -, run⟩
    · obtain ⟨v, hv, herror⟩ := exists_visit_of_error hcollect
      obtain ⟨-, hsparing⟩ := visits_invariant_mem
        (fun w : Collection => Sparing list w.mapping)
        (fun block _ w w' h hstep => collectBlock_sparing h hstep)
        (b := ⟨s, tick, [], []⟩) h v hv
      exact collectBlock_uncorrupted hsparing herror
    · rcases bind_eq_error.1 run with herases | ⟨erases, -, hdone⟩
      · obtain ⟨v, -, herror⟩ := exists_visit_of_error herases
        exact eraseStep_uncorrupted herror
      · cases hdone

/-! ## Writes -/

variable {sendToPAL : Bool} {start : Nat × Tick × PageMapping} {done : Tick × PageMapping}

theorem beginWrite_slots (h : OpenSlots s.lastFreeBlock s)
    (run : beginWrite cfg req tick sendToPAL s = .ok start) :
    OpenSlots start.2.2.lastFreeBlock start.2.2 := by
  obtain ⟨block, s₁, s₂, hdetach, hopen, rfl⟩ := beginWrite_eq_ok run
  have hstart : Sparing [] s₁ := by
    have hsame := detach_sameSlots hdetach
    exact ⟨hsame.lastFreeBlock ▸ h.same hsame, by simp, by simp⟩
  have hopened := (hstart.getLastFreeBlock hopen).slots
  obtain ⟨accesses, hlooked⟩ := accessMapping_eq req tick sendToPAL s₂
  rw [hlooked]
  exact hopened.same (.of_eq rfl rfl rfl)

theorem written_slots (h : OpenSlots s.lastFreeBlock s)
    (hbegin : beginWrite cfg req tick sendToPAL s = .ok start)
    (hloop : (List.range cfg.bitsetSize).foldlM (writeStep cfg req sendToPAL start)
      (tick, recorded cfg req start.2.2) = .ok done) :
    OpenSlots done.2.lastFreeBlock done.2 := by
  have hsame := SameSlots.foldlM Prod.snd
    (fun idx acc acc' hstep => writeStep_sameSlots hstep) hloop
  have hstart : OpenSlots start.2.2.lastFreeBlock (recorded cfg req start.2.2) :=
    (beginWrite_slots h hbegin).same (.of_eq rfl rfl rfl)
  rw [hsame.lastFreeBlock]
  exact hstart.same hsame

/-- The victims of a write are in no slot when they are selected. -/
def Spares (cfg : Config) (choices : Choices) (req : Request cfg) (tick : Tick)
    (sendToPAL : Bool) (s : PageMapping) : Prop :=
  ∀ gc ∈ collections cfg choices req tick sendToPAL s, ∀ b ∈ gc.1, b ∉ gc.2.2.lastFreeBlock

theorem Full.inUse (h : Full cfg s b) : s.blocks b ≠ none := by
  obtain ⟨blk, hblk, -⟩ := h
  simp [hblk]

theorem collections_sparing (h : OpenSlots s.lastFreeBlock s)
    (hspares : Spares cfg choices req tick sendToPAL s) :
    ∀ gc ∈ collections cfg choices req tick sendToPAL s, Sparing gc.1 gc.2.2 := by
  intro gc hgc
  have hspared := hspares gc hgc
  unfold collections at hgc
  split at hgc
  · cases hgc
  · rename_i start hbegin
    split at hgc
    · cases hgc
    · rename_i done hloop
      split_ifs at hgc
      · split at hgc
        · cases hgc
        · rename_i selected hselect
          have heq := List.mem_singleton.1 hgc
          subst heq
          obtain ⟨list, beginAt, mid⟩ := gc
          obtain ⟨hfull, rfl⟩ := selectVictimBlock_eq_ok hselect
          exact ⟨(written_slots h hbegin hloop).same (.of_eq rfl rfl rfl), hspared,
            fun b hb => (hfull b hb).inUse⟩
      · cases hgc

theorem mem_collections {list : List Nat} {beginAt : Tick} {mid : PageMapping}
    (hbegin : beginWrite cfg req tick true s = .ok start)
    (hloop : (List.range cfg.bitsetSize).foldlM (writeStep cfg req true start)
      (tick, recorded cfg req start.2.2) = .ok done)
    (hbelow : cfg.belowThreshold done.2.nFreeBlocks = true)
    (hselect : selectVictimBlock cfg choices (cfg.timing.applyLatency .writeInternal done.1)
      done.2 = .ok (list, beginAt, mid)) :
    (list, beginAt, mid) ∈ collections cfg choices req tick true s := by
  unfold collections
  simp only [hbegin, hloop, hbelow, Bool.and_self, if_true, hselect, List.mem_singleton]

theorem writeInternal_slots (h : OpenSlots s.lastFreeBlock s)
    (hspares : Spares cfg choices req tick sendToPAL s)
    (run : writeInternal cfg choices req tick sendToPAL s = .ok (tick', s')) :
    OpenSlots s'.lastFreeBlock s' := by
  obtain ⟨start, done, hbegin, hloop, rfl, hcollect⟩ := writeInternal_eq_ok run
  rcases collectIfNeeded_eq_ok hcollect with
    ⟨-, rfl⟩ | ⟨hbelow, rfl, list, beginAt, finished, -, hselect, hgc⟩
  · exact written_slots h hbegin hloop
  · have hsparing := collections_sparing h hspares _ (mem_collections hbegin hloop hbelow hselect)
    exact doGarbageCollection_slots hsparing hgc

theorem writeInternal_uncorrupted (h : OpenSlots s.lastFreeBlock s)
    (hspares : Spares cfg choices req tick sendToPAL s)
    (run : writeInternal cfg choices req tick sendToPAL s = .error e) : Uncorrupted e := by
  rw [writeInternal_eq] at run
  rcases bind_eq_error.1 run with hbegin | ⟨start, hbegin, run⟩
  · rcases bind_eq_error.1 hbegin with hdetach | ⟨s₁, hdetach, hbegin⟩
    · exact (detach_plain hdetach).uncorrupted
    · rcases bind_eq_error.1 hbegin with hopen | ⟨opened, -, hbegin⟩
      · have hsame := detach_sameSlots hdetach
        have hslots : OpenSlots s₁.lastFreeBlock s₁ := hsame.lastFreeBlock ▸ h.same hsame
        exact (hslots.getLastFreeBlock_eq_error hopen).uncorrupted
      · dsimp only at hbegin
        split_ifs at hbegin
        cases hbegin
        decide
  rcases bind_eq_error.1 run with hloop | ⟨done, hloop, run⟩
  · obtain ⟨v, -, herror⟩ := exists_visit_of_error hloop
    unfold writeStep writeUnit at herror
    by_cases hsel : req.selects v.2 = true
    · rw [if_pos hsel] at herror
      split at herror
      · rcases bind_eq_error.1 herror with hwrite | ⟨blk', -, hdone⟩
        · exact write_uncorrupted hwrite
        · cases hdone
      · cases herror
        decide
    · rw [if_neg hsel] at herror
      cases herror
  rcases bind_eq_error.1 run with hcollect | ⟨s₃, -, hpair⟩
  · unfold collectIfNeeded at hcollect
    split_ifs at hcollect with hbelow hsend
    · rcases bind_eq_error.1 hcollect with hselect | ⟨⟨list, beginAt, mid⟩, hselect, hcollect⟩
      · exact (selectVictimBlock_plain hselect).uncorrupted
      · rcases bind_eq_error.1 hcollect with hgc | ⟨collected, -, hpair⟩
        · subst hsend
          have hsparing := collections_sparing h hspares _
            (mem_collections hbegin hloop hbelow hselect)
          exact doGarbageCollection_uncorrupted hsparing hgc
        · cases hpair
    · cases hcollect
      decide
  · cases hpair

/-! ## Runs -/

variable {call : Call cfg} {calls : List (Call cfg)}

namespace Call

def collections (s : PageMapping) : Call cfg → List (List Nat × Tick × PageMapping)
  | .fill choices lpn => PageMapping.collections cfg choices (fillRequest cfg lpn) 0 false s
  | .op (.write choices req tick) =>
      if 0 < req.ioFlag.count true then PageMapping.collections cfg choices req tick true s
      else []
  | .op _ => []

def SparesSlots (s : PageMapping) (call : Call cfg) : Prop :=
  ∀ gc ∈ call.collections s, ∀ b ∈ gc.1, b ∉ gc.2.2.lastFreeBlock

instance (s : PageMapping) (call : Call cfg) : Decidable (call.SparesSlots s) :=
  inferInstanceAs (Decidable (∀ gc ∈ call.collections s, ∀ b ∈ gc.1, b ∉ gc.2.2.lastFreeBlock))

theorem SparesSlots.write (hcount : 0 < req.ioFlag.count true)
    (h : SparesSlots s (.op (.write choices req tick))) : Spares cfg choices req tick true s := by
  unfold Spares
  simpa only [SparesSlots, collections, if_pos hcount] using h

def erasures (s : PageMapping) (call : Call cfg) : List (Nat × List Nat) :=
  (call.collections s).flatMap fun gc =>
    (eraseCalls cfg gc.1 gc.2.1 gc.2.2).map fun erase => (erase.2, erase.1.2.lastFreeBlock)

end Call

theorem read_sameSlots (run : read cfg req tick s = .ok (tick', s')) : SameSlots s s' := by
  rcases read_eq_ok run with rfl | ⟨entries, last, -, hloop, rfl⟩
  · exact .refl _
  · have hlooked : SameSlots s (lookUp cfg req tick s).2 := .of_eq rfl rfl rfl
    have hread := SameSlots.foldlM Prod.snd
      (fun idx acc acc' hstep => readUnit_sameSlots hstep) hloop
    exact hlooked.trans hread

theorem trim_sameSlots (run : trim cfg req tick s = .ok (tick', s')) : SameSlots s s' := by
  obtain ⟨⟨done, mid⟩, hdone, hpair⟩ := bind_eq_ok.1 run
  cases hpair
  rcases trimInternal_eq_ok hdone with ⟨-, hpair⟩ | ⟨entries, last, -, hloop, hpair⟩
  · cases hpair
    exact .of_eq rfl rfl rfl
  · cases hpair
    have hunits : Invalidates cfg entries (fun _ => true) (trimUnit entries) :=
      trimUnit_invalidates
    have hlooked : SameSlots s (lookUp cfg req tick s).2 := .of_eq rfl rfl rfl
    exact (hlooked.trans (invalidateAll_sameSlots hunits hloop)).trans (.of_eq rfl rfl rfl)

theorem OpenSlots.apply (h : OpenSlots s.lastFreeBlock s) (hspares : call.SparesSlots s)
    (run : call.apply s = .ok s') : OpenSlots s'.lastFreeBlock s' := by
  cases call with
  | fill choices lpn =>
      obtain ⟨⟨done, mid⟩, hwrite, hpair⟩ := bind_eq_ok.1 run
      cases hpair
      exact writeInternal_slots h hspares hwrite
  | op op =>
      cases op with
      | write choices req tick =>
          obtain ⟨⟨done, mid⟩, hwrite, hpair⟩ := bind_eq_ok.1 run
          cases hpair
          obtain ⟨⟨done', mid'⟩, hinternal, hpair⟩ := bind_eq_ok.1 hwrite
          cases hpair
          by_cases hcount : 0 < req.ioFlag.count true
          · rw [if_pos hcount] at hinternal
            exact writeInternal_slots h (hspares.write hcount) hinternal
          · rw [if_neg hcount] at hinternal
            cases hinternal
            exact h
      | read req tick =>
          obtain ⟨⟨done, mid⟩, hread, hpair⟩ := bind_eq_ok.1 run
          cases hpair
          have hsame := read_sameSlots hread
          exact hsame.lastFreeBlock ▸ h.same hsame
      | trim req tick =>
          obtain ⟨⟨done, mid⟩, htrim, hpair⟩ := bind_eq_ok.1 run
          cases hpair
          have hsame := trim_sameSlots htrim
          exact hsame.lastFreeBlock ▸ h.same hsame

theorem OpenSlots.uncorrupted (h : OpenSlots s.lastFreeBlock s) (hspares : call.SparesSlots s)
    (run : call.apply s = .error e) : Uncorrupted e := by
  cases call with
  | fill choices lpn =>
      rcases bind_eq_error.1 run with hwrite | ⟨done, -, hpair⟩
      · exact writeInternal_uncorrupted h hspares hwrite
      · cases hpair
  | op op =>
      cases op with
      | write choices req tick =>
          rcases bind_eq_error.1 run with hwrite | ⟨done, -, hpair⟩
          · rcases bind_eq_error.1 hwrite with hinternal | ⟨done, -, hpair⟩
            · by_cases hcount : 0 < req.ioFlag.count true
              · rw [if_pos hcount] at hinternal
                exact writeInternal_uncorrupted h (hspares.write hcount) hinternal
              · rw [if_neg hcount] at hinternal
                cases hinternal
            · cases hpair
          · cases hpair
      | read req tick =>
          rcases bind_eq_error.1 run with hread | ⟨done, -, hpair⟩
          · exact (read_plain hread).uncorrupted
          · cases hpair
      | trim req tick =>
          rcases bind_eq_error.1 run with htrim | ⟨done, -, hpair⟩
          · exact (trim_plain htrim).uncorrupted
          · cases hpair

theorem OpenSlots.erasures (h : OpenSlots s.lastFreeBlock s) (hspares : call.SparesSlots s) :
    ∀ erasure ∈ call.erasures s, erasure.1 ∉ erasure.2 := by
  intro erasure hmem
  obtain ⟨gc, hgc, hmem⟩ := List.mem_flatMap.1 hmem
  obtain ⟨erase, herase, rfl⟩ := List.mem_map.1 hmem
  have hsparing : Sparing gc.1 gc.2.2 := by
    cases call with
    | fill choices lpn => exact collections_sparing h hspares gc hgc
    | op op =>
        cases op with
        | write choices req tick =>
            by_cases hcount : 0 < req.ioFlag.count true
            · simp only [Call.collections, hcount, if_true] at hgc
              exact collections_sparing h (hspares.write hcount) gc hgc
            · simp [Call.collections, hcount] at hgc
        | read req tick => cases hgc
        | trim req tick => cases hgc
  exact eraseCalls_spared hsparing erase herase

/-! ## Construction -/

/-- The slots before `n` are open; the others still hold their initial zero. -/
structure Constructing (n : Nat) (s : PageMapping) : Prop where
  length : n ≤ s.lastFreeBlock.length
  slots : OpenSlots (s.lastFreeBlock.take n) s

theorem take_succ_set {list : List Nat} {n : Nat} (h : n < list.length) (b : Nat) :
    (list.set n b).take (n + 1) = list.take n ++ [b] := by
  rw [List.take_succ_eq_append_getElem (by simpa using h), List.take_set_of_le (le_refl n)]
  simp

theorem Constructing.step {n : Nat} (h : Constructing n s) (hlt : n < s.lastFreeBlock.length)
    (run : getFreeBlock cfg n s = .ok (b, s')) :
    Constructing (n + 1) { s' with lastFreeBlock := s'.lastFreeBlock.set n b } ∧
      s'.lastFreeBlock.length = s.lastFreeBlock.length := by
  have hopened := h.slots.getFreeBlock run
  obtain ⟨blk, rest, -, -, -, rfl⟩ := getFreeBlock_eq_ok run
  refine ⟨⟨?_, ?_⟩, rfl⟩
  · rw [List.length_set]
    exact hlt
  dsimp only
  rw [take_succ_set hlt]
  have hperm : (s.lastFreeBlock.take n ++ [b]).Perm (b :: s.lastFreeBlock.take n) :=
    List.perm_append_singleton ..
  exact ⟨fun b' hb' => hopened.inUse b' (hperm.mem_iff.1 hb'),
    hperm.nodup_iff.2 hopened.distinct, hopened.indexed, hopened.free, hopened.freeDistinct⟩

/-- Slots to come are opened in order, from `n` on. -/
def ConstructingFrom (cfg : Config) (rest : List Nat) (s : PageMapping) : Prop :=
  ∃ n, rest = (List.range cfg.param.pageCountToMaxPerf).drop n ∧
    s.lastFreeBlock.length = cfg.param.pageCountToMaxPerf ∧ Constructing n s

theorem ConstructingFrom.head {rest : List Nat} (h : ConstructingFrom cfg (i :: rest) s) :
    i < s.lastFreeBlock.length ∧ Constructing i s ∧
      rest = (List.range cfg.param.pageCountToMaxPerf).drop (i + 1) ∧
      s.lastFreeBlock.length = cfg.param.pageCountToMaxPerf := by
  obtain ⟨n, hrest, hlength, hconstructing⟩ := h
  have hlt : n < (List.range cfg.param.pageCountToMaxPerf).length := by
    by_contra hge
    rw [List.drop_eq_nil_of_le (not_lt.1 hge)] at hrest
    cases hrest
  rw [List.drop_eq_getElem_cons hlt, List.cons.injEq, List.getElem_range] at hrest
  obtain ⟨rfl, htail⟩ := hrest
  rw [List.length_range] at hlt
  exact ⟨hlength ▸ hlt, hconstructing, htail, hlength⟩

theorem ConstructingFrom.step {rest : List Nat} (h : ConstructingFrom cfg (i :: rest) s)
    (run : getFreeBlock cfg i s = .ok (b, s')) :
    ConstructingFrom cfg rest { s' with lastFreeBlock := s'.lastFreeBlock.set i b } := by
  obtain ⟨hlt, hconstructing, htail, hlength⟩ := h.head
  obtain ⟨hnext, hsame⟩ := hconstructing.step hlt run
  exact ⟨i + 1, htail, by rw [List.length_set, hsame, hlength], hnext⟩

def unopened (cfg : Config) : PageMapping where
  table := fun _ => none
  blocks := fun _ => none
  freeBlocks := (List.range cfg.param.totalPhysicalBlocks).map fun idx =>
    .new idx cfg.param.pagesInBlock cfg.param.ioUnitInPage
  nFreeBlocks := cfg.param.totalPhysicalBlocks
  lastFreeBlock := List.replicate cfg.param.pageCountToMaxPerf 0
  lastFreeBlockIOMap := List.replicate cfg.param.ioUnitInPage false
  lastFreeBlockIndex := 0
  bReclaimMore := false
  accesses := []
  contents := fun _ _ _ => none
  host := .empty

theorem constructing_start :
    ConstructingFrom cfg (List.range cfg.param.pageCountToMaxPerf) (unopened cfg) := by
  have hidx : (Block.idx ∘ fun idx => Block.new idx cfg.param.pagesInBlock
      cfg.param.ioUnitInPage) = id := rfl
  refine ⟨0, rfl, List.length_replicate, Nat.zero_le _, by simp, by simp,
    fun b blk hblk => ?_, fun _ _ => rfl, ?_⟩
  · cases hblk
  · rw [unopened, List.map_map, hidx, List.map_id]
    exact List.nodup_range

theorem construct_slots (h : construct cfg = .ok s) : OpenSlots s.lastFreeBlock s := by
  have hdone := foldlM_invariant (ConstructingFrom cfg) (fun i rest s s' hinv hstep => ?_) h
    constructing_start
  · obtain ⟨n, hrest, hlength, hconstructing⟩ := hdone
    have hge := List.drop_eq_nil_iff.1 hrest.symm
    rw [List.length_range, ← hlength] at hge
    exact List.take_of_length_le hge ▸ hconstructing.slots
  · obtain ⟨⟨block, mid⟩, hget, hpair⟩ := bind_eq_ok.1 hstep
    cases hpair
    exact hinv.step hget

theorem construct_uncorrupted (h : construct cfg = .error e) : Uncorrupted e := by
  obtain ⟨v, hv, herror⟩ := exists_visit_of_error h
  have hvisit := visits_invariant (ConstructingFrom cfg) (fun i rest s s' hinv hstep => ?_)
    constructing_start v hv
  · obtain ⟨rest, hconstructing⟩ := hvisit
    rcases bind_eq_error.1 herror with hget | ⟨done, -, hpair⟩
    · obtain ⟨-, hslots, -⟩ := hconstructing.head
      exact (hslots.slots.getFreeBlock_eq_error hget).uncorrupted
    · cases hpair
  · obtain ⟨⟨block, mid⟩, hget, hpair⟩ := bind_eq_ok.1 hstep
    cases hpair
    exact hinv.step hget

/-- In a run whose collections select no open block, every slot names a block in use
and no two slots the same; a step erases no block that is in a slot, and ends in no
"Corrupted" panic. -/
theorem open_slots (cfg : Config) :
    construct cfg ≠ .error (.panic "Corrupted") ∧
    ∀ start, construct cfg = .ok start →
      ∀ (calls : List (Call cfg)) (s : PageMapping), calls.foldlM Call.apply start = .ok s →
        (∀ v ∈ visits Call.apply calls start, v.2.SparesSlots v.1) →
          (∀ b ∈ s.lastFreeBlock, (s.blocks b).isSome) ∧ s.lastFreeBlock.Nodup ∧
          ∀ call : Call cfg, call.SparesSlots s →
            (∀ erasure ∈ call.erasures s, erasure.1 ∉ erasure.2) ∧
            call.apply s ≠ .error (.panic "Corrupted") := by
  refine ⟨fun h => construct_uncorrupted h rfl, fun start hconstruct calls s hcalls hspares => ?_⟩
  have hslots : OpenSlots s.lastFreeBlock s := by
    have hstart := construct_slots hconstruct
    clear hconstruct
    induction calls generalizing start with
    | nil =>
        cases hcalls
        exact hstart
    | cons call calls ih =>
        rw [List.foldlM_cons, bind_eq_ok] at hcalls
        obtain ⟨mid, hfirst, hcalls⟩ := hcalls
        simp only [visits, hfirst, List.forall_mem_cons] at hspares
        exact ih mid hcalls hspares.2 (hstart.apply hspares.1 hfirst)
  refine ⟨fun b hb => Option.isSome_iff_ne_none.2 (hslots.inUse b hb), hslots.distinct,
    fun call hcall => ⟨hslots.erasures hcall, fun h => hslots.uncorrupted hcall h rfl⟩⟩

def oneSlotWrite : Call smallConfig := .op (.write plainChoices (smallRequest 0 true true) 0)

/-- With one open block the fifth write collects two full blocks, and the ninth as well. -/
theorem open_slots_filled : ∃ start s, construct smallConfig = .ok start ∧
    (List.replicate 8 oneSlotWrite).foldlM Call.apply start = .ok s ∧
      (∀ b ∈ s.lastFreeBlock, (s.blocks b).isSome) ∧ s.lastFreeBlock.Nodup ∧
      oneSlotWrite.erasures s ≠ [] ∧
      ∀ erasure ∈ oneSlotWrite.erasures s, erasure.1 ∉ erasure.2 := by
  have hrun : (do
      let start ← construct smallConfig
      let s ← (List.replicate 8 oneSlotWrite).foldlM Call.apply start
      .ok (decide ((∀ v ∈ visits Call.apply (List.replicate 8 oneSlotWrite) start,
          v.2.SparesSlots v.1) ∧
        oneSlotWrite.SparesSlots s ∧ oneSlotWrite.erasures s ≠ []))) =
        (.ok true : Except Fault Bool) := by
    decide +kernel
  obtain ⟨start, hconstruct, hrun⟩ := bind_eq_ok.1 hrun
  obtain ⟨s, hcalls, hdecide⟩ := bind_eq_ok.1 hrun
  obtain ⟨hspares, hnext, herases⟩ := of_decide_eq_true (Except.ok.inj hdecide)
  obtain ⟨hinUse, hdistinct, hcall⟩ :=
    (open_slots smallConfig).2 start hconstruct _ s hcalls hspares
  exact ⟨start, s, hconstruct, hcalls, hinUse, hdistinct, herases, (hcall _ hnext).1⟩

/-! ## A full open block is collected -/

/-- Six blocks of two pages, two of them open, collected below four free blocks. -/
def twoSlotsConfig : Config :=
  { smallConfig with
    param := ⟨6, 3, 2, 2, 2⟩
    bRandomTweak := false
    belowThreshold := fun n => decide (n < 4) }

def twoSlotsWrite (tick : Tick) : Call twoSlotsConfig :=
  .op (.write plainChoices ⟨0, [true, true], .inl rfl⟩ tick)

def twoSlotsWrites (n : Nat) : List (Call twoSlotsConfig) := (List.range n).map twoSlotsWrite

/-- Six writes of one page: the fifth opens a block and collects the full block of
the other slot, which the sixth needs. -/
theorem open_slot_erased : ¬ ∀ cfg : Config,
    ∀ start, construct cfg = .ok start →
      ∀ (calls : List (Call cfg)) (s : PageMapping), calls.foldlM Call.apply start = .ok s →
        (∀ b ∈ s.lastFreeBlock, (s.blocks b).isSome) ∧ s.lastFreeBlock.Nodup ∧
        ∀ call : Call cfg,
          (∀ erasure ∈ call.erasures s, erasure.1 ∉ erasure.2) ∧
          call.apply s ≠ .error (.panic "Corrupted") := by
  intro held
  have hrun : (do
      let start ← construct twoSlotsConfig
      let s ← (twoSlotsWrites 5).foldlM Call.apply start
      .ok (s.lastFreeBlock.all fun b => (s.blocks b).isSome)) =
        (.ok false : Except Fault Bool) := by
    decide +kernel
  obtain ⟨start, hconstruct, hrun⟩ := bind_eq_ok.1 hrun
  obtain ⟨s, hcalls, hdangling⟩ := bind_eq_ok.1 hrun
  have hinUse := List.all_eq_true.2 (held twoSlotsConfig start hconstruct _ s hcalls).1
  rw [hinUse] at hdangling
  cases hdangling

/-- The sixth write ends in the panic. -/
example : (do
    let start ← construct twoSlotsConfig
    let s ← (twoSlotsWrites 6).foldlM Call.apply start
    .ok s.nFreeBlocks) = (.error (.panic "Corrupted") : Except Fault Nat) := by
  decide +kernel

end SimpleSSD.FTL.PageMapping
