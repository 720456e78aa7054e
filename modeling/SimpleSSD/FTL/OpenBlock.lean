import SimpleSSD.Foundation.Spans
import SimpleSSD.FTL.Abstraction

/-!
# Open and erased blocks

Blocks move from the free list into use when a block is opened, and back when it
is erased.  Neither changes which unit is kept for which mapping entry.
-/

namespace SimpleSSD.FTL.PageMapping

open SimpleSSD.Foundation

variable {cfg : Config} {s s' : PageMapping} {contents : Nat → Nat → Nat → Option Nat}
  {detached : Set (Nat × Nat)} {b i : Nat} {iomap : List Bool}

theorem takeFree_perm {free rest : List Block} {blk : Block}
    (h : takeFree cfg i free = some (blk, rest)) : free.Perm (blk :: rest) := by
  unfold takeFree at h
  split at h
  · rename_i found hfound
    cases h
    exact perm_cons_eraseP hfound
  · split at h
    · cases h
    · cases h
      exact .refl _

theorem getFreeBlock_nonempty (h : getFreeBlock cfg i s = .ok (b, s')) : s.nFreeBlocks ≠ 0 := by
  intro hzero
  unfold getFreeBlock at h
  split_ifs at h

theorem getFreeBlock_eq_ok (h : getFreeBlock cfg i s = .ok (b, s')) :
    ∃ blk rest, s.freeBlocks.Perm (blk :: rest) ∧ blk.idx = b ∧ s.blocks b = none ∧
      s' = { s with
        blocks := Function.update s.blocks b (some blk)
        freeBlocks := rest
        nFreeBlocks := s.nFreeBlocks - 1 } := by
  unfold getFreeBlock at h
  split_ifs at h
  split at h
  · cases h
  · rename_i blk rest htake
    split_ifs at h with hused
    cases h
    rw [Option.not_isSome_iff_eq_none] at hused
    exact ⟨blk, rest, takeFree_perm htake, rfl, hused, rfl⟩

theorem Intact.getFreeBlock (h : Intact cfg contents detached s)
    (hget : getFreeBlock cfg i s = .ok (b, s')) : Intact cfg contents detached s' := by
  obtain ⟨blk, rest, hperm, rfl, hnone, rfl⟩ := getFreeBlock_eq_ok hget
  obtain ⟨hlt, hsound, hinvalid, -⟩ := h.free blk (hperm.mem_iff.2 List.mem_cons_self)
  have howner : owner { s with blocks := Function.update s.blocks blk.idx (some blk) } =
      s.owner := by
    funext ⟨b', page, idx⟩
    by_cases hb : b' = blk.idx
    · subst hb
      simp [owner, hnone, hinvalid]
    · simp [owner, hb]
  have hremap : remap cfg contents { s with
      blocks := Function.update s.blocks blk.idx (some blk)
      freeBlocks := rest
      nFreeBlocks := s.nFreeBlocks - 1 } = s.remap cfg contents :=
    congrArg (fun o => { s.remap cfg contents with owner := o }) howner
  exact
    { inUse := by
        intro b' blk₀ h₀
        rcases mem_update_blocks (s := s) h₀ with ⟨rfl, rfl⟩ | hold
        · exact ⟨hlt, rfl, hsound⟩
        · exact h.inUse b' blk₀ hold
      free := fun other hother =>
        h.free other (hperm.mem_iff.2 (List.mem_cons_of_mem blk hother))
      unwritten := h.unwritten
      consistent := hremap ▸ h.consistent }

structure SameRecords (s s' : PageMapping) : Prop where
  table : s'.table = s.table
  accesses : s'.accesses = s.accesses
  contents : s'.contents = s.contents
  host : s'.host = s.host

/-- Opening a block leaves the blocks in use alone, and the block is new or has
room. -/
structure Opened (cfg : Config) (s : PageMapping) (b : Nat) (s' : PageMapping) : Prop
    extends SameRecords s s' where
  blocks : ∀ b' blk, s.blocks b' = some blk → s'.blocks b' = some blk
  room : ∀ blk, s.blocks b = some blk → blk.getNextWritePageIndex ≠ cfg.param.pagesInBlock

theorem rotate_eq (cfg : Config) (iomap : List Bool) (s : PageMapping) :
    ∃ index flags, rotate cfg iomap s =
      { s with lastFreeBlockIndex := index, lastFreeBlockIOMap := flags } := by
  unfold rotate
  split
  · exact ⟨_, _, rfl⟩
  · exact ⟨s.lastFreeBlockIndex, _, rfl⟩

theorem getLastFreeBlock_opened (h : getLastFreeBlock cfg iomap s = .ok (b, s')) :
    Opened cfg s b s' := by
  obtain ⟨index, flags, hrotate⟩ := rotate_eq cfg iomap s
  simp only [getLastFreeBlock, hrotate] at h
  split at h
  · cases h
  · split at h
    · cases h
    · rename_i last hlast _ blk hblk
      split_ifs at h with hfull
      · obtain ⟨⟨fresh, mid⟩, hget, hpair⟩ := bind_eq_ok.1 h
        obtain ⟨blk', rest, -, hidx, hnone, rfl⟩ := getFreeBlock_eq_ok hget
        cases hpair
        refine ⟨⟨rfl, rfl, rfl, rfl⟩, fun b' old hold => ?_, fun old hold => ?_⟩
        · have hne : b' ≠ fresh := by
            rintro rfl
            exact Option.some_ne_none old (hold.symm.trans hnone)
          exact (Function.update_of_ne hne _ _).trans hold
        · exact absurd (hold.symm.trans hnone) (Option.some_ne_none old)
      · cases h
        refine ⟨⟨rfl, rfl, rfl, rfl⟩, fun _ _ hold => hold, fun old hold => ?_⟩
        rwa [Option.some.inj (hold.symm.trans hblk)]

theorem Intact.getLastFreeBlock (h : Intact cfg contents detached s)
    (hget : getLastFreeBlock cfg iomap s = .ok (b, s')) : Intact cfg contents detached s' := by
  obtain ⟨index, flags, hrotate⟩ := rotate_eq cfg iomap s
  simp only [PageMapping.getLastFreeBlock, hrotate] at hget
  have hrotated : Intact cfg contents detached
      { s with lastFreeBlockIndex := index, lastFreeBlockIOMap := flags } :=
    h.congr rfl rfl rfl rfl
  split at hget
  · cases hget
  · split at hget
    · cases hget
    · split_ifs at hget with hfull
      · obtain ⟨⟨fresh, mid⟩, hfresh, hpair⟩ := bind_eq_ok.1 hget
        cases hpair
        exact (hrotated.getFreeBlock hfresh).congr rfl rfl rfl rfl
      · cases hget
        exact hrotated

/-! ## Erase -/

theorem insertFree_perm (blk : Block) (free : List Block) :
    (insertFree blk free).Perm (blk :: free) := by
  unfold insertFree
  dsimp only
  refine List.perm_middle.trans (.cons blk ?_)
  rw [← List.reverse_append, List.takeWhile_append_dropWhile, List.reverse_reverse]

theorem reinsert_eq_ok {blk : Block} (h : reinsert cfg blk s = .ok s') :
    (blk.eraseCount < cfg.badBlockThreshold ∧ s.freeBlocks ≠ [] ∧ s' = { s with
      freeBlocks := insertFree blk s.freeBlocks
      nFreeBlocks := s.nFreeBlocks + 1 }) ∨
    (cfg.badBlockThreshold ≤ blk.eraseCount ∧ s' = s) := by
  unfold reinsert at h
  split_ifs at h with hcount hempty
  · cases h
    exact .inl ⟨hcount, by simpa using hempty, rfl⟩
  · cases h
    exact .inr ⟨not_lt.1 hcount, rfl⟩

theorem reinsert_total {blk : Block}
    (h : s.freeBlocks ≠ [] ∨ cfg.badBlockThreshold ≤ blk.eraseCount) :
    ∃ s', reinsert cfg blk s = .ok s' := by
  unfold reinsert
  split_ifs with hcount hempty
  · rcases h with hnonempty | hworn
    · simp at hempty
      exact absurd hempty hnonempty
    · omega
  · exact ⟨_, rfl⟩
  · exact ⟨_, rfl⟩

theorem eraseInternal_reinserts {req : PALRequest} {tick tick' : Tick}
    (h : eraseInternal cfg req tick s = .ok (tick', s')) :
    ∃ blk mid, s.blocks req.blockIndex = some blk ∧ blk.getValidPageCount = 0 ∧
      reinsert cfg blk.erase { s with
        accesses := .palErase req :: s.accesses
        contents := Function.update s.contents req.blockIndex fun _ _ => none } = .ok mid ∧
      s' = { mid with blocks := Function.update s.blocks req.blockIndex none } := by
  unfold eraseInternal at h
  split at h
  · cases h
  · rename_i blk hblk
    split_ifs at h with hvalid
    obtain ⟨mid, hmid, h⟩ := bind_eq_ok.1 h
    cases h
    refine ⟨blk, mid, hblk, not_not.1 hvalid, hmid, ?_⟩
    rcases reinsert_eq_ok hmid with ⟨-, -, rfl⟩ | ⟨-, rfl⟩
    · rfl
    · rfl

theorem eraseInternal_eq_ok {req : PALRequest} {tick tick' : Tick}
    (h : eraseInternal cfg req tick s = .ok (tick', s')) :
    ∃ blk free nFree, s.blocks req.blockIndex = some blk ∧ blk.getValidPageCount = 0 ∧
      (free = s.freeBlocks ∨ free.Perm (blk.erase :: s.freeBlocks)) ∧
      s' = { s with
        blocks := Function.update s.blocks req.blockIndex none
        freeBlocks := free
        nFreeBlocks := nFree
        accesses := .palErase req :: s.accesses
        contents := Function.update s.contents req.blockIndex fun _ _ => none } := by
  obtain ⟨blk, mid, hblk, hvalid, hmid, rfl⟩ := eraseInternal_reinserts h
  rcases reinsert_eq_ok hmid with ⟨-, -, rfl⟩ | ⟨-, rfl⟩
  · exact ⟨blk, _, _, hblk, hvalid, .inr (insertFree_perm ..), rfl⟩
  · exact ⟨blk, _, _, hblk, hvalid, .inl rfl, rfl⟩

theorem reinsert_eq_error {blk : Block} {e : Fault} (h : reinsert cfg blk s = .error e) :
    e = .undefined := by
  unfold reinsert at h
  split_ifs at h
  cases h
  rfl

/-- An erase fails on a block that is not in use, on valid pages, or in the search for its
place among the free blocks. -/
theorem eraseInternal_eq_error {req : PALRequest} {tick : Tick} {e : Fault}
    (h : eraseInternal cfg req tick s = .error e) :
    e = .panic "No such block" ∨ e = .undefined ∨
      e = .panic "There are valid pages in victim block" ∧
        ∃ blk, s.blocks req.blockIndex = some blk ∧ blk.getValidPageCount ≠ 0 := by
  unfold eraseInternal at h
  split at h
  · cases h
    exact .inl rfl
  · rename_i blk hblk
    split_ifs at h with hvalid
    · cases h
      exact .inr (.inr ⟨rfl, blk, hblk, hvalid⟩)
    · rcases bind_eq_error.1 h with h | ⟨mid, -, h⟩
      · exact .inr (.inl (reinsert_eq_error h))
      · cases h

theorem eraseInternal_total {blk : Block} (req : PALRequest) (tick : Tick)
    (hblk : s.blocks req.blockIndex = some blk) (hvalid : blk.getValidPageCount = 0)
    (room : s.freeBlocks ≠ [] ∨ cfg.badBlockThreshold ≤ blk.erase.eraseCount) :
    ∃ done, eraseInternal cfg req tick s = .ok done := by
  unfold eraseInternal
  rw [hblk]
  dsimp only
  rw [if_neg (not_not.2 hvalid)]
  obtain ⟨mid, hmid⟩ := reinsert_total (s := (access cfg (.palErase req) tick { s with
    contents := Function.update s.contents req.blockIndex fun _ _ => none }).2) room
  exact ⟨_, bind_eq_ok.2 ⟨mid, hmid, rfl⟩⟩

theorem mem_erasedFree {blk other : Block} {free free' : List Block}
    (h : free' = free ∨ free'.Perm (blk.erase :: free)) (hother : other ∈ free') :
    other = blk.erase ∨ other ∈ free := by
  rcases h with rfl | hperm
  · exact .inr hother
  · exact List.mem_cons.1 (hperm.mem_iff.1 hother)

theorem Intact.eraseInternal (h : Intact cfg s.contents detached s) {req : PALRequest}
    {tick tick' : Tick} (herase : eraseInternal cfg req tick s = .ok (tick', s')) :
    Intact cfg s'.contents detached s' := by
  obtain ⟨blk, free, nFree, hblk, hcount, hfree, rfl⟩ := eraseInternal_eq_ok herase
  obtain ⟨hlt, hidx, hsound⟩ := h.inUse _ blk hblk
  have hinvalid : ∀ page idx, blk.validBits page idx = false := fun page idx =>
    hsound.not_valid hcount
  have howner : owner { s with blocks := Function.update s.blocks req.blockIndex none } =
      s.owner := by
    funext ⟨b', page, idx⟩
    by_cases hb : b' = req.blockIndex
    · subst hb
      simp [owner, hblk, hinvalid]
    · simp [owner, hb]
  have hcleared : Remap.Consistent { s.remap cfg s.contents with
      owner := owner { s with blocks := Function.update s.blocks req.blockIndex none }
      data := fun p => covered cfg p.2.2
        (Function.update s.contents req.blockIndex (fun _ _ => none) p.1 p.2.1) } detached := by
    rw [howner]
    refine h.consistent.congr_data ?_
    rintro ⟨b', page, idx⟩ hown
    have hne : b' ≠ req.blockIndex := by
      rintro rfl
      exact hown (owner_eq_none hblk (hinvalid page idx))
    simp [remap, hne]
  refine ⟨fun b' blk₀ h₀ => ?_, fun other hother => ?_, h.unwritten, ?_⟩
  · by_cases hb : b' = req.blockIndex
    · subst hb
      simp at h₀
    · exact h.inUse b' blk₀ (by simpa [hb] using h₀)
  · rcases mem_erasedFree hfree hother with rfl | hold
    · exact ⟨hidx ▸ hlt, hsound.erase, fun _ _ => rfl, fun _ => rfl⟩
    · exact h.free other hold
  · exact hcleared

end SimpleSSD.FTL.PageMapping
