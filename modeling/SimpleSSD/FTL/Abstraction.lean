import SimpleSSD.Foundation.Remap
import SimpleSSD.FTL.PageMapping

/-!
# The mapping as remapped storage

A logical location is an entry of the mapping vector of a logical page, a place
is a unit of a physical page.  Invalidation, writes into open blocks and new
mapping entries are the operations of `Remap`.
-/

namespace SimpleSSD.FTL

open SimpleSSD.Foundation

namespace PageMapping

variable (cfg : Config)

def place (s : PageMapping) (l : Nat × Nat) : Option (Nat × Nat × Nat) :=
  match s.table l.1 with
  | none => none
  | some entries =>
      if l.2 < cfg.bitsetSize ∧ cfg.live (entries l.2) = true then
        some ((entries l.2).1, (entries l.2).2, l.2)
      else none

def owner (s : PageMapping) (p : Nat × Nat × Nat) : Option (Nat × Nat) :=
  match s.blocks p.1 with
  | none => none
  | some blk =>
      if blk.validBits p.2.1 p.2.2 then some (blk.lpns p.2.1 p.2.2, p.2.2) else none

/-- The versions of the units that one mapping entry covers. -/
def covered (idx : Nat) (version : Nat → Option Nat) : Nat → Option Nat :=
  fun unit =>
    if unit < cfg.param.ioUnitInPage ∧ cfg.slotOf unit = idx then version unit else none

def remap (contents : Nat → Nat → Nat → Option Nat) (s : PageMapping) :
    Remap (Nat × Nat) (Nat × Nat × Nat) (Nat → Option Nat) where
  place := s.place cfg
  owner := s.owner
  data p := covered cfg p.2.2 (contents p.1 p.2.1)
  latest l := if s.host.written l.1 l.2 then some (covered cfg l.2 (s.host.latest l.1)) else none

/-- Blocks and records of the mapping are well formed, and the mapping is
consistent over the given contents. -/
structure Intact (contents : Nat → Nat → Nat → Option Nat) (detached : Set (Nat × Nat))
    (s : PageMapping) : Prop where
  inUse : ∀ b blk, s.blocks b = some blk →
    b < cfg.param.totalPhysicalBlocks ∧ blk.idx = b ∧
      blk.Sound cfg.param.pagesInBlock cfg.param.ioUnitInPage
  free : ∀ blk ∈ s.freeBlocks, blk.idx < cfg.param.totalPhysicalBlocks ∧
    blk.Sound cfg.param.pagesInBlock cfg.param.ioUnitInPage ∧
    (∀ page unit, blk.validBits page unit = false) ∧ ∀ unit, blk.nextWritePageIndex unit = 0
  unwritten : ∀ lpn unit, unit < cfg.param.ioUnitInPage →
    s.host.written lpn (cfg.slotOf unit) = false → s.host.latest lpn unit = none
  consistent : (s.remap cfg contents).Consistent detached

variable {cfg} {s : PageMapping} {contents : Nat → Nat → Nat → Option Nat}
  {detached : Set (Nat × Nat)} {blk blk' : Block} {b page idx lpn : Nat} {tick : Tick}
  {entries : Nat → Nat × Nat}

theorem slotOf_lt {unit : Nat} (h : unit < cfg.param.ioUnitInPage) :
    cfg.slotOf unit < cfg.bitsetSize := by
  unfold Config.slotOf Config.bitsetSize
  split <;> omega

/-! ## Forward mapping -/

theorem place_eq_some (ht : s.table lpn = some entries) (hidx : idx < cfg.bitsetSize)
    (hlive : cfg.live (entries idx) = true) :
    s.place cfg (lpn, idx) = some ((entries idx).1, (entries idx).2, idx) := by
  simp [place, ht, hidx, hlive]

theorem place_eq_none (ht : s.table lpn = some entries)
    (hlive : cfg.live (entries idx) = false) : s.place cfg (lpn, idx) = none := by
  simp [place, ht, hlive]

theorem place_setEntry (ht : s.table lpn = some entries) (hidx : idx < cfg.bitsetSize)
    (hb : b < cfg.param.totalPhysicalBlocks) (hpage : page < cfg.param.pagesInBlock) :
    (s.setEntry lpn idx (b, page)).place cfg =
      Function.update (s.place cfg) (lpn, idx) (some (b, page, idx)) := by
  funext ⟨lpn', idx'⟩
  by_cases hlpn : lpn' = lpn
  · subst hlpn
    by_cases heq : idx' = idx
    · subst heq
      simp [place, setEntry, ht, hidx, Config.live, hb, hpage]
    · simp [place, setEntry, ht, heq]
  · simp [place, setEntry, hlpn]

theorem place_create (ht : s.table lpn = none) :
    place cfg { s with table := Function.update s.table lpn (some fun _ => cfg.unmapped) } =
      s.place cfg := by
  funext ⟨lpn', idx'⟩
  by_cases hlpn : lpn' = lpn
  · subst hlpn
    simp [place, ht, Config.live, Config.unmapped]
  · simp [place, hlpn]

/-! ## Reverse mapping -/

theorem owner_eq_some (hblk : s.blocks b = some blk) (hvalid : blk.validBits page idx = true) :
    s.owner (b, page, idx) = some (blk.lpns page idx, idx) := by
  simp [owner, hblk, hvalid]

theorem owner_eq_none (hblk : s.blocks b = some blk)
    (hvalid : blk.validBits page idx = false) : s.owner (b, page, idx) = none := by
  simp [owner, hblk, hvalid]

theorem owner_inv {p : Nat × Nat × Nat} {l : Nat × Nat} (h : s.owner p = some l) :
    ∃ blk, s.blocks p.1 = some blk ∧ blk.validBits p.2.1 p.2.2 = true ∧
      l = (blk.lpns p.2.1 p.2.2, p.2.2) := by
  unfold owner at h
  split at h
  · cases h
  · rename_i blk hblk
    split_ifs at h with hvalid
    exact ⟨blk, hblk, hvalid, (Option.some.inj h).symm⟩

theorem owner_setBlock (hblk : s.blocks b = some blk) (hvalid : blk'.validBits = blk.validBits)
    (hlpns : blk'.lpns = blk.lpns) : (s.setBlock b blk').owner = s.owner := by
  funext ⟨b', page', idx'⟩
  by_cases hb : b' = b
  · subst hb
    simp [owner, setBlock, hblk, hvalid, hlpns]
  · simp [owner, setBlock, hb]

theorem owner_update {entry : Option (Nat × Nat)} (hblk : s.blocks b = some blk)
    (hentry : (if blk'.validBits page idx then some (blk'.lpns page idx, idx) else none) = entry)
    (hrest : ∀ page' idx', ¬ (page' = page ∧ idx' = idx) →
      blk'.validBits page' idx' = blk.validBits page' idx' ∧
        blk'.lpns page' idx' = blk.lpns page' idx') :
    (s.setBlock b blk').owner = Function.update s.owner (b, page, idx) entry := by
  funext ⟨b', page', idx'⟩
  by_cases hb : b' = b
  · subst hb
    by_cases heq : page' = page ∧ idx' = idx
    · obtain ⟨rfl, rfl⟩ := heq
      simp [owner, setBlock, hentry]
    · simp [owner, setBlock, heq, hblk, hrest page' idx' heq]
  · simp [owner, setBlock, hb]

theorem owner_invalidate (hblk : s.blocks b = some blk)
    (h : blk.invalidate page idx = .ok blk') :
    (s.setBlock b blk').owner = Function.update s.owner (b, page, idx) none := by
  obtain ⟨-, rfl⟩ := Block.invalidate_eq_ok h
  refine owner_update hblk (by simp [update₂_apply]) fun page' idx' heq => ?_
  simp [update₂_apply, heq]

theorem owner_write (hblk : s.blocks b = some blk)
    (h : blk.write page lpn idx tick = .ok blk') :
    (s.setBlock b blk').owner = Function.update s.owner (b, page, idx) (some (lpn, idx)) := by
  obtain ⟨-, -, -, -, rfl⟩ := Block.write_eq_ok h
  refine owner_update hblk (by simp [update₂_apply]) fun page' idx' heq => ?_
  simp [update₂_apply, heq]

/-! ## Operations -/

theorem mem_update_blocks {b' : Nat} {blk₀ : Block}
    (h : (s.setBlock b blk').blocks b' = some blk₀) :
    (b' = b ∧ blk₀ = blk') ∨ s.blocks b' = some blk₀ := by
  change Function.update s.blocks b (some blk') b' = some blk₀ at h
  by_cases heq : b' = b
  · subst heq
    rw [Function.update_self, Option.some.injEq] at h
    exact .inl ⟨rfl, h.symm⟩
  · rw [Function.update_of_ne heq] at h
    exact .inr h

namespace Intact

variable {contents' : Nat → Nat → Nat → Option Nat} {detached' : Set (Nat × Nat)}
  {s' : PageMapping}

theorem congr (h : Intact cfg contents detached s) (ht : s'.table = s.table)
    (hb : s'.blocks = s.blocks) (hf : s'.freeBlocks = s.freeBlocks)
    (hh : s'.host = s.host) :
    Intact cfg contents detached s' := by
  have hremap : s'.remap cfg contents = s.remap cfg contents := by
    simp only [remap, Remap.mk.injEq, hh, and_self, and_true]
    refine ⟨?_, ?_⟩
    · funext l
      simp only [place, ht]
    · funext p
      simp only [owner, hb]
  exact ⟨hb ▸ h.inUse, hf ▸ h.free, hh ▸ h.unwritten, hremap ▸ h.consistent⟩

theorem inUse_setBlock (h : Intact cfg contents detached s) (hblk : s.blocks b = some blk)
    (hidx : blk'.idx = blk.idx)
    (hsound : blk'.Sound cfg.param.pagesInBlock cfg.param.ioUnitInPage) (b' : Nat)
    (blk₀ : Block) (h₀ : (s.setBlock b blk').blocks b' = some blk₀) :
    b' < cfg.param.totalPhysicalBlocks ∧ blk₀.idx = b' ∧
      blk₀.Sound cfg.param.pagesInBlock cfg.param.ioUnitInPage := by
  rcases mem_update_blocks h₀ with ⟨rfl, rfl⟩ | hold
  · obtain ⟨hlt, hown, -⟩ := h.inUse b' blk hblk
    exact ⟨hlt, hidx.trans hown, hsound⟩
  · exact h.inUse b' blk₀ hold

theorem readBlock (h : Intact cfg contents detached s) (hblk : s.blocks b = some blk)
    (hread : blk.read page idx tick = .ok blk') :
    Intact cfg contents detached (s.setBlock b blk') := by
  obtain ⟨accessed, rfl⟩ := Block.read_eq_ok hread
  obtain ⟨-, -, hsound⟩ := h.inUse b blk hblk
  have howner : (s.setBlock b { blk with lastAccessed := accessed }).owner = s.owner :=
    owner_setBlock hblk rfl rfl
  have hremap : (s.setBlock b { blk with lastAccessed := accessed }).remap cfg contents =
      s.remap cfg contents := by
    simp only [remap, howner]
    rfl
  exact
    { inUse := h.inUse_setBlock hblk rfl
        ⟨hsound.pageCount, hsound.ioUnitInPage, hsound.inRange, hsound.exclusive⟩
      free := h.free
      unwritten := h.unwritten
      consistent := hremap ▸ h.consistent }

theorem invalidate (h : Intact cfg contents detached s) (hblk : s.blocks b = some blk)
    (hinv : blk.invalidate page idx = .ok blk') {l : Nat × Nat}
    (howner : s.owner (b, page, idx) = some l) :
    Intact cfg contents (insert l detached) (s.setBlock b blk') := by
  obtain ⟨-, -, hsound⟩ := h.inUse b blk hblk
  have hremap : (s.setBlock b blk').remap cfg contents =
      (s.remap cfg contents).disown (b, page, idx) := by
    simp only [remap, owner_invalidate hblk hinv]
    rfl
  have hidx : blk'.idx = blk.idx := by
    obtain ⟨-, rfl⟩ := Block.invalidate_eq_ok hinv
    rfl
  exact
    { inUse := h.inUse_setBlock hblk hidx (hsound.invalidate hinv)
      free := h.free
      unwritten := h.unwritten
      consistent := hremap ▸ h.consistent.disown howner }

theorem assign (h : Intact cfg contents detached s) (ht : s.table lpn = some entries)
    (hidx : idx < cfg.bitsetSize) (hblk : s.blocks b = some blk)
    (hwrite : blk.write page lpn idx tick = .ok blk') (hl : (lpn, idx) ∈ detached)
    {d : Nat → Option Nat} (hd : (s.remap cfg contents).latest (lpn, idx) = some d)
    (hdata : (fun p : Nat × Nat × Nat => covered cfg p.2.2 (contents' p.1 p.2.1)) =
      Function.update (s.remap cfg contents).data (b, page, idx) d) :
    Intact cfg contents' (detached \ {(lpn, idx)})
      ((s.setBlock b blk').setEntry lpn idx (b, page)) := by
  obtain ⟨hb, -, hsound⟩ := h.inUse b blk hblk
  have hpage : page < cfg.param.pagesInBlock := hsound.pageCount ▸ (Block.write_eq_ok hwrite).2.1
  have hfree : s.owner (b, page, idx) = none :=
    owner_eq_none hblk (hsound.exclusive page idx (Block.write_eq_ok hwrite).2.2.1)
  have hremap : ((s.setBlock b blk').setEntry lpn idx (b, page)).remap cfg contents' =
      (s.remap cfg contents).assign (lpn, idx) (b, page, idx) d := by
    have hplace := place_setEntry (s := s.setBlock b blk') ht hidx hb hpage
    have howner : ((s.setBlock b blk').setEntry lpn idx (b, page)).owner = _ :=
      owner_write hblk hwrite
    simp only [remap, hplace, howner, hdata]
    rfl
  have hown : blk'.idx = blk.idx := by
    obtain ⟨-, -, -, -, rfl⟩ := Block.write_eq_ok hwrite
    rfl
  exact
    { inUse := h.inUse_setBlock hblk hown (hsound.write hwrite)
      free := h.free
      unwritten := h.unwritten
      consistent := hremap ▸ h.consistent.assign hl hfree hd }

end Intact

end PageMapping

end SimpleSSD.FTL
