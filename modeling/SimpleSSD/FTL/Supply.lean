import SimpleSSD.FTL.FreeBlocks
import SimpleSSD.FTL.Stock

/-!
# Supply of pages

How far the open blocks are written, whose turn it is and how many blocks are free decide
how many pages can still be copied.  A collection whose copies the supply covers returns.
-/

namespace SimpleSSD.FTL

open SimpleSSD.Foundation

structure Supply where
  fills : List (Nat → Nat)
  turn : Nat
  used : List Bool
  free : Nat

namespace Supply

variable (cfg : Config)

def rotate (iomap : List Bool) (q : Supply) : Supply :=
  if !cfg.bRandomTweak || (q.used.zipWith (· && ·) iomap).any id then
    { q with
      turn := if q.turn + 1 = cfg.param.pageCountToMaxPerf then 0 else q.turn + 1
      used := iomap }
  else { q with used := q.used.zipWith (· || ·) iomap }

def highest (fill : Nat → Nat) : Nat :=
  ((List.range cfg.param.ioUnitInPage).map fill).foldr max 0

def advance (iomap : List Bool) (fill : Nat → Nat) : Nat → Nat := fun unit =>
  if unit < cfg.bitsetSize ∧ (iomap.getD unit false || !cfg.bRandomTweak) = true then
    fill unit + 1
  else fill unit

def take (iomap : List Bool) (q : Supply) : Option Supply :=
  let q := q.rotate cfg iomap
  match q.fills[q.turn]? with
  | none => none
  | some fill =>
      if highest cfg fill = cfg.param.pagesInBlock then
        if q.free = 0 then none
        else some { q with
          fills := q.fills.set q.turn (advance cfg iomap fun _ => 0)
          free := q.free - 1 }
      else some { q with fills := q.fills.set q.turn (advance cfg iomap fill) }

def takeAll (iomaps : List (List Bool)) (q : Supply) : Option Supply :=
  iomaps.foldlM (fun q iomap => q.take cfg iomap) q

variable {cfg} {iomaps later : List (List Bool)} {iomap : List Bool} {q q' : Supply}

theorem takeAll_append (iomaps later : List (List Bool)) (q : Supply) :
    takeAll cfg (iomaps ++ later) q = (takeAll cfg iomaps q).bind (takeAll cfg later) := by
  unfold takeAll
  rw [List.foldlM_append]
  rfl

@[simp]
theorem takeAll_nil (q : Supply) : takeAll cfg [] q = some q := rfl

@[simp]
theorem takeAll_singleton (iomap : List Bool) (q : Supply) :
    takeAll cfg [iomap] q = q.take cfg iomap := by
  simp [takeAll]

theorem take_eq_some (h : q.take cfg iomap = some q') :
    ∃ fill, (q.rotate cfg iomap).fills[(q.rotate cfg iomap).turn]? = some fill ∧
      ((highest cfg fill = cfg.param.pagesInBlock ∧ (q.rotate cfg iomap).free ≠ 0 ∧
          q' = { q.rotate cfg iomap with
            fills := (q.rotate cfg iomap).fills.set (q.rotate cfg iomap).turn
              (advance cfg iomap fun _ => 0)
            free := (q.rotate cfg iomap).free - 1 }) ∨
        highest cfg fill ≠ cfg.param.pagesInBlock ∧
          q' = { q.rotate cfg iomap with
            fills := (q.rotate cfg iomap).fills.set (q.rotate cfg iomap).turn
              (advance cfg iomap fill) }) := by
  unfold take at h
  dsimp only at h
  split at h
  · cases h
  · rename_i fill hfill
    split_ifs at h with hfull hfree
    · exact ⟨fill, hfill, .inl ⟨hfull, hfree, (Option.some.inj h).symm⟩⟩
    · exact ⟨fill, hfill, .inr ⟨hfull, (Option.some.inj h).symm⟩⟩

theorem exists_take {fill : Nat → Nat}
    (hfill : (q.rotate cfg iomap).fills[(q.rotate cfg iomap).turn]? = some fill)
    (hfree : highest cfg fill = cfg.param.pagesInBlock → (q.rotate cfg iomap).free ≠ 0) :
    ∃ q', q.take cfg iomap = some q' := by
  unfold take
  simp only [hfill]
  split_ifs with hfull hnone
  · exact absurd hnone (hfree hfull)
  · exact ⟨_, rfl⟩
  · exact ⟨_, rfl⟩

end Supply

namespace PageMapping

open Supply

def fillOf (s : PageMapping) (b : Nat) : Nat → Nat :=
  match s.blocks b with
  | none => fun _ => 0
  | some blk => blk.nextWritePageIndex

def supply (s : PageMapping) : Supply where
  fills := s.lastFreeBlock.map s.fillOf
  turn := s.lastFreeBlockIndex
  used := s.lastFreeBlockIOMap
  free := s.nFreeBlocks

variable {cfg : Config} {s s' s'' : PageMapping} {list reclaimed later : List Nat}
  {b block dst page idx i n : Nat} {blk blk' : Block} {tick tick' : Tick} {iomap : List Bool}
  {req : Request cfg} {w w' : Collection} {bit : Nat → Bool} {lpns : Nat → Nat}
  {contents : Nat → Nat → Nat → Option Nat} {detached : Set (Nat × Nat)} {q : Supply}

theorem fillOf_eq (hblk : s.blocks b = some blk) : s.fillOf b = blk.nextWritePageIndex := by
  simp [fillOf, hblk]

theorem fillOf_setBlock (b : Nat) (blk : Block) (s : PageMapping) :
    (s.setBlock b blk).fillOf = Function.update s.fillOf b blk.nextWritePageIndex := by
  funext b'
  by_cases heq : b' = b
  · subst heq
    simp [fillOf, setBlock]
  · simp [fillOf, setBlock, heq]

theorem supply_rotate (cfg : Config) (iomap : List Bool) (s : PageMapping) :
    (rotate cfg iomap s).supply = s.supply.rotate cfg iomap := by
  unfold PageMapping.rotate
  exact apply_ite PageMapping.supply _ _ _

/-- The units of `written` have moved on in the block `dst`, and in no other. -/
structure Advanced (dst : Nat) (written : Nat → Prop) (s s' : PageMapping) : Prop where
  lastFreeBlock : s'.lastFreeBlock = s.lastFreeBlock
  turn : s'.lastFreeBlockIndex = s.lastFreeBlockIndex
  used : s'.lastFreeBlockIOMap = s.lastFreeBlockIOMap
  free : s'.nFreeBlocks = s.nFreeBlocks
  others : ∀ b, b ≠ dst → s'.fillOf b = s.fillOf b
  moved : ∀ unit, written unit → s'.fillOf dst unit = s.fillOf dst unit + 1
  stayed : ∀ unit, ¬ written unit → s'.fillOf dst unit = s.fillOf dst unit

theorem Advanced.supply {written : Nat → Prop} (h : Advanced dst written s s')
    (hwritten : ∀ unit, written unit ↔
      unit < cfg.bitsetSize ∧ (iomap.getD unit false || !cfg.bRandomTweak) = true)
    (hslots : OpenSlots s.lastFreeBlock s)
    (hdst : s.lastFreeBlock[s.lastFreeBlockIndex]? = some dst) :
    s'.supply = { s.supply with
      fills := s.supply.fills.set s.lastFreeBlockIndex (advance cfg iomap (s.fillOf dst)) } := by
  have hfill : s'.fillOf dst = advance cfg iomap (s.fillOf dst) := by
    funext unit
    unfold advance
    by_cases hunit : written unit
    · rw [if_pos ((hwritten unit).1 hunit), h.moved unit hunit]
    · rw [if_neg (mt (hwritten unit).2 hunit), h.stayed unit hunit]
  have hfills : s'.lastFreeBlock.map s'.fillOf = (s.lastFreeBlock.map s.fillOf).set
      s.lastFreeBlockIndex (advance cfg iomap (s.fillOf dst)) := by
    rw [h.lastFreeBlock]
    refine List.ext_getElem? fun j => ?_
    rw [List.getElem?_map, List.getElem?_set, List.length_map]
    obtain ⟨hlt, hget⟩ := List.getElem?_eq_some_iff.1 hdst
    by_cases heq : s.lastFreeBlockIndex = j
    · subst heq
      rw [if_pos rfl, if_pos hlt, hdst, Option.map_some, hfill]
    · rw [if_neg heq, List.getElem?_map]
      cases hslot : s.lastFreeBlock[j]? with
      | none => rfl
      | some other =>
          obtain ⟨hj, hother⟩ := List.getElem?_eq_some_iff.1 hslot
          rw [Option.map_some, Option.map_some, h.others other fun hsame => heq ?_]
          have hsame' : s.lastFreeBlock[s.lastFreeBlockIndex] = s.lastFreeBlock[j] :=
            hget.trans (hsame.symm.trans hother.symm)
          exact (List.Nodup.getElem_inj_iff hslots.distinct).1 hsame'
  unfold PageMapping.supply
  rw [hfills, h.turn, h.used, h.free]

/-! ## Opening -/

theorem takeFree_total (cfg : Config) (i : Nat) {free : List Block} (h : free ≠ []) :
    ∃ blk rest, takeFree cfg i free = some (blk, rest) := by
  unfold takeFree
  split
  · exact ⟨_, _, rfl⟩
  · cases free with
    | nil => exact absurd rfl h
    | cons blk rest => exact ⟨blk, rest, rfl⟩

variable (cfg) in
theorem getFreeBlock_total (i : Nat) (hslots : OpenSlots list s)
    (hcount : s.nFreeBlocks = s.freeBlocks.length)
    (hi : i < cfg.param.pageCountToMaxPerf) (hfree : s.nFreeBlocks ≠ 0) :
    ∃ b s', getFreeBlock cfg i s = .ok (b, s') := by
  have hstock : s.freeBlocks ≠ [] := by
    rintro heq
    rw [heq] at hcount
    exact hfree hcount
  obtain ⟨blk, rest, htake⟩ := takeFree_total cfg i hstock
  have hnone := hslots.free blk ((takeFree_perm htake).mem_iff.2 List.mem_cons_self)
  unfold getFreeBlock
  rw [if_neg (not_le.2 hi), if_neg hfree, htake]
  dsimp only
  rw [hnone, if_neg (by simp)]
  exact ⟨_, _, rfl⟩

theorem getNextWritePageIndex_eq (hintact : Intact cfg contents detached s)
    (hblk : s.blocks b = some blk) :
    blk.getNextWritePageIndex = highest cfg (s.fillOf b) := by
  obtain ⟨-, -, hsound⟩ := hintact.inUse b blk hblk
  rw [fillOf_eq hblk, Block.getNextWritePageIndex, hsound.ioUnitInPage, highest]

theorem getLastFreeBlock_supplied (hintact : Intact cfg contents detached s)
    (hslots : OpenSlots s.lastFreeBlock s) (hstock : Stocking cfg cfg.param.pageCountToMaxPerf s)
    (htake : s.supply.take cfg iomap = some q) :
    ∃ dst s', getLastFreeBlock cfg iomap s = .ok (dst, s') ∧
      s'.lastFreeBlock[s'.lastFreeBlockIndex]? = some dst ∧
      q = { s'.supply with
        fills := s'.supply.fills.set s'.lastFreeBlockIndex
          (advance cfg iomap (s'.fillOf dst)) } := by
  obtain ⟨fill, hfill, hcase⟩ := take_eq_some htake
  rw [← supply_rotate] at hfill hcase
  obtain ⟨index, flags, hrotate⟩ := rotate_eq cfg iomap s
  rw [hrotate] at hfill hcase
  change (s.lastFreeBlock.map s.fillOf)[index]? = some fill at hfill
  rw [List.getElem?_map, Option.map_eq_some_iff] at hfill
  obtain ⟨last, hlast, rfl⟩ := hfill
  obtain ⟨hindex, -⟩ := List.getElem?_eq_some_iff.1 hlast
  obtain ⟨blk, hblk⟩ :=
    Option.ne_none_iff_exists'.1 (hslots.inUse last (List.mem_of_getElem? hlast))
  have hnext := getNextWritePageIndex_eq hintact hblk
  simp only [getLastFreeBlock, hrotate, hlast, hblk]
  rcases hcase with ⟨hfull, hfree, rfl⟩ | ⟨hroom, rfl⟩
  · rw [if_pos (hnext.trans hfull)]
    have hrotated : OpenSlots s.lastFreeBlock
        { s with lastFreeBlockIndex := index, lastFreeBlockIOMap := flags } :=
      hslots.same (.of_eq rfl rfl rfl)
    obtain ⟨dst, mid, hget⟩ := getFreeBlock_total cfg index hrotated
      hstock.1.count (hstock.2 ▸ hindex) hfree
    rw [hget]
    obtain ⟨fresh, rest, hperm, -, hnone, rfl⟩ := getFreeBlock_eq_ok hget
    obtain ⟨-, -, -, hzero⟩ := hintact.free fresh (hperm.mem_iff.2 List.mem_cons_self)
    refine ⟨dst, _, rfl, List.getElem?_set_self hindex, ?_⟩
    have hfresh : fillOf { s with blocks := Function.update s.blocks dst (some fresh) } =
        Function.update s.fillOf dst fresh.nextWritePageIndex :=
      fillOf_setBlock dst fresh s
    have hslot : ∀ b ∈ s.lastFreeBlock,
        fillOf { s with blocks := Function.update s.blocks dst (some fresh) } b = s.fillOf b := by
      intro b hb
      have hne : b ≠ dst := fun heq => hslots.inUse b hb (heq ▸ hnone)
      rw [hfresh, Function.update_of_ne hne]
    have hempty : fillOf { s with blocks := Function.update s.blocks dst (some fresh) } dst =
        fun _ => 0 := by
      rw [hfresh, Function.update_self]
      exact funext hzero
    have hfills : (s.lastFreeBlock.map s.fillOf).set index (advance cfg iomap fun _ => 0) =
        ((s.lastFreeBlock.set index dst).map
          (fillOf { s with blocks := Function.update s.blocks dst (some fresh) })).set index
          (advance cfg iomap
            (fillOf { s with blocks := Function.update s.blocks dst (some fresh) } dst)) := by
      rw [hempty, List.map_set, List.set_set, List.map_congr_left hslot]
    exact congrArg (fun fills => (⟨fills, index, flags, s.nFreeBlocks - 1⟩ : Supply)) hfills
  · rw [if_neg fun hfull => hroom (hnext.symm.trans hfull)]
    exact ⟨last, _, rfl, hlast, rfl⟩

/-! ## One page -/

namespace Advanced

theorem trans {written written' : Nat → Prop} (h : Advanced dst written s s')
    (h' : Advanced dst written' s' s'') (apart : ∀ unit, written unit → ¬ written' unit) :
    Advanced dst (fun unit => written unit ∨ written' unit) s s'' where
  lastFreeBlock := h'.lastFreeBlock.trans h.lastFreeBlock
  turn := h'.turn.trans h.turn
  used := h'.used.trans h.used
  free := h'.free.trans h.free
  others b hb := (h'.others b hb).trans (h.others b hb)
  moved unit := by
    rintro (hfirst | hsecond)
    · rw [h'.stayed unit (apart unit hfirst), h.moved unit hfirst]
    · rw [h'.moved unit hsecond, h.stayed unit fun hfirst => apart unit hfirst hsecond]
  stayed unit hnot := by
    rw [not_or] at hnot
    rw [h'.stayed unit hnot.2, h.stayed unit hnot.1]

theorem congr {written written' : Nat → Prop} (h : Advanced dst written s s')
    (same : ∀ unit, written unit ↔ written' unit) : Advanced dst written' s s' :=
  ⟨h.lastFreeBlock, h.turn, h.used, h.free, h.others,
    fun unit hunit => h.moved unit ((same unit).2 hunit),
    fun unit hunit => h.stayed unit (mt (same unit).1 hunit)⟩

theorem refl (dst : Nat) (s : PageMapping) : Advanced dst (fun _ => False) s s :=
  ⟨rfl, rfl, rfl, rfl, fun _ _ => rfl, fun _ h => h.elim, fun _ _ => rfl⟩

theorem write {lpn : Nat} (hblk : s.blocks dst = some blk)
    (hwrite : blk.write (blk.nextWritePageIndex idx) lpn idx tick = .ok blk') :
    Advanced dst (fun unit => unit = idx) s (s.setBlock dst blk') := by
  obtain ⟨-, -, -, -, rfl⟩ := Block.write_eq_ok hwrite
  refine ⟨rfl, rfl, rfl, rfl, fun b hb => ?_, fun unit hunit => ?_, fun unit hunit => ?_⟩
  · rw [fillOf_setBlock, Function.update_of_ne hb]
  · subst hunit
    rw [fillOf_setBlock, Function.update_self, fillOf_eq hblk]
    exact Function.update_self ..
  · rw [fillOf_setBlock, Function.update_self, fillOf_eq hblk]
    exact Function.update_of_ne hunit _ _

end Advanced

theorem relocateUnit_advanced
    (run : relocateUnit cfg block page dst bit lpns w idx = .ok w') :
    Advanced dst (fun unit => unit = idx ∧ bit idx = true) w.mapping w'.mapping := by
  by_cases hbit : bit idx = true
  · obtain ⟨blk, blk', entries, free, free', hblk, hinv, -, hfree, hwrite, rfl⟩ :=
      relocateUnit_eq_ok hbit run
    obtain ⟨-, rfl⟩ := Block.invalidate_eq_ok hinv
    have hsource : (w.mapping.setBlock block { blk with
        validBits := update₂ blk.validBits page idx false }).fillOf = w.mapping.fillOf := by
      rw [fillOf_setBlock, ← fillOf_eq hblk, Function.update_eq_self]
    have hadvanced := Advanced.write hfree hwrite
    refine ⟨rfl, rfl, rfl, rfl, fun b hb => ?_, fun unit hunit => ?_, fun unit hunit => ?_⟩
    · exact (hadvanced.others b hb).trans (congrFun hsource b)
    · exact (hadvanced.moved unit hunit.1).trans (congrArg (· dst unit + 1) hsource)
    · exact (hadvanced.stayed unit fun heq => hunit ⟨heq, hbit⟩).trans
        (congrArg (· dst unit) hsource)
  · cases relocateUnit_unselected hbit run
    exact (Advanced.refl dst w.mapping).congr fun unit =>
      ⟨False.elim, fun hunit => hbit hunit.2⟩

def validOf (s : PageMapping) (b page : Nat) : Nat → Bool :=
  match s.blocks b with
  | none => fun _ => false
  | some blk => blk.validBits page

theorem validOf_eq (hblk : s.blocks b = some blk) (page : Nat) :
    s.validOf b page = blk.validBits page := by
  simp [validOf, hblk]

theorem validOf_setBlock (b : Nat) (blk : Block) (s : PageMapping) :
    (s.setBlock b blk).validOf = Function.update s.validOf b blk.validBits := by
  funext b' page
  by_cases heq : b' = b
  · subst heq
    simp [validOf, setBlock]
  · simp [validOf, setBlock, heq]

/-- Reclaimed pages other than the one at hand stay as they are. -/
def Elsewhere (reclaimed : List Nat) (block page : Nat) (s s' : PageMapping) : Prop :=
  ∀ b ∈ reclaimed, ∀ q, ¬ (b = block ∧ q = page) → s'.validOf b q = s.validOf b q

theorem Elsewhere.trans (h : Elsewhere reclaimed block page s s')
    (h' : Elsewhere reclaimed block page s' s'') : Elsewhere reclaimed block page s s'' :=
  fun b hb q hnot => (h' b hb q hnot).trans (h b hb q hnot)

theorem Opened.elsewhere (h : Opened cfg s dst s') (hused : ∀ b ∈ reclaimed, s.blocks b ≠ none) :
    Elsewhere reclaimed block page s s' := by
  intro b hb q _
  obtain ⟨blk, hblk⟩ := Option.ne_none_iff_exists'.1 (hused b hb)
  rw [validOf_eq hblk, validOf_eq (h.blocks b blk hblk)]

theorem relocateUnit_elsewhere (hdst : dst ∉ reclaimed)
    (run : relocateUnit cfg block page dst bit lpns w idx = .ok w') :
    Elsewhere reclaimed block page w.mapping w'.mapping := by
  by_cases hbit : bit idx = true
  · obtain ⟨blk, blk', entries, free, free', hblk, hinv, -, hfree, hwrite, rfl⟩ :=
      relocateUnit_eq_ok hbit run
    obtain ⟨-, rfl⟩ := Block.invalidate_eq_ok hinv
    intro b hb q hnot
    have hne : b ≠ dst := fun heq => hdst (heq ▸ hb)
    have hsource := validOf_setBlock block { blk with
      validBits := update₂ blk.validBits page idx false } w.mapping
    have hwritten := validOf_setBlock dst free' (w.mapping.setBlock block { blk with
      validBits := update₂ blk.validBits page idx false })
    refine (congrFun₂ hwritten b q).trans ?_
    rw [Function.update_of_ne hne, hsource]
    by_cases heq : b = block
    · subst heq
      have hq : q ≠ page := fun heq => hnot ⟨rfl, heq⟩
      rw [Function.update_self, validOf_eq hblk]
      exact Function.update_of_ne hq _ _
    · rw [Function.update_of_ne heq]
  · cases relocateUnit_unselected hbit run
    exact fun _ _ _ _ => rfl

theorem write_total (lpn : Nat) (tick : Tick)
    (hsound : blk.Sound cfg.param.pagesInBlock cfg.param.ioUnitInPage)
    (hsequential : blk.Sequential) (hunit : idx < cfg.param.ioUnitInPage)
    (hroom : blk.nextWritePageIndex idx < cfg.param.pagesInBlock) :
    ∃ blk', blk.write (blk.nextWritePageIndex idx) lpn idx tick = .ok blk' := by
  have hunit' : idx < blk.ioUnitInPage := hsound.ioUnitInPage ▸ hunit
  have hroom' : blk.nextWritePageIndex idx < blk.pageCount := hsound.pageCount ▸ hroom
  have herased := hsequential.erased _ idx hroom' hunit' (le_refl _)
  unfold Block.write
  rw [if_neg (not_le.2 hunit'), if_neg (not_le.2 hroom'), if_pos herased,
    if_neg (lt_irrefl _)]
  exact ⟨_, rfl⟩

theorem RelocatingPage.total {s₀ start : PageMapping} {rest : List Nat}
    (h : RelocatingPage cfg reclaimed s₀ start block page dst bit lpns (idx :: rest) w)
    (hblock : block ∈ reclaimed) (hdst : dst ∉ reclaimed) (hunits : 2 ≤ cfg.param.ioUnitInPage) :
    ∃ w', relocateUnit cfg block page dst bit lpns w idx = .ok w' := by
  unfold relocateUnit
  by_cases hbit : bit idx = true
  · obtain ⟨blk, hblk, hlive⟩ := h.awaits
    obtain ⟨hvalid, hlpn⟩ := hlive idx List.mem_cons_self hbit
    obtain ⟨-, -, hsound⟩ := h.collecting.intact.inUse block blk hblk
    have hpage := (hsound.inRange page idx (.inl hvalid)).1
    obtain ⟨hplace, -⟩ := h.collecting.intact.consistent.placed _ _
      (hlpn ▸ owner_eq_some hblk hvalid)
    obtain ⟨entries, hentries, -⟩ := place_inv hplace
    have hne : dst ≠ block := fun heq => hdst (heq ▸ hblock)
    obtain ⟨free, hfree, hroom⟩ := h.ready (by omega)
    obtain ⟨-, -, hfreeSound⟩ := h.collecting.intact.inUse dst free hfree
    obtain ⟨free', hwrite⟩ := write_total (lpns idx) 0 hfreeSound
      (h.sequential.inUse dst free hfree)
      (lt_of_lt_of_le (h.bound idx List.mem_cons_self) (bitsetSize_le (by omega)))
      (hroom idx List.mem_cons_self)
    have hinv : blk.invalidate page idx = .ok { blk with
        validBits := update₂ blk.validBits page idx false } := by
      unfold Block.invalidate
      rw [if_neg (not_le.2 (hsound.pageCount ▸ hpage))]
    rw [if_pos hbit, hblk]
    simp only [hinv, bind, Except.bind, setBlock, access, Function.update_of_ne hne]
    have hentries' : w.mapping.table (lpns idx) = some entries := hentries
    rw [hentries']
    simp only [hfree, hwrite]
    exact ⟨_, rfl⟩
  · rw [if_neg hbit]
    exact ⟨w, rfl⟩

variable (cfg) in
def pageCopies (valid : Nat → Bool) : List (List Bool) :=
  if (List.range cfg.param.ioUnitInPage).any valid then
    [(List.range cfg.param.ioUnitInPage).map (liveUnits cfg valid)]
  else []

variable (cfg) in
def copiesOf (valid : Nat → Nat → Nat → Bool) (b : Nat) (pages : List Nat) : List (List Bool) :=
  pages.flatMap fun page => pageCopies cfg (valid b page)

variable (cfg) in
def copies (valid : Nat → Nat → Nat → Bool) (blocks : List Nat) : List (List Bool) :=
  blocks.flatMap fun b => copiesOf cfg valid b (List.range cfg.param.pagesInBlock)

theorem selected_iff {valid : Nat → Bool} (hunits : 0 < cfg.param.ioUnitInPage) (unit : Nat) :
    (unit < cfg.bitsetSize ∧ liveUnits cfg valid unit = true) ↔
      unit < cfg.bitsetSize ∧ (((List.range cfg.param.ioUnitInPage).map
        (liveUnits cfg valid)).getD unit false || !cfg.bRandomTweak) = true := by
  refine and_congr_right fun hunit => ?_
  have hlt := lt_of_lt_of_le hunit (bitsetSize_le hunits)
  rw [List.getD_eq_getElem?_getD, List.getElem?_map, List.getElem?_range hlt]
  cases htweak : cfg.bRandomTweak with
  | true => simp
  | false => simp [liveUnits, htweak, hlt]

theorem Reclaiming.relocatePage_supplied {s₀ : PageMapping} {p : Nat → Nat → Prop}
    (h : Reclaiming cfg reclaimed s₀ p w) (hsparing : Sparing reclaimed w.mapping)
    (hstock : Stocking cfg cfg.param.pageCountToMaxPerf w.mapping) (hblock : block ∈ reclaimed)
    (hunits : 2 ≤ cfg.param.ioUnitInPage)
    (htake : takeAll cfg (pageCopies cfg (w.mapping.validOf block page)) w.mapping.supply =
      some q) :
    ∃ w', PageMapping.relocatePage cfg block w page = .ok w' ∧ w'.mapping.supply = q ∧
      Elsewhere reclaimed block page w.mapping w'.mapping := by
  obtain ⟨blk, hblk⟩ := Option.ne_none_iff_exists'.1 (hsparing.inUse block hblock)
  have hinfo := h.collecting.intact.getPageInfo_eq hunits hblk page
  rw [validOf_eq hblk] at htake
  unfold PageMapping.relocatePage
  rw [hblk]
  dsimp only
  by_cases hany : (List.range cfg.param.ioUnitInPage).any (blk.getPageInfo page) = true
  · rw [if_pos hany]
    unfold pageCopies at htake
    rw [← hinfo, if_pos hany, takeAll_singleton] at htake
    obtain ⟨dst, opened, hopen, hslot, hq⟩ := getLastFreeBlock_supplied h.collecting.intact
      hsparing.slots hstock htake
    obtain ⟨hdst, hstart⟩ := h.relocating hunits hblk hany hopen (w.reads ++ [⟨block, page,
      (List.range cfg.param.ioUnitInPage).map (liveUnits cfg (blk.getPageInfo page))⟩])
    have hloop := foldlM_progress (f := relocateUnit cfg block page dst
        (liveUnits cfg (blk.getPageInfo page)) (blk.lpns page)) (fun rest w₁ =>
        RelocatingPage cfg reclaimed s₀ w.mapping block page dst
          (liveUnits cfg (blk.getPageInfo page)) (blk.lpns page) rest w₁ ∧
        Advanced dst (fun unit => (unit < cfg.bitsetSize ∧ unit ∉ rest) ∧
          liveUnits cfg (blk.getPageInfo page) unit = true) opened w₁.mapping ∧
        Elsewhere reclaimed block page opened w₁.mapping) ?_
      ⟨hstart, (Advanced.refl dst opened).congr fun unit => ?_, fun _ _ _ _ => rfl⟩
    · obtain ⟨w', hrun, hdone, hadvanced, helse⟩ := hloop
      refine ⟨w', ?_, ?_, ?_⟩
      · rw [hopen]
        exact hrun
      · have hopened := (hsparing.getLastFreeBlock hopen).slots
        rw [hq]
        refine hadvanced.supply (fun unit => ?_) hopened hslot
        rw [← selected_iff (by omega)]
        simp
      · exact ((getLastFreeBlock_opened hopen).elsewhere hsparing.inUse).trans helse
    · rintro idx rest w₁ ⟨hinv, hadvanced, helse⟩
      obtain ⟨w₂, hstep⟩ := hinv.total hblock hdst hunits
      obtain ⟨hnotin, -⟩ := List.nodup_cons.1 hinv.nodup
      have hidx := hinv.bound idx List.mem_cons_self
      refine ⟨w₂, hstep, hinv.step hblock hdst hstep, ?_,
        helse.trans (relocateUnit_elsewhere hdst hstep)⟩
      refine (hadvanced.trans (relocateUnit_advanced hstep) ?_).congr fun unit => ?_
      · rintro unit ⟨⟨-, hnot⟩, -⟩ ⟨rfl, -⟩
        exact hnot List.mem_cons_self
      · by_cases heq : unit = idx
        · subst heq
          simp [hidx, hnotin]
        · simp [heq]
    · simp only [List.mem_range]
      tauto
  · rw [if_neg hany]
    unfold pageCopies at htake
    rw [← hinfo, if_neg hany, takeAll_nil] at htake
    exact ⟨w, rfl, Option.some.inj htake, fun _ _ _ _ => rfl⟩

/-! ## Collections -/

theorem copiesOf_congr {valid valid' : Nat → Nat → Nat → Bool} {pages : List Nat}
    (same : ∀ page ∈ pages, valid b page = valid' b page) :
    copiesOf cfg valid b pages = copiesOf cfg valid' b pages := by
  unfold copiesOf
  refine List.flatMap_congr fun page hpage => ?_
  rw [same page hpage]

theorem copies_congr {valid valid' : Nat → Nat → Nat → Bool} {blocks : List Nat}
    (same : ∀ b ∈ blocks, ∀ page, valid b page = valid' b page) :
    copies cfg valid blocks = copies cfg valid' blocks := by
  unfold copies
  exact List.flatMap_congr fun b hb => copiesOf_congr fun page _ => same b hb page

/-- Between two pages of a block: the supply covers the copies to come. -/
structure CoveringBlock (cfg : Config) (list : List Nat) (s₀ : PageMapping) (q : Supply)
    (done : Nat → Prop) (block : Nat) (later pages : List Nat) (w : Collection) : Prop where
  collecting : CollectingBlock cfg list s₀ done block pages w
  sparing : Sparing list w.mapping
  stocking : Stocking cfg cfg.param.pageCountToMaxPerf w.mapping
  distinct : pages.Nodup
  covered : takeAll cfg (copiesOf cfg w.mapping.validOf block pages ++
    copies cfg w.mapping.validOf later) w.mapping.supply = some q

theorem CoveringBlock.step {s₀ : PageMapping} {done : Nat → Prop} {pages : List Nat}
    (h : CoveringBlock cfg list s₀ q done block later (page :: pages) w) (hblock : block ∈ list)
    (hlater : ∀ b ∈ later, b ∈ list ∧ b ≠ block) (hunits : 2 ≤ cfg.param.ioUnitInPage) :
    ∃ w', PageMapping.relocatePage cfg block w page = .ok w' ∧
      CoveringBlock cfg list s₀ q done block later pages w' := by
  have hcovered := h.covered
  obtain ⟨hnotin, hdistinct⟩ := List.nodup_cons.1 h.distinct
  rw [copiesOf, List.flatMap_cons, List.append_assoc, takeAll_append,
    Option.bind_eq_some_iff] at hcovered
  obtain ⟨mid, hpage, hcovered⟩ := hcovered
  obtain ⟨w', hrun, hsupply, helse⟩ := Reclaiming.relocatePage_supplied h.collecting h.sparing
    h.stocking hblock hunits hpage
  refine ⟨w', hrun, h.collecting.step hblock hunits hrun, relocatePage_sparing h.sparing hrun,
    h.stocking.relocatePage hrun, hdistinct, ?_⟩
  have hpages : copiesOf cfg w'.mapping.validOf block pages =
      copiesOf cfg w.mapping.validOf block pages :=
    copiesOf_congr fun other hother =>
      helse block hblock other fun heq => hnotin (heq.2 ▸ hother)
  have hothers : copies cfg w'.mapping.validOf later = copies cfg w.mapping.validOf later :=
    copies_congr fun b hb other =>
      helse b (hlater b hb).1 other fun heq => (hlater b hb).2 heq.1
  rw [hpages, hothers, hsupply]
  exact hcovered

/-- Between two victims: the supply covers the copies to come. -/
structure Covering (cfg : Config) (list : List Nat) (s₀ : PageMapping) (q : Supply)
    (rest : List Nat) (w : Collection) : Prop where
  collecting : CollectingVictims cfg list s₀ rest w
  sparing : Sparing list w.mapping
  stocking : Stocking cfg cfg.param.pageCountToMaxPerf w.mapping
  distinct : rest.Nodup
  covered : takeAll cfg (copies cfg w.mapping.validOf rest) w.mapping.supply = some q

theorem Covering.step {s₀ : PageMapping} {rest : List Nat}
    (h : Covering cfg list s₀ q (block :: rest) w) (hunits : 2 ≤ cfg.param.ioUnitInPage) :
    ∃ w', collectBlock cfg w block = .ok w' ∧ Covering cfg list s₀ q rest w' := by
  have hblock := h.collecting.1 block List.mem_cons_self
  obtain ⟨hnotin, hdistinct⟩ := List.nodup_cons.1 h.distinct
  have hlater : ∀ b ∈ rest, b ∈ list ∧ b ≠ block := fun b hb =>
    ⟨h.collecting.1 b (List.mem_cons_of_mem block hb), fun heq => hnotin (heq ▸ hb)⟩
  obtain ⟨blk, hblk⟩ := Option.ne_none_iff_exists'.1 (h.sparing.inUse block hblock)
  have hstart : CoveringBlock cfg list s₀ q (fun b => b ∉ block :: rest) block rest
      (List.range cfg.param.pagesInBlock) w :=
    ⟨h.collecting.2.collectingBlock, h.sparing, h.stocking, List.nodup_range,
      by simpa only [copies, List.flatMap_cons] using h.covered⟩
  obtain ⟨w', hrun, hdone⟩ := foldlM_progress (f := relocatePage cfg block)
    (CoveringBlock cfg list s₀ q (fun b => b ∉ block :: rest) block rest)
    (fun page pages w₁ hinv => hinv.step hblock hlater hunits) hstart
  have hcollect : collectBlock cfg w block = .ok w' := by
    unfold collectBlock
    rw [hblk]
    exact hrun
  exact ⟨w', hcollect, h.collecting.step hunits hcollect, hdone.sparing, hdone.stocking, hdistinct,
    hdone.covered⟩

/-- Victims to come are in use, no victim has anything valid, and there is a free block to put
them behind unless all of them are dropped. -/
structure ErasingRest (cfg : Config) (list rest : List Nat) (acc : Tick × PageMapping) :
    Prop where
  erasing : Erasing list acc
  victims : ∀ b ∈ rest, b ∈ list ∧ acc.2.blocks b ≠ none
  distinct : rest.Nodup
  room : acc.2.freeBlocks ≠ [] ∨ ∀ b ∈ rest, Worn cfg acc.2 b

variable (cfg) in
theorem ErasingRest.step (tick : Tick) {rest : List Nat} {acc : Tick × PageMapping}
    (h : ErasingRest cfg list (block :: rest) acc) :
    ∃ acc', eraseStep cfg tick acc block = .ok acc' ∧ ErasingRest cfg list rest acc' := by
  obtain ⟨hblock, hused⟩ := h.victims block List.mem_cons_self
  obtain ⟨hnotin, hdistinct⟩ := List.nodup_cons.1 h.distinct
  obtain ⟨blk, hblk⟩ := Option.ne_none_iff_exists'.1 hused
  have hcount : blk.getValidPageCount = 0 := Block.getValidPageCount_eq_zero
    fun page unit => h.erasing.2 block hblock blk hblk page unit trivial
  have hroom : acc.2.freeBlocks ≠ [] ∨ cfg.badBlockThreshold ≤ blk.erase.eraseCount := by
    refine h.room.imp_right fun worn => ?_
    obtain ⟨blk', hblk', hworn⟩ := worn block List.mem_cons_self
    cases Option.some.inj (hblk.symm.trans hblk')
    exact hworn
  obtain ⟨⟨done, mid⟩, hmid⟩ := eraseInternal_total
    ⟨block, 0, List.replicate cfg.param.ioUnitInPage true⟩ tick hblk hcount hroom
  have hstep : eraseStep cfg tick acc block = .ok (max acc.1 done, mid) := by
    unfold eraseStep
    rw [hmid]
    rfl
  have hkept : ∀ b ∈ rest, mid.blocks b = acc.2.blocks b := by
    intro b hb
    have hne : b ≠ block := fun heq => hnotin (heq ▸ hb)
    obtain ⟨old, free, nFree, -, -, -, rfl⟩ := eraseInternal_eq_ok hmid
    exact Function.update_of_ne hne _ _
  refine ⟨_, hstep, h.erasing.step hstep, fun b hb => ?_, hdistinct, ?_⟩
  · obtain ⟨hmem, hinUse⟩ := h.victims b (List.mem_cons_of_mem block hb)
    exact ⟨hmem, by rwa [hkept b hb]⟩
  · refine h.room.imp (fun hfree => ?_) fun worn b hb =>
      (worn b (List.mem_cons_of_mem block hb)).of_eq (hkept b hb)
    obtain ⟨old, free, nFree, -, -, hperm, rfl⟩ := eraseInternal_eq_ok hmid
    rcases hperm with rfl | hperm
    · exact hfree
    · intro hnil
      have hlength := hperm.length_eq
      rw [show free = [] from hnil] at hlength
      cases hlength

variable (cfg) in
/-- After the copies of a collection a free block is left, unless all its blocks are dropped. -/
def Reinserts (list : List Nat) (s : PageMapping) (q : Supply) : Prop :=
  q.free ≠ 0 ∨ ∀ b ∈ list, Worn cfg s b

/-- A collection of full blocks that are not open returns when the supply covers its copies. -/
theorem doGarbageCollection_total (h : Disciplined cfg s) (hsparing : Sparing list s)
    (hstock : Stocking cfg cfg.param.pageCountToMaxPerf s) (hunits : 2 ≤ cfg.param.ioUnitInPage)
    (hdistinct : list.Nodup)
    (hcovered : ∃ q, takeAll cfg (copies cfg s.validOf list) s.supply = some q ∧
      Reinserts cfg list s q) (tick : Tick) :
    ∃ done, doGarbageCollection cfg list tick s = .ok done := by
  have hfull : ∀ b ∈ list, Full cfg s b := fun b hb =>
    (hstock.1.closed b (hsparing.inUse b hb)).resolve_left (hsparing.spared b hb)
  by_cases hempty : list = []
  · unfold doGarbageCollection
    rw [if_pos hempty]
    exact ⟨_, rfl⟩
  · obtain ⟨q, hcovered, hreinserts⟩ := hcovered
    have hstart : Covering cfg list s q list ⟨s, tick, [], []⟩ :=
      ⟨.start tick h.intact h.sequential hfull, hsparing, hstock, hdistinct, hcovered⟩
    obtain ⟨w, hcollect, hcollected⟩ := foldlM_progress (Covering cfg list s q)
      (fun block rest w hinv => hinv.step hunits) hstart
    have hcarried := hcollected.sparing.same (carryOut_sameSlots cfg tick w)
    have hsupply : w.mapping.supply = q := Option.some.inj hcollected.covered
    have hroom : (carryOut cfg tick w).2.2.freeBlocks ≠ [] ∨
        ∀ b ∈ list, Worn cfg (carryOut cfg tick w).2.2 b := by
      refine hreinserts.imp ?_ ?_
      · intro hfree hnil
        have hcount : w.mapping.nFreeBlocks = w.mapping.freeBlocks.length :=
          hcollected.stocking.1.count
        rw [(carryOut_quiet cfg tick w).freeBlocks] at hnil
        apply hfree
        rw [← hsupply]
        exact hcount.trans (by rw [hnil]; rfl)
      · intro worn b hb
        exact opens_worn.quiet (carryOut_quiet cfg tick w)
          (opens_worn.collectBlocks hcollect (worn b hb))
    have herasing : ErasingRest cfg list list (tick, (carryOut cfg tick w).2.2) :=
      ⟨.start hcollected.collecting, fun b hb => ⟨hb, hcarried.inUse b hb⟩, hdistinct, hroom⟩
    obtain ⟨acc, herases, -⟩ := foldlM_progress (ErasingRest cfg list)
      (fun block rest acc hinv => hinv.step cfg (carryOut cfg tick w).1) herasing
    rw [doGarbageCollection_eq cfg tick s hempty]
    exact ⟨_, bind_eq_ok.2 ⟨w, hcollect, bind_eq_ok.2 ⟨acc, herases, rfl⟩⟩⟩

end PageMapping

end SimpleSSD.FTL
