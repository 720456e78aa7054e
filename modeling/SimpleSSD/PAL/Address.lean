import Mathlib.Data.Set.Function
import SimpleSSD.Foundation.Fallible
import SimpleSSD.Foundation.Grid
import SimpleSSD.PAL.Config

/-!
# Physical addresses

`PALOLD::convertCPDPBP` of `pal/pal_old.cc`.  The block index is divided over the
dimensions outside the superblock, in the order of the allocation; the units of a
superpage are the points of the dimensions inside.
-/

namespace SimpleSSD.PAL

open SimpleSSD.Foundation

structure Request where
  blockIndex : Nat
  pageIndex : Nat
  ioFlag : List Bool

namespace PALOLD

variable (cfg : Config)

/-- Coordinates set so far, what remains of the block index, and the dimensions that
are left to the loops. -/
structure Split where
  coords : AddrIndex → Nat
  tmp : Nat
  ptr : List AddrIndex

/-- One dimension of the allocation.  The plane is not addressed in multi-plane mode. -/
def splitStep (s : Split) (idx : AddrIndex) : Split :=
  if cfg.useMultiPlaneOperation ∧ idx = .plane then s
  else if cfg.superblock idx then { s with ptr := s.ptr ++ [idx] }
  else {
    s with
    coords := Function.update s.coords idx (s.tmp % cfg.size idx)
    tmp := s.tmp / cfg.size idx }

def cpdpbp (coords : AddrIndex → Nat) (block page : Nat) : CPDPBP :=
  ⟨coords .channel, coords .package, coords .die, coords .plane, block, page⟩

def visit (ioFlag : List Bool) (block page : Nat) (state : Nat × List CPDPBP)
    (coords : AddrIndex → Nat) : Except Fault (Nat × List CPDPBP) :=
  match ioFlag[state.1]? with
  | none => .error .undefined
  | some true => .ok (state.1 + 1, state.2 ++ [cpdpbp coords block page])
  | some false => .ok (state.1 + 1, state.2)

/-- The nested loops, outermost dimension first, for any number of dimensions. -/
def nest (ioFlag : List Bool) (block page : Nat) :
    List AddrIndex → (AddrIndex → Nat) → Nat × List CPDPBP → Except Fault (Nat × List CPDPBP)
  | [], coords, state => visit ioFlag block page state coords
  | idx :: inner, coords, state =>
      (List.range (cfg.size idx)).foldlM
        (fun state i => nest ioFlag block page inner (Function.update coords idx i) state) state

def convertCPDPBP (bRandomTweak : Bool) (req : Request) : Except Fault (List CPDPBP) :=
  if bRandomTweak = true ∧ req.ioFlag.length ≠ cfg.pageInSuperPage then
    .error (.panic "Invalid size of I/O flag")
  else do
    let ioFlag := if bRandomTweak = false ∧ req.ioFlag.length ≠ cfg.pageInSuperPage then
      List.replicate cfg.pageInSuperPage true else req.ioFlag
    let split := cfg.pageAllocation.foldl (splitStep cfg) ⟨fun _ => 0, req.blockIndex, []⟩
    let (tmp, list) ← nest cfg ioFlag split.tmp req.pageIndex split.ptr.reverse split.coords (0, [])
    if tmp ≠ cfg.pageInSuperPage then
      .error (.panic "I/O flag size != # pages in super page")
    else .ok list

/-! ## Dimensions inside and outside the superblock -/

def addressed (idx : AddrIndex) : Bool :=
  decide ¬(cfg.useMultiPlaneOperation = true ∧ idx = .plane)

def isOutside (idx : AddrIndex) : Bool := addressed cfg idx && !cfg.superblock idx

def isInside (idx : AddrIndex) : Bool := addressed cfg idx && cfg.superblock idx

def outside : List AddrIndex := cfg.pageAllocation.filter (isOutside cfg)

def inside : List AddrIndex := cfg.pageAllocation.filter (isInside cfg)

variable {cfg} {ioFlag : List Bool} {block page : Nat} {coords : AddrIndex → Nat}

theorem foldl_splitStep (allocation : List AddrIndex) (s : Split) :
    allocation.foldl (splitStep cfg) s =
      ⟨(Grid.spread cfg.size (allocation.filter (isOutside cfg)) s.tmp s.coords).1,
        (Grid.spread cfg.size (allocation.filter (isOutside cfg)) s.tmp s.coords).2,
        s.ptr ++ allocation.filter (isInside cfg)⟩ := by
  induction allocation generalizing s with
  | nil => simp [Grid.spread]
  | cons idx rest ih =>
      rw [List.foldl_cons, ih]
      unfold splitStep
      by_cases skipped : cfg.useMultiPlaneOperation = true ∧ idx = .plane
      · have hskip : addressed cfg idx = false := by simp [addressed, skipped]
        rw [if_pos skipped]
        simp [isOutside, isInside, hskip]
      · have haddressed : addressed cfg idx = true := decide_eq_true skipped
        rw [if_neg skipped]
        cases within : cfg.superblock idx with
        | true => simp [isOutside, isInside, haddressed, within]
        | false => simp [isOutside, isInside, haddressed, within, Grid.spread]

/-! ## What the loops visit -/

theorem nest_eq_foldlM (dims : List AddrIndex) (state : Nat × List CPDPBP) :
    nest cfg ioFlag block page dims coords state =
      (Grid.cells cfg.size dims coords).foldlM (visit ioFlag block page) state := by
  induction dims generalizing coords state with
  | nil =>
      simp only [nest, Grid.cells, List.foldlM_cons, List.foldlM_nil]
      exact (bind_pure _).symm
  | cons idx inner ih =>
      simp only [nest, Grid.cells, ih, foldlM_flatMap]

theorem foldlM_visit (coords : AddrIndex → Nat) (block page : Nat)
    (points : List (AddrIndex → Nat)) (tmp : Nat) (list : List CPDPBP)
    (enough : tmp + points.length ≤ ioFlag.length) :
    points.foldlM (visit ioFlag block page) (tmp, list) =
      .ok (tmp + points.length, list ++
        ((List.range points.length).filter fun unit => ioFlag[tmp + unit]? == some true).map
          fun unit => cpdpbp (points.getD unit coords) block page) := by
  induction points generalizing tmp list with
  | nil => simp [pure, Except.pure]
  | cons point rest ih =>
      rw [List.length_cons] at enough
      have hflag : ioFlag[tmp]? = some ioFlag[tmp] := List.getElem?_eq_getElem (by omega)
      have hstep : visit ioFlag block page (tmp, list) point = .ok (tmp + 1,
          if ioFlag[tmp]? == some true then list ++ [cpdpbp point block page] else list) := by
        unfold visit
        rw [hflag]
        cases ioFlag[tmp] <;> rfl
      have hshift : ∀ unit, ioFlag[tmp + (unit + 1)]? = ioFlag[tmp + 1 + unit]? := by
        intro unit
        rw [Nat.add_assoc, Nat.add_comm 1]
      rw [List.foldlM_cons, hstep]
      refine (ih (tmp + 1) _ (by omega)).trans ?_
      rw [List.length_cons, List.range_succ_eq_map, List.filter_cons, List.filter_map]
      simp only [Function.comp_def, Nat.succ_eq_add_one, hshift, Nat.add_zero]
      cases hset : ioFlag[tmp]? == some true <;>
        simp [Nat.add_assoc, Nat.add_comm 1, List.map_map, Function.comp_def]

/-! ## One address for each unit -/

theorem isOutside_eq (cfg : Config) : isOutside cfg = fun idx => !cfg.includes idx := by
  funext idx
  cases hmulti : cfg.useMultiPlaneOperation <;>
    simp [isOutside, addressed, Config.includes, hmulti, Bool.and_comm]

theorem isInside_eq (cfg : Config) : isInside cfg = fun idx =>
    cfg.superblock idx && !(cfg.useMultiPlaneOperation && decide (idx = .plane)) := by
  funext idx
  cases hmulti : cfg.useMultiPlaneOperation <;>
    simp [isInside, addressed, hmulti, Bool.and_comm]

theorem prod_filter_allocation (valid : cfg.Valid) (p : AddrIndex → Bool) :
    ((cfg.pageAllocation.filter p).map cfg.size).prod = cfg.product p :=
  ((valid.perm.filter p).map cfg.size).prod_eq

theorem superBlock_outside (valid : cfg.Valid) (fits : cfg.Fits) :
    cfg.superBlock = cfg.block * ((outside cfg).map cfg.size).prod := by
  rw [Config.superBlock_eq valid fits, outside, prod_filter_allocation valid, isOutside_eq]

theorem pageInSuperPage_inside (valid : cfg.Valid) (fits : cfg.Fits) :
    cfg.pageInSuperPage = ((inside cfg).map cfg.size).prod := by
  rw [Config.pageInSuperPage_eq valid fits, inside, prod_filter_allocation valid, isInside_eq]

variable (cfg)

/-- The block address, with the dimensions inside the superblock still at zero. -/
def base (blockIndex : Nat) : (AddrIndex → Nat) × Nat :=
  Grid.spread cfg.size (outside cfg) blockIndex fun _ => 0

def units (blockIndex : Nat) : List (AddrIndex → Nat) :=
  Grid.cells cfg.size (inside cfg).reverse (base cfg blockIndex).1

def address (blockIndex pageIndex unit : Nat) : CPDPBP :=
  cpdpbp ((units cfg blockIndex).getD unit (base cfg blockIndex).1)
      (base cfg blockIndex).2 pageIndex

def addresses (req : Request) : List CPDPBP :=
  ((List.range cfg.pageInSuperPage).filter fun unit => req.ioFlag[unit]? == some true).map
    (address cfg req.blockIndex req.pageIndex)

structure InRange (addr : CPDPBP) : Prop where
  channel : addr.channel < cfg.channel
  package : addr.package < cfg.package
  die : addr.die < cfg.die
  plane : addr.plane < if cfg.useMultiPlaneOperation then 1 else cfg.plane
  block : addr.block < cfg.block
  page : addr.page < cfg.page

variable {cfg}

theorem length_units (valid : cfg.Valid) (fits : cfg.Fits) (blockIndex : Nat) :
    (units cfg blockIndex).length = cfg.pageInSuperPage := by
  rw [units, Grid.length_cells, List.map_reverse, List.prod_reverse,
    pageInSuperPage_inside valid fits]

theorem convertCPDPBP_eq (valid : cfg.Valid) (fits : cfg.Fits) (bRandomTweak : Bool)
    {req : Request} (flags : req.ioFlag.length = cfg.pageInSuperPage) :
    convertCPDPBP cfg bRandomTweak req = .ok (addresses cfg req) := by
  have hlength := length_units valid fits req.blockIndex
  have hvisit := foldlM_visit (base cfg req.blockIndex).1 (base cfg req.blockIndex).2
    req.pageIndex (units cfg req.blockIndex) 0 [] (show _ ≤ req.ioFlag.length by omega)
  simp only [Nat.zero_add, List.nil_append, hlength] at hvisit
  unfold convertCPDPBP
  rw [if_neg (by simp [flags])]
  simp only
  rw [if_neg (by simp [flags]), foldl_splitStep, nest_eq_foldlM, List.nil_append]
  change ((units cfg req.blockIndex).foldlM (visit req.ioFlag (base cfg req.blockIndex).2
    req.pageIndex) (0, []) >>= _) = _
  rw [hvisit]
  exact if_neg (by simp)

theorem inside_nodup (valid : cfg.Valid) : (inside cfg).Nodup :=
  (valid.perm.nodup_iff.2 (by decide)).filter _

theorem outside_nodup (valid : cfg.Valid) : (outside cfg).Nodup :=
  (valid.perm.nodup_iff.2 (by decide)).filter _

theorem mem_units (valid : cfg.Valid) {blockIndex : Nat} {coords : AddrIndex → Nat} :
    coords ∈ units cfg blockIndex ↔ (∀ idx ∈ inside cfg, coords idx < cfg.size idx) ∧
      ∀ idx, idx ∉ inside cfg → coords idx = (base cfg blockIndex).1 idx := by
  rw [units, Grid.mem_cells (List.nodup_reverse.2 (inside_nodup valid))]
  simp only [List.mem_reverse]

theorem mem_inside (valid : cfg.Valid) {idx : AddrIndex} :
    idx ∈ inside cfg ↔ isInside cfg idx = true := by
  rw [inside, List.mem_filter]
  exact and_iff_right (valid.perm.symm.subset (AddrIndex.mem_all idx))

theorem mem_outside (valid : cfg.Valid) {idx : AddrIndex} :
    idx ∈ outside cfg ↔ isOutside cfg idx = true := by
  rw [outside, List.mem_filter]
  exact and_iff_right (valid.perm.symm.subset (AddrIndex.mem_all idx))

theorem inside_or_outside (valid : cfg.Valid) (idx : AddrIndex) :
    idx ∈ inside cfg ∨ idx ∈ outside cfg ∨
      cfg.useMultiPlaneOperation = true ∧ idx = .plane := by
  rw [mem_inside valid, mem_outside valid, isInside, isOutside, addressed]
  by_cases skipped : cfg.useMultiPlaneOperation = true ∧ idx = .plane
  · exact .inr (.inr skipped)
  · cases within : cfg.superblock idx <;> simp [skipped]

theorem not_inside_of_outside (valid : cfg.Valid) {idx : AddrIndex} (h : idx ∈ outside cfg) :
    idx ∉ inside cfg := by
  rw [mem_outside valid, isOutside] at h
  rw [mem_inside valid, isInside]
  simp_all

theorem exists_coords (valid : cfg.Valid) (fits : cfg.Fits) (blockIndex pageIndex : Nat)
    {unit : Nat} (h : unit < cfg.pageInSuperPage) :
    ∃ coords, (units cfg blockIndex)[unit]? = some coords ∧
      address cfg blockIndex pageIndex unit =
        cpdpbp coords (base cfg blockIndex).2 pageIndex := by
  have hlt : unit < (units cfg blockIndex).length := by
    rwa [length_units valid fits]
  refine ⟨(units cfg blockIndex)[unit], List.getElem?_eq_getElem hlt, ?_⟩
  rw [address, List.getD_eq_getElem?_getD, List.getElem?_eq_getElem hlt, Option.getD_some]

theorem base_plane (valid : cfg.Valid) (hmulti : cfg.useMultiPlaneOperation = true)
    (blockIndex : Nat) : (base cfg blockIndex).1 .plane = 0 := by
  rw [base, Grid.spread_of_not_mem]
  rw [mem_outside valid, isOutside, addressed]
  simp [hmulti]

theorem address_inRange (valid : cfg.Valid) (fits : cfg.Fits) {blockIndex pageIndex unit : Nat}
    (hblock : blockIndex < cfg.superBlock) (hpage : pageIndex < cfg.page)
    (hunit : unit < cfg.pageInSuperPage) :
    InRange cfg (address cfg blockIndex pageIndex unit) := by
  obtain ⟨coords, hcoords, haddress⟩ := exists_coords valid fits blockIndex pageIndex hunit
  obtain ⟨hinside, houtside⟩ := (mem_units valid).1 (List.mem_of_getElem? hcoords)
  have hsize : ∀ idx, ¬(cfg.useMultiPlaneOperation = true ∧ idx = .plane) →
      coords idx < cfg.size idx := by
    intro idx haddressed
    rcases inside_or_outside valid idx with hin | hout | hskip
    · exact hinside idx hin
    · rw [houtside idx (not_inside_of_outside valid hout)]
      exact Grid.spread_lt (fun j _ => valid.sizes j) hout
    · exact absurd hskip haddressed
  rw [haddress]
  refine ⟨hsize .channel (by simp), hsize .package (by simp), hsize .die (by simp), ?_, ?_, hpage⟩
  · cases hmulti : cfg.useMultiPlaneOperation with
    | false => exact hsize .plane (by simp [hmulti])
    | true =>
        have hplane : coords .plane = 0 := by
          rw [houtside .plane, base_plane valid hmulti]
          rw [mem_inside valid, isInside, addressed]
          simp [hmulti]
        simp [cpdpbp, hplane]
  · rw [superBlock_outside valid fits] at hblock
    exact (Grid.spread_snd_lt_iff (fun j _ => valid.sizes j)).2 hblock

theorem address_injective (valid : cfg.Valid) (fits : cfg.Fits)
    {blockIndex blockIndex' pageIndex pageIndex' unit unit' : Nat}
    (hunit : unit < cfg.pageInSuperPage) (hunit' : unit' < cfg.pageInSuperPage)
    (h : address cfg blockIndex pageIndex unit = address cfg blockIndex' pageIndex' unit') :
    blockIndex = blockIndex' ∧ pageIndex = pageIndex' ∧ unit = unit' := by
  obtain ⟨coords, hcoords, haddress⟩ := exists_coords valid fits blockIndex pageIndex hunit
  obtain ⟨coords', hcoords', haddress'⟩ := exists_coords valid fits blockIndex' pageIndex' hunit'
  rw [haddress, haddress'] at h
  simp only [cpdpbp, CPDPBP.mk.injEq] at h
  obtain ⟨hchannel, hpackage, hdie, hplane, hblock, hpage⟩ := h
  have hsame : coords = coords' := by
    funext idx
    cases idx with
    | channel => exact hchannel
    | package => exact hpackage
    | die => exact hdie
    | plane => exact hplane
  subst hsame
  have houtside := ((mem_units valid).1 (List.mem_of_getElem? hcoords)).2
  have houtside' := ((mem_units valid).1 (List.mem_of_getElem? hcoords')).2
  have hblocks : blockIndex = blockIndex' := by
    refine Grid.spread_injective (outside_nodup valid) (fun idx hidx => ?_) hblock
    have hnot := not_inside_of_outside valid hidx
    exact (houtside idx hnot).symm.trans (houtside' idx hnot)
  subst hblocks
  have hnodup : (units cfg blockIndex).Nodup :=
    Grid.cells_nodup (List.nodup_reverse.2 (inside_nodup valid))
  have hlt : unit < (units cfg blockIndex).length := by
    rwa [length_units valid fits]
  exact ⟨rfl, hpage, (List.getElem?_inj hlt hnodup).1 (hcoords.trans hcoords'.symm)⟩

theorem address_surjective (valid : cfg.Valid) (fits : cfg.Fits) {addr : CPDPBP}
    (h : InRange cfg addr) :
    ∃ blockIndex pageIndex unit, blockIndex < cfg.superBlock ∧ pageIndex < cfg.page ∧
      unit < cfg.pageInSuperPage ∧ address cfg blockIndex pageIndex unit = addr := by
  have hsize : ∀ idx, addressed cfg idx = true → addr.get idx < cfg.size idx := by
    intro idx haddressed
    cases idx with
    | channel => exact h.channel
    | package => exact h.package
    | die => exact h.die
    | plane =>
        have hmulti : cfg.useMultiPlaneOperation = false := by simpa [addressed] using haddressed
        have hplane := h.plane
        rw [hmulti, if_neg (by simp)] at hplane
        exact hplane
  have hin : ∀ idx ∈ inside cfg, addr.get idx < cfg.size idx := fun idx hidx =>
    hsize idx (Bool.and_eq_true_iff.1 ((mem_inside valid).1 hidx)).1
  have hout : ∀ idx ∈ outside cfg, addr.get idx < cfg.size idx := fun idx hidx =>
    hsize idx (Bool.and_eq_true_iff.1 ((mem_outside valid).1 hidx)).1
  obtain ⟨blockIndex, hdigits, hrest⟩ := Grid.exists_spread (outside_nodup valid) hout addr.block
    fun _ => 0
  have hmem : addr.get ∈ units cfg blockIndex := by
    refine (mem_units valid).2 ⟨hin, fun idx hidx => ?_⟩
    rcases inside_or_outside valid idx with hinside | houtside | ⟨hmulti, rfl⟩
    · exact absurd hinside hidx
    · exact (hdigits idx houtside).symm
    · have hplane := h.plane
      rw [hmulti, if_pos rfl] at hplane
      rw [base_plane valid hmulti]
      exact Nat.lt_one_iff.1 hplane
  obtain ⟨unit, hunit⟩ := List.mem_iff_getElem?.1 hmem
  have hblock : (base cfg blockIndex).2 = addr.block := hrest
  refine ⟨blockIndex, addr.page, unit, ?_, h.page, ?_, ?_⟩
  · rw [superBlock_outside valid fits]
    exact (Grid.spread_snd_lt_iff (fun j _ => valid.sizes j)).1 (hrest.trans_lt h.block)
  · rw [← length_units valid fits blockIndex]
    exact (List.getElem?_eq_some_iff.1 hunit).1
  · rw [address, List.getD_eq_getElem?_getD, hunit, Option.getD_some, hblock]
    rfl

/-- A request is given one address for each flag that is set, and the units of all
requests are one-to-one with the addresses of the geometry. -/
theorem convertCPDPBP_bijective (valid : cfg.Valid) (fits : cfg.Fits) (bRandomTweak : Bool) :
    (∀ req : Request, req.ioFlag.length = cfg.pageInSuperPage →
      convertCPDPBP cfg bRandomTweak req = .ok (addresses cfg req)) ∧
      Set.BijOn (fun unit : Nat × Nat × Nat => address cfg unit.1 unit.2.1 unit.2.2)
        {unit | unit.1 < cfg.superBlock ∧ unit.2.1 < cfg.page ∧ unit.2.2 < cfg.pageInSuperPage}
        {addr | InRange cfg addr} := by
  refine ⟨fun req flags => convertCPDPBP_eq valid fits bRandomTweak flags, ?_, ?_, ?_⟩
  · rintro unit ⟨hblock, hpage, hunit⟩
    exact address_inRange valid fits hblock hpage hunit
  · rintro ⟨block, page, unit⟩ ⟨-, -, hunit⟩ ⟨block', page', unit'⟩ ⟨-, -, hunit'⟩ h
    obtain ⟨rfl, rfl, rfl⟩ := address_injective valid fits hunit hunit' h
    rfl
  · intro addr h
    obtain ⟨block, page, unit, hblock, hpage, hunit, haddress⟩ := address_surjective valid fits h
    exact ⟨(block, page, unit), ⟨hblock, hpage, hunit⟩, haddress⟩

def defaultConfig : Config where
  channel := 8
  package := 4
  die := 2
  plane := 1
  block := 512
  page := 512
  pageSize := 16384
  useMultiPlaneOperation := true
  superblock := fun _ => true
  pageAllocation := [.plane, .channel, .package, .die]

theorem defaultConfig_valid : defaultConfig.Valid :=
  ⟨by decide, fun _ => rfl, fun idx => by cases idx <;> decide, by decide⟩

theorem convertCPDPBP_bijective_default :
    Set.BijOn (fun unit : Nat × Nat × Nat => address defaultConfig unit.1 unit.2.1 unit.2.2)
      {unit | unit.1 < defaultConfig.superBlock ∧ unit.2.1 < defaultConfig.page ∧
        unit.2.2 < defaultConfig.pageInSuperPage}
      {addr | InRange defaultConfig addr} :=
  (convertCPDPBP_bijective defaultConfig_valid ⟨by decide, by decide⟩ true).2

/-- A superpage of 4 GiB, whose size in bytes is zero in 32 bits. -/
def wideConfig : Config where
  channel := 4
  package := 65536
  die := 1
  plane := 1
  block := 512
  page := 512
  pageSize := 16384
  useMultiPlaneOperation := false
  superblock := fun _ => true
  pageAllocation := AddrIndex.all

def deepConfig : Config where
  channel := 8
  package := 4
  die := 2
  plane := 1
  block := 67108864
  page := 512
  pageSize := 16384
  useMultiPlaneOperation := true
  superblock := fun idx => decide (idx = .plane)
  pageAllocation := [.plane, .channel, .package, .die]

/-- With 32 bits exceeded, a flag behind the last one is tested, or no block index is
left for an address. -/
theorem convertCPDPBP_wraps :
    (wideConfig.Valid ∧ wideConfig.pageInSuperPage = 0 ∧
      convertCPDPBP wideConfig true ⟨0, 0, []⟩ = .error .undefined) ∧
      deepConfig.Valid ∧ InRange deepConfig ⟨0, 0, 0, 0, 0, 0⟩ ∧ deepConfig.superBlock = 0 := by
  refine ⟨⟨⟨by decide, fun _ => rfl, fun idx => by cases idx <;> decide, by decide⟩, by decide,
    ?_⟩, ⟨by decide, fun _ => rfl, fun idx => by cases idx <;> decide, by decide⟩,
    ⟨by decide, by decide, by decide, by decide, by decide, by decide⟩, by decide⟩
  unfold convertCPDPBP
  rw [if_neg (by decide)]
  simp only
  rw [if_neg (by decide), nest_eq_foldlM]
  generalize hcells : Grid.cells wideConfig.size _ _ = points
  have hlength := congrArg List.length hcells
  rw [Grid.length_cells] at hlength
  cases points with
  | nil => exact absurd hlength (by decide)
  | cons point rest => rfl

end PALOLD

end SimpleSSD.PAL
