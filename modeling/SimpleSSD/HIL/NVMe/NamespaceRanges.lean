import SimpleSSD.Foundation.Intervals
import SimpleSSD.HIL.NVMe.Subsystem

/-!
# The page ranges of namespaces

The ranges of the live namespaces never overlap and stay inside the device, and
the inversion of the allocated ranges never meets its panic.
-/

namespace SimpleSSD

open SimpleSSD.Foundation

def LPNRange.pages (r : LPNRange) : Set Nat := Set.Ico r.slpn (r.slpn + r.nlp)

def LPNRange.ends (r : LPNRange) : Nat × Nat := (r.slpn, r.slpn + r.nlp)

def LPNRange.ofEnds (i : Nat × Nat) : LPNRange := ⟨i.1, i.2 - i.1⟩

namespace HIL.NVMe

/-! ## Inverting the allocated ranges -/

section Invert

variable {allocated ranges : List LPNRange} {total : Nat} {r : LPNRange}

theorem merge_eq (allocated : List LPNRange) : merge allocated = allocated := by
  unfold merge
  split
  next h => exact if_pos (Or.inl (Ne.symm h))
  next => rfl

theorem splitLast_of_within {front : List LPNRange} {lo hi : Nat} (lt : hi < wordSize)
    (first : lo ≤ r.slpn) (last : r.slpn + r.nlp ≤ hi) :
    splitLast (front ++ [LPNRange.ofEnds (lo, hi)]) r =
      .ok (front ++ [LPNRange.ofEnds (lo, r.slpn),
        LPNRange.ofEnds (r.slpn + r.nlp, hi)]) := by
  have ends : add64 lo (hi - lo) = hi := by
    rw [add64_of_lt (by omega)]
    omega
  have stop : add64 r.slpn r.nlp = r.slpn + r.nlp := add64_of_lt (by omega)
  have rest : sub64 (sub64 hi r.slpn) r.nlp = hi - (r.slpn + r.nlp) := by
    have above : sub64 hi r.slpn = hi - r.slpn := sub64_of_le (by omega)
    rw [above, sub64_of_le (by omega)]
    omega
  simp [splitLast, LPNRange.ofEnds, ends, stop, rest, first, last, sub64_of_le first]

theorem invert_chain (front : List LPNRange) {lo hi : Nat} (lt : hi < wordSize)
    (chain : Chain lo hi (ranges.map LPNRange.ends)) :
    ranges.foldlM splitLast (front ++ [LPNRange.ofEnds (lo, hi)]) =
      .ok (front ++ (gaps lo hi (ranges.map LPNRange.ends)).map LPNRange.ofEnds) := by
  induction ranges generalizing front lo with
  | nil => rfl
  | cons r rest ih =>
      obtain ⟨first, ends, later⟩ := chain
      rw [List.foldlM_cons, splitLast_of_within lt first later.le]
      have := ih (front ++ [LPNRange.ofEnds (lo, r.slpn)]) later
      simpa [gaps, LPNRange.ends, bind, Except.bind] using this

structure Placed (total : Nat) (ranges : List LPNRange) : Prop where
  apart : ranges.Pairwise fun a b => Apart a.ends b.ends
  nonempty : ∀ r ∈ ranges, 0 < r.nlp
  within : ∀ r ∈ ranges, r.slpn + r.nlp ≤ total

theorem Placed.perm {ranges' : List LPNRange} (placed : Placed total ranges)
    (perm : ranges.Perm ranges') : Placed total ranges' where
  apart := placed.apart.perm perm Apart.symm
  nonempty r h := placed.nonempty r (perm.mem_iff.2 h)
  within r h := placed.within r (perm.mem_iff.2 h)

theorem Placed.sublist {ranges' : List LPNRange} (placed : Placed total ranges)
    (sub : ranges'.Sublist ranges) : Placed total ranges' where
  apart := placed.apart.sublist sub
  nonempty r h := placed.nonempty r (sub.subset h)
  within r h := placed.within r (sub.subset h)

theorem Placed.cons (placed : Placed total ranges) (nonempty : 0 < r.nlp)
    (within : r.slpn + r.nlp ≤ total) (apart : ∀ a ∈ ranges, Apart r.ends a.ends) :
    Placed total (r :: ranges) where
  apart := List.pairwise_cons.2 ⟨apart, placed.apart⟩
  nonempty := List.forall_mem_cons.2 ⟨nonempty, placed.nonempty⟩
  within := List.forall_mem_cons.2 ⟨within, placed.within⟩

theorem Placed.chain (placed : Placed total ranges)
    (sorted : ranges.Pairwise fun a b => a.slpn ≤ b.slpn) :
    Chain 0 total (ranges.map LPNRange.ends) := by
  refine chain_of_sorted (Nat.zero_le _) (List.pairwise_map.2 sorted)
    (List.pairwise_map.2 placed.apart) ?_ ?_
  · rintro i hmem
    obtain ⟨r, hr, rfl⟩ := List.mem_map.1 hmem
    have := placed.nonempty r hr
    simp only [LPNRange.ends]
    omega
  · rintro i hmem
    obtain ⟨r, hr, rfl⟩ := List.mem_map.1 hmem
    exact ⟨Nat.zero_le _, placed.within r hr⟩

instance : Std.Total fun a b : LPNRange => a.slpn ≤ b.slpn :=
  ⟨fun a b => Nat.le_total a.slpn b.slpn⟩

instance : IsTrans LPNRange fun a b => a.slpn ≤ b.slpn :=
  ⟨fun _ _ _ => Nat.le_trans⟩

def sortRanges (ranges : List LPNRange) : List LPNRange :=
  ranges.insertionSort fun a b => a.slpn ≤ b.slpn

/-- The ranges the inversion leaves are inside the device and apart from every
allocated one. -/
theorem Placed.invert (placed : Placed total ranges) (lt : total < wordSize) :
    ∃ free, NVMe.invert total (sortRanges ranges) = .ok free ∧
      ∀ g ∈ free, g.slpn + g.nlp ≤ total ∧ ∀ r ∈ ranges, Apart g.ends r.ends := by
  have perm : (sortRanges ranges).Perm ranges := List.perm_insertionSort _ _
  have chain := (placed.perm perm.symm).chain (List.pairwise_insertionSort _ _)
  refine ⟨_, invert_chain [] lt chain, ?_⟩
  intro g hmem
  obtain ⟨gap, hgap, rfl⟩ := List.mem_map.1 hmem
  obtain ⟨-, sorted, last⟩ := chain.gap_within hgap
  have ends : (LPNRange.ofEnds gap).ends = gap := by
    simp only [LPNRange.ofEnds, LPNRange.ends, Prod.mk.eta, Nat.add_sub_cancel' sorted]
  refine ⟨?_, fun r hr => ?_⟩
  · simp only [LPNRange.ofEnds]
    omega
  · rw [ends]
    exact chain.gap_apart hgap (List.mem_map_of_mem (perm.mem_iff.2 hr))

end Invert

namespace Subsystem

/-! ## One command -/

variable {d : Device} {s s' : Subsystem} {info : Information} {nsid : Nat}

def ranges (s : Subsystem) : List LPNRange := s.lNamespaces.map (·.info.range)

theorem allocatedRanges_eq : s.allocatedRanges = sortRanges s.ranges := merge_eq _

theorem ranges_insertNamespace (ns : Namespace) :
    ((s.insertNamespace ns).map (·.info.range)).Perm (ns.info.range :: s.ranges) := by
  refine ((List.perm_insertionSort _ _).map _).trans ?_
  rw [List.map_append]
  exact List.perm_append_singleton _ _

theorem createNamespace_eq {unallocated : List LPNRange}
    (inverted : invert d.totalLogicalPages s.allocatedRanges = .ok unallocated) :
    createNamespace d nsid info s =
      let requested := requestedPages d info
      let placed := allocate info unallocated requested
      let filled := { placed with
        sizeInByteL := mul64 requested d.logicalPageSize
        sizeInByteH := 0 }
      if sub64 d.totalLogicalPages s.allocatedLogicalPages < requested then
        .ok (false, info, s)
      else if placed.range.nlp = 0 then .ok (false, placed, s)
      else .ok (true, filled,
        { lNamespaces := s.insertNamespace ⟨nsid, filled, false⟩
          allocatedLogicalPages := add64 s.allocatedLogicalPages requested }) := by
  unfold createNamespace
  rw [inverted]
  rfl

theorem allocate_range (info : Information) (unallocated : List LPNRange) (requested : Nat) :
    (∃ g ∈ unallocated, requested ≤ g.nlp ∧
      (allocate info unallocated requested).range = ⟨g.slpn, requested⟩) ∨
    ((∀ g ∈ unallocated, g.nlp < requested) ∧
      allocate info unallocated requested = info) := by
  unfold allocate
  split
  next h =>
    refine .inr ⟨fun g hmem => ?_, rfl⟩
    have := List.find?_eq_none.1 h g hmem
    simpa using this
  next g h =>
    have large := List.find?_some h
    exact .inl ⟨g, List.mem_of_find?_eq_some h, by simpa using large, rfl⟩

theorem createNamespace_placed (nsid : Nat) (placed : Placed d.totalLogicalPages s.ranges)
    (empty : info.range.nlp = 0) :
    ∃ out, createNamespace d nsid info s = .ok out ∧
      Placed d.totalLogicalPages out.2.2.ranges := by
  obtain ⟨free, inverted, apart⟩ := placed.invert d.totalLogicalPages_lt
  rw [← allocatedRanges_eq] at inverted
  rw [createNamespace_eq inverted]
  dsimp only
  split
  · exact ⟨_, rfl, placed⟩
  · split
    · exact ⟨_, rfl, placed⟩
    next nonempty =>
      refine ⟨_, rfl, ?_⟩
      refine Placed.perm ?_ (ranges_insertNamespace _).symm
      rcases allocate_range info free (requestedPages d info) with
        ⟨g, hmem, large, hrange⟩ | ⟨-, same⟩
      · obtain ⟨last, apartG⟩ := apart g hmem
        dsimp only
        rw [hrange] at nonempty ⊢
        refine placed.cons (Nat.pos_of_ne_zero nonempty) ?_ fun a ha => ?_
        · exact (Nat.add_le_add_left large _).trans last
        · exact (apartG a ha).of_subset le_rfl (Nat.add_le_add_left large _)
      · rw [same] at nonempty
        exact absurd empty nonempty

theorem destroyNamespace_placed (placed : Placed d.totalLogicalPages s.ranges) :
    Placed d.totalLogicalPages (destroyNamespace d nsid s).2.ranges := by
  unfold destroyNamespace
  split
  · exact placed
  · exact placed.sublist (List.eraseP_sublist.map _)

theorem ranges_updateInformation (nsid : Nat) {f : Information → Information}
    (same : ∀ info, (f info).range = info.range) (namespaces : List Namespace) :
    (updateInformation nsid f namespaces).map (·.info.range) =
      namespaces.map (·.info.range) := by
  induction namespaces with
  | nil => rfl
  | cons ns rest ih =>
      unfold updateInformation
      split
      · simp [same]
      · simp [ih]

theorem formatNVM_ranges (usedPageCount : Nat → Nat → Nat) (c : FormatCommand) :
    (formatNVM d usedPageCount c s).2.ranges = s.ranges := by
  unfold formatNVM
  split
  · rfl
  · split
    · rfl
    · exact ranges_updateInformation (f := formatInformation d usedPageCount c.lbaf) _
        (fun _ => rfl) _

theorem execute_placed (placed : Placed d.totalLogicalPages s.ranges) {command : Command}
    (empty : command.EmptyRange) :
    ∃ s', execute d s command = .ok s' ∧ Placed d.totalLogicalPages s'.ranges := by
  cases command with
  | create nsid info =>
      obtain ⟨out, created, placed'⟩ := createNamespace_placed nsid placed empty
      refine ⟨out.2.2, ?_, placed'⟩
      simp only [execute, created, Except.map]
  | destroy nsid => exact ⟨_, rfl, destroyNamespace_placed placed⟩
  | format c usedPageCount =>
      refine ⟨_, rfl, ?_⟩
      rw [formatNVM_ranges]
      exact placed

/-! ## The default namespaces -/

def tiles (start r : Nat) : Nat → List LPNRange
  | 0 => []
  | n + 1 => ⟨start, r⟩ :: tiles (start + r) r n

theorem tiles_succ (start r n : Nat) :
    tiles start r (n + 1) = tiles start r n ++ [⟨start + n * r, r⟩] := by
  induction n generalizing start with
  | zero => simp [tiles]
  | succ n ih =>
      rw [tiles, ih, tiles, List.cons_append]
      congr 4
      ring

theorem mem_tiles {start r n : Nat} {t : LPNRange} (hmem : t ∈ tiles start r n) :
    start ≤ t.slpn ∧ t.nlp = r ∧ t.slpn + t.nlp ≤ start + n * r := by
  induction n generalizing start with
  | zero => cases hmem
  | succ n ih =>
      have size : (n + 1) * r = n * r + r := Nat.succ_mul n r
      rcases List.mem_cons.1 hmem with rfl | hrest
      · refine ⟨le_rfl, rfl, ?_⟩
        dsimp only
        omega
      · obtain ⟨first, nlp, last⟩ := ih hrest
        exact ⟨by omega, nlp, by omega⟩

theorem tiles_before (start r n : Nat) :
    (tiles start r n).Pairwise fun a b => a.slpn + a.nlp ≤ b.slpn := by
  induction n generalizing start with
  | zero => exact List.Pairwise.nil
  | succ n ih => exact List.pairwise_cons.2 ⟨fun t hmem => (mem_tiles hmem).1, ih _⟩

theorem tiles_sorted {r : Nat} (pos : 0 < r) (start n : Nat) :
    (tiles start r n).Pairwise fun a b => a.slpn < b.slpn := by
  refine (tiles_before start r n).imp_of_mem fun {a b} hmem _ before => ?_
  have := (mem_tiles hmem).2.1
  omega

theorem placed_tiles {r n total : Nat} (pos : 0 < r) (fits : n * r ≤ total) :
    Placed total (tiles 0 r n) where
  apart := (tiles_before 0 r n).imp fun before => Or.inl before
  nonempty t hmem := by
    rw [(mem_tiles hmem).2.1]
    exact pos
  within t hmem := by
    have := (mem_tiles hmem).2.2
    omega

theorem find_gap_tiles {r : Nat} (pos : 0 < r) {start n total : Nat}
    (fits : start + n * r + r ≤ total) :
    ((gaps start total ((tiles start r n).map LPNRange.ends)).map LPNRange.ofEnds).find?
        (fun g => r ≤ g.nlp) =
      some (LPNRange.ofEnds (start + n * r, total)) := by
  induction n generalizing start with
  | zero =>
      have large : r ≤ total - start := by omega
      simp [tiles, gaps, LPNRange.ofEnds, large]
  | succ n ih =>
      have size : (n + 1) * r = n * r + r := Nat.succ_mul n r
      have none : ¬ r ≤ start - start := by omega
      have rest := ih (show start + r + n * r + r ≤ total by omega)
      have same : start + r + n * r = start + (n + 1) * r := by omega
      rw [same] at rest
      simp only [tiles, List.map_cons, gaps, List.find?_cons]
      simpa [LPNRange.ofEnds, LPNRange.ends, pos.ne'] using rest

structure Filled (r i : Nat) (lbaFormatIndex : Nat) (state : Information × Subsystem) :
    Prop where
  ranges : state.2.ranges.Perm (tiles 0 r i)
  allocated : state.2.allocatedLogicalPages = i * r
  format : state.1.lbaFormatIndex = lbaFormatIndex

theorem ranges_attachLast (namespaces : List Namespace) :
    (attachLast namespaces).map (·.info.range) = namespaces.map (·.info.range) := by
  unfold attachLast
  split
  · rfl
  next last hlast =>
    obtain ⟨init, rfl⟩ := List.getLast?_eq_some_iff.1 hlast
    simp

theorem sortRanges_tiles {r n : Nat} (pos : 0 < r) {ranges : List LPNRange}
    (perm : ranges.Perm (tiles 0 r n)) : sortRanges ranges = tiles 0 r n := by
  have sorted := tiles_sorted pos 0 n
  refine List.Perm.eq_of_pairwise ?_ (List.pairwise_insertionSort _ _)
    (sorted.imp fun h => h.le) ((List.perm_insertionSort _ _).trans perm)
  intro a b ha hb hab hba
  have nlpA := (mem_tiles ((List.perm_insertionSort _ _).trans perm |>.mem_iff.1 ha)).2.1
  have nlpB := (mem_tiles hb).2.1
  cases a
  cases b
  simp_all only [LPNRange.mk.injEq, and_true]
  omega

theorem createNamespace_tiles (nsid : Nat) {r i : Nat} (pos : 0 < r) {info : Information}
    (hranges : s.ranges.Perm (tiles 0 r i)) (hallocated : s.allocatedLogicalPages = i * r)
    (hr : requestedPages d info = r) (fits : i * r + r ≤ d.totalLogicalPages) :
    ∃ filled, filled.range = ⟨i * r, r⟩ ∧ filled.lbaFormatIndex = info.lbaFormatIndex ∧
      createNamespace d nsid info s = .ok (true, filled,
        { lNamespaces := s.insertNamespace ⟨nsid, filled, false⟩
          allocatedLogicalPages := add64 s.allocatedLogicalPages r }) := by
  have sorted : s.allocatedRanges = tiles 0 r i :=
    allocatedRanges_eq.trans (sortRanges_tiles pos hranges)
  have chain : Chain 0 d.totalLogicalPages ((tiles 0 r i).map LPNRange.ends) :=
    (placed_tiles pos (by omega)).chain ((tiles_sorted pos 0 i).imp fun h => h.le)
  have inverted : invert d.totalLogicalPages s.allocatedRanges = .ok
      ((gaps 0 d.totalLogicalPages ((tiles 0 r i).map LPNRange.ends)).map
        LPNRange.ofEnds) := by
    rw [sorted]
    exact invert_chain [] d.totalLogicalPages_lt chain
  have found := find_gap_tiles pos (show 0 + i * r + r ≤ d.totalLogicalPages by omega)
  have room : ¬ sub64 d.totalLogicalPages s.allocatedLogicalPages < r := by
    rw [hallocated, sub64_of_le (by omega)]
    omega
  rw [createNamespace_eq inverted]
  simp only [hr, room, if_false, allocate, found, pos.ne']
  refine ⟨_, ?_, ?_, rfl⟩
  · simp [LPNRange.ofEnds]
  · rfl

theorem createDefault_filled {r i size lbaFormatIndex : Nat} (pos : 0 < r)
    {state : Information × Subsystem} (filled : Filled r i lbaFormatIndex state)
    (hr : mul64 (size / d.logicalPageSize) (d.lbaSize lbaFormatIndex) = r)
    (fits : i * r + r ≤ d.totalLogicalPages) :
    ∃ state', createDefault d size state i = .ok state' ∧
      Filled r (i + 1) lbaFormatIndex state' := by
  have requested : requestedPages d (state.1.ofSize size) = r := by
    simp only [requestedPages, Information.ofSize, filled.format, hr]
  obtain ⟨info, hrange, hformat, created⟩ := createNamespace_tiles (NSID_LOWEST + i) pos
    filled.ranges filled.allocated requested fits
  have lt := d.totalLogicalPages_lt
  have run : createDefault d size state i = .ok (info,
      { lNamespaces :=
          attachLast (state.2.insertNamespace ⟨NSID_LOWEST + i, info, false⟩)
        allocatedLogicalPages := add64 state.2.allocatedLogicalPages r }) := by
    simp only [createDefault, created, bind, Except.bind]
    rfl
  refine ⟨_, run, ?_, ?_, hformat.trans filled.format⟩
  · change ((attachLast _).map _).Perm _
    rw [ranges_attachLast]
    refine (ranges_insertNamespace _).trans ?_
    rw [tiles_succ, Nat.zero_add]
    dsimp only
    rw [hrange]
    exact (filled.ranges.cons _).trans (List.perm_append_singleton _ _).symm
  · change add64 state.2.allocatedLogicalPages r = _
    rw [filled.allocated, add64_of_lt (by omega), Nat.succ_mul]

theorem createDefaults_filled {r n size lbaFormatIndex : Nat} (pos : 0 < r)
    {state : Information × Subsystem} (filled : Filled r 0 lbaFormatIndex state)
    (hr : mul64 (size / d.logicalPageSize) (d.lbaSize lbaFormatIndex) = r)
    (fits : n * r ≤ d.totalLogicalPages) :
    ∃ state', (List.range n).foldlM (createDefault d size) state = .ok state' ∧
      Filled r n lbaFormatIndex state' := by
  induction n with
  | zero => exact ⟨state, rfl, filled⟩
  | succ n ih =>
      have size : (n + 1) * r = n * r + r := Nat.succ_mul n r
      obtain ⟨mid, first, filledMid⟩ := ih (by omega)
      obtain ⟨state', last, filled'⟩ := createDefault_filled pos filledMid hr (by omega)
      refine ⟨state', ?_, filled'⟩
      rw [List.range_succ, List.foldlM_append, bind_eq_ok]
      refine ⟨mid, first, ?_⟩
      rw [List.foldlM_cons, bind_eq_ok]
      exact ⟨state', last, rfl⟩

theorem createDefault_nothing {size : Nat} {info : Information}
    (hr : mul64 (size / d.logicalPageSize) (d.lbaSize info.lbaFormatIndex) = 0) :
    createDefault d size (info, blank) 0 = .error (.panic "Failed to create namespace") := by
  have requested : requestedPages d (info.ofSize size) = 0 := hr
  have inverted : invert d.totalLogicalPages blank.allocatedRanges =
      .ok [⟨0, d.totalLogicalPages⟩] := rfl
  have created : createNamespace d (NSID_LOWEST + 0) (info.ofSize size) blank =
      .ok (false, { info.ofSize size with range := ⟨0, 0⟩ }, blank) := by
    rw [createNamespace_eq inverted]
    simp [requested, allocate]
  simp only [createDefault, created, bind, Except.bind]
  rfl

theorem defaults_fit {total pageSize lba n : Nat} (pos : 0 < pageSize) :
    n * mul64 (mul64 total pageSize / lba / n / pageSize) lba ≤ total := by
  set pages := mul64 total pageSize / lba / n / pageSize with hpages
  have wrapped : mul64 pages lba ≤ pages * lba := Nat.mod_le _ _
  have bytes : pages * pageSize * n * lba ≤ total * pageSize := calc
    pages * pageSize * n * lba ≤ mul64 total pageSize / lba / n * n * lba := by
        gcongr
        exact Nat.div_mul_le_self _ _
    _ ≤ mul64 total pageSize / lba * lba := by
        gcongr
        exact Nat.div_mul_le_self _ _
    _ ≤ mul64 total pageSize := Nat.div_mul_le_self _ _
    _ ≤ total * pageSize := Nat.mod_le _ _
  have scaled : n * (pages * lba) * pageSize ≤ total * pageSize := by
    calc n * (pages * lba) * pageSize = pages * pageSize * n * lba := by ring
      _ ≤ total * pageSize := bytes
  exact (Nat.mul_le_mul_left n wrapped).trans (Nat.le_of_mul_le_mul_right scaled pos)

theorem lbaSize_idxOf {lba : Nat} (known : lba ∈ lbaSizes) :
    d.lbaSize (lbaSizes.idxOf lba) = lba := by
  unfold Device.lbaSize
  rw [List.getElem?_idxOf known]
  rfl

/-- The loop of `init` either fills the device from its start or stops at the first. -/
theorem createDefaults_result {n size : Nat} (some : n ≠ 0) (info : Information)
    (fits : n * mul64 (size / d.logicalPageSize) (d.lbaSize info.lbaFormatIndex) ≤
      d.totalLogicalPages) :
    (∃ state r, (List.range n).foldlM (createDefault d size) (info, blank) = .ok state ∧
      0 < r ∧ n * r ≤ d.totalLogicalPages ∧ Filled r n info.lbaFormatIndex state) ∨
    (List.range n).foldlM (createDefault d size) (info, blank) =
      .error (.panic "Failed to create namespace") := by
  rcases Nat.eq_zero_or_pos
    (mul64 (size / d.logicalPageSize) (d.lbaSize info.lbaFormatIndex)) with hzero | pos
  · right
    obtain ⟨m, rfl⟩ := Nat.exists_eq_succ_of_ne_zero some
    rw [List.range_succ_eq_map, List.foldlM_cons, createDefault_nothing hzero]
    rfl
  · left
    have start : Filled (mul64 (size / d.logicalPageSize) (d.lbaSize info.lbaFormatIndex)) 0
        info.lbaFormatIndex (info, blank) :=
      ⟨List.Perm.refl _, (Nat.zero_mul _).symm, rfl⟩
    obtain ⟨state, run, filled⟩ := createDefaults_filled pos start rfl fits
    exact ⟨state, _, run, pos, fits, filled⟩

/-- `init` never meets the panic of the search, and its namespaces fill the device from
its start. -/
theorem init_tiles (d : Device) (conf : Defaults) :
    init d conf ≠ .error (.panic "BUG") ∧
      ∀ s, init d conf = .ok s → ∃ r n, 0 < r ∧ n * r ≤ d.totalLogicalPages ∧
        s.ranges.Perm (tiles 0 r n) ∧ s.allocatedLogicalPages = n * r := by
  unfold init
  dsimp only
  split
  · refine ⟨nofun, fun s hs => ?_⟩
    cases hs
    exact ⟨1, 0, Nat.one_pos, by omega, List.Perm.refl _, rfl⟩
  next some =>
    split
    next known =>
      have format : d.lbaSize (conf.information (conf.lbaSize % 2 ^ 32)).lbaFormatIndex =
          conf.lbaSize % 2 ^ 32 := lbaSize_idxOf known
      rcases createDefaults_result some (conf.information (conf.lbaSize % 2 ^ 32))
        (by rw [format]; exact defaults_fit d.logicalPageSize_pos) with
        ⟨state, r, run, pos, fits, filled⟩ | run
      · rw [run]
        refine ⟨nofun, fun s hs => ?_⟩
        cases hs
        exact ⟨r, _, pos, fits, filled.ranges, filled.allocated⟩
      · rw [run]
        exact ⟨by simp [bind, Except.bind], nofun⟩
    next => exact ⟨by simp, nofun⟩

theorem init_placed {conf : Defaults} (h : init d conf = .ok s) :
    Placed d.totalLogicalPages s.ranges := by
  obtain ⟨r, n, pos, fits, perm, -⟩ := (init_tiles d conf).2 s h
  exact (placed_tiles pos fits).perm perm.symm

structure Separated (d : Device) (s : Subsystem) : Prop where
  disjoint : s.lNamespaces.Pairwise fun a b => Disjoint a.info.range.pages b.info.range.pages
  within : ∀ ns ∈ s.lNamespaces, ns.info.range.slpn + ns.info.range.nlp ≤ d.totalLogicalPages

theorem separated_of_placed (placed : Placed d.totalLogicalPages s.ranges) :
    s.Separated d where
  disjoint := (List.pairwise_map.1 placed.apart).imp Apart.disjoint
  within _ hmem := placed.within _ (List.mem_map_of_mem hmem)

/-- Whatever is created, deleted and formatted after `init`, no two namespaces
overlap, none leaves the device, and no command panics. -/
theorem namespaces_separated (d : Device) (conf : Defaults) :
    init d conf ≠ .error (.panic "BUG") ∧
      ∀ s, init d conf = .ok s →
        ∀ commands : List Command, (∀ c ∈ commands, c.EmptyRange) →
          ∃ s', executeAll d s commands = .ok s' ∧ s'.Separated d := by
  refine ⟨(init_tiles d conf).1, fun s hinit commands empty => ?_⟩
  obtain ⟨s', run, placed⟩ := foldlM_total (f := execute d)
    (fun s => Placed d.totalLogicalPages s.ranges)
    (fun c hmem s placed => execute_placed placed (empty c hmem))
    (init_placed hinit)
  exact ⟨s', run, separated_of_placed placed⟩

def smallDevice : Device where
  totalLogicalPages := 65536
  logicalPageSize := 4096
  strayLbaSize _ := 0
  totalLogicalPages_lt := by decide
  logicalPageSize_pos := by decide

def hostInformation (size : Nat) : Information :=
  ⟨size, size, 0, 0, 0, 0, 0, 0, 512, ⟨0, 0⟩⟩

/-- Two default namespaces; the first is deleted, a small and a larger one are
created, and the second is formatted. -/
theorem namespaces_separated_small :
    ∃ s, init smallDevice ⟨2, 512, hostInformation 0⟩ = .ok s ∧
      ∃ s', executeAll smallDevice s
          [.destroy 1, .create 1 (hostInformation 8192), .create 3 (hostInformation 65536),
            .format ⟨3, 2⟩ fun _ _ => 0] = .ok s' ∧
        s'.Separated smallDevice := by
  have ok : (init smallDevice ⟨2, 512, hostInformation 0⟩).isOk = true := by decide +kernel
  obtain ⟨s, hs⟩ := exists_of_isOk ok
  refine ⟨s, hs, (namespaces_separated smallDevice _).2 s hs _ ?_⟩
  simp [Command.EmptyRange, hostInformation]

end Subsystem

end HIL.NVMe

end SimpleSSD
