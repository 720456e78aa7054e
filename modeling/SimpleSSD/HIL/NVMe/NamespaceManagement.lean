import SimpleSSD.Foundation.Transition
import SimpleSSD.HIL.NVMe.Namespace
import SimpleSSD.HIL.NVMe.NamespaceRanges

/-!
# Namespace Management

A create command chooses the id of its namespace when it arrives and creates the namespace
when its data has been read from the host; other commands run in between.  The counter of
allocated pages grows with every namespace and is to shrink by as much when it goes.
-/

namespace SimpleSSD.HIL.NVMe

open SimpleSSD.Foundation

namespace Subsystem

/-! ## The commands -/

structure Management where
  subsystem : Subsystem
  creating : List Nat
  deriving DecidableEq, Repr

namespace Management

inductive Action where
  | create
  | dmaDone (nsid : Nat) (data : ManagementData) (uninitialised : Information)
  | destroy (nsid : Nat)
  | format (c : FormatCommand) (usedPageCount : Nat → Nat → Nat)

def create (m : Management) : Management :=
  let nsid := unusedNsid NSID_LOWEST m.subsystem.lNamespaces
  if nsid = NSID_ALL then m else { m with creating := m.creating ++ [nsid] }

def dmaDone (d : Device) (nsid : Nat) (data : ManagementData) (uninitialised : Information)
    (m : Management) : Option Management :=
  match createNamespace d nsid (managementInformation d data uninitialised) m.subsystem with
  | .error _ => none
  | .ok (_, _, s) => some ⟨s, m.creating.erase nsid⟩

def step (d : Device) (m : Management) : Action → Option Management
  | .create => some m.create
  | .dmaDone nsid data uninitialised =>
      if nsid ∈ m.creating then m.dmaDone d nsid data uninitialised else none
  | .destroy nsid => some { m with subsystem := (destroyNamespace d nsid m.subsystem).2 }
  | .format c usedPageCount =>
      some { m with subsystem := (formatNVM d usedPageCount c m.subsystem).2 }

end Management

variable {d : Device} {conf : Defaults} {s s' : Subsystem} {info info' : Information} {nsid : Nat}

/-! ## What a create changes -/

theorem allocate_size (info : Information) (unallocated : List LPNRange) (requested : Nat) :
    (allocate info unallocated requested).size = info.size := by
  unfold allocate
  split <;> rfl

theorem allocate_lbaSize (info : Information) (unallocated : List LPNRange) (requested : Nat) :
    (allocate info unallocated requested).lbaSize = info.lbaSize := by
  unfold allocate
  split <;> rfl

/-- A create leaves the subsystem alone, or a namespace of the requested pages, which the
counter has room for, joins the others. -/
theorem createNamespace_cases {created : Bool}
    (h : createNamespace d nsid info s = .ok (created, info', s')) :
    (created = false ∧ s' = s) ∨
    (created = true ∧ s' =
        { lNamespaces := s.insertNamespace ⟨nsid, info', false⟩
          allocatedLogicalPages := add64 s.allocatedLogicalPages (requestedPages d info) } ∧
      requestedPages d info ≤ sub64 d.totalLogicalPages s.allocatedLogicalPages ∧
      info'.size = info.size ∧ info'.lbaSize = info.lbaSize ∧
      (info.range.nlp = 0 → info'.range.nlp = requestedPages d info)) := by
  unfold createNamespace at h
  dsimp only at h
  by_cases full : sub64 d.totalLogicalPages s.allocatedLogicalPages < requestedPages d info
  · rw [if_pos full] at h
    cases h
    exact .inl ⟨rfl, rfl⟩
  · rw [if_neg full] at h
    obtain ⟨unallocated, -, h⟩ := bind_eq_ok.1 h
    by_cases nothing : (allocate info unallocated (requestedPages d info)).range.nlp = 0
    · rw [if_pos nothing] at h
      cases h
      exact .inl ⟨rfl, rfl⟩
    · rw [if_neg nothing] at h
      cases h
      refine .inr ⟨rfl, rfl, not_lt.1 full, allocate_size _ _ _, allocate_lbaSize _ _ _, ?_⟩
      intro empty
      rcases allocate_range info unallocated (requestedPages d info) with
        ⟨g, -, -, hrange⟩ | ⟨-, same⟩
      · simp only [hrange]
      · rw [same] at nothing
        exact absurd empty nothing

/-! ## Capacity -/

def Accounted (d : Device) (s : Subsystem) : Prop :=
  s.allocatedLogicalPages = (s.ranges.map LPNRange.nlp).sum ∧
    s.allocatedLogicalPages ≤ d.totalLogicalPages

def freedPages (d : Device) (info : Information) : Nat :=
  mul64 info.size info.lbaSize / d.logicalPageSize

theorem accounted_insert (ns : Namespace) (accounted : s.Accounted d)
    (fits : ns.info.range.nlp ≤ sub64 d.totalLogicalPages s.allocatedLogicalPages) :
    ({ lNamespaces := s.insertNamespace ns
       allocatedLogicalPages := add64 s.allocatedLogicalPages ns.info.range.nlp } :
      Subsystem).Accounted d := by
  obtain ⟨sum, le⟩ := accounted
  rw [sub64_of_le le] at fits
  have lt := d.totalLogicalPages_lt
  have added : add64 s.allocatedLogicalPages ns.info.range.nlp =
      s.allocatedLogicalPages + ns.info.range.nlp := add64_of_lt (by omega)
  have total := ((ranges_insertNamespace (s := s) ns).map LPNRange.nlp).sum_nat
  rw [List.map_cons, List.sum_cons, ← sum] at total
  rw [added]
  constructor
  · exact (total.trans (Nat.add_comm _ _)).symm
  · change s.allocatedLogicalPages + _ ≤ _
    omega

theorem accounted_create {created : Bool} (accounted : s.Accounted d) (empty : info.range.nlp = 0)
    (h : createNamespace d nsid info s = .ok (created, info', s')) : s'.Accounted d := by
  rcases createNamespace_cases h with ⟨-, rfl⟩ | ⟨-, rfl, fits, -, -, pages⟩
  · exact accounted
  · rw [← pages empty] at fits ⊢
    exact accounted_insert ⟨nsid, info', false⟩ accounted fits

theorem sum_eraseP {p : Namespace → Bool} {l : List Namespace} {ns : Namespace}
    (h : l.find? p = some ns) (f : Namespace → Nat) :
    (l.map f).sum = f ns + ((l.eraseP p).map f).sum := by
  induction l with
  | nil => cases h
  | cons head rest ih =>
      by_cases here : p head = true
      · rw [List.find?_cons_of_pos here] at h
        cases h
        rw [List.eraseP_cons_of_pos here, List.map_cons, List.sum_cons]
      · rw [List.find?_cons_of_neg here] at h
        rw [List.eraseP_cons_of_neg here, List.map_cons, List.sum_cons, List.map_cons,
          List.sum_cons, ih h]
        omega

theorem accounted_destroy_iff {ns : Namespace} (accounted : s.Accounted d)
    (h : s.lNamespaces.find? (fun ns => ns.nsid = nsid) = some ns) :
    (destroyNamespace d nsid s).2.Accounted d ↔ freedPages d ns.info = ns.info.range.nlp := by
  obtain ⟨sum, le⟩ := accounted
  have lt := d.totalLogicalPages_lt
  have split := sum_eraseP h fun ns => ns.info.range.nlp
  have before : (s.lNamespaces.map fun ns => ns.info.range.nlp).sum = s.allocatedLogicalPages := by
    rw [sum, ranges, List.map_map]
    rfl
  have freed : freedPages d ns.info < wordSize :=
    (Nat.div_le_self _ _).trans_lt (Nat.mod_lt _ (by decide))
  unfold destroyNamespace
  rw [h]
  simp only [Accounted, ranges, List.map_map]
  change sub64 s.allocatedLogicalPages (freedPages d ns.info) = (List.map
    (fun ns : Namespace => ns.info.range.nlp) _).sum ∧
      sub64 s.allocatedLogicalPages (freedPages d ns.info) ≤ _ ↔ _
  constructor
  · rintro ⟨rest, -⟩
    rw [sub64] at rest
    split at rest <;> omega
  · intro same
    rw [same, sub64_of_le (by omega)]
    constructor
    · omega
    · omega

theorem accounted_format {c : FormatCommand} {usedPageCount : Nat → Nat → Nat}
    (accounted : s.Accounted d) : (formatNVM d usedPageCount c s).2.Accounted d := by
  have counter : (formatNVM d usedPageCount c s).2.allocatedLogicalPages =
      s.allocatedLogicalPages := by
    unfold formatNVM
    split
    · rfl
    · split <;> rfl
  unfold Accounted
  rw [formatNVM_ranges, counter]
  exact accounted

theorem sum_tiles (start r n : Nat) : ((tiles start r n).map LPNRange.nlp).sum = n * r := by
  induction n generalizing start with
  | zero => simp [tiles]
  | succ n ih =>
      rw [tiles, List.map_cons, List.sum_cons, ih, Nat.succ_mul]
      exact Nat.add_comm _ _

theorem accounted_init (h : init d conf = .ok s) : s.Accounted d := by
  obtain ⟨r, n, -, fits, perm, allocated⟩ := (init_tiles d conf).2 s h
  unfold Accounted
  rw [(perm.map LPNRange.nlp).sum_nat, sum_tiles, allocated]
  exact ⟨rfl, fits⟩

/-- The condition on an action: what a delete takes from the counter are the pages of the
range. -/
def FreesRange (d : Device) (m : Management) : Management.Action → Prop
  | .destroy nsid => ∀ ns, m.subsystem.lNamespaces.find? (fun ns => ns.nsid = nsid) = some ns →
      freedPages d ns.info = ns.info.range.nlp
  | _ => True

variable {m m' : Management} {a : Management.Action}

theorem accounted_step (accounted : m.subsystem.Accounted d) (frees : FreesRange d m a)
    (hstep : Management.step d m a = some m') : m'.subsystem.Accounted d := by
  cases a with
  | create =>
      cases hstep
      unfold Management.create
      dsimp only
      split <;> exact accounted
  | dmaDone nsid data uninitialised =>
      obtain ⟨-, h⟩ := Option.ite_none_right_eq_some.1 hstep
      unfold Management.dmaDone at h
      split at h
      · cases h
      next created =>
        cases h
        exact accounted_create accounted (by rfl) created
  | destroy nsid =>
      cases hstep
      cases h : m.subsystem.lNamespaces.find? fun ns => ns.nsid = nsid with
      | none =>
          have same : (destroyNamespace d nsid m.subsystem).2 = m.subsystem := by
            unfold destroyNamespace
            rw [h]
          dsimp only
          rw [same]
          exact accounted
      | some ns => exact (accounted_destroy_iff accounted h).2 (frees ns h)
  | format c usedPageCount =>
      cases hstep
      exact accounted_format accounted

theorem freesRange_of_accounted (accounted : m.subsystem.Accounted d)
    (hstep : Management.step d m a = some m') (accounted' : m'.subsystem.Accounted d) :
    FreesRange d m a := by
  cases a with
  | destroy nsid =>
      cases hstep
      exact fun ns h => (accounted_destroy_iff accounted h).1 accounted'
  | create | dmaDone | format => trivial

theorem find?_insertNamespace (ns : Namespace)
    (fresh : ∀ other ∈ s.lNamespaces, other.nsid ≠ ns.nsid) :
    (s.insertNamespace ns).find? (fun other => other.nsid = ns.nsid) = some ns := by
  have perm : (s.insertNamespace ns).Perm (s.lNamespaces ++ [ns]) := List.perm_insertionSort _ _
  have hmem : ns ∈ s.insertNamespace ns := perm.mem_iff.2 (by simp)
  cases h : (s.insertNamespace ns).find? fun other => other.nsid = ns.nsid with
  | none => simpa using List.find?_eq_none.1 h ns hmem
  | some other =>
      have same : other.nsid = ns.nsid := by simpa using List.find?_some h
      rcases List.mem_append.1 (perm.mem_iff.1 (List.mem_of_find?_eq_some h)) with old | new
      · exact absurd same (fresh other old)
      · rw [List.mem_singleton.1 new]

/-- Deleting the namespace a create has just made brings the counter back exactly if the
size makes the two formulas agree. -/
theorem restores_iff {data : ManagementData} {uninitialised : Information}
    (accounted : s.Accounted d) (fresh : ∀ ns ∈ s.lNamespaces, ns.nsid ≠ nsid)
    (h : createNamespace d nsid (managementInformation d data uninitialised) s =
      .ok (true, info', s')) :
    (destroyNamespace d nsid s').2.allocatedLogicalPages = s.allocatedLogicalPages ↔
        freedPages d (managementInformation d data uninitialised) =
        requestedPages d (managementInformation d data uninitialised) := by
  rcases createNamespace_cases h with ⟨impossible, -⟩ | ⟨-, rfl, fits, size, lba, pages⟩
  · cases impossible
  have lt := d.totalLogicalPages_lt
  have freed : freedPages d info' < wordSize :=
    (Nat.div_le_self _ _).trans_lt (Nat.mod_lt _ (by decide))
  have same : freedPages d (managementInformation d data uninitialised) = freedPages d info' := by
    unfold freedPages
    rw [size, lba]
  have found := find?_insertNamespace ⟨nsid, info', false⟩ fresh
  obtain ⟨-, le⟩ := accounted
  rw [sub64_of_le le] at fits
  unfold destroyNamespace
  dsimp only at found ⊢
  rw [found, same]
  change sub64 (add64 _ _) (freedPages d info') = _ ↔ _
  rw [add64_of_lt (by omega), sub64]
  split <;> omega

/-- In every state of a run from `init` the counter is the sum of the pages of the
namespaces and within the device if and only if every delete of the run takes the pages of
the range; and a create and its delete leave the counter as it was if and only if the
size gives the same pages by both formulas. -/
theorem capacity_accounted_iff (h : init d conf = .ok s) (actions : List Management.Action) :
    (Throughout (Management.step d) (fun m => m.subsystem.Accounted d) ⟨s, []⟩ actions ↔
      EachAction (Management.step d) (FreesRange d) ⟨s, []⟩ actions) ∧
    ∀ (s : Subsystem) (nsid : Nat) (data : ManagementData)
      (uninitialised info : Information) (s' : Subsystem),
      s.Accounted d → (∀ ns ∈ s.lNamespaces, ns.nsid ≠ nsid) →
      createNamespace d nsid (managementInformation d data uninitialised) s = .ok (true, info, s') →
      ((destroyNamespace d nsid s').2.allocatedLogicalPages = s.allocatedLogicalPages ↔
        mul64 data.size.toNat (d.lbaSize data.lbaFormatIndex.toNat) / d.logicalPageSize =
          mul64 (data.size.toNat / d.logicalPageSize)
            (d.lbaSize data.lbaFormatIndex.toNat)) := by
  refine ⟨?_, fun s nsid data uninitialised info s' accounted fresh created =>
    restores_iff accounted fresh created⟩
  exact throughout_iff_eachAction
    (fun _ _ _ accounted frees hstep => accounted_step accounted frees hstep)
    (fun _ accounted => accounted)
    (fun _ _ _ accounted hstep accounted' => freesRange_of_accounted accounted hstep accounted')
    (s := ⟨s, []⟩) (accounted_init h) actions

def hostData (size : UInt64) : ManagementData := ⟨size, size, 0, 0, 0⟩

theorem capacity_accounted_iff_small :
    ∃ s, init smallDevice ⟨0, 512, hostInformation 0⟩ = .ok s ∧
      Throughout (Management.step smallDevice) (fun m => m.subsystem.Accounted smallDevice) ⟨s, []⟩
        [.create, .dmaDone 1 (hostData 8192) (hostInformation 0), .destroy 1] := by
  have started : init smallDevice ⟨0, 512, hostInformation 0⟩ = .ok blank := rfl
  refine ⟨blank, started, (capacity_accounted_iff started _).1.2 ?_⟩
  refine .cons rfl trivial (.cons rfl trivial (.cons rfl ?_ trivial))
  intro ns found
  cases found
  decide

/-- A size that is no multiple of the page size: 512 pages are added and 513 taken. -/
theorem counter_wraps :
    init smallDevice ⟨0, 512, hostInformation 0⟩ = .ok blank ∧
      ¬Throughout (Management.step smallDevice) (fun m => m.subsystem.Accounted smallDevice)
        ⟨blank, []⟩ [.create, .dmaDone 1 (hostData 4104) (hostInformation 0), .destroy 1] := by
  refine ⟨rfl, fun all => ?_⟩
  have final := all.2 _ rfl |>.2 _ rfl |>.2 _ rfl
  exact absurd final.1 (by decide)

/-! ## Ids -/

def ids (s : Subsystem) : List Nat := s.lNamespaces.map Namespace.nsid

def UniqueIds (s : Subsystem) : Prop := s.ids.Nodup

theorem ids_insertNamespace (ns : Namespace) :
    ((s.insertNamespace ns).map Namespace.nsid).Perm (ns.nsid :: s.ids) := by
  refine ((List.perm_insertionSort _ _).map _).trans ?_
  rw [List.map_append]
  exact List.perm_append_singleton _ _

theorem ids_updateInformation (nsid : Nat) (f : Information → Information)
    (namespaces : List Namespace) :
    (updateInformation nsid f namespaces).map Namespace.nsid = namespaces.map Namespace.nsid := by
  induction namespaces with
  | nil => rfl
  | cons ns rest ih =>
      unfold updateInformation
      split
      · rfl
      · rw [List.map_cons, List.map_cons, ih]

theorem ids_format (usedPageCount : Nat → Nat → Nat) (c : FormatCommand) :
    (formatNVM d usedPageCount c s).2.ids = s.ids := by
  unfold formatNVM
  split
  · rfl
  · split
    · rfl
    · exact ids_updateInformation _ _ _

theorem ids_destroy (s : Subsystem) (nsid : Nat) :
    (destroyNamespace d nsid s).2.ids.Sublist s.ids := by
  unfold destroyNamespace
  split
  · exact List.Sublist.refl _
  · exact List.eraseP_sublist.map _

theorem ids_attachLast (namespaces : List Namespace) :
    (attachLast namespaces).map Namespace.nsid = namespaces.map Namespace.nsid := by
  unfold attachLast
  split
  · rfl
  next last hlast =>
    obtain ⟨front, rfl⟩ := List.getLast?_eq_some_iff.1 hlast
    simp

theorem ids_createDefaults {size n : Nat} {state state' : Information × Subsystem}
    (start : state.2.ids = [])
    (h : (List.range n).foldlM (createDefault d size) state = .ok state') :
    state'.2.ids.Perm ((List.range n).map (NSID_LOWEST + ·)) := by
  induction n generalizing state' with
  | zero =>
      cases h
      rw [start]
      exact List.Perm.refl _
  | succ n ih =>
      rw [List.range_succ, List.foldlM_append, bind_eq_ok] at h
      obtain ⟨mid, first, last⟩ := h
      rw [List.foldlM_cons, bind_eq_ok] at last
      obtain ⟨final, last, hfinal⟩ := last
      cases hfinal
      obtain ⟨⟨created, info, s⟩, hcreate, last⟩ := bind_eq_ok.1 last
      rcases createNamespace_cases hcreate with ⟨rfl, -⟩ | ⟨rfl, rfl, -⟩
      · cases last
      · cases last
        rw [List.range_succ, List.map_append]
        unfold ids
        rw [ids_attachLast]
        refine (ids_insertNamespace _).trans ?_
        exact ((ih first).cons _).trans (List.perm_append_singleton _ _).symm

theorem uniqueIds_init (h : init d conf = .ok s) : s.UniqueIds := by
  have blank : blank.UniqueIds := List.nodup_nil
  unfold init at h
  dsimp only at h
  by_cases none : conf.defaultNamespaces % 2 ^ 16 = 0
  · rw [if_pos none] at h
    cases h
    exact blank
  rw [if_neg none] at h
  by_cases known : conf.lbaSize % 2 ^ 32 ∈ lbaSizes
  · rw [if_pos known] at h
    obtain ⟨state, hfold, h⟩ := bind_eq_ok.1 h
    cases h
    have perm := ids_createDefaults rfl hfold
    exact perm.nodup_iff.2 (List.nodup_range.map fun _ _ => Nat.add_left_cancel)
  · rw [if_neg known] at h
    cases h

/-- Whether the unallocated capacity and one of the unallocated ranges are large enough. -/
def HasRoom (d : Device) (requested : Nat) (s : Subsystem) : Prop :=
  0 < requested ∧ requested ≤ sub64 d.totalLogicalPages s.allocatedLogicalPages ∧
    ∃ g ∈ gaps 0 d.totalLogicalPages ((sortRanges s.ranges).map LPNRange.ends),
      requested ≤ g.2 - g.1

def IdFree (d : Device) (m : Management) : Management.Action → Prop
  | .dmaDone nsid data uninitialised =>
      HasRoom d (requestedPages d (managementInformation d data uninitialised)) m.subsystem →
        nsid ∉ m.subsystem.ids
  | _ => True

theorem created_iff {created : Bool} (placed : Placed d.totalLogicalPages s.ranges)
    (empty : info.range.nlp = 0) (h : createNamespace d nsid info s = .ok (created, info', s')) :
    created = true ↔ HasRoom d (requestedPages d info) s := by
  have perm : (sortRanges s.ranges).Perm s.ranges := List.perm_insertionSort _ _
  have chain := (placed.perm perm.symm).chain (List.pairwise_insertionSort _ _)
  have inverted : invert d.totalLogicalPages s.allocatedRanges =
      .ok ((gaps 0 d.totalLogicalPages ((sortRanges s.ranges).map LPNRange.ends)).map
        LPNRange.ofEnds) := by
    rw [allocatedRanges_eq]
    exact invert_chain [] d.totalLogicalPages_lt chain
  rw [createNamespace_eq inverted] at h
  dsimp only at h
  unfold HasRoom
  by_cases full : sub64 d.totalLogicalPages s.allocatedLogicalPages < requestedPages d info
  · rw [if_pos full] at h
    cases h
    simp [full]
  rw [if_neg full] at h
  rcases allocate_range info _ (requestedPages d info) with
    ⟨g, hmem, large, hrange⟩ | ⟨small, same⟩
  · obtain ⟨gap, hgap, rfl⟩ := List.mem_map.1 hmem
    rw [hrange] at h
    by_cases nothing : requestedPages d info = 0
    · rw [if_pos nothing] at h
      cases h
      simp [nothing]
    · rw [if_neg nothing] at h
      cases h
      exact iff_of_true rfl ⟨Nat.pos_of_ne_zero nothing, not_lt.1 full, gap, hgap, large⟩
  · rw [same, if_pos empty] at h
    cases h
    refine iff_of_false (by simp) ?_
    rintro ⟨-, -, gap, hgap, large⟩
    exact absurd large (not_le.2 (small _ (List.mem_map_of_mem hgap)))

structure Kept (d : Device) (m : Management) : Prop where
  placed : Placed d.totalLogicalPages m.subsystem.ranges
  unique : m.subsystem.UniqueIds

theorem placed_step (placed : Placed d.totalLogicalPages m.subsystem.ranges)
    (hstep : Management.step d m a = some m') :
    Placed d.totalLogicalPages m'.subsystem.ranges := by
  cases a with
  | create =>
      cases hstep
      unfold Management.create
      dsimp only
      split <;> exact placed
  | dmaDone nsid data uninitialised =>
      obtain ⟨-, h⟩ := Option.ite_none_right_eq_some.1 hstep
      obtain ⟨⟨created, info, s⟩, hcreate, placed'⟩ := createNamespace_placed nsid placed
        (show (managementInformation d data uninitialised).range.nlp = 0 from rfl)
      unfold Management.dmaDone at h
      rw [hcreate] at h
      cases h
      exact placed'
  | destroy nsid =>
      cases hstep
      exact destroyNamespace_placed placed
  | format c usedPageCount =>
      cases hstep
      change Placed _ (formatNVM d usedPageCount c m.subsystem).2.ranges
      rw [formatNVM_ranges]
      exact placed

theorem kept_step (kept : Kept d m) (free : IdFree d m a)
    (hstep : Management.step d m a = some m') : Kept d m' := by
  refine ⟨placed_step kept.placed hstep, ?_⟩
  cases a with
  | create =>
      cases hstep
      unfold Management.create
      dsimp only
      split <;> exact kept.unique
  | dmaDone nsid data uninitialised =>
      obtain ⟨-, h⟩ := Option.ite_none_right_eq_some.1 hstep
      unfold Management.dmaDone at h
      split at h
      · cases h
      next created info s hcreate =>
        cases h
        rcases createNamespace_cases hcreate with ⟨-, rfl⟩ | ⟨rfl, rfl, -⟩
        · exact kept.unique
        · have fresh := free ((created_iff kept.placed rfl hcreate).1 rfl)
          exact (ids_insertNamespace _).nodup_iff.2 (List.nodup_cons.2 ⟨fresh, kept.unique⟩)
  | destroy nsid =>
      cases hstep
      exact kept.unique.sublist (ids_destroy _ nsid)
  | format c usedPageCount =>
      cases hstep
      change (formatNVM d usedPageCount c m.subsystem).2.ids.Nodup
      rw [ids_format]
      exact kept.unique

theorem idFree_of_unique (kept : Kept d m) (hstep : Management.step d m a = some m')
    (unique : m'.subsystem.UniqueIds) : IdFree d m a := by
  cases a with
  | dmaDone nsid data uninitialised =>
      intro room
      obtain ⟨-, h⟩ := Option.ite_none_right_eq_some.1 hstep
      have empty : (managementInformation d data uninitialised).range.nlp = 0 := rfl
      obtain ⟨⟨created, info, s⟩, hcreate, -⟩ := createNamespace_placed nsid kept.placed empty
      unfold Management.dmaDone at h
      rw [hcreate] at h
      cases h
      have done := (created_iff kept.placed rfl hcreate).2 room
      rcases createNamespace_cases hcreate with ⟨rfl, -⟩ | ⟨-, rfl, -⟩
      · cases done
      · exact (List.nodup_cons.1 ((ids_insertNamespace _).nodup_iff.1 unique)).1
  | create | destroy | format => trivial

/-- In every state of a run from `init`, whatever commands it interleaves, no two
namespaces have the same id if and only if each create of the run for which there is room
finds the id chosen at its arrival still free when its data has been read. -/
theorem uniqueIds_iff (h : init d conf = .ok s) (actions : List Management.Action) :
    Throughout (Management.step d) (fun m => m.subsystem.UniqueIds) ⟨s, []⟩ actions ↔
      EachAction (Management.step d) (IdFree d) ⟨s, []⟩ actions :=
  throughout_iff_eachAction (fun _ _ _ kept free hstep => kept_step kept free hstep)
    (fun _ kept => kept.unique)
    (fun _ _ _ kept hstep unique => idFree_of_unique kept hstep unique)
    ⟨init_placed h, uniqueIds_init h⟩ actions

/-- One create after the other. -/
theorem uniqueIds_iff_small :
    ∃ s, init smallDevice ⟨0, 512, hostInformation 0⟩ = .ok s ∧
      Throughout (Management.step smallDevice) (fun m => m.subsystem.UniqueIds) ⟨s, []⟩
        [.create, .dmaDone 1 (hostData 8192) (hostInformation 0), .create,
          .dmaDone 2 (hostData 8192) (hostInformation 0)] := by
  have started : init smallDevice ⟨0, 512, hostInformation 0⟩ = .ok blank := rfl
  refine ⟨blank, started, (uniqueIds_iff started _).2 ?_⟩
  refine .cons rfl trivial (.cons rfl (fun _ => ?_) (.cons rfl trivial
    (.cons rfl (fun _ => ?_) trivial)))
  · exact List.not_mem_nil
  · decide

/-- Two creates arrive before the data of the first has been read. -/
theorem same_id_twice :
    init smallDevice ⟨0, 512, hostInformation 0⟩ = .ok blank ∧
      ¬Throughout (Management.step smallDevice) (fun m => m.subsystem.UniqueIds) ⟨blank, []⟩
        [.create, .create, .dmaDone 1 (hostData 8192) (hostInformation 0),
          .dmaDone 1 (hostData 8192) (hostInformation 0)] := by
  refine ⟨rfl, fun all => ?_⟩
  have final := all.2 _ rfl |>.2 _ rfl |>.2 _ rfl |>.2 _ rfl
  have twice : List.Nodup [1, 1] := final
  exact absurd twice (by decide)

end Subsystem

end SimpleSSD.HIL.NVMe
