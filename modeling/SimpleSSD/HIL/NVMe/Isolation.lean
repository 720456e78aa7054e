import Mathlib.Data.List.Pairwise
import Mathlib.Order.Interval.Set.Basic
import SimpleSSD.Foundation.Transition
import SimpleSSD.HIL.NVMe.Namespace
import SimpleSSD.HIL.NVMe.NamespaceRanges

/-!
# Which pages a command on a namespace reaches

`convertUnit` checks no bound.  A command stays inside its namespace exactly
when its blocks do, and the size a namespace reports keeps to its pages exactly
when the size it was created with is a multiple of the page size in blocks and
no format has given it the size of the device.
-/

namespace SimpleSSD.HIL.NVMe

open SimpleSSD.Foundation

/-! ## Converting blocks -/

section Convert

variable {first count base n slba nlb ratio : Nat}

/-- A page range moved behind a base is in the range of the base when it was in
the range of zero. -/
theorem shifted_subset_iff (lt : first < wordSize) (fits : base + n < wordSize) :
    (LPNRange.mk (add64 first base) count).pages ⊆ (LPNRange.mk base n).pages ↔
      count = 0 ∨ first + count ≤ n := by
  rcases Nat.eq_zero_or_pos count with rfl | pos
  · simp [LPNRange.pages]
  · have nonempty : add64 first base < add64 first base + count := Nat.lt_add_of_pos_right pos
    simp only [LPNRange.pages, Set.Ico_subset_Ico_iff nonempty, pos.ne', false_or]
    rcases Nat.lt_or_ge (first + base) wordSize with hlt | hge
    · rw [add64_of_lt hlt]
      omega
    · have wrapped : add64 first base = first + base - wordSize := by
        unfold add64
        rw [Nat.mod_eq_sub_mod hge, Nat.mod_eq_of_lt (by omega)]
      rw [wrapped]
      omega

theorem roundUp_le_iff (pos : 0 < ratio) :
    slba / ratio + (nlb + slba % ratio + ratio - 1) / ratio ≤ n ↔
      slba + nlb ≤ n * ratio := by
  have split := Nat.div_add_mod' slba ratio
  have total : slba / ratio + (nlb + slba % ratio + ratio - 1) / ratio =
      (slba + nlb + ratio - 1) / ratio := by
    rw [Nat.add_comm, ← Nat.add_mul_div_right _ _ pos]
    congr 1
    omega
  rw [total, ← Nat.lt_succ_iff, Nat.div_lt_iff_lt_mul pos, Nat.succ_mul]
  omega

theorem roundUp_eq_zero_iff (pos : 0 < ratio) :
    (nlb + slba % ratio + ratio - 1) / ratio = 0 ↔ nlb = 0 ∧ ratio ∣ slba := by
  rw [Nat.div_eq_zero_iff, Nat.dvd_iff_mod_eq_zero]
  omega

theorem roundedUp_eq (pos : 0 < ratio) (small : ratio < 2 ^ 32) (hnlb : nlb < 2 ^ 32) :
    sub64 (add64 (add64 nlb (slba % ratio)) ratio) 1 / ratio =
      (nlb + slba % ratio + ratio - 1) / ratio := by
  have off : slba % ratio < ratio := Nat.mod_lt _ pos
  have room : nlb + slba % ratio + ratio < wordSize := by
    unfold wordSize
    omega
  have firstSum : add64 nlb (slba % ratio) = nlb + slba % ratio :=
    add64_of_lt ((Nat.le_add_right _ _).trans_lt room)
  rw [firstSum, add64_of_lt room, sub64_of_le (by omega)]

end Convert

namespace Subsystem

/-- The blocks lie in the pages of the namespace.  Without a length nothing is
touched unless the first block is in the middle of a page. -/
def InRange (d : Device) (info : Information) (b : Blocks) : Prop :=
  let blocksOfPage := d.logicalPageSize / info.lbaSize % 2 ^ 32
  let pagesOfBlock := info.lbaSize / d.logicalPageSize % 2 ^ 32
  if blocksOfPage = 0 then
    mul64 b.nlb pagesOfBlock = 0 ∨
      mul64 b.slba pagesOfBlock + mul64 b.nlb pagesOfBlock ≤ info.range.nlp
  else
    (b.nlb = 0 ∧ blocksOfPage ∣ b.slba) ∨ b.slba + b.nlb ≤ info.range.nlp * blocksOfPage

instance (d : Device) (info : Information) (b : Blocks) : Decidable (InRange d info b) := by
  unfold InRange
  exact inferInstance

variable {d : Device} {info : Information} {b : Blocks} {req req' : Request}

theorem convertUnit_returns (d : Device) (b : Blocks) (req : Request)
    (formatted : info.lbaSize ≠ 0) : ∃ req', convertUnit d info b req = .ok req' := by
  unfold convertUnit
  rw [if_neg formatted]
  dsimp only
  split
  · exact ⟨_, rfl⟩
  · exact ⟨_, rfl⟩

theorem convertUnit_subset_iff (hslba : b.slba < wordSize) (hnlb : b.nlb < 2 ^ 32)
    (fits : info.range.slpn + info.range.nlp < wordSize)
    (run : convertUnit d info b req = .ok req') :
    req'.range.pages ⊆ info.range.pages ↔ InRange d info b := by
  unfold convertUnit at run
  unfold InRange
  split at run
  · cases run
  · dsimp only at run ⊢
    split at run
    next whole =>
      cases run
      rw [if_pos whole]
      exact shifted_subset_iff (Nat.mod_lt _ (by decide)) fits
    next parts =>
      cases run
      rw [if_neg parts]
      have small : d.logicalPageSize / info.lbaSize % 2 ^ 32 < 2 ^ 32 :=
        Nat.mod_lt _ (by decide)
      generalize d.logicalPageSize / info.lbaSize % 2 ^ 32 = ratio at parts small ⊢
      have pos : 0 < ratio := Nat.pos_of_ne_zero parts
      have first : b.slba / ratio < wordSize := (Nat.div_le_self _ _).trans_lt hslba
      rw [roundedUp_eq pos small hnlb]
      refine (shifted_subset_iff first fits).trans ?_
      rw [roundUp_eq_zero_iff pos, roundUp_le_iff pos]

/-! ## The runs of a subsystem -/

def Isolated (s : Subsystem) (ns : Namespace) (req : Request) : Prop :=
  req.range.pages ⊆ ns.info.range.pages ∧
    ∀ other ∈ s.lNamespaces, other ≠ ns → Disjoint req.range.pages other.info.range.pages

def Isolates (d : Device) (s : Subsystem) : Submission → Prop
  | .nvm namespaceID c =>
      ∀ ns, s.target namespaceID = some ns → c.Accepted ns →
        ∀ b ∈ c.blocks, ∀ req, ∃ req', convertUnit d ns.info b req = .ok req' ∧
          s.Isolated ns req'
  | _ => True

def SizesFit (d : Device) (s : Subsystem) : Prop :=
  ∀ ns ∈ s.lNamespaces, ns.info.size * ns.info.lbaSize ≤ ns.info.range.nlp * d.logicalPageSize

/-- A size in blocks whose pages `createNamespace` counts without a remainder and
without a wrap. -/
def WholePages (d : Device) (size lbaFormatIndex : Nat) : Prop :=
  d.logicalPageSize ∣ size ∧ size / d.logicalPageSize * d.lbaSize lbaFormatIndex < wordSize

/-- What keeps a namespace to its own pages: blocks in range, sizes of whole pages,
and formats only of a namespace that holds the whole device. -/
def KeepsToPages (d : Device) (s : Subsystem) : Submission → Prop
  | .nvm namespaceID c =>
      ∀ ns, s.target namespaceID = some ns → c.Accepted ns → ∀ b ∈ c.blocks, InRange d ns.info b
  | .management data uninitialised =>
      (∃ out, namespaceManagement d data uninitialised s = .ok out ∧ out.1) →
        WholePages d data.size.toNat data.lbaFormatIndex.toNat
  | .format c _ =>
      c.invalid = false → ∀ ns, s.lNamespaces.find? (fun ns => ns.nsid = c.namespaceID) = some ns →
        mul64 d.totalLogicalPages d.logicalPageSize / d.lbaSize c.lbaf * d.lbaSize c.lbaf ≤
          ns.info.range.nlp * d.logicalPageSize
  | _ => True

/-! ## One command -/

variable {s s' : Subsystem} {nsid : Nat} {info' : Information} {created : Bool}

/-- A create that is refused changes nothing; one that is granted adds the namespace it
returns, with the size and the block size it was asked for. -/
theorem createNamespace_ok (run : createNamespace d nsid info s = .ok (created, info', s')) :
    (created = false ∧ s' = s) ∨
      (created = true ∧ s'.lNamespaces = s.insertNamespace ⟨nsid, info', false⟩ ∧
        info'.size = info.size ∧ info'.lbaSize = info.lbaSize ∧ info'.range.nlp ≠ 0 ∧
        (info.range.nlp = 0 → info'.range.nlp = requestedPages d info)) := by
  unfold createNamespace at run
  dsimp only at run
  split at run
  · cases run
    exact .inl ⟨rfl, rfl⟩
  · obtain ⟨unallocated, -, run⟩ := bind_eq_ok.1 run
    split at run
    · cases run
      exact .inl ⟨rfl, rfl⟩
    next nonempty =>
      cases run
      refine .inr ⟨rfl, rfl, ?_⟩
      rcases allocate_range info unallocated (requestedPages d info) with
        ⟨g, -, -, hrange⟩ | ⟨-, same⟩
      · have kept : (allocate info unallocated (requestedPages d info)).size = info.size ∧
            (allocate info unallocated (requestedPages d info)).lbaSize = info.lbaSize := by
          unfold allocate
          split
          · exact ⟨rfl, rfl⟩
          · exact ⟨rfl, rfl⟩
        refine ⟨kept.1, kept.2, nonempty, fun _ => ?_⟩
        dsimp only
        rw [hrange]
      · rw [same] at nonempty ⊢
        exact ⟨rfl, rfl, nonempty, fun empty => absurd empty nonempty⟩

theorem wholePages_iff {size lba lps : Nat} (pos : 0 < lps)
    (some : mul64 (size / lps) lba ≠ 0) :
    size * lba ≤ mul64 (size / lps) lba * lps ↔ lps ∣ size ∧ size / lps * lba < wordSize := by
  have lbaPos : 0 < lba := by
    refine Nat.pos_of_ne_zero fun hzero => some ?_
    rw [hzero]
    rfl
  have below : mul64 (size / lps) lba ≤ size / lps * lba := Nat.mod_le _ _
  have parts : size / lps * lps ≤ size := Nat.div_mul_le_self _ _
  constructor
  · intro fits
    have chain : size * lba ≤ size / lps * lps * lba := calc
      size * lba ≤ mul64 (size / lps) lba * lps := fits
      _ ≤ size / lps * lba * lps := Nat.mul_le_mul_right _ below
      _ = size / lps * lps * lba := Nat.mul_right_comm _ _ _
    have whole : size / lps * lps = size :=
      parts.antisymm (Nat.le_of_mul_le_mul_right chain lbaPos)
    refine ⟨⟨size / lps, by rw [Nat.mul_comm, whole]⟩, ?_⟩
    have same : size / lps * lba * lps ≤ mul64 (size / lps) lba * lps := by
      rw [Nat.mul_right_comm, whole]
      exact fits
    have unwrapped : mul64 (size / lps) lba = size / lps * lba :=
      below.antisymm (Nat.le_of_mul_le_mul_right same pos)
    rw [← unwrapped]
    exact Nat.mod_lt _ (by decide)
  · rintro ⟨divides, lt⟩
    have unwrapped : mul64 (size / lps) lba = size / lps * lba := Nat.mod_eq_of_lt lt
    rw [unwrapped, Nat.mul_right_comm, Nat.div_mul_cancel divides]

structure Usable (d : Device) (s : Subsystem) : Prop where
  placed : Placed d.totalLogicalPages s.ranges
  formatted : ∀ ns ∈ s.lNamespaces, ns.info.lbaSize ≠ 0

theorem mem_insertNamespace {ns other : Namespace} :
    other ∈ s.insertNamespace ns ↔ other = ns ∨ other ∈ s.lNamespaces := by
  unfold insertNamespace
  rw [List.mem_insertionSort, List.mem_append, List.mem_singleton, or_comm]

theorem namespaceManagement_granted {data : ManagementData} {uninitialised : Information}
    (run : namespaceManagement d data uninitialised s = .ok (true, info', s')) :
    ∃ ns, (∀ other, other ∈ s'.lNamespaces ↔ other = ns ∨ other ∈ s.lNamespaces) ∧
      ns.info.lbaSize = d.lbaSize data.lbaFormatIndex.toNat ∧ ns.info.lbaSize ≠ 0 ∧
      (ns.info.size * ns.info.lbaSize ≤ ns.info.range.nlp * d.logicalPageSize ↔
        WholePages d data.size.toNat data.lbaFormatIndex.toNat) := by
  unfold namespaceManagement at run
  dsimp only at run
  split at run
  · cases run
  · rcases createNamespace_ok run with ⟨hfalse, -⟩ | ⟨-, hnew, hsize, hlba, hnonempty, hnlp⟩
    · cases hfalse
    · have nlp := hnlp rfl
      have requested : requestedPages d (managementInformation d data uninitialised) =
          mul64 (data.size.toNat / d.logicalPageSize)
            (d.lbaSize data.lbaFormatIndex.toNat) := rfl
      rw [nlp, requested] at hnonempty
      refine ⟨_, fun other => by rw [hnew]; exact mem_insertNamespace, hlba, ?_, ?_⟩
      · dsimp only
        rw [hlba]
        intro hzero
        apply hnonempty
        change d.lbaSize data.lbaFormatIndex.toNat = 0 at hzero
        rw [hzero]
        rfl
      · dsimp only
        rw [hsize, hlba, nlp, requested]
        exact wholePages_iff d.logicalPageSize_pos hnonempty

theorem mem_updateInformation {f : Information → Information} {namespaces : List Namespace}
    {ns : Namespace} (found : namespaces.find? (fun ns => ns.nsid = nsid) = some ns) :
    { ns with info := f ns.info } ∈ updateInformation nsid f namespaces ∧
      ∀ other ∈ updateInformation nsid f namespaces,
        other = { ns with info := f ns.info } ∨ other ∈ namespaces := by
  induction namespaces with
  | nil => cases found
  | cons head rest ih =>
      unfold updateInformation
      by_cases hid : head.nsid = nsid
      · simp only [List.find?_cons, hid, decide_true, Option.some.injEq] at found
        subst found
        rw [if_pos hid]
        refine ⟨List.mem_cons_self, fun other hmem => ?_⟩
        rcases List.mem_cons.1 hmem with heq | hrest
        · exact .inl heq
        · exact .inr (List.mem_cons_of_mem _ hrest)
      · simp only [List.find?_cons, hid, decide_false] at found
        obtain ⟨mem, others⟩ := ih found
        rw [if_neg hid]
        refine ⟨List.mem_cons_of_mem _ mem, fun other hmem => ?_⟩
        rcases List.mem_cons.1 hmem with heq | hrest
        · exact .inr (heq ▸ List.mem_cons_self)
        · exact (others other hrest).imp_right (List.mem_cons_of_mem _)

theorem formatted_lbaSize {c : FormatCommand} (valid : c.invalid = false) :
    d.lbaSize c.lbaf ≠ 0 := by
  have hlt : c.lbaf < lbaSizes.length := by
    simp only [FormatCommand.invalid, decide_eq_false_iff_not, not_or, not_le] at valid
    exact valid.2.2.2.2
  unfold Device.lbaSize
  rw [List.getElem?_eq_getElem hlt, Option.getD_some]
  exact (by decide : ∀ size ∈ lbaSizes, size ≠ 0) _ (List.getElem_mem hlt)

/-- What a command leaves: the namespaces it found, and at most one with new
information. -/
theorem formatNVM_cases (usedPageCount : Nat → Nat → Nat) (c : FormatCommand)
    (s : Subsystem) :
    (formatNVM d usedPageCount c s).2 = s ∧
        (c.invalid = true ∨ s.lNamespaces.find? (fun ns => ns.nsid = c.namespaceID) = none) ∨
      c.invalid = false ∧
        ∃ ns, s.lNamespaces.find? (fun ns => ns.nsid = c.namespaceID) = some ns ∧
          (formatNVM d usedPageCount c s).2.lNamespaces =
            updateInformation c.namespaceID (formatInformation d usedPageCount c.lbaf)
              s.lNamespaces := by
  unfold formatNVM
  split
  next hinvalid => exact .inl ⟨rfl, .inl hinvalid⟩
  next hvalid =>
    split
    next hnone => exact .inl ⟨rfl, .inr hnone⟩
    next ns hsome => exact .inr ⟨Bool.eq_false_iff.2 hvalid, ns, hsome, rfl⟩

theorem attach_info (sel nsid : Nat) (ns : Namespace) : (attach sel nsid ns).info = ns.info := by
  unfold attach
  split
  · split
    · rfl
    · split
      · rfl
      · rfl
  · rfl

theorem namespaceManagement_refused {data : ManagementData} {uninitialised : Information}
    (run : namespaceManagement d data uninitialised s = .ok (false, info', s')) : s' = s := by
  unfold namespaceManagement at run
  dsimp only at run
  split at run
  · cases run
    rfl
  · rcases createNamespace_ok run with ⟨-, same⟩ | ⟨htrue, -⟩
    · exact same
    · cases htrue

theorem namespaceManagement_placed (placed : Placed d.totalLogicalPages s.ranges)
    {data : ManagementData} {uninitialised : Information}
    (run : namespaceManagement d data uninitialised s = .ok (created, info', s')) :
    Placed d.totalLogicalPages s'.ranges := by
  unfold namespaceManagement at run
  dsimp only at run
  split at run
  · cases run
    exact placed
  · obtain ⟨out, returned, placed'⟩ :=
      createNamespace_placed (unusedNsid NSID_LOWEST s.lNamespaces) placed
        (show (managementInformation d data uninitialised).range.nlp = 0 from rfl)
    rw [run] at returned
    cases returned
    exact placed'

theorem management_returned {data : ManagementData} {uninitialised : Information}
    (step : submitCommand d s (.management data uninitialised) = some s') :
    ∃ created info', namespaceManagement d data uninitialised s = .ok (created, info', s') := by
  simp only [submitCommand] at step
  cases hrun : namespaceManagement d data uninitialised s with
  | error fault =>
      rw [hrun] at step
      cases step
  | ok out =>
      rw [hrun] at step
      cases step
      exact ⟨out.1, out.2.1, rfl⟩

theorem submitCommand_usable (usable : s.Usable d) {c : Submission}
    (step : submitCommand d s c = some s') : s'.Usable d := by
  cases c with
  | management data uninitialised =>
      obtain ⟨created, info', run⟩ := management_returned step
      refine ⟨namespaceManagement_placed usable.placed run, fun ns hmem => ?_⟩
      cases created with
      | false =>
          rw [namespaceManagement_refused run] at hmem
          exact usable.formatted ns hmem
      | true =>
          obtain ⟨new, members, -, formatted, -⟩ := namespaceManagement_granted run
          rcases (members ns).1 hmem with rfl | hold
          · exact formatted
          · exact usable.formatted ns hold
  | delete nsid =>
      cases step
      refine ⟨destroyNamespace_placed usable.placed, fun ns hmem => usable.formatted ns ?_⟩
      revert hmem
      unfold destroyNamespace
      split
      · exact id
      · exact fun hmem => List.mem_of_mem_eraseP hmem
  | attachment sel nsid =>
      cases step
      have ranges : (namespaceAttachment sel nsid s).ranges = s.ranges := by
        simp [Subsystem.ranges, namespaceAttachment, attach_info]
      refine ⟨by rw [ranges]; exact usable.placed, fun ns hmem => ?_⟩
      obtain ⟨old, hold, rfl⟩ := List.mem_map.1 hmem
      rw [attach_info]
      exact usable.formatted old hold
  | format c usedPageCount =>
      cases step
      refine ⟨by rw [formatNVM_ranges]; exact usable.placed, fun other hmem => ?_⟩
      rcases formatNVM_cases usedPageCount c s with ⟨same, -⟩ | ⟨valid, ns, found, hnew⟩
      · rw [same] at hmem
        exact usable.formatted other hmem
      · rw [hnew] at hmem
        rcases (mem_updateInformation found).2 other hmem with rfl | hold
        · exact formatted_lbaSize valid
        · exact usable.formatted other hold
  | nvm namespaceID c =>
      cases step
      exact usable

theorem isolated_iff (placed : Placed d.totalLogicalPages s.ranges) {ns : Namespace}
    (hmem : ns ∈ s.lNamespaces) :
    s.Isolated ns req' ↔ req'.range.pages ⊆ ns.info.range.pages := by
  refine ⟨And.left, fun within => ⟨within, fun other hother hne => ?_⟩⟩
  have : Std.Symm fun a b : Namespace => Disjoint a.info.range.pages b.info.range.pages :=
    ⟨fun _ _ h => h.symm⟩
  have disjoint := (separated_of_placed placed).disjoint.forall hmem hother hne.symm
  exact disjoint.mono_left within

theorem target_mem {namespaceID : Nat} {ns : Namespace}
    (found : s.target namespaceID = some ns) : ns ∈ s.lNamespaces := by
  unfold target at found
  split at found
  · exact List.mem_of_find?_eq_some found
  · exact List.mem_of_head? found

theorem isolates_iff (usable : s.Usable d) (namespaceID : Nat) (c : NVMCommand) :
    Isolates d s (.nvm namespaceID c) ↔ KeepsToPages d s (.nvm namespaceID c) := by
  refine forall₅_congr fun ns found accepted b hb => ?_
  have hmem := target_mem found
  have within := usable.placed.within ns.info.range (List.mem_map_of_mem hmem)
  obtain ⟨hslba, hnlb⟩ := NVMCommand.blocks_lt hb
  have exactly : ∀ {req req' : Request}, convertUnit d ns.info b req = .ok req' →
      (s.Isolated ns req' ↔ InRange d ns.info b) := fun run =>
    (isolated_iff usable.placed hmem).trans
      (convertUnit_subset_iff hslba hnlb (within.trans_lt d.totalLogicalPages_lt) run)
  have returns := fun req => convertUnit_returns d b req (usable.formatted ns hmem)
  constructor
  · intro isolated
    obtain ⟨req', run, within⟩ := isolated (Request.ofPages .read 0 0)
    exact (exactly run).1 within
  · intro inRange req
    obtain ⟨req', run⟩ := returns req
    exact ⟨req', run, (exactly run).2 inRange⟩

/-- Over one command, the condition says that the command is isolated and that the
sizes it leaves fit. -/
theorem keepsToPages_iff (usable : s.Usable d) (fit : s.SizesFit d) {c : Submission}
    (step : submitCommand d s c = some s') :
    KeepsToPages d s c ↔ Isolates d s c ∧ s'.SizesFit d := by
  cases c with
  | management data uninitialised =>
      obtain ⟨created, info', run⟩ := management_returned step
      cases created with
      | false =>
          rw [namespaceManagement_refused run]
          refine ⟨fun _ => ⟨trivial, fit⟩, ?_⟩
          rintro - ⟨out, returned, granted⟩
          rw [run] at returned
          cases returned
          cases granted
      | true =>
          obtain ⟨new, members, -, -, whole⟩ := namespaceManagement_granted run
          constructor
          · intro keeps
            refine ⟨trivial, fun ns hmem => ?_⟩
            rcases (members ns).1 hmem with rfl | hold
            · exact whole.2 (keeps ⟨_, run, rfl⟩)
            · exact fit ns hold
          · rintro ⟨-, fit'⟩ -
            exact whole.1 (fit' new ((members new).2 (.inl rfl)))
  | delete nsid =>
      cases step
      refine ⟨fun _ => ⟨trivial, fun ns hmem => fit ns ?_⟩, fun _ => trivial⟩
      revert hmem
      unfold destroyNamespace
      split
      · exact id
      · exact fun hmem => List.mem_of_mem_eraseP hmem
  | attachment sel nsid =>
      cases step
      refine ⟨fun _ => ⟨trivial, fun ns hmem => ?_⟩, fun _ => trivial⟩
      obtain ⟨old, hold, rfl⟩ := List.mem_map.1 hmem
      rw [attach_info]
      exact fit old hold
  | format c usedPageCount =>
      cases step
      rcases formatNVM_cases usedPageCount c s with ⟨same, refused⟩ | ⟨valid, ns, found, hnew⟩
      · rw [same]
        refine ⟨fun _ => ⟨trivial, fit⟩, fun _ valid ns found => ?_⟩
        rcases refused with invalid | none
        · exact absurd (valid.symm.trans invalid) Bool.false_ne_true
        · cases none.symm.trans found
      · obtain ⟨changed, others⟩ := mem_updateInformation
          (f := formatInformation d usedPageCount c.lbaf) found
        constructor
        · intro keeps
          refine ⟨trivial, fun other hmem => ?_⟩
          rw [hnew] at hmem
          rcases others other hmem with rfl | hold
          · exact keeps valid ns found
          · exact fit other hold
        · rintro ⟨-, fit'⟩ - other found'
          cases found.symm.trans found'
          exact fit' _ (by rw [hnew]; exact changed)
  | nvm namespaceID c =>
      cases step
      rw [isolates_iff usable]
      exact (and_iff_left fit).symm

/-! ## The default namespaces -/

def defaultSize (d : Device) (conf : Defaults) : Nat :=
  mul64 d.totalLogicalPages d.logicalPageSize / (conf.lbaSize % 2 ^ 32) /
    (conf.defaultNamespaces % 2 ^ 16)

theorem mem_attachLast {namespaces : List Namespace} {ns : Namespace}
    (hmem : ns ∈ attachLast namespaces) : ∃ old ∈ namespaces, ns.info = old.info := by
  unfold attachLast at hmem
  split at hmem
  · exact ⟨ns, hmem, rfl⟩
  next last hlast =>
    rcases List.mem_append.1 hmem with hfront | hnew
    · exact ⟨ns, List.dropLast_subset _ hfront, rfl⟩
    · obtain rfl := List.mem_singleton.1 hnew
      exact ⟨last, List.mem_of_getLast? hlast, rfl⟩

theorem createDefault_sized {size lba i : Nat} {state state' : Information × Subsystem}
    (run : createDefault d size state i = .ok state')
    (sized : state.1.lbaSize = lba ∧
      ∀ ns ∈ state.2.lNamespaces, ns.info.size = size ∧ ns.info.lbaSize = lba) :
    state'.1.lbaSize = lba ∧
      ∀ ns ∈ state'.2.lNamespaces, ns.info.size = size ∧ ns.info.lbaSize = lba := by
  unfold createDefault at run
  obtain ⟨⟨created, info, s⟩, hcreate, run⟩ := bind_eq_ok.1 run
  rcases createNamespace_ok hcreate with ⟨rfl, -⟩ | ⟨rfl, hnew, hsize, hlba, -⟩
  · cases run
  · cases run
    have hlba' : info.lbaSize = lba := hlba.trans sized.1
    refine ⟨hlba', fun ns hmem => ?_⟩
    obtain ⟨old, hold, hinfo⟩ := mem_attachLast hmem
    rw [hinfo]
    rw [hnew] at hold
    rcases mem_insertNamespace.1 hold with rfl | hbefore
    · exact ⟨hsize, hlba'⟩
    · exact sized.2 old hbefore

theorem createDefaults_tiled {n size : Nat} (some : n ≠ 0) {info : Information}
    (fits : n * mul64 (size / d.logicalPageSize) (d.lbaSize info.lbaFormatIndex) ≤
      d.totalLogicalPages) {state : Information × Subsystem}
    (run : (List.range n).foldlM (createDefault d size) (info, blank) = .ok state) :
    0 < mul64 (size / d.logicalPageSize) (d.lbaSize info.lbaFormatIndex) ∧
      state.2.ranges.Perm
        (tiles 0 (mul64 (size / d.logicalPageSize) (d.lbaSize info.lbaFormatIndex)) n) := by
  rcases Nat.eq_zero_or_pos
    (mul64 (size / d.logicalPageSize) (d.lbaSize info.lbaFormatIndex)) with hzero | pos
  · obtain ⟨m, rfl⟩ := Nat.exists_eq_succ_of_ne_zero some
    rw [List.range_succ_eq_map, List.foldlM_cons, createDefault_nothing hzero] at run
    cases run
  · have unfilled : Filled (mul64 (size / d.logicalPageSize) (d.lbaSize info.lbaFormatIndex)) 0
        info.lbaFormatIndex (info, blank) := ⟨List.Perm.refl _, (Nat.zero_mul _).symm, rfl⟩
    obtain ⟨state', run', filled⟩ := createDefaults_filled pos unfilled rfl fits
    cases run.symm.trans run'
    exact ⟨pos, filled.ranges⟩

theorem init_sized {conf : Defaults} (returned : init d conf = .ok s) :
    (conf.defaultNamespaces % 2 ^ 16 = 0 ∧ s = blank) ∨
      ∃ r, 0 < r ∧ conf.defaultNamespaces % 2 ^ 16 ≠ 0 ∧
        r = mul64 (defaultSize d conf / d.logicalPageSize) (conf.lbaSize % 2 ^ 32) ∧
        conf.lbaSize % 2 ^ 32 ∈ lbaSizes ∧
        s.ranges.Perm (tiles 0 r (conf.defaultNamespaces % 2 ^ 16)) ∧
        ∀ ns ∈ s.lNamespaces, ns.info.size = defaultSize d conf ∧
          ns.info.lbaSize = conf.lbaSize % 2 ^ 32 := by
  unfold init at returned
  dsimp only at returned
  split at returned
  next hnone =>
    cases returned
    exact .inl ⟨hnone, rfl⟩
  next hsome =>
    right
    split at returned
    next known =>
      obtain ⟨state, run, done⟩ := bind_eq_ok.1 returned
      cases done
      have sized := foldlM_invariant_mem
        (fun state : Information × Subsystem => state.1.lbaSize = conf.lbaSize % 2 ^ 32 ∧
          ∀ ns ∈ state.2.lNamespaces, ns.info.size = defaultSize d conf ∧
            ns.info.lbaSize = conf.lbaSize % 2 ^ 32)
        (fun _ _ _ _ inv step => createDefault_sized step inv) run
        ⟨rfl, fun ns hmem => by cases hmem⟩
      have format : d.lbaSize (conf.information (conf.lbaSize % 2 ^ 32)).lbaFormatIndex =
          conf.lbaSize % 2 ^ 32 := lbaSize_idxOf known
      obtain ⟨pos, tiled⟩ := createDefaults_tiled hsome
        (by rw [format]; exact defaults_fit d.logicalPageSize_pos) run
      rw [format] at pos tiled
      exact ⟨_, pos, hsome, rfl, known, tiled, sized.2⟩
    next => cases returned

theorem init_usable {conf : Defaults} (returned : init d conf = .ok s) : s.Usable d := by
  refine ⟨init_placed returned, fun ns hmem => ?_⟩
  rcases init_sized returned with ⟨-, rfl⟩ | ⟨r, -, -, -, known, -, sized⟩
  · cases hmem
  · rw [(sized ns hmem).2]
    exact (by decide : ∀ size ∈ lbaSizes, size ≠ 0) _ known

def WholeDefaults (d : Device) (conf : Defaults) : Prop :=
  conf.defaultNamespaces % 2 ^ 16 = 0 ∨ d.logicalPageSize ∣ defaultSize d conf

theorem defaultPages_lt (d : Device) (conf : Defaults) :
    defaultSize d conf / d.logicalPageSize * (conf.lbaSize % 2 ^ 32) < wordSize := by
  have bytes : mul64 d.totalLogicalPages d.logicalPageSize < wordSize := Nat.mod_lt _ (by decide)
  refine lt_of_le_of_lt ?_ bytes
  calc defaultSize d conf / d.logicalPageSize * (conf.lbaSize % 2 ^ 32)
      ≤ mul64 d.totalLogicalPages d.logicalPageSize / (conf.lbaSize % 2 ^ 32) *
          (conf.lbaSize % 2 ^ 32) := by
        exact Nat.mul_le_mul_right _
          ((Nat.div_le_self (defaultSize d conf) _).trans (Nat.div_le_self _ _))
    _ ≤ mul64 d.totalLogicalPages d.logicalPageSize := Nat.div_mul_le_self _ _

theorem length_tiles (start r n : Nat) : (tiles start r n).length = n := by
  induction n generalizing start with
  | zero => rfl
  | succ n ih => rw [tiles, List.length_cons, ih]

theorem init_sizesFit_iff {conf : Defaults} (returned : init d conf = .ok s) :
    s.SizesFit d ↔ WholeDefaults d conf := by
  rcases init_sized returned with ⟨none, rfl⟩ | ⟨r, pos, hsome, hr, known, tiled, sized⟩
  · exact ⟨fun _ => .inl none, fun _ ns hmem => by cases hmem⟩
  · have some : mul64 (defaultSize d conf / d.logicalPageSize) (conf.lbaSize % 2 ^ 32) ≠ 0 := by
      rw [← hr]
      exact pos.ne'
    have whole := wholePages_iff d.logicalPageSize_pos some
    rw [← hr] at whole
    have fits_iff : ∀ ns ∈ s.lNamespaces,
        (ns.info.size * ns.info.lbaSize ≤ ns.info.range.nlp * d.logicalPageSize ↔
          d.logicalPageSize ∣ defaultSize d conf) := by
      intro ns hmem
      rw [(sized ns hmem).1, (sized ns hmem).2,
        (mem_tiles (tiled.mem_iff.1 (List.mem_map_of_mem hmem))).2.1, whole]
      exact and_iff_left (defaultPages_lt d conf)
    constructor
    · intro fit
      have length : s.ranges.length = conf.defaultNamespaces % 2 ^ 16 :=
        tiled.length_eq.trans (length_tiles _ _ _)
      have nonempty : 0 < s.lNamespaces.length := by
        rw [← List.length_map (f := fun ns : Namespace => ns.info.range)]
        exact length ▸ Nat.pos_of_ne_zero hsome
      have hmem := List.getElem_mem nonempty
      exact .inr ((fits_iff _ hmem).1 (fit _ hmem))
    · rintro (none | divides)
      · exact absurd none hsome
      · exact fun ns hmem => (fits_iff ns hmem).2 divides

/-! ## Every run -/

/-- In every run from `init`, every accepted command is isolated and every size fits its
pages if and only if the default sizes and every command keep to whole pages. -/
theorem commands_isolated_iff (d : Device) (conf : Defaults)
    (returned : init d conf = .ok s) (commands : List Submission) :
    (EachAction (submitCommand d) (Isolates d) s commands ∧
        Throughout (submitCommand d) (SizesFit d) s commands) ↔
      WholeDefaults d conf ∧
        EachAction (submitCommand d) (KeepsToPages d) s commands := by
  rw [← init_sizesFit_iff returned]
  exact good_iff_eachAction (fun _ _ _ usable step => submitCommand_usable usable step)
    (fun _ _ _ usable fit step => keepsToPages_iff usable fit step)
    (init_usable returned) commands

def wholeDefaults : Defaults := ⟨2, 512, hostInformation 0⟩

def writeAt (slba : UInt32) : NVMCommand :=
  ⟨.write, slba, 0, 7, fun _ => ⟨0, 0, 0⟩⟩

/-- The first namespace is written up to its last block, deleted and created anew. -/
theorem commands_isolated_small :
    ∃ s, init smallDevice wholeDefaults = .ok s ∧
      EachAction (submitCommand smallDevice) (Isolates smallDevice) s
        [.nvm 1 (writeAt 262136), .delete 1,
          .management ⟨65536, 65536, 0, 0, 0⟩ (hostInformation 0)] := by
  refine ⟨_, rfl, ((commands_isolated_iff smallDevice wholeDefaults rfl _).2
    ⟨.inr (by decide), ?_⟩).1⟩
  refine EachAction.cons rfl ?_ (EachAction.cons rfl trivial (EachAction.cons rfl ?_ trivial))
  · rintro ns found - b hb
    cases found
    cases List.mem_singleton.1 hb
    decide
  · exact fun _ => ⟨by decide, by decide⟩

/-- The first of two namespaces is formatted: it now reports the blocks of the whole
device, and a write inside that size reaches the pages of the second. -/
theorem format_reaches_neighbour :
    ∃ s, init smallDevice wholeDefaults = .ok s ∧
      ¬ (EachAction (submitCommand smallDevice) (Isolates smallDevice) s
          [.format ⟨0, 1⟩ fun _ _ => 0, .nvm 1 (writeAt 262144)] ∧
        Throughout (submitCommand smallDevice) (SizesFit smallDevice) s
          [.format ⟨0, 1⟩ fun _ _ => 0, .nvm 1 (writeAt 262144)]) := by
  refine ⟨_, rfl, fun ⟨each, _⟩ => ?_⟩
  obtain ⟨-, later⟩ := each _ rfl
  obtain ⟨isolates, -⟩ := later _ rfl
  have returned : init smallDevice wholeDefaults = .ok _ := rfl
  have start := init_usable returned
  have usable := submitCommand_usable start
    (show submitCommand smallDevice _ (.format ⟨0, 1⟩ fun _ _ => 0) = some _ from rfl)
  have keeps := (isolates_iff usable 1 _).1 isolates
  exact absurd (keeps _ rfl (by decide) ⟨262144, 8⟩ (by decide)) (by decide)

end Subsystem

end SimpleSSD.HIL.NVMe
