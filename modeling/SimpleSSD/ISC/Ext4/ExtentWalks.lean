import SimpleSSD.Foundation.Descent
import SimpleSSD.ISC.Ext4.Extents

/-!
# Walks through any extent tree

On an image of any content the two recursions go where the index entries point.  Each header is
checked by itself, and not against the one of the node above.
-/

namespace SimpleSSD.ISC.Ext4

open SimpleSSD.Foundation Relation

def Checked (buf : Buffer) : Prop :=
  ∃ eh, extentHeader buf = .ok eh ∧ eh.ehMagic = EXT4_EXTENT_HEADER_MAGIC ∧ eh.ehDepth ≤ 5 ∧
    eh.ehEntries ≤ eh.ehMax

def IndexInside (buf : Buffer) : Prop :=
  ∀ eh, extentHeader buf = .ok eh → eh.ehDepth ≠ 0 →
    ∀ ie < eh.ehEntries, 12 + 12 * ie + 10 ≤ buf.size

def LeafInside (buf : Buffer) : Prop :=
  ∀ eh, extentHeader buf = .ok eh → eh.ehDepth = 0 →
    ∀ ie < eh.ehEntries, 12 + 12 * ie + 12 ≤ buf.size

def PointsTo (buf : Buffer) (b : Nat) : Prop :=
  ∃ eh, extentHeader buf = .ok eh ∧ eh.ehDepth ≠ 0 ∧
    ∃ ie < eh.ehEntries, extentIdx buf ie = .ok b

section Nodes

variable (image : Image) (root : Buffer)

def nodeBuf : Option Nat → Buffer
  | none => root
  | some b => image.block b

def Child (x y : Option Nat) : Prop := ∃ b, y = some b ∧ PointsTo (nodeBuf image root x) b

def Visited (x : Option Nat) : Prop := ReflTransGen (Child image root) none x

end Nodes

section Entries

variable {buf : Buffer} {ie b : Nat}

theorem extentIdx_ok (read : extentIdx buf ie = .ok b) :
    12 + 12 * ie + 10 ≤ buf.size ∧ b < 2 ^ 48 := by
  obtain ⟨lo, readLo, read⟩ := bind_eq_ok.1 read
  obtain ⟨hi, readHi, read⟩ := bind_eq_ok.1 read
  obtain ⟨-, rfl⟩ := Buffer.le_eq_ok readLo
  obtain ⟨inside, rfl⟩ := Buffer.le_eq_ok readHi
  have low := leValue_lt buf.byte (12 + 12 * ie + 4) 4
  have high := leValue_lt buf.byte (12 + 12 * ie + 8) 2
  obtain rfl := Except.ok.inj read
  unfold CAT3232U
  omega

theorem extentIdx_of_inside (inside : 12 + 12 * ie + 10 ≤ buf.size) :
    ∃ b, extentIdx buf ie = .ok b := by
  rw [extentIdx, Buffer.le_of_inside (by omega), ok_bind, Buffer.le_of_inside (by omega), ok_bind]
  exact ⟨_, rfl⟩

theorem extentAt_ok {e : Ext} (read : extentAt buf ie = .ok e) :
    12 + 12 * ie + 12 ≤ buf.size := by
  obtain ⟨_, -, read⟩ := bind_eq_ok.1 read
  obtain ⟨_, -, read⟩ := bind_eq_ok.1 read
  obtain ⟨_, -, read⟩ := bind_eq_ok.1 read
  obtain ⟨_, readLo, -⟩ := bind_eq_ok.1 read
  have inside := (Buffer.le_eq_ok readLo).1
  omega

theorem extentAt_of_inside (inside : 12 + 12 * ie + 12 ≤ buf.size) :
    ∃ e, extentAt buf ie = .ok e := by
  rw [extentAt, Buffer.le_of_inside (by omega), ok_bind, Buffer.le_of_inside (by omega), ok_bind,
    Buffer.le_of_inside (by omega), ok_bind, Buffer.le_of_inside (by omega), ok_bind]
  exact ⟨_, rfl⟩

end Entries

section Walks

variable {image : Image} {root : Buffer} {x y : Option Nat} {frames blkNum : Nat}
  {own : Option Buffer}

theorem finite_visited (image : Image) (root : Buffer) :
    {x | ReflTransGen (Child image root) none x}.Finite := by
  refine ((Set.finite_lt_nat (2 ^ 48)).image some |>.insert none).subset fun x reached => ?_
  rcases reached.cases_tail with rfl | ⟨_, -, b, rfl, eh, -, -, ie, -, read⟩
  · exact Set.mem_insert _ _
  · exact Set.mem_insert_of_mem _ ⟨b, (extentIdx_ok read).2, rfl⟩

theorem getD_none (image : Image) (root : Buffer) (b : Nat) :
    (none : Option Buffer).getD (image.block b) = nodeBuf image root (some b) := rfl

section Node

variable {eh : ExtentHeader} (header : extentHeader (nodeBuf image root x) = .ok eh)

include header

theorem child_iff : Child image root x y ↔ eh.ehDepth ≠ 0 ∧
    ∃ b, y = some b ∧ ∃ ie < eh.ehEntries, extentIdx (nodeBuf image root x) ie = .ok b := by
  constructor
  · rintro ⟨b, rfl, eh', header', index, read⟩
    obtain rfl := Except.ok.inj (header.symm.trans header')
    exact ⟨index, b, rfl, read⟩
  · rintro ⟨index, b, rfl, read⟩
    exact ⟨b, rfl, eh, header, index, read⟩

theorem indexInside_iff : IndexInside (nodeBuf image root x) ↔
    (eh.ehDepth ≠ 0 → ∀ ie < eh.ehEntries, 12 + 12 * ie + 10 ≤ (nodeBuf image root x).size) := by
  refine ⟨fun inside => inside eh header, fun inside eh' header' => ?_⟩
  obtain rfl := Except.ok.inj (header.symm.trans header')
  exact inside

theorem leafInside_iff : LeafInside (nodeBuf image root x) ↔
    (eh.ehDepth = 0 → ∀ ie < eh.ehEntries, 12 + 12 * ie + 12 ≤ (nodeBuf image root x).size) := by
  refine ⟨fun inside => inside eh header, fun inside eh' header' => ?_⟩
  obtain rfl := Except.ok.inj (header.symm.trans header')
  exact inside

theorem not_child_of_leaf (leaf : eh.ehDepth = 0) : ¬ Child image root x y := fun child =>
  ((child_iff header).1 child).1 leaf

theorem of_called {P : Option Nat → Prop}
    (called : ∀ ie < eh.ehEntries, ∃ b, extentIdx (nodeBuf image root x) ie = .ok b ∧
      (Child image root x (some b) → P (some b))) :
    IndexInside (nodeBuf image root x) ∧ ∀ y, Child image root x y → P y := by
  constructor
  · refine (indexInside_iff header).2 fun _ ie hie => ?_
    obtain ⟨b, read, -⟩ := called ie hie
    exact (extentIdx_ok read).1
  · intro y child
    obtain ⟨-, b, rfl, ie, hie, read⟩ := (child_iff header).1 child
    obtain ⟨b', read', holds⟩ := called ie hie
    obtain rfl := Except.ok.inj (read.symm.trans read')
    exact holds child

end Node

theorem extractExtents_loop_of_calc {buf : Buffer} {l : List Nat}
    (below : ∀ ie ∈ l, ∀ b, extentIdx buf ie = .ok b → ∀ len len',
      calcExtentSize image frames b none len = .ok len' →
        ∃ n, len' = len + n ∧ ∀ s : Extraction, s.el + n ≤ s.exts.length →
          ∃ exts, extractExtents image frames b none s = .ok (exts, s.sz + n) ∧
            exts.length = s.exts.length) {len len' : Nat}
    (run : l.foldlM (fun len ie => do
      let b ← extentIdx buf ie
      calcExtentSize image frames b none len) len = .ok len') :
    ∃ n, len' = len + n ∧ ∀ s : Extraction, s.el + n ≤ s.exts.length →
      ∃ s', l.foldlM (fun (s : Extraction) ie => do
          let b ← extentIdx buf ie
          let (exts, len) ← extractExtents image frames b none ⟨s.exts, s.el, 0⟩
          .ok (⟨exts, s.el + len, s.sz + len⟩ : Extraction)) s = .ok s' ∧
        s'.sz = s.sz + n ∧ s'.exts.length = s.exts.length := by
  induction l generalizing len with
  | nil =>
      obtain rfl := Except.ok.inj run
      exact ⟨0, rfl, fun s _ => ⟨s, rfl, rfl, rfl⟩⟩
  | cons ie rest ih =>
      rw [List.foldlM_cons] at run
      obtain ⟨mid, step, run⟩ := bind_eq_ok.1 run
      obtain ⟨b, read, call⟩ := bind_eq_ok.1 step
      obtain ⟨n, rfl, first⟩ := below ie List.mem_cons_self b read len mid call
      obtain ⟨m, rfl, later⟩ := ih (fun ie hie => below ie (List.mem_cons_of_mem _ hie)) run
      refine ⟨n + m, Nat.add_assoc _ _ _, fun s room => ?_⟩
      obtain ⟨exts, extracted, length⟩ := first ⟨s.exts, s.el, 0⟩ (by dsimp only; omega)
      obtain ⟨s', ran, size, length'⟩ := later ⟨exts, s.el + n, s.sz + n⟩ (by
        dsimp only at length ⊢
        omega)
      refine ⟨s', ?_, by rw [size, Nat.add_assoc], length'.trans length⟩
      rw [List.foldlM_cons, read, ok_bind, extracted, ok_bind]
      dsimp only
      rw [Nat.zero_add, ok_bind, ran]

variable (checked : ∀ x, Visited image root x → Checked (nodeBuf image root x))

include checked

/-- The count ends within some frames exactly if the recursion over the nodes does. -/
theorem calcExtentSize_ok_iff (visited : Visited image root x)
    (same : own.getD (image.block blkNum) = nodeBuf image root x) (len : Nat) :
    (∃ len', calcExtentSize image frames blkNum own len = .ok len') ↔
      Ends (fun x => IndexInside (nodeBuf image root x)) (Child image root) frames x := by
  induction frames generalizing x own blkNum len with
  | zero =>
      refine iff_of_false ?_ id
      rintro ⟨_, run⟩
      cases run
  | succ frames ih =>
      obtain ⟨eh, header, magic, shallow, few⟩ := checked x visited
      rw [calcExtentSize, same, header, ok_bind, if_neg (not_not_intro magic), if_neg (by omega),
        if_neg (by omega)]
      by_cases leaf : eh.ehDepth = 0
      · rw [if_pos leaf]
        exact iff_of_true ⟨_, rfl⟩ ⟨(indexInside_iff header).2 fun index => absurd leaf index,
          fun y child => absurd child (not_child_of_leaf header leaf)⟩
      · rw [if_neg leaf]
        constructor
        · rintro ⟨len', run⟩
          refine of_called header fun ie hie => ?_
          obtain ⟨mid, -, next, step⟩ :=
            exists_visit_of_ok run (List.mem_range'_1.2 ⟨Nat.zero_le ie, by omega⟩)
          obtain ⟨b, read, call⟩ := bind_eq_ok.1 step
          exact ⟨b, read, fun child =>
            (ih (visited.tail child) (getD_none image root b) mid).1 ⟨next, call⟩⟩
        · rintro ⟨inside, below⟩
          have step : ∀ ie ∈ List.range' 0 eh.ehEntries, ∀ mid, True → ∃ next, (do
              let b ← extentIdx (nodeBuf image root x) ie
              calcExtentSize image frames b none mid) = .ok next ∧ True := by
            intro ie hie mid _
            have few : ie < eh.ehEntries := by
              have range := List.mem_range'_1.1 hie
              omega
            obtain ⟨b, read⟩ := extentIdx_of_inside ((indexInside_iff header).1 inside leaf ie few)
            have child := (child_iff header).2 ⟨leaf, b, rfl, ie, few, read⟩
            obtain ⟨next, call⟩ :=
              (ih (visited.tail child) (getD_none image root b) mid).2 (below _ child)
            exact ⟨next, by rw [read, ok_bind, call], trivial⟩
          obtain ⟨len', run, -⟩ := foldlM_total (fun _ => True) step (b := len) trivial
          exact ⟨len', run⟩

/-- The extraction ends if the count does, the leaves are inside of their buffers and the list has
room for as many extents as are counted. -/
theorem extractExtents_of_calc (visited : Visited image root x)
    (same : own.getD (image.block blkNum) = nodeBuf image root x)
    (inside : ∀ x, Visited image root x → LeafInside (nodeBuf image root x)) {len len' : Nat}
    (run : calcExtentSize image frames blkNum own len = .ok len') :
    ∃ n, len' = len + n ∧ ∀ s : Extraction, s.el + n ≤ s.exts.length →
      ∃ exts, extractExtents image frames blkNum own s = .ok (exts, s.sz + n) ∧
        exts.length = s.exts.length := by
  induction frames generalizing x own blkNum len len' with
  | zero => cases run
  | succ frames ih =>
      obtain ⟨eh, header, magic, shallow, few⟩ := checked x visited
      rw [calcExtentSize, same, header, ok_bind, if_neg (not_not_intro magic), if_neg (by omega),
        if_neg (by omega)] at run
      by_cases leaf : eh.ehDepth = 0
      · rw [if_pos leaf] at run
        refine ⟨eh.ehEntries, (Except.ok.inj run).symm, fun s room => ?_⟩
        have step : ∀ ie ∈ List.range' 0 eh.ehEntries, ∀ exts : List Ext,
            exts.length = s.exts.length → ∃ exts', (do
              let e ← extentAt (nodeBuf image root x) ie
              store exts (s.el + ie) e) = .ok exts' ∧ exts'.length = s.exts.length := by
          intro ie hie exts length
          have range := List.mem_range'_1.1 hie
          obtain ⟨e, read⟩ := extentAt_of_inside (inside x visited eh header leaf ie (by omega))
          refine ⟨exts.set (s.el + ie) e, ?_, by rw [List.length_set, length]⟩
          rw [read, ok_bind, store, if_pos (by omega)]
        obtain ⟨exts, stored, length⟩ := foldlM_total
          (fun exts : List Ext => exts.length = s.exts.length) step rfl
        refine ⟨exts, ?_, length⟩
        rw [extractExtents, same, header, ok_bind, if_neg (not_not_intro magic),
          if_neg (not_not_intro leaf), stored, ok_bind]
      · rw [if_neg leaf] at run
        obtain ⟨n, rfl, extracted⟩ := extractExtents_loop_of_calc
          (fun ie hie b read len len' call => by
            have range := List.mem_range'_1.1 hie
            have child := (child_iff header).2 ⟨leaf, b, rfl, ie, by omega, read⟩
            exact ih (visited.tail child) (getD_none image root b) call) run
        refine ⟨n, rfl, fun s room => ?_⟩
        obtain ⟨s', ran, size, length⟩ := extracted s room
        refine ⟨s'.exts, ?_, length⟩
        rw [extractExtents, same, header, ok_bind, if_neg (not_not_intro magic), if_pos leaf, ran,
          ok_bind, size]

def NodeInside (buf : Buffer) : Prop := IndexInside buf ∧ LeafInside buf

omit checked in
theorem ends_of_extractExtents (same : own.getD (image.block blkNum) = nodeBuf image root x)
    {s : Extraction} {result : List Ext × Nat}
    (run : extractExtents image frames blkNum own s = .ok result) :
    Ends (fun x => NodeInside (nodeBuf image root x)) (Child image root) frames x := by
  induction frames generalizing x own blkNum s result with
  | zero => cases run
  | succ frames ih =>
      rw [extractExtents, same] at run
      obtain ⟨eh, header, run⟩ := bind_eq_ok.1 run
      split_ifs at run with magic leaf
      · obtain ⟨s', ran, -⟩ := bind_eq_ok.1 run
        have below := of_called (P := Ends (fun x => NodeInside (nodeBuf image root x))
          (Child image root) frames) header fun ie hie => by
            obtain ⟨mid, -, next, step⟩ :=
              exists_visit_of_ok ran (List.mem_range'_1.2 ⟨Nat.zero_le ie, by omega⟩)
            obtain ⟨b, read, step⟩ := bind_eq_ok.1 step
            obtain ⟨result, call, -⟩ := bind_eq_ok.1 step
            exact ⟨b, read, fun _ => ih (getD_none image root b) call⟩
        exact ⟨⟨below.1, (leafInside_iff header).2 fun zero => absurd zero leaf⟩, below.2⟩
      · obtain ⟨exts, ran, -⟩ := bind_eq_ok.1 run
        have leaf := not_not.1 leaf
        refine ⟨⟨(indexInside_iff header).2 fun index => absurd leaf index,
          (leafInside_iff header).2 fun _ ie hie => ?_⟩,
          fun y child => absurd child (not_child_of_leaf header leaf)⟩
        obtain ⟨mid, -, next, step⟩ :=
          exists_visit_of_ok ran (List.mem_range'_1.2 ⟨Nat.zero_le ie, by omega⟩)
        obtain ⟨e, read, -⟩ := bind_eq_ok.1 step
        exact extentAt_ok read

end Walks

/-- Where the header checks pass, the count of a node ends exactly if the index entries are in
their buffers and no block is below itself.  The extraction to a list with room for what is
counted ends if the leaves are in their buffers, too. -/
theorem walks_end_iff (image : Image) (blkNum : Nat) (own : Option Buffer)
    (checked : ∀ x, Visited image (own.getD (image.block blkNum)) x →
      Checked (nodeBuf image (own.getD (image.block blkNum)) x)) :
    (∀ len, (∃ frames len', calcExtentSize image frames blkNum own len = .ok len') ↔
      ∀ x, Visited image (own.getD (image.block blkNum)) x →
        IndexInside (nodeBuf image (own.getD (image.block blkNum)) x) ∧
          ¬ TransGen (Child image (own.getD (image.block blkNum))) x x) ∧
    ∀ s : Extraction, (∀ frames n, calcExtentSize image frames blkNum own 0 = .ok n →
        s.el + n ≤ s.exts.length) →
      ((∃ frames result, extractExtents image frames blkNum own s = .ok result) ↔
        ∀ x, Visited image (own.getD (image.block blkNum)) x →
          NodeInside (nodeBuf image (own.getD (image.block blkNum)) x) ∧
            ¬ TransGen (Child image (own.getD (image.block blkNum))) x x) := by
  set root := own.getD (image.block blkNum) with hroot
  have same : own.getD (image.block blkNum) = nodeBuf image root none := hroot.symm
  have finite := finite_visited image root
  constructor
  · intro len
    refine Iff.trans ?_ (exists_ends_iff finite)
    exact exists_congr fun frames => calcExtentSize_ok_iff checked .refl same len
  · intro s room
    refine Iff.trans ?_ (exists_ends_iff finite)
    constructor
    · rintro ⟨frames, result, run⟩
      exact ⟨frames, ends_of_extractExtents same run⟩
    · rintro ⟨frames, ends⟩
      have inside : ∀ x, Visited image root x → LeafInside (nodeBuf image root x) :=
        fun x visited => (ends.reached visited).2
      obtain ⟨n, run⟩ := (calcExtentSize_ok_iff checked .refl same 0).2
        (ends.imp fun x node => node.1)
      obtain ⟨m, rfl, extracted⟩ := extractExtents_of_calc checked .refl same inside run
      obtain ⟨exts, ran, -⟩ := extracted s (by
        have fits := room frames _ run
        omega)
      exact ⟨frames, _, ran⟩

/-! The root with two entries of `twoLeaves`, and its leaves. -/

theorem twoLeaves_root : extentHeader (nodeBuf twoLeaves twoLeavesRoot none) =
    .ok ⟨EXT4_EXTENT_HEADER_MAGIC, 2, 4, 1⟩ := rfl

theorem twoLeaves_first : extentHeader (nodeBuf twoLeaves twoLeavesRoot (some 1)) =
    .ok ⟨EXT4_EXTENT_HEADER_MAGIC, 2, 340, 0⟩ := rfl

theorem twoLeaves_second : extentHeader (nodeBuf twoLeaves twoLeavesRoot (some 2)) =
    .ok ⟨EXT4_EXTENT_HEADER_MAGIC, 1, 340, 0⟩ := rfl

theorem visited_twoLeaves {x : Option Nat} (visited : Visited twoLeaves twoLeavesRoot x) :
    x = none ∨ x = some 1 ∨ x = some 2 := by
  induction visited with
  | refl => exact .inl rfl
  | tail _ below ih =>
      rcases ih with rfl | rfl | rfl
      · obtain ⟨-, b, rfl, ie, few, read⟩ := (child_iff twoLeaves_root).1 below
        have range : ie = 0 ∨ ie = 1 := by
          have : ie < 2 := few
          omega
        rcases range with rfl | rfl
        · exact .inr (.inl (congrArg some (Except.ok.inj read).symm))
        · exact .inr (.inr (congrArg some (Except.ok.inj read).symm))
      · exact absurd below (not_child_of_leaf twoLeaves_first rfl)
      · exact absurd below (not_child_of_leaf twoLeaves_second rfl)

theorem checked_twoLeaves {x : Option Nat} (visited : Visited twoLeaves twoLeavesRoot x) :
    Checked (nodeBuf twoLeaves twoLeavesRoot x) := by
  rcases visited_twoLeaves visited with rfl | rfl | rfl
  · exact ⟨_, twoLeaves_root, rfl, by decide, by decide⟩
  · exact ⟨_, twoLeaves_first, rfl, by decide, by decide⟩
  · exact ⟨_, twoLeaves_second, rfl, by decide, by decide⟩

theorem nodeInside_twoLeaves {x : Option Nat} (visited : Visited twoLeaves twoLeavesRoot x) :
    NodeInside (nodeBuf twoLeaves twoLeavesRoot x) := by
  rcases visited_twoLeaves visited with rfl | rfl | rfl
  · exact ⟨(indexInside_iff twoLeaves_root).2 (by decide),
      (leafInside_iff twoLeaves_root).2 (by decide)⟩
  · exact ⟨(indexInside_iff twoLeaves_first).2 (by decide),
      (leafInside_iff twoLeaves_first).2 (by decide)⟩
  · exact ⟨(indexInside_iff twoLeaves_second).2 (by decide),
      (leafInside_iff twoLeaves_second).2 (by decide)⟩

/-- The leaves have no children, and the root is nobody's child. -/
theorem acyclic_twoLeaves {x : Option Nat} (visited : Visited twoLeaves twoLeavesRoot x) :
    ¬ TransGen (Child twoLeaves twoLeavesRoot) x x := by
  intro around
  obtain ⟨_, below, -⟩ := TransGen.head'_iff.1 around
  rcases visited_twoLeaves visited with rfl | rfl | rfl
  · obtain ⟨_, -, b, root, -⟩ := TransGen.tail'_iff.1 around
    cases root
  · exact not_child_of_leaf twoLeaves_first rfl below
  · exact not_child_of_leaf twoLeaves_second rfl below

theorem walks_end_iff_twoLeaves :
    (∃ frames len', calcExtentSize twoLeaves frames 0 (some twoLeavesRoot) 0 = .ok len') ∧
      ∃ frames result, extractExtents twoLeaves frames 0 (some twoLeavesRoot)
        ⟨List.replicate 3 ⟨0, 0, 0⟩, 0, 0⟩ = .ok result := by
  obtain ⟨count, extract⟩ := walks_end_iff twoLeaves 0 (some twoLeavesRoot)
    fun _ visited => checked_twoLeaves visited
  refine ⟨(count 0).2 fun _ visited =>
    ⟨(nodeInside_twoLeaves visited).1, acyclic_twoLeaves visited⟩, (extract _ ?_).2
      fun _ visited => ⟨nodeInside_twoLeaves visited, acyclic_twoLeaves visited⟩⟩
  intro frames n run
  match frames with
  | 0 => cases run
  | 1 => cases run
  | frames + 2 =>
      have rooted : Stored twoLeaves 1 _ ((some twoLeavesRoot).getD (twoLeaves.block 0)) :=
        stored_twoLeaves
      have counted := calcExtentSize_eq rooted (by decide) (show 1 < frames + 2 by omega) 0
      obtain rfl := Except.ok.inj (counted.symm.trans run)
      decide

/-- An image in which each block is an index node with one entry, which points to block 1. -/
def selfBlock : Image := fun i =>
  ([0x0A, 0xF3, 1, 0, 84, 1, 1, 0, 0, 0, 0, 0, 0, 0, 0, 0, 1, 0, 0, 0, 0, 0, 0, 0]
    : List UInt8).getD (i % BLK_SIZE) 0

/-- A block that points to itself passes all checks. -/
theorem walks_do_not_end :
    (∀ x, Visited selfBlock (selfBlock.block 1) x →
      Checked (nodeBuf selfBlock (selfBlock.block 1) x)) ∧
    (¬ ∃ frames len', calcExtentSize selfBlock frames 1 none 0 = .ok len') ∧
    ¬ ∃ frames result, extractExtents selfBlock frames 1 none ⟨[], 0, 0⟩ = .ok result := by
  have header : extentHeader (selfBlock.block 1) = .ok ⟨EXT4_EXTENT_HEADER_MAGIC, 1, 340, 1⟩ := rfl
  have idx : extentIdx (selfBlock.block 1) 0 = .ok 1 := rfl
  have nodes : ∀ x, Visited selfBlock (selfBlock.block 1) x →
      nodeBuf selfBlock (selfBlock.block 1) x = selfBlock.block 1 := by
    intro x visited
    induction visited with
    | refl => rfl
    | tail _ below ih =>
        obtain ⟨b, rfl, eh, header', -, ie, hie, read⟩ := below
        rw [ih] at header' read
        obtain rfl := Except.ok.inj (header.symm.trans header')
        obtain rfl : ie = 0 := Nat.lt_one_iff.1 hie
        obtain rfl := Except.ok.inj (idx.symm.trans read)
        rfl
  have checked : ∀ x, Visited selfBlock (selfBlock.block 1) x →
      Checked (nodeBuf selfBlock (selfBlock.block 1) x) := by
    intro x visited
    rw [nodes x visited]
    exact ⟨_, header, rfl, by decide, by decide⟩
  have finite := finite_visited selfBlock (selfBlock.block 1)
  have first : Child selfBlock (selfBlock.block 1) none (some 1) :=
    ⟨1, rfl, _, header, Nat.one_ne_zero, 0, Nat.one_pos, idx⟩
  have around : Child selfBlock (selfBlock.block 1) (some 1) (some 1) :=
    ⟨1, rfl, _, header, Nat.one_ne_zero, 0, Nat.one_pos, idx⟩
  refine ⟨checked, ?_, ?_⟩
  · rintro ⟨frames, run⟩
    have ends := (calcExtentSize_ok_iff checked .refl rfl 0).1 run
    exact ((exists_ends_iff finite).1 ⟨frames, ends⟩ _ (.single first)).2 (.single around)
  · rintro ⟨frames, result, run⟩
    have root : (none : Option Buffer).getD (selfBlock.block 1) =
        nodeBuf selfBlock (selfBlock.block 1) none := rfl
    have ends := ends_of_extractExtents root run
    exact ((exists_ends_iff finite).1 ⟨frames, ends⟩ _ (.single first)).2 (.single around)

end SimpleSSD.ISC.Ext4
