import SimpleSSD.Foundation.Arrays
import SimpleSSD.Foundation.Fallible
import SimpleSSD.ISC.Buffer

/-!
# Extent trees

`isc/fs/ext4/ext4.cc`.  The blocks of a file are listed in the leaves of a tree whose root is
in the inode.  One recursion counts the extents and one writes them to a list.  Both call
themselves once for each entry of an index node, as deep as the stack has room for frames.
-/

namespace SimpleSSD.ISC.Ext4

open SimpleSSD.Foundation

structure ExtentHeader where
  ehMagic : Nat
  ehEntries : Nat
  ehMax : Nat
  ehDepth : Nat
  deriving DecidableEq

structure Ext where
  block : Nat
  slbn : Nat
  len : Nat
  deriving DecidableEq

structure Inode where
  iFlags : Nat
  iBlock : Buffer

def EXT4_EXTENTS_FL : Nat := 0x00080000

def EXT4_EXTENT_HEADER_MAGIC : Nat := 0xF30A

def CAT3232U (hi lo : Nat) : Nat := hi * 2 ^ 32 + lo

def extentHeader (buf : Buffer) : Except Fault ExtentHeader := do
  let ehMagic ← buf.le 0 2
  let ehEntries ← buf.le 2 2
  let ehMax ← buf.le 4 2
  let ehDepth ← buf.le 6 2
  .ok ⟨ehMagic, ehEntries, ehMax, ehDepth⟩

def extentIdx (buf : Buffer) (ie : Nat) : Except Fault Nat := do
  let eiLeafLo ← buf.le (12 + 12 * ie + 4) 4
  let eiLeafHi ← buf.le (12 + 12 * ie + 8) 2
  .ok (CAT3232U eiLeafHi eiLeafLo)

def extentAt (buf : Buffer) (ie : Nat) : Except Fault Ext := do
  let eeBlock ← buf.le (12 + 12 * ie) 4
  let eeLen ← buf.le (12 + 12 * ie + 4) 2
  let eeStartHi ← buf.le (12 + 12 * ie + 6) 2
  let eeStartLo ← buf.le (12 + 12 * ie + 8) 4
  .ok ⟨eeBlock, CAT3232U eeStartHi eeStartLo, eeLen⟩

variable (image : Image)

def calcExtentSize : Nat → Nat → Option Buffer → Nat → Except Fault Nat
  | 0, _, _, _ => .error .undefined
  | frames + 1, blkNum, buf, len => do
      let buf := buf.getD (image.block blkNum)
      let eh ← extentHeader buf
      if eh.ehMagic ≠ EXT4_EXTENT_HEADER_MAGIC then
        .error (.panic "eh->eh_magic == EXT4_EXTENT_HEADER_MAGIC")
      else if 5 < eh.ehDepth then .error (.panic "eh->eh_depth <= 5")
      else if eh.ehMax < eh.ehEntries then .error (.panic "eh->eh_entries <= eh->eh_max")
      else if eh.ehDepth = 0 then .ok (len + eh.ehEntries)
      else
        (List.range' 0 eh.ehEntries).foldlM (fun len ie => do
          let b ← extentIdx buf ie
          calcExtentSize frames b none len) len

/-- A list of extents with the place where the next ones go, and the number of those that
have been written. -/
structure Extraction where
  exts : List Ext
  el : Nat
  sz : Nat

def store (exts : List Ext) (i : Nat) (e : Ext) : Except Fault (List Ext) :=
  if i < exts.length then .ok (exts.set i e) else .error .undefined

/-- `el` is an index into the list. -/
def extractExtents : Nat → Nat → Option Buffer → Extraction → Except Fault (List Ext × Nat)
  | 0, _, _, _ => .error .undefined
  | frames + 1, blkNum, buf, s => do
      let buf := buf.getD (image.block blkNum)
      let eh ← extentHeader buf
      if eh.ehMagic ≠ EXT4_EXTENT_HEADER_MAGIC then
        .error (.panic "eh->eh_magic == EXT4_EXTENT_HEADER_MAGIC")
      else if eh.ehDepth ≠ 0 then
        let s ← (List.range' 0 eh.ehEntries).foldlM (fun s ie => do
          let b ← extentIdx buf ie
          let (exts, len) ← extractExtents frames b none ⟨s.exts, s.el, 0⟩
          .ok ⟨exts, s.el + len, s.sz + len⟩) s
        .ok (s.exts, s.sz)
      else
        let exts ← (List.range' 0 eh.ehEntries).foldlM (fun exts ie => do
          let e ← extentAt buf ie
          store exts (s.el + ie) e) s.exts
        .ok (exts, s.sz + eh.ehEntries)

def getExtent (frames : Nat) (ino : Inode) : Except Fault (Option (List Ext) × Nat) :=
  if ino.iFlags &&& EXT4_EXTENTS_FL = 0 then .ok (none, 0)
  else do
    let eh ← extentHeader ino.iBlock
    if eh.ehMagic ≠ EXT4_EXTENT_HEADER_MAGIC then .ok (none, 0)
    else if 5 < eh.ehDepth then .error (.panic "!!!Extent Tree depth should never > 5!!!")
    else
      let sz ← calcExtentSize image frames 0 (some ino.iBlock) 0
      let (exts, ofs) ← extractExtents image frames 0 (some ino.iBlock)
        ⟨List.replicate sz ⟨0, 0, 0⟩, 0, 0⟩
      if sz ≠ ofs then .error (.panic "sz == (size_t)ofs") else .ok (some exts, sz)

/-! ## Trees -/

def Tree : Nat → Type
  | 0 => List Ext
  | depth + 1 => List (Nat × Tree depth)

def leaves : (depth : Nat) → Tree depth → List Ext
  | 0, exts => exts
  | depth + 1, children => List.flatMap (fun child => leaves depth child.2) children

def Headed (buf : Buffer) (entries depth : Nat) : Prop :=
  ∃ ehMax, entries ≤ ehMax ∧
    extentHeader buf = .ok ⟨EXT4_EXTENT_HEADER_MAGIC, entries, ehMax, depth⟩

def Stored : (depth : Nat) → Tree depth → Buffer → Prop
  | 0, exts, buf => Headed buf (List.length exts) 0 ∧
      Listed (fun ie e => extentAt buf ie = .ok e) 0 exts
  | depth + 1, children, buf => Headed buf (List.length children) (depth + 1) ∧
      Listed (fun ie child => extentIdx buf ie = .ok child.1 ∧
        Stored depth child.2 (image.block child.1)) 0 children

variable {image} {buf : Buffer} {depth frames : Nat}

/-! ## The two recursions -/

theorem calcExtentSize_index {children : List (Nat × Tree depth)} {own : Option Buffer}
    {blkNum : Nat} (headed : Headed (own.getD (image.block blkNum)) children.length (depth + 1))
    (shallow : depth + 1 ≤ 5) (len : Nat) :
    calcExtentSize image (frames + 1) blkNum own len =
      (List.range' 0 children.length).foldlM (fun len ie => do
        let b ← extentIdx (own.getD (image.block blkNum)) ie
        calcExtentSize image frames b none len) len := by
  obtain ⟨ehMax, fits, header⟩ := headed
  rw [calcExtentSize, header, ok_bind]
  dsimp only
  rw [if_neg (by simp), if_neg (by omega), if_neg (by omega), if_neg (by omega)]

theorem calcExtentSize_leaf {entries : Nat} {own : Option Buffer} {blkNum : Nat}
    (headed : Headed (own.getD (image.block blkNum)) entries 0) (len : Nat) :
    calcExtentSize image (frames + 1) blkNum own len = .ok (len + entries) := by
  obtain ⟨ehMax, fits, header⟩ := headed
  rw [calcExtentSize, header, ok_bind]
  dsimp only
  rw [if_neg (by simp), if_neg (by omega), if_neg (by omega), if_pos rfl]

theorem calcExtentSize_loop
    (below : ∀ (tree : Tree depth) (blkNum len : Nat),
      Stored image depth tree (image.block blkNum) →
        calcExtentSize image frames blkNum none len = .ok (len + (leaves depth tree).length))
    {children : List (Nat × Tree depth)} {start : Nat} (len : Nat)
    (listed : Listed (fun ie child => extentIdx buf ie = .ok child.1 ∧
      Stored image depth child.2 (image.block child.1)) start children) :
    (List.range' start children.length).foldlM (fun len ie => do
      let b ← extentIdx buf ie
      calcExtentSize image frames b none len) len =
        .ok (len + (leaves (depth + 1) children).length) := by
  induction children generalizing start len with
  | nil => rfl
  | cons child rest ih =>
      obtain ⟨⟨idx, node⟩, listed⟩ := listed
      rw [List.length_cons, List.range'_succ, List.foldlM_cons, idx, ok_bind,
        below child.2 child.1 len node, ok_bind, ih _ listed]
      simp [leaves, Nat.add_assoc]

theorem calcExtentSize_eq {tree : Tree depth} {own : Option Buffer} {blkNum : Nat}
    (stored : Stored image depth tree (own.getD (image.block blkNum)))
    (shallow : depth ≤ 5) (frame : depth < frames) (len : Nat) :
    calcExtentSize image frames blkNum own len = .ok (len + (leaves depth tree).length) := by
  induction depth generalizing frames own blkNum len with
  | zero =>
      obtain ⟨frames, rfl⟩ := Nat.exists_eq_add_of_lt frame
      rw [Nat.zero_add]
      exact calcExtentSize_leaf stored.1 len
  | succ depth ih =>
      cases frames with
      | zero => omega
      | succ frames =>
          rw [calcExtentSize_index stored.1 shallow]
          refine calcExtentSize_loop (fun child blkNum len node => ?_) len stored.2
          have childOwn : Stored image depth child ((none : Option Buffer).getD
            (image.block blkNum)) := node
          exact ih childOwn (by omega) (by omega) len

theorem store_loop (el : Nat) (exts : List Ext) {written : List Ext} {start : Nat}
    (listed : Listed (fun ie e => extentAt buf ie = .ok e) start written)
    (room : el + start + written.length ≤ exts.length) :
    (List.range' start written.length).foldlM (fun exts ie => do
      let e ← extentAt buf ie
      store exts (el + ie) e) exts = .ok (overwrite exts (el + start) written) := by
  induction written generalizing start exts with
  | nil =>
      rw [overwrite_nil]
      rfl
  | cons e rest ih =>
      obtain ⟨entry, listed⟩ := listed
      rw [List.length_cons] at room
      rw [overwrite_cons room, List.length_cons, List.range'_succ, List.foldlM_cons, entry,
        ok_bind, store, if_pos (by omega), ok_bind, ih _ listed (by rw [List.length_set]; omega),
        Nat.add_assoc]

theorem extractExtents_leaf {exts : List Ext} {own : Option Buffer} {blkNum : Nat}
    (stored : Stored image 0 exts (own.getD (image.block blkNum))) (s : Extraction)
    (room : s.el + exts.length ≤ s.exts.length) :
    extractExtents image (frames + 1) blkNum own s =
      .ok (overwrite s.exts s.el exts, s.sz + exts.length) := by
  obtain ⟨⟨ehMax, -, header⟩, listed⟩ := stored
  have loop := store_loop s.el s.exts listed room
  rw [extractExtents, header, ok_bind]
  dsimp only
  rw [if_neg (by simp), if_neg (by simp), loop, ok_bind, Nat.add_zero]

theorem extractExtents_index {children : List (Nat × Tree depth)} {own : Option Buffer}
    {blkNum : Nat} (headed : Headed (own.getD (image.block blkNum)) children.length (depth + 1))
    (s : Extraction) :
    extractExtents image (frames + 1) blkNum own s =
      ((List.range' 0 children.length).foldlM (fun (s : Extraction) ie => do
        let b ← extentIdx (own.getD (image.block blkNum)) ie
        let (exts, len) ← extractExtents image frames b none ⟨s.exts, s.el, 0⟩
        .ok ⟨exts, s.el + len, s.sz + len⟩) s).map
          fun s : Extraction => (s.exts, s.sz) := by
  obtain ⟨ehMax, -, header⟩ := headed
  rw [extractExtents, header, ok_bind]
  dsimp only
  rw [if_neg (by simp), if_pos (by simp)]
  rfl

theorem extractExtents_loop
    (below : ∀ (tree : Tree depth) (blkNum : Nat) (s : Extraction),
      Stored image depth tree (image.block blkNum) →
      s.el + (leaves depth tree).length ≤ s.exts.length →
        extractExtents image frames blkNum none s =
          .ok (overwrite s.exts s.el (leaves depth tree), s.sz + (leaves depth tree).length))
    {children : List (Nat × Tree depth)} {start : Nat} (s : Extraction)
    (listed : Listed (fun ie child => extentIdx buf ie = .ok child.1 ∧
      Stored image depth child.2 (image.block child.1)) start children)
    (room : s.el + (leaves (depth + 1) children).length ≤ s.exts.length) :
    (List.range' start children.length).foldlM (fun (s : Extraction) ie => do
      let b ← extentIdx buf ie
      let (exts, len) ← extractExtents image frames b none ⟨s.exts, s.el, 0⟩
      .ok ⟨exts, s.el + len, s.sz + len⟩) s =
        .ok (⟨overwrite s.exts s.el (leaves (depth + 1) children),
          s.el + (leaves (depth + 1) children).length,
          s.sz + (leaves (depth + 1) children).length⟩ : Extraction) := by
  induction children generalizing start s with
  | nil =>
      have none : leaves (depth + 1) ([] : List (Nat × Tree depth)) = [] := rfl
      rw [none, overwrite_nil]
      rfl
  | cons child rest ih =>
      obtain ⟨⟨idx, node⟩, listed⟩ := listed
      have split : leaves (depth + 1) (child :: rest) =
          leaves depth child.2 ++ leaves (depth + 1) rest := List.flatMap_cons
      rw [split, List.length_append] at room
      have first := below child.2 child.1 ⟨s.exts, s.el, 0⟩ node (by dsimp only; omega)
      have roomRest : s.el + (leaves depth child.2).length + (leaves (depth + 1) rest).length ≤
          (overwrite s.exts s.el (leaves depth child.2)).length := by
        rw [length_overwrite (by omega)]
        omega
      rw [List.length_cons, List.range'_succ, List.foldlM_cons, idx, ok_bind, first, ok_bind]
      dsimp only
      rw [ok_bind, ih _ listed (by dsimp only; omega)]
      rw [split, overwrite_append (by omega), List.length_append]
      simp only [Nat.zero_add, Nat.add_assoc]

theorem extractExtents_eq {tree : Tree depth} {own : Option Buffer} {blkNum : Nat}
    (stored : Stored image depth tree (own.getD (image.block blkNum))) (frame : depth < frames)
    (s : Extraction) (room : s.el + (leaves depth tree).length ≤ s.exts.length) :
    extractExtents image frames blkNum own s =
      .ok (overwrite s.exts s.el (leaves depth tree), s.sz + (leaves depth tree).length) := by
  induction depth generalizing frames own blkNum s with
  | zero =>
      obtain ⟨frames, rfl⟩ := Nat.exists_eq_add_of_lt frame
      rw [Nat.zero_add]
      exact extractExtents_leaf stored s room
  | succ depth ih =>
      cases frames with
      | zero => omega
      | succ frames =>
          have below : ∀ (tree : Tree depth) (blkNum : Nat) (s : Extraction),
              Stored image depth tree (image.block blkNum) →
              s.el + (leaves depth tree).length ≤ s.exts.length →
                extractExtents image frames blkNum none s = .ok (overwrite s.exts s.el
                  (leaves depth tree), s.sz + (leaves depth tree).length) := by
            intro child blkNum s node
            have childOwn : Stored image depth child ((none : Option Buffer).getD
              (image.block blkNum)) := node
            exact ih childOwn (by omega) s
          rw [extractExtents_index stored.1, extractExtents_loop below s stored.2 room]
          rfl

theorem Stored.headed {tree : Tree depth} (stored : Stored image depth tree buf) :
    ∃ entries, Headed buf entries depth := by
  cases depth with
  | zero => exact ⟨_, stored.1⟩
  | succ depth => exact ⟨_, stored.1⟩

theorem extractExtents_root {tree : Tree depth} {root : Buffer}
    (stored : Stored image depth tree root) (frame : depth < frames) {exts : List Ext}
    (room : (leaves depth tree).length ≤ exts.length) :
    extractExtents image frames 0 (some root) ⟨exts, 0, 0⟩ =
      .ok (leaves depth tree ++ exts.drop (leaves depth tree).length,
        (leaves depth tree).length) := by
  have rooted : Stored image depth tree ((some root).getD (image.block 0)) := stored
  rw [extractExtents_eq rooted frame _ (by dsimp only; omega)]
  simp [overwrite]

theorem getExtent_eq {tree : Tree depth} {ino : Inode}
    (flagged : ino.iFlags &&& EXT4_EXTENTS_FL ≠ 0)
    (stored : Stored image depth tree ino.iBlock) (shallow : depth ≤ 5) (frame : depth < frames) :
    getExtent image frames ino =
      .ok (some (leaves depth tree), (leaves depth tree).length) := by
  obtain ⟨entries, ehMax, -, header⟩ := stored.headed
  have rooted : Stored image depth tree ((some ino.iBlock).getD (image.block 0)) := stored
  rw [getExtent, if_neg flagged, header, ok_bind]
  dsimp only
  rw [if_neg (by simp), if_neg (by omega), calcExtentSize_eq rooted shallow frame, ok_bind,
    Nat.zero_add, extractExtents_root stored frame (by rw [List.length_replicate]), ok_bind]
  dsimp only
  rw [if_neg (by simp), List.drop_of_length_le (by rw [List.length_replicate]), List.append_nil]

/-- Started on the root of a tree of up to five levels, the extraction fills the front of the
list with the leaves from left to right, as many as were counted, and leaves the rest of the
list as it was. -/
theorem extent_tree_flattens {tree : Tree depth} {root : Buffer}
    (stored : Stored image depth tree root) (shallow : depth ≤ 5) (frame : depth < frames) :
    ∃ sz, sz = (leaves depth tree).length ∧
      calcExtentSize image frames 0 (some root) 0 = .ok sz ∧
      (∀ exts : List Ext, sz ≤ exts.length →
        extractExtents image frames 0 (some root) ⟨exts, 0, 0⟩ =
          .ok (leaves depth tree ++ exts.drop sz, sz)) ∧
      ∀ iFlags, iFlags &&& EXT4_EXTENTS_FL ≠ 0 →
        getExtent image frames ⟨iFlags, root⟩ = .ok (some (leaves depth tree), sz) := by
  have rooted : Stored image depth tree ((some root).getD (image.block 0)) := stored
  refine ⟨_, rfl, ?_, fun exts room => extractExtents_root stored frame room,
    fun iFlags flagged => getExtent_eq flagged stored shallow frame⟩
  rw [calcExtentSize_eq rooted shallow frame, Nat.zero_add]

def twoLeavesRoot : Buffer where
  size := 60
  byte i := ([0x0A, 0xF3, 2, 0, 4, 0, 1, 0, 0, 0, 0, 0, 0, 0, 0, 0, 1, 0, 0, 0, 0, 0, 0, 0,
    3, 0, 0, 0, 2, 0, 0, 0, 0, 0, 0, 0] : List UInt8).getD i 0

def twoLeaves : Image := fun i =>
  if i / BLK_SIZE = 1 then
    ([0x0A, 0xF3, 2, 0, 84, 1, 0, 0, 0, 0, 0, 0, 0, 0, 0, 0, 2, 0, 0, 0, 10, 0, 0, 0,
      2, 0, 0, 0, 1, 0, 0, 0, 20, 0, 0, 0] : List UInt8).getD (i % BLK_SIZE) 0
  else
    ([0x0A, 0xF3, 1, 0, 84, 1, 0, 0, 0, 0, 0, 0, 3, 0, 0, 0, 5, 0, 1, 0, 30, 0, 0, 0]
      : List UInt8).getD (i % BLK_SIZE) 0

theorem stored_twoLeaves :
    Stored twoLeaves 1 [(1, [⟨0, 10, 2⟩, ⟨2, 20, 1⟩]), (2, [⟨3, 2 ^ 32 + 30, 5⟩])]
      twoLeavesRoot :=
  ⟨⟨4, by decide, rfl⟩, ⟨rfl, ⟨340, by decide, rfl⟩, rfl, rfl, trivial⟩,
    ⟨rfl, ⟨340, by decide, rfl⟩, rfl, trivial⟩, trivial⟩

theorem extent_tree_flattens_twoLeaves :
    getExtent twoLeaves 2 ⟨EXT4_EXTENTS_FL, twoLeavesRoot⟩ =
      .ok (some [⟨0, 10, 2⟩, ⟨2, 20, 1⟩, ⟨3, 2 ^ 32 + 30, 5⟩], 3) := by
  obtain ⟨sz, rfl, -, -, flagged⟩ := extent_tree_flattens stored_twoLeaves (by decide)
    (show 1 < 2 by decide)
  exact flagged _ (by decide)

end SimpleSSD.ISC.Ext4
