import SimpleSSD.ISC.Ext4.DirectoryBlocks

/-!
# Directories as the applications read them

The applications of `isc/slet` read all blocks of a directory into one buffer of zeros, each
extent behind the one before it.  They look at the types of the files, too.
-/

namespace SimpleSSD.ISC.Ext4

open SimpleSSD.Foundation

structure Dirent extends DirEntry where
  fileType : Nat

structure DirentAt (buf : Buffer) (ofs : Nat) (d : Dirent) (next : Nat) : Prop
    extends EntryAt buf ofs d.toDirEntry next where
  fileType : fileTypeAt buf ofs = d.fileType

def szDent : Nat := 12

/-- An entry that is no shorter than one with a name of one character. -/
def LongAt (buf : Buffer) (ofs : Nat) (d : Dirent) (next : Nat) : Prop :=
  DirentAt buf ofs d next ∧ ofs + szDent ≤ next

def DirectoryImage (image : Image) (exts : List Ext) (entries : List Dirent) : Prop :=
  ∃ rows, List.Forall₂ (fun b row => InRow BLK_SIZE (DirentAt (image.block b)) 0 row)
    (blocksOf exts) rows ∧ rows.flatten = entries

def readDir (image : Image) : Nat → List Ext → Buffer → Except Fault Buffer
  | _, [], bufDir => .ok bufDir
  | ofsBuf, e :: rest, bufDir => do
      let szData := e.len * BLK_SIZE
      let bufDir ← bufDir.fill image ofsBuf (e.slbn * BLK_SIZE) szData
      readDir image (ofsBuf + szData) rest bufDir

/-- The buffer that `calloc` gives for a directory. -/
def zeroDir (exts : List Ext) : Buffer := ⟨(exts.map fun e => e.len * BLK_SIZE).sum, fun _ => 0⟩

section Dirents

variable {image : Image} {exts : List Ext} {entries : List Dirent} {buf : Buffer}
  {ofs next : Nat} {d : Dirent}

theorem movable_direntAt : Movable DirentAt := by
  intro image buf b k ofs d next holds le h
  have long := h.long
  have reach := h.next
  have moved : fileTypeAt buf (k * BLK_SIZE + ofs) = fileTypeAt (Image.block image b) ofs :=
    leValue_congr fun i hi => by
      rw [Nat.add_assoc, Nat.add_assoc, holds (ofs + (7 + i)) (by omega), Nat.add_assoc]
      rfl
  exact { toEntryAt := h.toEntryAt.shift holds le, fileType := moved.trans h.fileType }

theorem movable_longAt : Movable LongAt := by
  rintro image buf b k ofs d next holds le ⟨entry, long⟩
  exact ⟨movable_direntAt holds le entry, by omega⟩

theorem EntryAt.str {e : DirEntry} (h : EntryAt buf ofs e next) (inside : next ≤ buf.size) :
    buf.str e.name.length (ofs + 8) = .ok (cstr e.name) := by
  have long := h.long
  have reach := h.next
  exact str_listed h.stands (by omega)

theorem DirentAt.inode_eq (h : DirentAt buf ofs d next) (inside : next ≤ buf.size) :
    direntInode buf ofs = .ok d.inode := by
  have long := h.long
  have reach := h.next
  rw [direntInode_eq (by omega), h.inode]

theorem DirentAt.recLen_eq (h : DirentAt buf ofs d next) (inside : next ≤ buf.size) :
    direntRecLen buf ofs = .ok (recLenAt buf ofs) := by
  have long := h.long
  have reach := h.next
  exact direntRecLen_eq (by omega)

theorem DirentAt.nameLen_eq (h : DirentAt buf ofs d next) (inside : next ≤ buf.size) :
    direntNameLen buf ofs = .ok d.name.length := by
  have long := h.long
  have reach := h.next
  rw [direntNameLen_eq (by omega), h.nameLen]

theorem DirentAt.fileType_eq (h : DirentAt buf ofs d next) (inside : next ≤ buf.size) :
    direntFileType buf ofs = .ok d.fileType := by
  have long := h.long
  have reach := h.next
  rw [direntFileType_eq (by omega), h.fileType]

theorem readDir_holds (image : Image) {all : List Ext} {ie : Nat}
    (size : buf.size = total all * BLK_SIZE) (room : ie + total exts ≤ total all) :
    ∃ buf', readDir image (ie * BLK_SIZE) exts buf = .ok buf' ∧ buf'.size = buf.size ∧
      Listed (Holds image buf') ie (blocksOf exts) ∧
      ∀ k < ie, ∀ j < BLK_SIZE, buf'.byte (k * BLK_SIZE + j) = buf.byte (k * BLK_SIZE + j) := by
  induction exts generalizing ie buf with
  | nil => exact ⟨buf, rfl, rfl, trivial, fun _ _ _ _ => rfl⟩
  | cons e rest ih =>
      rw [total_cons] at room
      have roomFirst : ie + e.len ≤ total all := by omega
      obtain ⟨mid, filled, sizeMid, blocks, others⟩ := fill_block image roomFirst size
      have roomRest : ie + e.len + total rest ≤ total all := by omega
      obtain ⟨buf', read, size', held, kept⟩ := ih (sizeMid.trans size) roomRest
      refine ⟨buf', ?_, size'.trans sizeMid, ?_, fun k before j hj => ?_⟩
      · rw [readDir, filled, ok_bind, ← Nat.add_mul, read]
      · rw [blocksOf_cons, listed_append, List.length_range']
        refine ⟨listed_range' fun i hi j hj => ?_, held⟩
        have stands := blocks (ie + i) (by omega) (by omega) j hj
        rw [kept (ie + i) (by omega) j hj, stands, Nat.add_sub_cancel_left]
      · rw [kept k (by omega) j hj, others k (.inl before) j hj]

theorem readDir_row (h : DirectoryImage image exts entries) :
    ∃ bufDir, readDir image 0 exts (zeroDir exts) = .ok bufDir ∧
      InRow bufDir.size (DirentAt bufDir) 0 entries := by
  have size : (zeroDir exts).size = total exts * BLK_SIZE := szBuf_eq exts
  have room : 0 + total exts ≤ total exts := by omega
  obtain ⟨bufDir, read, size', held, -⟩ := readDir_holds image size room
  obtain ⟨rows, stored, rfl⟩ := h
  have row := inRow_blocks movable_direntAt held stored
  rw [length_blocksOf, Nat.zero_add, Nat.zero_mul, ← size, ← size'] at row
  rw [Nat.zero_mul] at read
  exact ⟨bufDir, read, row⟩

end Dirents

/-- Blocks with an entry and a tail each.  The first entry is a symbolic link `a`, the others are
files `b`, `c` and so on. -/
def tailedBlocks : Image := fun i =>
  let k := i / BLK_SIZE
  let j := i % BLK_SIZE
  if j < 4084 then
    ([11 + .ofNat k, 0, 0, 0, 0xF4, 15, 1, if k = 0 then 7 else 1, 97 + .ofNat k]
      : List UInt8).getD j 0
  else ([0, 0, 0, 0, 12, 0, 0, 0xde] : List UInt8).getD (j - 4084) 0

def tailedRow (k : Nat) : List Dirent :=
  [⟨⟨11 + k, [97 + .ofNat k]⟩, if k = 0 then 7 else 1⟩, ⟨⟨0, []⟩, 0xde⟩]

theorem inRow_tailedBlocks {k : Nat} (small : k < 3) :
    InRow BLK_SIZE (LongAt (tailedBlocks.block k)) 0 (tailedRow k) := by
  have cases : k = 0 ∨ k = 1 ∨ k = 2 := by omega
  refine ⟨4084, by decide, by decide, ⟨⟨⟨?_, ?_, ?_, ?_, ?_⟩, ?_⟩, by decide⟩, BLK_SIZE, by decide,
    le_refl _, ⟨⟨⟨?_, ?_, ?_, ?_, ?_⟩, ?_⟩, by decide⟩, rfl⟩ <;>
    rcases cases with rfl | rfl | rfl <;> decide

end SimpleSSD.ISC.Ext4
