import SimpleSSD.ISC.Ext4.DirectoryNames
import SimpleSSD.ISC.Ext4.Scans

/-!
# The buffer of a directory

What the extents of a directory leave in the buffer it is read into, block by block, and the
entries that stand there.
-/

namespace SimpleSSD.ISC.Ext4

open SimpleSSD.Foundation

/-! ## Extents -/

def total (exts : List Ext) : Nat := (exts.map Ext.len).sum

def blocksOf (exts : List Ext) : List Nat := exts.flatMap fun e => List.range' e.slbn e.len

def OneEach : List Ext → Prop
  | [] => True
  | [_] => True
  | e :: rest => e.len = 1 ∧ OneEach rest

/-- The block of the buffer behind all that are read, if the first extent goes to `ie`. -/
def behindRead : Nat → List Ext → Nat
  | _, [] => 0
  | ie, e :: rest => max (ie + e.len) (behindRead (ie + 1) rest)

def Holds (image : Image) (buf : Buffer) (k b : Nat) : Prop :=
  ∀ j < BLK_SIZE, buf.byte (k * BLK_SIZE + j) = image (b * BLK_SIZE + j)

section Extents

variable {image : Image} {exts rest : List Ext} {e : Ext} {ie : Nat} {buf buf' : Buffer}

theorem total_cons : total (e :: rest) = e.len + total rest := by
  simp [total]

theorem szBuf_eq (exts : List Ext) :
    (exts.map fun e => e.len * BLK_SIZE).sum = total exts * BLK_SIZE := by
  induction exts with
  | nil => simp [total]
  | cons e rest ih =>
      rw [total_cons, Nat.add_mul, ← ih]
      rfl

theorem blocksOf_cons : blocksOf (e :: rest) = List.range' e.slbn e.len ++ blocksOf rest :=
  List.flatMap_cons

theorem length_blocksOf (exts : List Ext) : (blocksOf exts).length = total exts := by
  induction exts with
  | nil => rfl
  | cons e rest ih =>
      rw [total_cons, ← ih]
      simp [blocksOf]

theorem length_le_total (long : ∀ e ∈ exts, 1 ≤ e.len) : exts.length ≤ total exts := by
  induction exts with
  | nil => exact le_refl 0
  | cons e rest ih =>
      have first := long e List.mem_cons_self
      have later := ih fun e' h => long e' (List.mem_cons_of_mem _ h)
      rw [total_cons, List.length_cons]
      omega

theorem behindRead_le (long : ∀ e ∈ exts, 1 ≤ e.len) (ie : Nat) :
    behindRead ie exts ≤ ie + total exts := by
  induction exts generalizing ie with
  | nil => exact Nat.zero_le _
  | cons e rest ih =>
      have first := long e List.mem_cons_self
      have later := ih (fun e' h => long e' (List.mem_cons_of_mem _ h)) (ie + 1)
      rw [behindRead, total_cons]
      omega

/-- The last block is read exactly if no extent but the last one has more than one block. -/
theorem behindRead_lt (long : ∀ e ∈ exts, 1 ≤ e.len) (some : exts ≠ []) (fails : ¬ OneEach exts)
    (ie : Nat) : behindRead ie exts < ie + total exts := by
  induction exts generalizing ie with
  | nil => exact absurd rfl some
  | cons e rest ih =>
      cases rest with
      | nil => exact absurd trivial fails
      | cons e' rest =>
          have first := long e List.mem_cons_self
          have longRest : ∀ d ∈ e' :: rest, 1 ≤ d.len := fun d h =>
            long d (List.mem_cons_of_mem _ h)
          have later := behindRead_le longRest (ie + 1)
          have filled := length_le_total longRest
          rw [List.length_cons] at filled
          rw [behindRead, total_cons]
          by_cases one : e.len = 1
          · have failsRest : ¬ OneEach (e' :: rest) := fun h => fails ⟨one, h⟩
            have shorter := ih longRest (List.cons_ne_nil _ _) failsRest (ie + 1)
            omega
          · omega

theorem fill_eq_ok (ofsData : Nat) (room : ie + e.len ≤ total exts)
    (size : buf.size = total exts * BLK_SIZE) :
    ∃ buf', buf.fill image (ie * BLK_SIZE) ofsData (e.len * BLK_SIZE) = .ok buf' ∧
      buf'.size = buf.size ∧
      ∀ i, buf'.byte i = if ie * BLK_SIZE ≤ i ∧ i < (ie + e.len) * BLK_SIZE then
        image (ofsData + (i - ie * BLK_SIZE)) else buf.byte i := by
  have scaled := Nat.mul_le_mul_right BLK_SIZE room
  rw [Nat.add_mul] at scaled
  refine ⟨_, if_pos (.inr (by omega)), rfl, fun i => ?_⟩
  rw [Nat.add_mul]

/-- An extent puts its blocks into the buffer from its index on, and leaves the others. -/
theorem fill_block (image : Image) (room : ie + e.len ≤ total exts)
    (size : buf.size = total exts * BLK_SIZE) :
    ∃ buf', buf.fill image (ie * BLK_SIZE) (e.slbn * BLK_SIZE) (e.len * BLK_SIZE) = .ok buf' ∧
      buf'.size = buf.size ∧
      (∀ k, ie ≤ k → k < ie + e.len → Holds image buf' k (e.slbn + (k - ie))) ∧
      ∀ k, k < ie ∨ ie + e.len ≤ k → ∀ j < BLK_SIZE,
        buf'.byte (k * BLK_SIZE + j) = buf.byte (k * BLK_SIZE + j) := by
  obtain ⟨buf', filled, size', bytes⟩ := fill_eq_ok (e.slbn * BLK_SIZE) room size
  refine ⟨buf', filled, size', fun k le lt j hj => ?_, fun k out j hj => ?_⟩
  · have low := Nat.mul_le_mul_right BLK_SIZE le
    have high := Nat.mul_le_mul_right BLK_SIZE (Nat.succ_le_of_lt lt)
    rw [Nat.succ_mul] at high
    have place : e.slbn * BLK_SIZE + (k * BLK_SIZE + j - ie * BLK_SIZE) =
        (e.slbn + (k - ie)) * BLK_SIZE + j := by
      rw [Nat.add_mul, Nat.sub_mul]
      omega
    rw [bytes, if_pos (by omega), place]
  · rw [bytes, if_neg]
    rintro ⟨low, high⟩
    rcases out with before | behind
    · have le := Nat.mul_le_mul_right BLK_SIZE (Nat.succ_le_of_lt before)
      rw [Nat.succ_mul] at le
      omega
    · have le := Nat.mul_le_mul_right BLK_SIZE behind
      omega

/-- Whatever their lengths, the extents are read without passing the end of the buffer.  Each
block of it is then a block of the directory, or is as it was. -/
theorem readExtents_eq_ok (image : Image) {all : List Ext} (size : buf.size = total all * BLK_SIZE)
    (room : behindRead ie exts ≤ total all) :
    ∃ buf', readExtents image ie exts buf = .ok buf' ∧ buf'.size = buf.size ∧
      (∀ k, (∃ b ∈ blocksOf exts, Holds image buf' k b) ∨
        ∀ j < BLK_SIZE, buf'.byte (k * BLK_SIZE + j) = buf.byte (k * BLK_SIZE + j)) ∧
      ∀ k, k < ie ∨ behindRead ie exts ≤ k → ∀ j < BLK_SIZE,
        buf'.byte (k * BLK_SIZE + j) = buf.byte (k * BLK_SIZE + j) := by
  induction exts generalizing ie buf with
  | nil => exact ⟨buf, rfl, rfl, fun _ => .inr fun _ _ => rfl, fun _ _ _ _ => rfl⟩
  | cons e rest ih =>
      rw [behindRead] at room
      obtain ⟨mid, filled, sizeMid, blocks, others⟩ :=
        fill_block image (le_trans (le_max_left _ _) room) size
      obtain ⟨buf', read, size', each, kept⟩ :=
        ih (sizeMid.trans size) (le_trans (le_max_right _ _) room)
      refine ⟨buf', by rw [readExtents, filled, ok_bind, read], size'.trans sizeMid, fun k => ?_,
        fun k out j hj => ?_⟩
      · rcases each k with ⟨b, hb, holds⟩ | same
        · exact .inl ⟨b, List.mem_append_right _ hb, holds⟩
        · by_cases within : ie ≤ k ∧ k < ie + e.len
          · refine .inl ⟨e.slbn + (k - ie), ?_, fun j hj => ?_⟩
            · apply List.mem_append_left
              rw [List.mem_range'_1]
              omega
            · rw [same j hj, blocks k within.1 within.2 j hj]
          · exact .inr fun j hj => by rw [same j hj, others k (by omega) j hj]
      · rw [behindRead] at out
        rw [kept k (by omega) j hj, others k (by omega) j hj]

/-- If no extent but the last one has more than one block, the buffer holds the directory. -/
theorem readExtents_holds (image : Image) {all : List Ext} (size : buf.size = total all * BLK_SIZE)
    (room : ie + total exts ≤ total all) (one : OneEach exts) :
    ∃ buf', readExtents image ie exts buf = .ok buf' ∧ buf'.size = buf.size ∧
      Listed (Holds image buf') ie (blocksOf exts) ∧
      ∀ k < ie, ∀ j < BLK_SIZE, buf'.byte (k * BLK_SIZE + j) = buf.byte (k * BLK_SIZE + j) := by
  induction exts generalizing ie buf with
  | nil => exact ⟨buf, rfl, rfl, trivial, fun _ _ _ _ => rfl⟩
  | cons e rest ih =>
      rw [total_cons] at room
      have roomFirst : ie + e.len ≤ total all := by omega
      obtain ⟨mid, filled, sizeMid, blocks, others⟩ := fill_block image roomFirst size
      cases rest with
      | nil =>
          refine ⟨mid, by rw [readExtents, filled, ok_bind, readExtents], sizeMid, ?_,
            fun k before j hj => others k (.inl before) j hj⟩
          rw [blocksOf_cons, blocksOf, List.flatMap_nil, List.append_nil]
          apply listed_range'
          intro i hi
          have held := blocks (ie + i) (by omega) (by omega)
          rwa [Nat.add_sub_cancel_left] at held
      | cons e' rest =>
          obtain ⟨one, oneRest⟩ := one
          have roomRest : ie + 1 + total (e' :: rest) ≤ total all := by omega
          obtain ⟨buf', read, size', held, kept⟩ := ih (sizeMid.trans size) roomRest oneRest
          refine ⟨buf', by rw [readExtents, filled, ok_bind, read], size'.trans sizeMid, ?_,
            fun k before j hj => by rw [kept k (by omega) j hj, others k (.inl before) j hj]⟩
          rw [blocksOf_cons, one, List.range'_one, List.singleton_append]
          refine ⟨fun j hj => ?_, held⟩
          rw [kept ie (by omega) j hj, blocks ie (le_refl _) (by omega) j hj, Nat.sub_self,
            Nat.add_zero]

end Extents

/-! ## Entries -/

structure EntryAt (buf : Buffer) (ofs : Nat) (e : DirEntry) (next : Nat) : Prop where
  inode : inodeAt buf ofs = e.inode
  nameLen : nameLenAt buf ofs = e.name.length
  name : ∀ i (h : i < e.name.length), buf.byte (ofs + 8 + i) = e.name[i]
  long : 8 + e.name.length ≤ recLenAt buf ofs
  next : ofs + recLenAt buf ofs = next

section Strings

variable {buf : Buffer} {ofs next : Nat} {s : List UInt8} {e : DirEntry}

theorem str_listed (stands : Listed (fun i c => buf.byte i = c) ofs s)
    (inside : ofs + s.length ≤ buf.size) : buf.str s.length ofs = .ok (cstr s) := by
  induction s generalizing ofs with
  | nil => rfl
  | cons c rest ih =>
      obtain ⟨first, later⟩ := stands
      rw [List.length_cons] at inside
      rw [List.length_cons, Buffer.str, if_pos (by omega), first, cstr_cons]
      by_cases nul : c = 0
      · rw [if_pos nul, if_pos nul]
      · rw [if_neg nul, if_neg nul, ih later (by omega)]
        rfl

theorem bytes_listed (stands : Listed (fun i c => buf.byte i = c) ofs s)
    (inside : ofs + s.length ≤ buf.size) : buf.bytes s.length ofs = .ok s := by
  induction s generalizing ofs with
  | nil => rfl
  | cons c rest ih =>
      obtain ⟨first, later⟩ := stands
      rw [List.length_cons] at inside
      rw [List.length_cons, Buffer.bytes, if_pos (by omega), first, ih later (by omega)]
      rfl

theorem EntryAt.stands (h : EntryAt buf ofs e next) :
    Listed (fun i c => buf.byte i = c) (ofs + 8) e.name :=
  listed_of_getElem fun i hi => h.name i hi

end Strings

def Movable {α : Type*} (record : Buffer → Nat → α → Nat → Prop) : Prop :=
  ∀ {image : Image} {buf : Buffer} {b k ofs : Nat} {a : α} {next : Nat},
    Holds image buf k b → next ≤ BLK_SIZE → record (Image.block image b) ofs a next →
      record buf (k * BLK_SIZE + ofs) a (k * BLK_SIZE + next)

section Entries

variable {image : Image} {buf : Buffer} {α : Type*} {record : Buffer → Nat → α → Nat → Prop}

theorem leValue_congr {byte byte' : Nat → UInt8} {ofs ofs' n : Nat}
    (same : ∀ i < n, byte (ofs + i) = byte' (ofs' + i)) :
    leValue byte ofs n = leValue byte' ofs' n := by
  induction n generalizing ofs ofs' with
  | zero => rfl
  | succ n ih =>
      have first := same 0 (Nat.succ_pos n)
      have later : ∀ i < n, byte (ofs + 1 + i) = byte' (ofs' + 1 + i) := fun i hi => by
        have next := same (i + 1) (Nat.succ_lt_succ hi)
        rwa [← Nat.add_assoc, ← Nat.add_assoc, Nat.add_right_comm, Nat.add_right_comm ofs'] at next
      rw [leValue, leValue, ih later]
      rw [Nat.add_zero, Nat.add_zero] at first
      rw [first]

theorem EntryAt.shift {b k ofs next : Nat} {e : DirEntry} (holds : Holds image buf k b)
    (le : next ≤ BLK_SIZE) (h : EntryAt (Image.block image b) ofs e next) :
    EntryAt buf (k * BLK_SIZE + ofs) e (k * BLK_SIZE + next) := by
  have long := h.long
  have reach := h.next
  have bytes : ∀ i < 8 + e.name.length,
      buf.byte (k * BLK_SIZE + ofs + i) = (Image.block image b).byte (ofs + i) := by
    intro i hi
    rw [Nat.add_assoc]
    exact holds (ofs + i) (by omega)
  have recLen : recLenAt buf (k * BLK_SIZE + ofs) = recLenAt (Image.block image b) ofs :=
    leValue_congr fun i hi => by
      rw [Nat.add_assoc _ 4, bytes (4 + i) (by omega), ← Nat.add_assoc]
  refine ⟨?_, ?_, fun i hi => ?_, ?_, ?_⟩
  · exact (leValue_congr fun i hi => bytes i (by omega)).trans h.inode
  · refine Eq.trans (leValue_congr fun i hi => ?_) h.nameLen
    rw [Nat.add_assoc _ 6, bytes (6 + i) (by omega), ← Nat.add_assoc]
  · rw [Nat.add_assoc _ 8, bytes (8 + i) (by omega), ← Nat.add_assoc, h.name i hi]
  · rw [recLen]
    exact long
  · rw [recLen]
    omega

theorem movable_entryAt : Movable EntryAt := fun holds le entry => entry.shift holds le

theorem inRow_shift {b k ofs : Nat} {row : List α} (movable : Movable record)
    (holds : Holds image buf k b) (h : InRow BLK_SIZE (record (Image.block image b)) ofs row) :
    InRow ((k + 1) * BLK_SIZE) (record buf) (k * BLK_SIZE + ofs) row := by
  rw [Nat.succ_mul]
  exact h.shift fun _ _ _ _ le here => movable holds le here

theorem inRow_blocks {blocks : List Nat} {rows : List (List α)} {start : Nat}
    (movable : Movable record) (held : Listed (Holds image buf) start blocks)
    (stored : List.Forall₂ (fun b row => InRow BLK_SIZE (record (Image.block image b)) 0 row)
      blocks rows) :
    InRow ((start + blocks.length) * BLK_SIZE) (record buf) (start * BLK_SIZE) rows.flatten := by
  rw [stored.length_eq]
  refine InRow.flatten start fun k h => ?_
  have inside : k < blocks.length := stored.length_eq ▸ h
  have here := inRow_shift movable (held.getElem inside) (stored.get inside h)
  rwa [Nat.add_zero ((start + k) * BLK_SIZE)] at here

theorem nextEntry_of_entryAt {ofs next : Nat} {e : DirEntry} (h : EntryAt buf ofs e next) :
    nextEntry buf ofs = some next := by
  have long := h.long
  rw [nextEntry, if_neg (by omega), h.next]

theorem reached_of_inRow {size limit ofs : Nat} {row : List DirEntry}
    (h : InRow limit (EntryAt buf) ofs row) (le : limit ≤ size) :
    Reached size (nextEntry buf) ofs limit := by
  induction row generalizing ofs with
  | nil =>
      have last : ofs = limit := h
      rw [last]
      exact .here
  | cons e rest ih =>
      obtain ⟨next, lt, le', entry, later⟩ := h
      exact .hop (by omega) (nextEntry_of_entryAt entry) (ih later)

end Entries

end SimpleSSD.ISC.Ext4
