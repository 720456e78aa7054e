import SimpleSSD.ISC.Ext4.Answers

/-!
# Looking up a name

A lookup keeps the last entry that has the name, in its result and in the cache.  That is the
live one as long as no deleted entry of the name stands behind it.  The extents of a directory
go to the blocks they belong to as long as each but the last has one block.
-/

namespace SimpleSSD.ISC.Ext4

open SimpleSSD.Foundation

structure StoredDirectory (image : Image) (ino : Inode) (exts : List Ext)
    (entries : List DirEntry) : Prop where
  flagged : ino.iFlags &&& EXT4_EXTENTS_FL ≠ 0
  linear : ino.iFlags &&& EXT4_INDEX_FL = 0
  tree : ∃ depth ≤ 5, ∃ tree : Tree depth, Stored image depth tree ino.iBlock ∧
    leaves depth tree = exts
  nonempty : exts ≠ []
  long : ∀ e ∈ exts, 1 ≤ e.len
  rows : ∃ rows, List.Forall₂ (fun b row => InRow BLK_SIZE (EntryAt (image.block b)) 0 row)
    (blocksOf exts) rows ∧ rows.flatten = entries
  nul : ∀ e ∈ entries, 0 ∉ e.name
  distinct : Distinct entries

/-- Whatever the memory held before and the cache holds, the lookup ends with the answer, and
leaves a cache that gives answers. -/
def Exact (image : Image) (inodes : UInt64 → Inode) (dirs : UInt64 → List DirEntry)
    (frames : Nat) (dirIno : UInt64) (tgName : List UInt8) : Prop :=
  ∀ (garbage : Nat → UInt8) (nameiCache : LRURegion), Sound dirs nameiCache →
    ∃ fuel nameiCache', dirSearchFile ⟨image, inodes, garbage⟩ frames fuel tgName dirIno
        nameiCache = some (.ok (.ofNat (lookup (dirs dirIno) tgName), nameiCache')) ∧
      Sound dirs nameiCache'

/-! ## One lookup -/

section Search

variable {vol : Volume} {exts : List Ext} {entries : List DirEntry} {dirIno : UInt64}
  {tgName : List UInt8} {nameiCache : LRURegion} {frames : Nat}

theorem size_mk (exts : List Ext) (byte : Nat → UInt8) :
    (Buffer.mk (total exts * BLK_SIZE) byte).size = total exts * BLK_SIZE := rfl

theorem StoredDirectory.extents (stored : StoredDirectory vol.image (vol.inodes dirIno) exts
    entries) (room : 5 < frames) :
    Ext4.getExtent vol.image frames (vol.inodes dirIno) = .ok (some exts, exts.length) := by
  obtain ⟨depth, shallow, tree, root, rfl⟩ := stored.tree
  exact getExtent_eq stored.flagged root shallow (by omega)

theorem StoredDirectory.entryAt {image : Image} {ino : Inode}
    (stored : StoredDirectory image ino exts entries) {e : DirEntry} (he : e ∈ entries) :
    ∃ buf ofs next, EntryAt buf ofs e next := by
  obtain ⟨rows, inBlocks, rfl⟩ := stored.rows
  obtain ⟨row, hrow, he⟩ := List.mem_flatten.1 he
  obtain ⟨i, hi, rfl⟩ := List.mem_iff_getElem.1 hrow
  have inRow := inBlocks.get (by rw [inBlocks.length_eq]; exact hi) hi
  obtain ⟨ofs, next, entry⟩ := inRow.of_mem he
  exact ⟨_, ofs, next, entry⟩

theorem StoredDirectory.short {image : Image} {ino : Inode}
    (stored : StoredDirectory image ino exts entries) :
    ∀ e ∈ entries, e.name.length ≤ 255 := by
  intro e he
  obtain ⟨_, _, _, entry⟩ := stored.entryAt he
  exact entry.short

theorem StoredDirectory.lookup_lt {image : Image} {ino : Inode}
    (stored : StoredDirectory image ino exts entries) (name : List UInt8) :
    lookup entries name < 2 ^ 32 := by
  unfold lookup
  cases found : entries.find? fun e => e.inode ≠ 0 ∧ e.name = name with
  | none => decide
  | some e =>
      obtain ⟨buf, ofs, next, entry⟩ := stored.entryAt (List.mem_of_find?_eq_some found)
      have bound := inodeAt_lt buf ofs
      rw [entry.inode] at bound
      exact bound

theorem StoredDirectory.eq_of_ofNat {image : Image} {ino : Inode}
    (stored : StoredDirectory image ino exts entries) {name : List UInt8} {n : Nat}
    (small : n < 2 ^ 32) (same : UInt64.ofNat n = .ofNat (lookup entries name)) :
    n = lookup entries name := by
  have bound := stored.lookup_lt name
  have wrapped := congrArg UInt64.toNat same
  rw [UInt64.toNat_ofNat', UInt64.toNat_ofNat'] at wrapped
  omega

section Sized

variable (nul : 0 ∉ tgName) (fits : tgName.length ≤ szKey2)

include nul fits

theorem dirSearchFile_miss (stored : StoredDirectory vol.image (vol.inodes dirIno) exts entries)
    (room : 5 < frames)
    (missed : nameiCache.read namei (nodeOf dirIno tgName ERROR_INO) =
      (-ENOENT, nodeOf dirIno tgName ERROR_INO, nameiCache))
    {buf : Buffer} (read : readExtents vol.image 0 exts ⟨total exts * BLK_SIZE, vol.garbage⟩ =
      .ok buf) (fuel : Nat) :
    dirSearchFile vol frames fuel tgName dirIno nameiCache =
      (scan (total exts * BLK_SIZE) (visitEntry tgName dirIno buf) fuel
        ⟨ERROR_INO, nameiCache⟩ 0).map fun result => result.map fun s =>
          (s.inode, s.nameiCache) := by
  have nonempty : ¬ exts.length = 0 := fun h => stored.nonempty (List.length_eq_zero_iff.1 h)
  unfold dirSearchFile
  rw [NameiNode.new_eq fits, cstr_of_ne_zero nul]
  dsimp only
  rw [missed]
  dsimp only
  rw [if_neg (not_not_intro rfl), stored.extents room]
  dsimp only
  rw [if_neg nonempty, szBuf_eq, read]
  dsimp only
  rw [if_neg (not_not_intro stored.linear)]

theorem dirSearchFile_agree
    (stored : StoredDirectory vol.image (vol.inodes dirIno) exts entries) (room : 5 < frames)
    (missed : nameiCache.read namei (nodeOf dirIno tgName ERROR_INO) =
      (-ENOENT, nodeOf dirIno tgName ERROR_INO, nameiCache))
    {fuel fuel' : Nat} {a b : Except Fault (UInt64 × LRURegion)}
    (run : dirSearchFile vol frames fuel tgName dirIno nameiCache = some a)
    (run' : dirSearchFile vol frames fuel' tgName dirIno nameiCache = some b) : a = b := by
  have inside : behindRead 0 exts ≤ total exts := by
    simpa using behindRead_le stored.long 0
  obtain ⟨buf, read, -⟩ := readExtents_eq_ok vol.image (size_mk exts vol.garbage) inside
  rw [dirSearchFile_miss nul fits stored room missed read, Option.map_eq_some_iff] at run run'
  obtain ⟨result, scanned, rfl⟩ := run
  obtain ⟨result', scanned', rfl⟩ := run'
  rw [scan_agree scanned scanned']

/-- A lookup that the cache misses reads the directory and puts its entries into the cache, if
each extent goes to the block it belongs to. -/
theorem dirSearchFile_filled
    (stored : StoredDirectory vol.image (vol.inodes dirIno) exts entries) (room : 5 < frames)
    (one : OneEach exts) {accesses : List (LRURegion.Access NameiNode)}
    (run : LRURegion.run namei accesses = .ok nameiCache)
    (missed : nameiCache.read namei (nodeOf dirIno tgName ERROR_INO) =
      (-ENOENT, nodeOf dirIno tgName ERROR_INO, nameiCache)) :
    ∃ fuel s, dirSearchFile vol frames fuel tgName dirIno nameiCache =
        some (.ok (s.inode, s.nameiCache)) ∧ Filled tgName dirIno accesses entries s := by
  have inside : 0 + total exts ≤ total exts := by omega
  obtain ⟨buf, read, size, held, -⟩ :=
    readExtents_holds vol.image (size_mk exts vol.garbage) inside one
  obtain ⟨rows, inBlocks, rfl⟩ := stored.rows
  have row := inRow_blocks movable_entryAt held inBlocks
  rw [length_blocksOf, Nat.zero_add, Nat.zero_mul] at row
  change buf.size = total exts * BLK_SIZE at size
  rw [← size] at row
  obtain ⟨fuel, s, scanned, filled⟩ := filled_scan row stored.nul run tgName dirIno
  refine ⟨fuel, s, ?_, filled⟩
  rw [dirSearchFile_miss nul fits stored room missed read, ← size, scanned]
  rfl

theorem dirSearchFile_hit (fuel : Nat)
    (hit : (nameiCache.read namei (nodeOf dirIno tgName ERROR_INO)).1 = 0) :
    dirSearchFile vol frames fuel tgName dirIno nameiCache =
      some (.ok ((nameiCache.read namei (nodeOf dirIno tgName ERROR_INO)).2.1.inode,
        (nameiCache.read namei (nodeOf dirIno tgName ERROR_INO)).2.2)) := by
  unfold dirSearchFile
  rw [NameiNode.new_eq fits, cstr_of_ne_zero nul]
  dsimp only
  rw [hit, if_pos (by decide)]

theorem dirSearchFile_cached {accesses : List (LRURegion.Access NameiNode)}
    {dirs : UInt64 → List DirEntry} (run : LRURegion.run namei accesses = .ok nameiCache)
    (sound : Sound dirs nameiCache)
    (live : LRURegion.Live nameiFormat accesses.reverse (dirIno, tgName.take 255)) :
    ∃ nameiCache', Sound dirs nameiCache' ∧ ∀ fuel,
      dirSearchFile vol frames fuel tgName dirIno nameiCache =
        some (.ok (.ofNat (lookup (dirs dirIno) (tgName.take 255)), nameiCache')) := by
  have right := (sound_iff_right run).1 sound
  have key : nameiFormat.key (nodeOf dirIno tgName ERROR_INO) = (dirIno, tgName.take 255) :=
    nodeOf_key_take nul dirIno ERROR_INO
  rcases read_cases run (nodeOf dirIno tgName ERROR_INO) with ⟨dead, -⟩ | ⟨-, hit, written⟩
  · rw [key] at dead
    exact absurd live dead
  · have run' := run_read run (nodeOf dirIno tgName ERROR_INO)
    refine ⟨_, (sound_iff_right run').2 (right_read right _), fun fuel => ?_⟩
    have answer := right dirIno ⟨tgName.take 255, fun h => nul (List.mem_of_mem_take h),
      List.length_take_le 255 tgName⟩ live
    rw [key, answer] at written
    rw [dirSearchFile_hit nul fits fuel hit, Option.some.inj written]

end Sized

end Search

/-! ## Exact lookups -/

section Exactness

variable {image : Image} {inodes : UInt64 → Inode} {dirs : UInt64 → List DirEntry}
  {exts : List Ext} {dirIno : UInt64} {frames : Nat} {tgName : List UInt8}

theorem exact_of_oneEach (stored : StoredDirectory image (inodes dirIno) exts (dirs dirIno))
    (room : 5 < frames) (one : OneEach exts) (kept : NoneDeletedBehind (dirs dirIno))
    (nul : 0 ∉ tgName) (fits : tgName.length ≤ szKey2)
    (seen : lookup (dirs dirIno) (tgName.take 255) = lookup (dirs dirIno) tgName) :
    Exact image inodes dirs frames dirIno tgName := by
  intro garbage nameiCache sound
  obtain ⟨accesses, run⟩ := sound.1
  have key : nameiFormat.key (nodeOf dirIno tgName ERROR_INO) = (dirIno, tgName.take 255) :=
    nodeOf_key_take nul dirIno ERROR_INO
  rcases read_cases run (nodeOf dirIno tgName ERROR_INO) with ⟨-, missed⟩ | ⟨live, -⟩
  · obtain ⟨fuel, s, ended, inode, cache⟩ : ∃ fuel s,
        dirSearchFile ⟨image, inodes, garbage⟩ frames fuel tgName dirIno nameiCache =
          some (.ok (s.inode, s.nameiCache)) ∧
        Filled tgName dirIno accesses (dirs dirIno) s :=
      dirSearchFile_filled nul fits stored room one run missed
    have last := lastInode_eq_lookup stored.distinct kept
    have right := (sound_iff_right run).1 sound
    refine ⟨fuel, s.nameiCache, ?_, (sound_iff_right cache).2 ?_⟩
    · rw [ended, inode, last]
    · exact right_writes right stored.short stored.nul last
  · rw [key] at live
    obtain ⟨nameiCache', sound', hit⟩ := dirSearchFile_cached nul fits run sound live
    refine ⟨0, nameiCache', ?_, sound'⟩
    rw [hit, seen]

/-- A scan comes to each block of the buffer, or to one before it that has not been read into. -/
theorem reached_unread {buf : Buffer} {blocks : List Nat} {rows : List (List DirEntry)}
    {unread : Nat → Prop}
    (stored : List.Forall₂ (fun b row => InRow BLK_SIZE (EntryAt (image.block b)) 0 row)
      blocks rows)
    (each : ∀ k, (∃ b ∈ blocks, Holds image buf k b) ∨ unread k) (k : Nat)
    (inside : k * BLK_SIZE ≤ buf.size) :
    Reached buf.size (nextEntry buf) 0 (k * BLK_SIZE) ∨
      ∃ k' < k, unread k' ∧ Reached buf.size (nextEntry buf) 0 (k' * BLK_SIZE) := by
  induction k with
  | zero =>
      rw [Nat.zero_mul]
      exact .inl .here
  | succ k ih =>
      have before : k * BLK_SIZE ≤ buf.size :=
        le_trans (Nat.mul_le_mul_right _ (Nat.le_succ k)) inside
      rcases ih before with reached | ⟨k', lt, unread', reached⟩
      · rcases each k with ⟨b, hb, holds⟩ | unread'
        · obtain ⟨i, hi, rfl⟩ := List.mem_iff_getElem.1 hb
          have row := stored.get hi (by rw [← stored.length_eq]; exact hi)
          have through := reached_of_inRow (inRow_shift movable_entryAt holds row) inside
          rw [Nat.add_zero (k * BLK_SIZE)] at through
          exact .inl (reached.trans through)
        · exact .inr ⟨k, Nat.lt_succ_self k, unread', reached⟩
      · exact .inr ⟨k', Nat.lt_succ_of_lt lt, unread', reached⟩

/-- Memory in which each block begins with an entry of length 0. -/
def stuckMemory : Nat → UInt8 := fun i => if i % BLK_SIZE = 0 then 1 else 0

theorem nextEntry_of_unread {buf : Buffer} {k : Nat}
    (unread : ∀ j < BLK_SIZE, buf.byte (k * BLK_SIZE + j) = stuckMemory (k * BLK_SIZE + j)) :
    nextEntry buf (k * BLK_SIZE) = some (k * BLK_SIZE) := by
  have field : ∀ j n, j + n ≤ BLK_SIZE →
      leValue buf.byte (k * BLK_SIZE + j) n = leValue stuckBlock.byte j n := by
    intro j n inside
    refine leValue_congr fun i hi => ?_
    have lt : j + i < BLK_SIZE := by omega
    rw [Nat.add_assoc, unread _ lt, stuckMemory, Nat.mul_add_mod_of_lt lt]
    rfl
  have inode : inodeAt buf (k * BLK_SIZE) = 1 := by
    have first := field 0 4 (by decide)
    rwa [Nat.add_zero (k * BLK_SIZE)] at first
  have recLen : recLenAt buf (k * BLK_SIZE) = 0 := field 4 2 (by decide)
  rw [nextEntry, inode, recLen, Nat.add_zero (k * BLK_SIZE)]
  simp

/-- If an extent goes to the wrong block, the scan may come to memory that has not been read
into. -/
theorem not_exact_of_extents
    (stored : StoredDirectory image (inodes dirIno) exts (dirs dirIno)) (room : 5 < frames)
    (fails : ¬ OneEach exts) (nul : 0 ∉ tgName) (fits : tgName.length ≤ szKey2) :
    ¬ Exact image inodes dirs frames dirIno tgName := by
  intro exact
  have within : behindRead 0 exts ≤ total exts := by
    simpa using behindRead_le stored.long 0
  obtain ⟨buf, read, size, each, unread⟩ :=
    readExtents_eq_ok image (size_mk exts stuckMemory) within
  obtain ⟨rows, inBlocks, -⟩ := stored.rows
  have last := behindRead_lt stored.long stored.nonempty fails 0
  change buf.size = total exts * BLK_SIZE at size
  -- the scan comes to a block that has not been read into
  obtain ⟨k, lt, unread', reached⟩ : ∃ k < total exts,
      (∀ j < BLK_SIZE, buf.byte (k * BLK_SIZE + j) = stuckMemory (k * BLK_SIZE + j)) ∧
        Reached buf.size (nextEntry buf) 0 (k * BLK_SIZE) := by
    have inside : (total exts - 1) * BLK_SIZE ≤ buf.size := by
      rw [size]
      exact Nat.mul_le_mul_right _ (Nat.sub_le _ _)
    rcases reached_unread inBlocks each (total exts - 1) inside with reached | ⟨k, lt, hk⟩
    · exact ⟨total exts - 1, by omega, unread _ (.inr (by omega)), reached⟩
    · exact ⟨k, by omega, hk⟩
  -- where it stays
  have ends : ∃ fuel s, scan buf.size (visitEntry tgName dirIno buf) fuel
      ⟨ERROR_INO, LRURegion.init namei⟩ 0 = some (.ok s) := by
    obtain ⟨fuel, nameiCache', run, -⟩ := exact stuckMemory _ (sound_init dirs)
    rw [dirSearchFile_miss nul fits stored room rfl read, ← size] at run
    obtain ⟨result, scanned, mapped⟩ := Option.map_eq_some_iff.1 run
    cases result with
    | error e => cases mapped
    | ok s => exact ⟨fuel, s, scanned⟩
  have inside : k * BLK_SIZE < buf.size := by
    rw [size]
    exact Nat.mul_lt_mul_of_pos_right lt (by decide)
  have steered := steered_visitEntry tgName dirIno buf
  have passed := (steered.ends_iff cached_init).1 ends _ reached inside
  exact passed.2 (nextEntry_of_unread unread')

theorem not_exact_of_hidden (stored : StoredDirectory image (inodes dirIno) exts (dirs dirIno))
    (room : 5 < frames) (one : OneEach exts) {e : DirEntry} (he : e ∈ dirs dirIno)
    (last : lastInode (dirs dirIno) e.name = 0) (live : lookup (dirs dirIno) e.name ≠ 0) :
    ¬ Exact image inodes dirs frames dirIno e.name := by
  intro exact
  have nul := stored.nul e he
  have short := stored.short e he
  have fits : e.name.length ≤ szKey2 := le_trans short (by decide)
  have missed : (LRURegion.init namei).read namei (nodeOf dirIno e.name ERROR_INO) =
      (-ENOENT, nodeOf dirIno e.name ERROR_INO, LRURegion.init namei) := rfl
  obtain ⟨fuel, s, ended, inode, -⟩ : ∃ fuel s,
      dirSearchFile ⟨image, inodes, stuckMemory⟩ frames fuel e.name dirIno
        (LRURegion.init namei) = some (.ok (s.inode, s.nameiCache)) ∧
      Filled e.name dirIno [] (dirs dirIno) s :=
    dirSearchFile_filled nul fits stored room one List.foldlM_nil missed
  obtain ⟨fuel', nameiCache', run, -⟩ := exact stuckMemory _ (sound_init dirs)
  have same := dirSearchFile_agree nul fits stored room missed ended run
  have answer : s.inode = .ofNat (lookup (dirs dirIno) e.name) :=
    (Prod.mk.inj (Except.ok.inj same)).1
  rw [inode, last] at answer
  exact live (stored.eq_of_ofNat (by decide) answer).symm

theorem StoredDirectory.lookup_long {ino : Inode} {entries : List DirEntry}
    (stored : StoredDirectory image ino exts entries) (long : 255 < tgName.length) :
    lookup entries tgName = 0 := by
  refine lookup_eq_zero_iff.2 fun e he same => ?_
  have short := stored.short e he
  rw [same] at short
  omega

theorem exact_iff_of_256 (stored : StoredDirectory image (inodes dirIno) exts (dirs dirIno))
    (room : 5 < frames) (one : OneEach exts) (kept : NoneDeletedBehind (dirs dirIno))
    (nul : 0 ∉ tgName) (length : tgName.length = 256) :
    Exact image inodes dirs frames dirIno tgName ↔
      lookup (dirs dirIno) (tgName.take 255) = 0 := by
  have absent := stored.lookup_long (show 255 < tgName.length by omega)
  have fits : tgName.length ≤ szKey2 := le_of_eq length
  constructor
  · intro exact
    let name : Name := ⟨tgName.take 255, fun h => nul (List.mem_of_mem_take h),
      List.length_take_le 255 tgName⟩
    obtain ⟨accesses, nameiCache, cached, sound, live⟩ := exists_sound_live dirs dirIno name
    obtain ⟨nameiCache', -, hit⟩ := dirSearchFile_cached nul fits cached sound live
    obtain ⟨fuel, _, run, -⟩ := exact stuckMemory nameiCache sound
    rw [hit] at run
    have answer := (Prod.mk.inj (Except.ok.inj (Option.some.inj run))).1
    rw [← absent]
    exact stored.eq_of_ofNat (stored.lookup_lt _) answer
  · intro unseen
    exact exact_of_oneEach stored room one kept nul fits (unseen.trans absent.symm)

theorem not_exact_of_overflow (long : szKey2 < tgName.length) :
    ¬ Exact image inodes dirs frames dirIno tgName := by
  intro exact
  obtain ⟨fuel, _, run, -⟩ := exact stuckMemory _ (sound_init dirs)
  rw [dirSearchFile, NameiNode.new, if_pos long] at run
  cases run

/-- Lookups of names in a directory are exact, with any cache, exactly if all its extents but
the last one have one block and no deleted entry stands behind the live one of its name.  Of
longer names only those of 256 characters are looked up as they should be, where no live entry
has the first 255. -/
theorem dirSearchFile_exact_iff
    (stored : StoredDirectory image (inodes dirIno) exts (dirs dirIno)) (room : 5 < frames) :
    ((∀ name : Name, Exact image inodes dirs frames dirIno name.chars) ↔
      OneEach exts ∧ NoneDeletedBehind (dirs dirIno)) ∧
    (OneEach exts → NoneDeletedBehind (dirs dirIno) → ∀ tgName, 0 ∉ tgName →
      (Exact image inodes dirs frames dirIno tgName ↔ tgName.length ≤ 255 ∨
        tgName.length = 256 ∧ lookup (dirs dirIno) (tgName.take 255) = 0)) := by
  have short : OneEach exts → NoneDeletedBehind (dirs dirIno) → ∀ name : Name,
      Exact image inodes dirs frames dirIno name.chars := by
    intro one kept name
    have whole : name.chars.take 255 = name.chars := List.take_of_length_le name.short
    exact exact_of_oneEach stored room one kept name.nul (le_trans name.short (by decide))
      (by rw [whole])
  refine ⟨⟨fun exact => ?_, fun ⟨one, kept⟩ => short one kept⟩,
    fun one kept tgName nul => ⟨fun exact => ?_, ?_⟩⟩
  · have one : OneEach exts := by
      by_contra fails
      exact not_exact_of_extents stored room fails List.not_mem_nil (Nat.zero_le _)
        (exact ⟨[], List.not_mem_nil, Nat.zero_le _⟩)
    refine ⟨one, ?_⟩
    by_contra fails
    obtain ⟨e, he, last, live⟩ := exists_hidden stored.distinct fails
    exact not_exact_of_hidden stored room one he last live
      (exact ⟨e.name, stored.nul e he, stored.short e he⟩)
  · by_contra longer
    rw [not_or, not_le, not_and] at longer
    rcases eq_or_ne tgName.length 256 with length | other
    · exact longer.2 length ((exact_iff_of_256 stored room one kept nul length).1 exact)
    · have long : szKey2 < tgName.length := by
        unfold szKey2
        omega
      exact not_exact_of_overflow long exact
  · rintro (fits | ⟨length, unseen⟩)
    · exact short one kept ⟨tgName, nul, fits⟩
    · exact (exact_iff_of_256 stored room one kept nul length).2 unseen

end Exactness

/-! ## Directories -/

/-- Each block has one entry, with the names `a`, `b`, `c` and so on. -/
def oneEntryBlocks : Image := fun i =>
  ([11 + .ofNat (i / BLK_SIZE), 0, 0, 0, 0, 16, 1, 1, 97 + .ofNat (i / BLK_SIZE)]
    : List UInt8).getD (i % BLK_SIZE) 0

def oneBlock : Inode where
  iFlags := EXT4_EXTENTS_FL
  iBlock := ⟨60, fun i => ([0x0A, 0xF3, 1, 0, 4, 0, 0, 0, 0, 0, 0, 0,
    0, 0, 0, 0, 1, 0, 0, 0, 0, 0, 0, 0] : List UInt8).getD i 0⟩

theorem stored_oneBlock {image : Image} {entries : List DirEntry}
    (row : InRow BLK_SIZE (EntryAt (image.block 0)) 0 entries) (nul : ∀ e ∈ entries, 0 ∉ e.name)
    (distinct : Distinct entries) : StoredDirectory image oneBlock [⟨0, 0, 1⟩] entries where
  flagged := by decide
  linear := by decide
  tree := by
    refine ⟨0, by decide, ([⟨0, 0, 1⟩] : List Ext), ⟨⟨4, by decide, rfl⟩, rfl, trivial⟩, rfl⟩
  nonempty := List.cons_ne_nil _ _
  long := by decide
  rows := ⟨[entries], .cons row .nil, List.append_nil entries⟩
  nul := nul
  distinct := distinct

theorem entryAt_oneEntryBlocks {k : Nat} (small : k < 3) :
    InRow BLK_SIZE (EntryAt (oneEntryBlocks.block k)) 0 [⟨11 + k, [97 + .ofNat k]⟩] := by
  refine ⟨BLK_SIZE, by decide, le_refl _, ?_, rfl⟩
  match k, small with
  | 0, _ => exact ⟨by decide, by decide, by decide, by decide, by decide⟩
  | 1, _ => exact ⟨by decide, by decide, by decide, by decide, by decide⟩
  | 2, _ => exact ⟨by decide, by decide, by decide, by decide, by decide⟩

def oneBlockExtents : Inode where
  iFlags := EXT4_EXTENTS_FL
  iBlock := ⟨60, fun i => ([0x0A, 0xF3, 2, 0, 4, 0, 0, 0, 0, 0, 0, 0,
    0, 0, 0, 0, 1, 0, 0, 0, 0, 0, 0, 0, 1, 0, 0, 0, 1, 0, 0, 0, 1, 0, 0, 0]
      : List UInt8).getD i 0⟩

/-- A block with a deleted entry `a` and a live one behind it, and a block with an entry `b`. -/
def deletedBefore : Image := fun i =>
  if i < BLK_SIZE then
    ([0, 0, 0, 0, 12, 0, 1, 1, 97, 0, 0, 0, 11, 0, 0, 0, 0xF4, 15, 1, 1, 97]
      : List UInt8).getD i 0
  else ([12, 0, 0, 0, 0, 16, 1, 1, 98] : List UInt8).getD (i - BLK_SIZE) 0

/-- Every name that a directory can hold is looked up as stored; one of 257 characters is not. -/
theorem dirSearchFile_exact_iff_twoBlocks :
    (∀ name : Name, Exact deletedBefore (fun _ => oneBlockExtents)
      (fun _ => [⟨0, [97]⟩, ⟨11, [97]⟩, ⟨12, [98]⟩]) 6 2 name.chars) ∧
    ¬ Exact deletedBefore (fun _ => oneBlockExtents)
      (fun _ => [⟨0, [97]⟩, ⟨11, [97]⟩, ⟨12, [98]⟩]) 6 2 (List.replicate 257 97) := by
  have stored : StoredDirectory deletedBefore oneBlockExtents [⟨0, 0, 1⟩, ⟨1, 1, 1⟩]
      [⟨0, [97]⟩, ⟨11, [97]⟩, ⟨12, [98]⟩] := {
    flagged := by decide
    linear := by decide
    tree := by
      refine ⟨0, by decide, ([⟨0, 0, 1⟩, ⟨1, 1, 1⟩] : List Ext),
        ⟨⟨4, by decide, rfl⟩, rfl, rfl, trivial⟩, rfl⟩
    nonempty := List.cons_ne_nil _ _
    long := by decide
    rows := by
      refine ⟨[[⟨0, [97]⟩, ⟨11, [97]⟩], [⟨12, [98]⟩]], .cons ?_ (.cons ?_ .nil), rfl⟩
      · refine ⟨12, by decide, by decide, ?_, BLK_SIZE, by decide, le_refl _, ?_, rfl⟩
        · exact ⟨by decide, by decide, by decide, by decide, by decide⟩
        · exact ⟨by decide, by decide, by decide, by decide, by decide⟩
      · refine ⟨BLK_SIZE, by decide, le_refl _, ?_, rfl⟩
        exact ⟨by decide, by decide, by decide, by decide, by decide⟩
    nul := by decide
    distinct := by simp [Distinct] }
  have one : OneEach [⟨0, 0, 1⟩, ⟨1, 1, 1⟩] := by simp [OneEach]
  have kept : NoneDeletedBehind [⟨0, [97]⟩, ⟨11, [97]⟩, ⟨12, [98]⟩] := by
    simp [NoneDeletedBehind]
  refine ⟨(dirSearchFile_exact_iff stored (by decide)).1.2 ⟨one, kept⟩, fun exact => ?_⟩
  have fits := ((dirSearchFile_exact_iff stored (by decide)).2 one kept (List.replicate 257 97)
    fun nul => absurd (List.eq_of_mem_replicate nul) (by decide)).1 exact
  rw [List.length_replicate] at fits
  omega

def twoExtents : Inode where
  iFlags := EXT4_EXTENTS_FL
  iBlock := ⟨60, fun i => ([0x0A, 0xF3, 2, 0, 4, 0, 0, 0, 0, 0, 0, 0,
    0, 0, 0, 0, 2, 0, 0, 0, 0, 0, 0, 0, 2, 0, 0, 0, 1, 0, 0, 0, 2, 0, 0, 0]
      : List UInt8).getD i 0⟩

def deletedBehind : Image := fun i =>
  ([11, 0, 0, 0, 12, 0, 1, 1, 97, 0, 0, 0, 0, 0, 0, 0, 0xF4, 15, 1, 1, 97]
    : List UInt8).getD i 0

/-- A directory whose first extent has two blocks, and one in which a deleted entry stands
behind the live one of its name. -/
theorem lookups_not_exact :
    (StoredDirectory oneEntryBlocks twoExtents [⟨0, 0, 2⟩, ⟨2, 2, 1⟩]
        [⟨11, [97]⟩, ⟨12, [98]⟩, ⟨13, [99]⟩] ∧
      ¬ Exact oneEntryBlocks (fun _ => twoExtents)
        (fun _ => [⟨11, [97]⟩, ⟨12, [98]⟩, ⟨13, [99]⟩]) 6 2 [98]) ∧
    (StoredDirectory deletedBehind oneBlock [⟨0, 0, 1⟩] [⟨11, [97]⟩, ⟨0, [97]⟩] ∧
      ¬ Exact deletedBehind (fun _ => oneBlock) (fun _ => [⟨11, [97]⟩, ⟨0, [97]⟩]) 6 2 [97]) := by
  have extents : StoredDirectory oneEntryBlocks twoExtents [⟨0, 0, 2⟩, ⟨2, 2, 1⟩]
      [⟨11, [97]⟩, ⟨12, [98]⟩, ⟨13, [99]⟩] := {
    flagged := by decide
    linear := by decide
    tree := by
      refine ⟨0, by decide, ([⟨0, 0, 2⟩, ⟨2, 2, 1⟩] : List Ext),
        ⟨⟨4, by decide, rfl⟩, rfl, rfl, trivial⟩, rfl⟩
    nonempty := List.cons_ne_nil _ _
    long := by decide
    rows := by
      refine ⟨[[⟨11, [97]⟩], [⟨12, [98]⟩], [⟨13, [99]⟩]], ?_, rfl⟩
      exact .cons (entryAt_oneEntryBlocks (by decide)) (.cons (entryAt_oneEntryBlocks (by decide))
        (.cons (entryAt_oneEntryBlocks (by decide)) .nil))
    nul := by decide
    distinct := by
      unfold Distinct
      simp }
  have deleted : StoredDirectory deletedBehind oneBlock [⟨0, 0, 1⟩]
      [⟨11, [97]⟩, ⟨0, [97]⟩] := by
    refine stored_oneBlock ?_ (by decide) (by simp [Distinct])
    refine ⟨12, by decide, by decide, ?_, BLK_SIZE, by decide, le_refl _, ?_, rfl⟩
    · exact ⟨by decide, by decide, by decide, by decide, by decide⟩
    · exact ⟨by decide, by decide, by decide, by decide, by decide⟩
  refine ⟨⟨extents, ?_⟩, deleted, ?_⟩
  · exact not_exact_of_extents extents (by decide) (by simp [OneEach]) (by decide) (by decide)
  · have one : OneEach [⟨0, 0, 1⟩] := trivial
    exact not_exact_of_hidden (e := ⟨11, [97]⟩) deleted (by decide) one List.mem_cons_self
      (by decide) (by decide)

end SimpleSSD.ISC.Ext4
