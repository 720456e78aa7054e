import SimpleSSD.Foundation.Prefixes
import SimpleSSD.ISC.Slet.Dirents

/-!
# The inodes of a directory

`StatdirAPP` in `isc/slet/statdir.cc`.  It puts the extents of a directory where the lookup of a
name does, each to the block of its index, and the buffer is zero elsewhere.  The walk through
the entries stops at an inode 0, and passes over one tail behind an entry.
-/

namespace SimpleSSD.ISC.Ext4

open SimpleSSD.Foundation

/-! ## The application -/

structure StatInode where
  iMode : Nat
  iSizeLo : Nat
  iMtime : Nat
  iSizeHigh : Nat

structure StatRecord where
  mtime : Nat
  size : Nat
  mode : Nat
  data : List UInt8

/-- What a name leaves in the 256 characters of a record from `calloc`. -/
def nameData (name : List UInt8) : List UInt8 := name ++ List.replicate (256 - name.length) 0

def statRecord (inodes : Nat → StatInode) (found : Nat × List UInt8) : StatRecord where
  mtime := (inodes found.1).iMtime
  size := (inodes found.1).iSizeLo
  mode := (inodes found.1).iMode
  data := nameData found.2

def szData : Nat := 268

/-- The result size and the records.  There is room for a record for each `dent_t` of the
buffer. -/
def StatdirAPP.startup (image : Image) (inodes : Nat → StatInode) (exts : List Ext)
    (fuel : Nat) : Option (Except Fault (Nat × List StatRecord)) :=
  match readExtents image 0 exts (zeroDir exts) with
  | .error e => some (.error e)
  | .ok dents =>
      match StatdirAPP.inodeFilter dents fuel with
      | none => none
      | some (.error e) => some (.error e)
      | some (.ok res) =>
          if dents.size / szDent < res.length then some (.error .undefined)
          else some (.ok (szData * res.length, res.map (statRecord inodes)))

/-! ## Directories -/

def Dirent.isLive (d : Dirent) : Bool := d.inode ≠ 0

def Dirent.isTail (d : Dirent) : Bool := d.inode = 0 ∧ d.fileType = 0xde

def live (entries : List Dirent) : List Dirent := entries.filter Dirent.isLive

structure LinearDirectory (image : Image) (exts : List Ext) (rowOf : Nat → List Dirent) :
    Prop where
  long : ∀ e ∈ exts, 1 ≤ e.len
  rows : ∀ b ∈ blocksOf exts, InRow BLK_SIZE (LongAt (image.block b)) 0 (rowOf b)
  nul : ∀ d ∈ live ((blocksOf exts).flatMap rowOf), 0 ∉ d.name
  distinct : (live ((blocksOf exts).flatMap rowOf)).Pairwise fun d later => d.name ≠ later.name

def statOf (inodes : Nat → StatInode) (d : Dirent) : StatRecord where
  mtime := (inodes d.inode).iMtime
  size := CAT3232U (inodes d.inode).iSizeHigh (inodes d.inode).iSizeLo
  mode := (inodes d.inode).iMode
  data := nameData d.name

/-- One record for each live entry, in order, and their size. -/
def Lists (image : Image) (inodes : Nat → StatInode) (exts : List Ext) (entries : List Dirent) :
    Prop :=
  ∃ fuel, StatdirAPP.startup image inodes exts fuel =
    some (.ok (szData * (live entries).length, (live entries).map (statOf inodes)))

/-! ## Blocks -/

def placeBlocks : Nat → List Ext → List (Option Nat) → List (Option Nat)
  | _, [], blocks => blocks
  | ie, e :: rest, blocks =>
      placeBlocks (ie + 1) rest (overwrite blocks ie ((List.range' e.slbn e.len).map some))

def placedBlocks (exts : List Ext) : List (Option Nat) :=
  placeBlocks 0 exts (List.replicate (total exts) none)

/-- The entries of a block of the buffer; one of zeros stops a walk. -/
def rowAt (rowOf : Nat → List Dirent) : Option Nat → List Dirent
  | some b => rowOf b
  | none => [⟨⟨0, []⟩, 0⟩]

def placedEntries (exts : List Ext) (rowOf : Nat → List Dirent) : List Dirent :=
  (placedBlocks exts).flatMap (rowAt rowOf)

/-- A block of the buffer is one of the image, or is zero. -/
def Shows (image : Image) (buf : Buffer) (k : Nat) : Option Nat → Prop
  | some b => Holds image buf k b
  | none => ∀ j < BLK_SIZE, buf.byte (k * BLK_SIZE + j) = 0

section Blocks

variable {image : Image} {exts rest : List Ext} {buf : Buffer} {blocks : List (Option Nat)}
  {ie : Nat} {e : Ext}

theorem length_range'_map (e : Ext) : ((List.range' e.slbn e.len).map some).length = e.len := by
  simp

theorem Shows.congr {buf' : Buffer} {k : Nat} {block : Option Nat} (h : Shows image buf k block)
    (same : ∀ j < BLK_SIZE, buf'.byte (k * BLK_SIZE + j) = buf.byte (k * BLK_SIZE + j)) :
    Shows image buf' k block := by
  cases block with
  | none => exact fun j hj => (same j hj).trans (h j hj)
  | some b => exact fun j hj => (same j hj).trans (h j hj)

theorem readExtents_shows (image : Image) {all : List Ext}
    (size : buf.size = total all * BLK_SIZE) (room : behindRead ie exts ≤ total all)
    (count : blocks.length = total all) (shown : Listed (Shows image buf) 0 blocks) :
    ∃ buf', readExtents image ie exts buf = .ok buf' ∧ buf'.size = buf.size ∧
      (placeBlocks ie exts blocks).length = total all ∧
      Listed (Shows image buf') 0 (placeBlocks ie exts blocks) := by
  induction exts generalizing ie buf blocks with
  | nil => exact ⟨buf, rfl, rfl, count, shown⟩
  | cons e rest ih =>
      rw [behindRead] at room
      have roomFirst : ie + e.len ≤ total all := le_trans (le_max_left _ _) room
      have fits : ie + ((List.range' e.slbn e.len).map some).length ≤ blocks.length := by
        rw [length_range'_map, count]
        exact roomFirst
      obtain ⟨mid, filled, sizeMid, held, others⟩ := fill_block image roomFirst size
      have shownMid : Listed (Shows image mid) 0
          (overwrite blocks ie ((List.range' e.slbn e.len).map some)) := by
        refine listed_of_getElem fun k hk => ?_
        have value := getElem?_overwrite fits k
        rw [List.getElem?_eq_getElem hk, length_range'_map] at value
        rw [Nat.zero_add]
        by_cases within : ie ≤ k ∧ k < ie + e.len
        · have written : (overwrite blocks ie ((List.range' e.slbn e.len).map some))[k] =
              some (e.slbn + (k - ie)) := by
            rw [if_pos within, List.getElem?_map, List.getElem?_range' (by omega)] at value
            simpa using value
          rw [written]
          exact held k within.1 within.2
        · have inside : k < blocks.length := by rwa [length_overwrite fits] at hk
          have kept := shown.getElem inside
          rw [if_neg within, List.getElem?_eq_getElem inside] at value
          rw [Option.some.inj value]
          rw [Nat.zero_add] at kept
          exact kept.congr (others k (by omega))
      obtain ⟨buf', read, size', count', shown'⟩ := ih (sizeMid.trans size)
        (le_trans (le_max_right _ _) room) ((length_overwrite fits).trans count) shownMid
      exact ⟨buf', by rw [readExtents, filled, ok_bind, read], size'.trans sizeMid, count', shown'⟩

theorem mem_placeBlocks {b : Nat} (h : some b ∈ placeBlocks ie exts blocks) :
    some b ∈ blocks ∨ b ∈ blocksOf exts := by
  induction exts generalizing ie blocks with
  | nil => exact .inl h
  | cons e rest ih =>
      rw [blocksOf_cons, List.mem_append]
      rcases ih h with before | later
      · rcases mem_overwrite before with kept | written
        · exact .inl kept
        · exact .inr (.inl (by simpa using written))
      · exact .inr (.inr later)

theorem mem_placedBlocks {b : Nat} (h : some b ∈ placedBlocks exts) : b ∈ blocksOf exts := by
  rcases mem_placeBlocks h with zero | read
  · simp at zero
  · exact read

theorem length_flatMap_placeBlocks_le {α : Type*} (f : Option Nat → List α) (ie : Nat)
    (exts : List Ext) (blocks : List (Option Nat)) :
    ((placeBlocks ie exts blocks).flatMap f).length ≤
      (blocks.flatMap f).length + (((blocksOf exts).map some).flatMap f).length := by
  induction exts generalizing ie blocks with
  | nil => exact Nat.le_add_right _ _
  | cons e rest ih =>
      have later := ih (ie + 1) (overwrite blocks ie ((List.range' e.slbn e.len).map some))
      have first := length_flatMap_overwrite_le f blocks ie ((List.range' e.slbn e.len).map some)
      rw [placeBlocks, blocksOf_cons, List.map_append, List.flatMap_append, List.length_append]
      omega

end Blocks

/-! ## The walk -/

/-- What stands in the buffer: an entry that is live or a tail, or one that stops the walk. -/
structure StandsAt (buf : Buffer) (ofs : Nat) (d : Dirent) (next : Nat) : Prop where
  inode : inodeAt buf ofs = d.inode
  fileType : fileTypeAt buf ofs = d.fileType
  long : ofs + szDent ≤ next
  used : d.isLive = true ∨ d.isTail = true → DirentAt buf ofs d next

/-- The entries found, unless the walk looks for one behind the last. -/
def walk : List Dirent → Option (List Dirent)
  | [] => some []
  | [d] => if d.isLive then none else some []
  | d :: d' :: rest =>
      if d.isLive then (if d'.isTail then walk rest else walk (d' :: rest)).map (d :: ·)
      else some []

section Walk

variable {dents : Buffer} {ofs next next' : Nat} {d d' : Dirent} {entries : List Dirent}
  {res : List (Nat × List UInt8)}

theorem EntryAt.bytes {e : DirEntry} (h : EntryAt dents ofs e next) (inside : next ≤ dents.size) :
    dents.bytes e.name.length (ofs + 8) = .ok e.name := by
  have long := h.long
  have reach := h.next
  exact bytes_listed h.stands (by omega)

theorem StandsAt.inode_eq (h : StandsAt dents ofs d next) (inside : next ≤ dents.size) :
    direntInode dents ofs = .ok d.inode := by
  have long : ofs + 12 ≤ next := h.long
  rw [direntInode_eq (by omega), h.inode]

theorem StandsAt.fileType_eq (h : StandsAt dents ofs d next) (inside : next ≤ dents.size) :
    direntFileType dents ofs = .ok d.fileType := by
  have long : ofs + 12 ≤ next := h.long
  rw [direntFileType_eq (by omega), h.fileType]

theorem visitInode_dead (h : StandsAt dents ofs d next) (inside : next ≤ dents.size)
    (dead : d.isLive = false) : visitInode dents res ofs = .ok (.stop res) := by
  have zero : d.inode = 0 := by simpa [Dirent.isLive] using dead
  rw [visitInode, h.inode_eq inside, ok_bind, if_pos zero]

theorem visitInode_live (h : StandsAt dents ofs d next) (inside : next ≤ dents.size)
    (isLive : d.isLive = true) : visitInode dents res ofs = (do
      let later ← direntInode dents next
      if later = 0 then
        let fileType ← direntFileType dents next
        if fileType = 0xde then
          let tail ← direntRecLen dents next
          .ok (.go (res ++ [(d.inode, d.name)]) (next + tail))
        else .ok (.go (res ++ [(d.inode, d.name)]) next)
      else .ok (.go (res ++ [(d.inode, d.name)]) next)) := by
  have entry := h.used (.inl isLive)
  have used : d.inode ≠ 0 := by simpa [Dirent.isLive] using isLive
  rw [visitInode, h.inode_eq inside, ok_bind, if_neg used, entry.nameLen_eq inside, ok_bind,
    entry.bytes inside, ok_bind, entry.recLen_eq inside, ok_bind, entry.next]

theorem visitInode_last (h : StandsAt dents ofs d dents.size) (isLive : d.isLive = true) :
    visitInode dents res ofs = .error .undefined := by
  rw [visitInode_live h (le_refl _) isLive]
  have behind : direntInode dents dents.size = .error .undefined := if_neg (by omega)
  rw [behind]
  rfl

theorem visitInode_go (res : List (Nat × List UInt8)) (h : StandsAt dents ofs d next)
    (inside : next ≤ dents.size) (isLive : d.isLive = true) (h' : StandsAt dents next d' next')
    (inside' : next' ≤ dents.size) :
    visitInode dents res ofs =
      .ok (.go (res ++ [(d.inode, d.name)]) (if d'.isTail then next' else next)) := by
  rw [visitInode_live h inside isLive, h'.inode_eq inside', ok_bind]
  by_cases dead : d'.inode = 0
  · rw [if_pos dead, h'.fileType_eq inside', ok_bind]
    by_cases checksum : d'.fileType = 0xde
    · have tail : d'.isTail = true := by simp [Dirent.isTail, dead, checksum]
      have entry := h'.used (.inr tail)
      rw [if_pos checksum, entry.recLen_eq inside', ok_bind, entry.next, if_pos tail]
    · rw [if_neg checksum, if_neg (by simp [Dirent.isTail, checksum])]
  · rw [if_neg dead, if_neg (by simp [Dirent.isTail, dead])]

theorem scan_visitInode (row : InRow dents.size (StandsAt dents) ofs entries)
    (res : List (Nat × List UInt8)) :
    ∃ fuel, scan dents.size (visitInode dents) fuel res ofs =
      some ((walk entries).elim (.error .undefined) fun found =>
        .ok (res ++ found.map fun d => (d.inode, d.name))) := by
  induction entries using walk.induct generalizing ofs res with
  | case1 =>
      have last : ofs = dents.size := row
      exact ⟨1, by simp [scan, last, walk]⟩
  | case2 d isLive =>
      obtain ⟨next, lt, inside, here, rfl⟩ := row
      refine ⟨1, ?_⟩
      rw [scan, if_pos lt, walk, if_pos isLive, visitInode_last here isLive]
      rfl
  | case3 d dead =>
      obtain ⟨next, lt, inside, here, rfl⟩ := row
      refine ⟨1, ?_⟩
      rw [scan, if_pos lt, walk, if_neg dead, visitInode_dead here inside (by simpa using dead)]
      simp
  | case4 d d' rest isLive behindTail behind =>
      obtain ⟨next, lt, inside, here, later⟩ := row
      obtain ⟨next', _, inside', there, after⟩ := id later
      have go := visitInode_go res here inside isLive there inside'
      by_cases tail : d'.isTail = true
      · obtain ⟨fuel, run⟩ := behindTail after (res ++ [(d.inode, d.name)])
        refine ⟨fuel + 1, ?_⟩
        rw [scan, if_pos (lt_of_lt_of_le lt inside), go, walk, if_pos isLive, if_pos tail,
          if_pos tail]
        refine run.trans ?_
        cases walk rest <;> simp
      · obtain ⟨fuel, run⟩ := behind later (res ++ [(d.inode, d.name)])
        refine ⟨fuel + 1, ?_⟩
        rw [scan, if_pos (lt_of_lt_of_le lt inside), go, walk, if_pos isLive, if_neg tail,
          if_neg tail]
        refine run.trans ?_
        cases walk (d' :: rest) <;> simp
  | case5 d d' rest dead =>
      obtain ⟨next, lt, inside, here, -⟩ := row
      refine ⟨1, ?_⟩
      rw [scan, if_pos (lt_of_lt_of_le lt inside), walk, if_neg dead,
        visitInode_dead here inside (by simpa using dead)]
      simp

end Walk

/-! ## What is found -/

/-- An entry with inode 0 in front of a live one is a tail behind a live one, and the last entry
is not live.  `front` says whether the entry in front is live. -/
def Passable : Bool → List Dirent → Prop
  | front, [] => front = false
  | front, d :: rest =>
      (d.isLive = false → live rest ≠ [] → front = true ∧ d.isTail = true) ∧
        Passable d.isLive rest

instance decidablePassable : (front : Bool) → (entries : List Dirent) →
    Decidable (Passable front entries)
  | front, [] => inferInstanceAs (Decidable (front = false))
  | front, d :: rest =>
      have := decidablePassable d.isLive rest
      inferInstanceAs (Decidable
        ((d.isLive = false → live rest ≠ [] → front = true ∧ d.isTail = true) ∧
          Passable d.isLive rest))

section Found

variable {entries found : List Dirent} {d : Dirent}

theorem Dirent.isLive_of_isTail (tail : d.isTail = true) : d.isLive = false := by
  have zero : d.inode = 0 ∧ d.fileType = 0xde := by simpa [Dirent.isTail] using tail
  simp [Dirent.isLive, zero.1]

theorem passable_of_none_live (none : live entries = []) : Passable false entries := by
  induction entries with
  | nil => rfl
  | cons d rest ih =>
      rw [live, List.filter_cons] at none
      split_ifs at none with isLive
      have dead : d.isLive = false := by simpa using isLive
      refine ⟨fun _ more => absurd none more, ?_⟩
      rw [dead]
      exact ih none

theorem prefix_of_walk (h : walk entries = some found) : found <+: live entries := by
  induction entries using walk.induct generalizing found with
  | case1 =>
      obtain rfl := Option.some.inj h
      exact List.nil_prefix
  | case2 d isLive =>
      rw [walk, if_pos isLive] at h
      cases h
  | case3 d dead =>
      rw [walk, if_neg dead] at h
      obtain rfl := Option.some.inj h
      exact List.nil_prefix
  | case4 d d' rest isLive behindTail behind =>
      rw [walk, if_pos isLive] at h
      obtain ⟨later, walked, rfl⟩ := Option.map_eq_some_iff.1 h
      rw [live, List.filter_cons_of_pos isLive, List.cons_prefix_cons]
      refine ⟨rfl, ?_⟩
      split_ifs at walked with tail
      · have dead := Dirent.isLive_of_isTail tail
        rw [List.filter_cons_of_neg (by simp [dead])]
        exact behindTail walked
      · exact behind walked
  | case5 d d' rest dead =>
      rw [walk, if_neg dead] at h
      obtain rfl := Option.some.inj h
      exact List.nil_prefix

theorem walk_eq_live_iff : walk entries = some (live entries) ↔ Passable false entries := by
  induction entries using walk.induct with
  | case1 => simp [walk, live, Passable]
  | case2 d isLive => simp [walk, live, Passable, isLive]
  | case3 d dead => simp [walk, live, Passable, dead]
  | case4 d d' rest isLive behindTail behind =>
      have first : live (d :: d' :: rest) = d :: live (d' :: rest) :=
        List.filter_cons_of_pos isLive
      rw [walk, if_pos isLive, first, Option.map_eq_some_iff]
      by_cases tail : d'.isTail = true
      · have dead := Dirent.isLive_of_isTail tail
        have second : live (d' :: rest) = live rest := List.filter_cons_of_neg (by simp [dead])
        rw [if_pos tail, second]
        simp [Passable, isLive, dead, tail, ← behindTail]
      · rw [if_neg tail]
        simp [Passable, isLive, tail, behind]
  | case5 d d' rest dead =>
      have first : live (d :: d' :: rest) = live (d' :: rest) := List.filter_cons_of_neg dead
      have deadBool : d.isLive = false := by simpa using dead
      rw [walk, if_neg dead, first, Passable, deadBool]
      constructor
      · intro none
        have noneLive : live (d' :: rest) = [] := (Option.some.inj none).symm
        exact ⟨fun _ more => absurd noneLive more, passable_of_none_live noneLive⟩
      · rintro ⟨stops, -⟩
        by_contra more
        have behind : live (d' :: rest) ≠ [] := fun none => more (congrArg some none.symm)
        exact Bool.false_ne_true (stops rfl behind).1

end Found

/-! ## Listing -/

section Listing

variable {image : Image} {exts : List Ext} {rowOf : Nat → List Dirent} {buf : Buffer}
  {ofs next : Nat} {d : Dirent}

theorem LongAt.stands (h : LongAt buf ofs d next) : StandsAt buf ofs d next :=
  ⟨h.1.inode, h.1.fileType, h.2, fun _ => h.1⟩

theorem leValue_zero {byte : Nat → UInt8} {ofs n : Nat} (zero : ∀ i < n, byte (ofs + i) = 0) :
    leValue byte ofs n = 0 := by
  induction n generalizing ofs with
  | zero => rfl
  | succ n ih =>
      have first : byte ofs = 0 := zero 0 (Nat.succ_pos n)
      have later : ∀ i < n, byte (ofs + 1 + i) = 0 := fun i hi => by
        rw [Nat.add_right_comm, Nat.add_assoc]
        exact zero (i + 1) (Nat.succ_lt_succ hi)
      rw [leValue, first, ih later]
      rfl

theorem inRow_zeros {k : Nat} (zeros : Shows image buf k none) :
    InRow ((k + 1) * BLK_SIZE) (StandsAt buf) (k * BLK_SIZE) (rowAt rowOf none) := by
  have room : k * BLK_SIZE + 12 ≤ (k + 1) * BLK_SIZE := by
    have wide : 12 ≤ BLK_SIZE := by decide
    rw [Nat.succ_mul]
    omega
  have inode : inodeAt buf (k * BLK_SIZE) = 0 :=
    leValue_zero fun i hi => zeros i (lt_trans hi (by decide))
  have fileType : fileTypeAt buf (k * BLK_SIZE) = 0 := leValue_zero fun i hi => by
    have inside : 7 + i < BLK_SIZE := lt_of_lt_of_le (Nat.add_lt_add_left hi 7) (by decide)
    rw [Nat.add_assoc]
    exact zeros (7 + i) inside
  exact ⟨(k + 1) * BLK_SIZE, by omega, le_refl _,
    ⟨inode, fileType, room, by simp [Dirent.isLive, Dirent.isTail]⟩, rfl⟩

theorem readExtents_row (dir : LinearDirectory image exts rowOf) :
    ∃ dents, readExtents image 0 exts (zeroDir exts) = .ok dents ∧
      InRow dents.size (StandsAt dents) 0 (placedEntries exts rowOf) := by
  have size : (zeroDir exts).size = total exts * BLK_SIZE := szBuf_eq exts
  have room : behindRead 0 exts ≤ total exts := by simpa using behindRead_le dir.long 0
  have zeros : Listed (Shows image (zeroDir exts)) 0 (List.replicate (total exts) none) :=
    listed_of_getElem fun k hk => by
      rw [List.getElem_replicate]
      exact fun _ _ => rfl
  obtain ⟨dents, read, size', count, shown⟩ :=
    readExtents_shows image size room List.length_replicate zeros
  refine ⟨dents, read, ?_⟩
  have blocks : ∀ k (h : k < ((placedBlocks exts).map (rowAt rowOf)).length),
      InRow ((0 + k + 1) * BLK_SIZE) (StandsAt dents) ((0 + k) * BLK_SIZE)
        ((placedBlocks exts).map (rowAt rowOf))[k] := by
    intro k h
    rw [List.length_map] at h
    have here := shown.getElem h
    rw [List.getElem_map]
    change Shows image dents (0 + k) (placedBlocks exts)[k] at here
    cases block : (placedBlocks exts)[k] with
    | some b =>
        rw [block] at here
        have read := mem_placedBlocks (block ▸ List.getElem_mem h)
        have row := inRow_shift movable_longAt here (dir.rows b read)
        rw [Nat.add_zero ((0 + k) * BLK_SIZE)] at row
        exact row.imp fun d _ ofs next long => long.stands
    | none =>
        rw [block] at here
        exact inRow_zeros here
  have row := InRow.flatten 0 blocks
  change (placedBlocks exts).length = total exts at count
  rw [List.length_map, Nat.zero_add, Nat.zero_mul, count, ← size, ← size'] at row
  exact row

theorem live_flatMap {α : Type*} (blocks : List α) (row : α → List Dirent) :
    live (blocks.flatMap row) = blocks.flatMap fun block => live (row block) :=
  List.filter_flatMap

theorem live_placedEntries (exts : List Ext) (rowOf : Nat → List Dirent) :
    live (placedEntries exts rowOf) ⊆ live ((blocksOf exts).flatMap rowOf) ∧
      (live (placedEntries exts rowOf)).length ≤
        (live ((blocksOf exts).flatMap rowOf)).length := by
  rw [placedEntries, live_flatMap, live_flatMap]
  constructor
  · intro d hd
    obtain ⟨block, hblock, hd⟩ := List.mem_flatMap.1 hd
    cases block with
    | none => cases hd
    | some b => exact List.mem_flatMap.2 ⟨b, mem_placedBlocks hblock, hd⟩
  · have le := length_flatMap_placeBlocks_le (fun block => live (rowAt rowOf block)) 0 exts
      (List.replicate (total exts) none)
    have zeros : (List.replicate (total exts) none).flatMap
        (fun block => live (rowAt rowOf block)) = [] :=
      List.flatMap_eq_nil_iff.2 fun block hblock => by
        rw [List.eq_of_mem_replicate hblock]
        rfl
    rw [zeros, List.length_nil, Nat.zero_add, List.flatMap_map] at le
    exact le

theorem nameData_inj {name name' : List UInt8} (nul : 0 ∉ name) (nul' : 0 ∉ name')
    (same : nameData name = nameData name') : name = name' := by
  have front : ∀ s : List UInt8, 0 ∉ s → (nameData s).takeWhile (· ≠ 0) = s := by
    intro s hs
    have chars : ∀ c ∈ s, decide (c ≠ 0) = true := by
      intro c hc
      simpa using fun zero : c = 0 => hs (zero ▸ hc)
    rw [nameData, List.takeWhile_append_of_pos chars, List.takeWhile_replicate]
    simp
  rw [← front name nul, same, front name' nul']

theorem LinearDirectory.apart (dir : LinearDirectory image exts rowOf) :
    ((live ((blocksOf exts).flatMap rowOf)).map fun d => nameData d.name).Nodup := by
  refine List.pairwise_map.2 (List.Pairwise.imp_of_mem ?_ dir.distinct)
  intro d later hd hlater differ same
  exact differ (nameData_inj (dir.nul d hd) (dir.nul later hlater) same)

/-- What the application makes of a directory: an access behind the buffer, or the records of the
entries found. -/
theorem startup_eq (dir : LinearDirectory image exts rowOf) (inodes : Nat → StatInode) :
    ∃ fuel, StatdirAPP.startup image inodes exts fuel =
      some ((walk (placedEntries exts rowOf)).elim (.error .undefined) fun found =>
        .ok (szData * found.length,
          found.map fun d => statRecord inodes (d.inode, d.name))) := by
  obtain ⟨dents, read, row⟩ := readExtents_row dir
  obtain ⟨fuel, run⟩ := scan_visitInode row []
  refine ⟨fuel, ?_⟩
  have fewEntries : szDent * (placedEntries exts rowOf).length ≤ dents.size := by
    have le := row.mul_length_le fun ofs d next stands => stands.long
    rwa [Nat.zero_add] at le
  unfold StatdirAPP.startup
  simp only [read, StatdirAPP.inodeFilter, run]
  cases walked : walk (placedEntries exts rowOf) with
  | none => rfl
  | some found =>
      have few : found.length ≤ (placedEntries exts rowOf).length :=
        le_trans (prefix_of_walk walked).length_le (List.length_filter_le _ _)
      have room : found.length ≤ dents.size / szDent :=
        (Nat.le_div_iff_mul_le (by decide)).2
          (le_trans (Nat.mul_comm _ _ ▸ Nat.mul_le_mul_left szDent few) fewEntries)
      simp only [Option.elim, List.nil_append, List.length_map, List.map_map]
      rw [if_neg (Nat.not_lt.2 room)]
      rfl

theorem startup_agree {inodes : Nat → StatInode} {fuel fuel' : Nat}
    {a b : Except Fault (Nat × List StatRecord)}
    (run : StatdirAPP.startup image inodes exts fuel = some a)
    (run' : StatdirAPP.startup image inodes exts fuel' = some b) : a = b := by
  unfold StatdirAPP.startup at run run'
  cases read : readExtents image 0 exts (zeroDir exts) with
  | error e =>
      rw [read] at run run'
      exact Option.some.inj (run.symm.trans run')
  | ok dents =>
      simp only [read] at run run'
      cases walked : StatdirAPP.inodeFilter dents fuel with
      | none =>
          rw [walked] at run
          cases run
      | some res =>
          cases walked' : StatdirAPP.inodeFilter dents fuel' with
          | none =>
              rw [walked'] at run'
              cases run'
          | some res' =>
              obtain rfl := scan_agree walked walked'
              rw [walked] at run
              rw [walked'] at run'
              exact Option.some.inj (run.symm.trans run')

theorem not_lists_of_walk (dir : LinearDirectory image exts rowOf) (inodes : Nat → StatInode)
    {found : List Dirent} (walked : walk (placedEntries exts rowOf) = some found)
    (missing : found.length ≠ (live ((blocksOf exts).flatMap rowOf)).length) :
    ¬ Lists image inodes exts ((blocksOf exts).flatMap rowOf) := by
  rintro ⟨fuel', listed⟩
  obtain ⟨fuel, run⟩ := startup_eq dir inodes
  have result := startup_agree run listed
  rw [walked] at result
  have records := congrArg List.length (Prod.mk.inj (Except.ok.inj result)).2
  rw [List.length_map, List.length_map] at records
  exact missing records

theorem statRecord_eq_iff {inodes : Nat → StatInode} :
    statRecord inodes (d.inode, d.name) = statOf inodes d ↔ (inodes d.inode).iSizeHigh = 0 := by
  simp [statRecord, statOf, CAT3232U]

/-- Any linear directory is listed as it should be exactly if the live entries stand in the
buffer as they do in the directory, nothing stops the walk in front of one of them, something
stands behind the last of them, and no size has more than 32 bits. -/
theorem lists_iff (dir : LinearDirectory image exts rowOf) (inodes : Nat → StatInode) :
    Lists image inodes exts ((blocksOf exts).flatMap rowOf) ↔
      live (placedEntries exts rowOf) = live ((blocksOf exts).flatMap rowOf) ∧
        Passable false (placedEntries exts rowOf) ∧
          ∀ d ∈ live ((blocksOf exts).flatMap rowOf), (inodes d.inode).iSizeHigh = 0 := by
  obtain ⟨fuel, run⟩ := startup_eq dir inodes
  obtain ⟨inDirectory, few⟩ := live_placedEntries exts rowOf
  constructor
  · rintro ⟨fuel', listed⟩
    have result := startup_agree run listed
    cases walked : walk (placedEntries exts rowOf) with
    | none =>
        rw [walked] at result
        cases result
    | some found =>
        rw [walked] at result
        have records := (Prod.mk.inj (Except.ok.inj result)).2
        have front := prefix_of_walk walked
        have names : found.map (fun d => nameData d.name) =
            (live ((blocksOf exts).flatMap rowOf)).map fun d => nameData d.name := by
          have data := congrArg (List.map StatRecord.data) records
          rwa [List.map_map, List.map_map] at data
        have length := congrArg List.length names
        rw [List.length_map, List.length_map] at length
        have all : found = live ((blocksOf exts).flatMap rowOf) :=
          ((map_prefix_iff dir.apart (List.Subset.trans front.subset inDirectory)
            (List.Subset.refl _)).1 (names ▸ List.prefix_rfl)).eq_of_length length
        have whole : found = live (placedEntries exts rowOf) :=
          front.eq_of_length_le (length ▸ few)
        refine ⟨whole.symm.trans all, walk_eq_live_iff.1 (whole ▸ walked), fun d hd => ?_⟩
        rw [all] at records
        exact statRecord_eq_iff.1 (List.map_inj_left.1 records d hd)
  · rintro ⟨same, passable, small⟩
    refine ⟨fuel, ?_⟩
    rw [run, walk_eq_live_iff.2 passable, same]
    have records : (live ((blocksOf exts).flatMap rowOf)).map
        (fun d => statRecord inodes (d.inode, d.name)) =
        (live ((blocksOf exts).flatMap rowOf)).map (statOf inodes) :=
      List.map_congr_left fun d hd => statRecord_eq_iff.2 (small d hd)
    simp only [Option.elim, records]

end Listing

def smallInodes : Nat → StatInode := fun i => ⟨0x81A4, i, i, 0⟩

theorem linear_tailedBlocks {exts : List Ext} (long : ∀ e ∈ exts, 1 ≤ e.len)
    (blocks : blocksOf exts = [0, 1, 2]) : LinearDirectory tailedBlocks exts tailedRow where
  long := long
  rows b hb := by
    rw [blocks] at hb
    exact inRow_tailedBlocks (List.mem_range.1 hb)
  nul := by
    rw [blocks]
    decide
  distinct := by
    rw [blocks]
    decide

theorem lists_iff_tailedBlocks :
    Lists tailedBlocks smallInodes [⟨0, 0, 3⟩] ([0, 1, 2].flatMap tailedRow) := by
  have dir : LinearDirectory tailedBlocks [⟨0, 0, 3⟩] tailedRow :=
    linear_tailedBlocks (by decide) rfl
  exact (lists_iff dir smallInodes).2 ⟨rfl, by decide, fun _ _ => rfl⟩

/-- A block with an entry `a`, a deleted one, an entry `b` and a tail. -/
def deletedBetween : Image := fun i =>
  if i < 4084 then
    ([11, 0, 0, 0, 12, 0, 1, 1, 97, 0, 0, 0, 0, 0, 0, 0, 12, 0, 1, 1, 120, 0, 0, 0,
      12, 0, 0, 0, 0xDC, 15, 1, 1, 98] : List UInt8).getD i 0
  else ([0, 0, 0, 0, 12, 0, 0, 0xde] : List UInt8).getD (i - 4084) 0

def deletedRow (_ : Nat) : List Dirent :=
  [⟨⟨11, [97]⟩, 1⟩, ⟨⟨0, [120]⟩, 1⟩, ⟨⟨12, [98]⟩, 1⟩, ⟨⟨0, []⟩, 0xde⟩]

theorem linear_deletedBetween : LinearDirectory deletedBetween [⟨0, 0, 1⟩] deletedRow where
  long := by decide
  rows b hb := by
    obtain rfl : b = 0 := List.mem_singleton.1 hb
    refine ⟨12, by decide, by decide, ⟨⟨⟨?_, ?_, ?_, ?_, ?_⟩, ?_⟩, by decide⟩,
      24, by decide, by decide, ⟨⟨⟨?_, ?_, ?_, ?_, ?_⟩, ?_⟩, by decide⟩,
      4084, by decide, by decide, ⟨⟨⟨?_, ?_, ?_, ?_, ?_⟩, ?_⟩, by decide⟩,
      BLK_SIZE, by decide, le_refl _, ⟨⟨⟨?_, ?_, ?_, ?_, ?_⟩, ?_⟩, by decide⟩, rfl⟩ <;> decide
  nul := by decide
  distinct := by decide

/-- A directory whose first extent has two blocks, and one with a deleted entry between two live
ones. -/
theorem directories_not_listed :
    (LinearDirectory tailedBlocks [⟨0, 0, 2⟩, ⟨2, 2, 1⟩] tailedRow ∧
      ¬ Lists tailedBlocks smallInodes [⟨0, 0, 2⟩, ⟨2, 2, 1⟩] ([0, 1, 2].flatMap tailedRow)) ∧
    LinearDirectory deletedBetween [⟨0, 0, 1⟩] deletedRow ∧
      ¬ Lists deletedBetween smallInodes [⟨0, 0, 1⟩] ([0].flatMap deletedRow) := by
  have dir : LinearDirectory tailedBlocks [⟨0, 0, 2⟩, ⟨2, 2, 1⟩] tailedRow :=
    linear_tailedBlocks (by decide) rfl
  refine ⟨⟨dir, ?_⟩, linear_deletedBetween, ?_⟩
  · have walked : walk (placedEntries [⟨0, 0, 2⟩, ⟨2, 2, 1⟩] tailedRow) =
        some [⟨⟨11, [97]⟩, 7⟩, ⟨⟨13, [99]⟩, 1⟩] := rfl
    exact not_lists_of_walk dir smallInodes walked (by decide)
  · have walked : walk (placedEntries [⟨0, 0, 1⟩] deletedRow) = some [⟨⟨11, [97]⟩, 1⟩] := rfl
    exact not_lists_of_walk linear_deletedBetween smallInodes walked (by decide)

end SimpleSSD.ISC.Ext4
