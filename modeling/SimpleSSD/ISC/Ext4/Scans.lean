import SimpleSSD.ISC.Ext4.NameCache

/-!
# Directory scans on any image

What the four loops over directory entries need of the bytes to end without reading outside
of their buffer.  Where a loop goes is read off the image.
-/

namespace SimpleSSD.ISC

open SimpleSSD.Foundation

namespace Buffer

variable {buf : Buffer} {n ofs : Nat}

def NameInside (buf : Buffer) (nlen name : Nat) : Prop :=
  ∀ i < nlen, (∀ j < i, buf.byte (name + j) ≠ 0) → name + i < buf.size

theorem NameInside.first (h : buf.NameInside (n + 1) ofs) : ofs < buf.size :=
  h 0 (Nat.succ_pos n) fun _ none => absurd none (Nat.not_lt_zero _)

theorem nameInside_succ (inside : ofs < buf.size) (char : buf.byte ofs ≠ 0) :
    buf.NameInside (n + 1) ofs ↔ buf.NameInside n (ofs + 1) := by
  constructor
  · intro h i hi before
    rw [Nat.add_assoc, Nat.add_comm 1]
    refine h (i + 1) (Nat.succ_lt_succ hi) fun j hj => ?_
    cases j with
    | zero => exact char
    | succ j =>
        have later := before j (Nat.lt_of_succ_lt_succ hj)
        rwa [Nat.add_assoc, Nat.add_comm 1] at later
  · intro h i hi before
    cases i with
    | zero => exact inside
    | succ i =>
        have later := h i (Nat.lt_of_succ_lt_succ hi) fun j hj => by
          rw [Nat.add_assoc, Nat.add_comm 1]
          exact before (j + 1) (Nat.succ_lt_succ hj)
        rwa [Nat.add_assoc, Nat.add_comm 1] at later

theorem nameInside_of_nul (inside : ofs < buf.size) (nul : buf.byte ofs = 0) :
    buf.NameInside n ofs := by
  intro i _ before
  cases i with
  | zero => exact inside
  | succ i => exact absurd nul (before 0 (Nat.succ_pos i))

/-- A string is copied when it is inside, and then has no NUL and at most `n` characters. -/
theorem str_eq_ok (h : buf.NameInside n ofs) :
    ∃ s, buf.str n ofs = .ok s ∧ s.length ≤ n ∧ 0 ∉ s := by
  induction n generalizing ofs with
  | zero => exact ⟨[], rfl, le_refl 0, List.not_mem_nil⟩
  | succ n ih =>
      rw [str, if_pos h.first]
      by_cases nul : buf.byte ofs = 0
      · exact ⟨[], if_pos nul, Nat.zero_le _, List.not_mem_nil⟩
      · obtain ⟨s, copied, short, nulFree⟩ := ih ((nameInside_succ h.first nul).1 h)
        refine ⟨buf.byte ofs :: s, ?_, Nat.succ_le_succ short, ?_⟩
        · rw [if_neg nul, copied]
          rfl
        · simpa [Ne.symm nul] using nulFree

theorem nameInside_of_str {s : List UInt8} (copied : buf.str n ofs = .ok s) :
    buf.NameInside n ofs := by
  induction n generalizing ofs s with
  | zero => exact fun i hi _ => absurd hi (Nat.not_lt_zero i)
  | succ n ih =>
      rw [str] at copied
      split_ifs at copied with inside nul
      · exact nameInside_of_nul inside nul
      · cases later : buf.str n (ofs + 1) with
        | error e =>
            rw [later] at copied
            cases copied
        | ok rest => exact (nameInside_succ inside nul).2 (ih later)

theorem sameStr_eq_ok {tgName : List UInt8} (h : buf.NameInside tgName.length ofs) :
    ∃ found, buf.sameStr tgName ofs = .ok found := by
  induction tgName generalizing ofs with
  | nil => exact ⟨true, rfl⟩
  | cons c rest ih =>
      rw [sameStr, if_pos h.first]
      by_cases same : buf.byte ofs = c
      · by_cases nul : c = 0
        · exact ⟨true, by rw [if_neg (not_not_intro same), if_pos nul]⟩
        · rw [if_neg (not_not_intro same), if_neg nul]
          exact ih ((nameInside_succ h.first (same ▸ nul)).1 h)
      · exact ⟨false, if_pos same⟩

theorem bytes_eq_ok (h : ∀ i < n, ofs + i < buf.size) : ∃ s, buf.bytes n ofs = .ok s := by
  induction n generalizing ofs with
  | zero => exact ⟨[], rfl⟩
  | succ n ih =>
      have later : ∀ i < n, ofs + 1 + i < buf.size := fun i hi => by
        have inside := h (i + 1) (Nat.succ_lt_succ hi)
        omega
      obtain ⟨s, copied⟩ := ih later
      have first : ofs < buf.size := h 0 (Nat.succ_pos n)
      rw [bytes, if_pos first, copied]
      exact ⟨_, rfl⟩

theorem inside_of_bytes {s : List UInt8} (copied : buf.bytes n ofs = .ok s) :
    ∀ i < n, ofs + i < buf.size := by
  induction n generalizing ofs s with
  | zero => exact fun i hi => absurd hi (Nat.not_lt_zero i)
  | succ n ih =>
      rw [bytes] at copied
      split_ifs at copied with inside
      cases later : buf.bytes n (ofs + 1) with
      | error e =>
          rw [later] at copied
          cases copied
      | ok rest =>
          intro i hi
          cases i with
          | zero => exact inside
          | succ i =>
              have := ih later i (Nat.lt_of_succ_lt_succ hi)
              omega

end Buffer

namespace Ext4

/-! ## Where the scans go -/

section Steering

variable (buf : Buffer) (ofs : Nat)

def inodeAt : Nat := leValue buf.byte ofs 4

def recLenAt : Nat := leValue buf.byte (ofs + 4) 2

def nameLenAt : Nat := leValue buf.byte (ofs + 6) 1

def fileTypeAt : Nat := leValue buf.byte (ofs + 7) 1

/-- Where `dirSearchFile` goes from an entry. -/
def nextEntry : Option Nat :=
  if inodeAt buf ofs = 0 ∧ recLenAt buf ofs < 8 then none else some (ofs + recLenAt buf ofs)

def EntryFits : Prop :=
  ofs + 7 ≤ buf.size ∧
    (nextEntry buf ofs ≠ none → buf.NameInside (nameLenAt buf ofs) (ofs + 8))

def nextFile : Option Nat :=
  if inodeAt buf ofs = 0 ∧ fileTypeAt buf ofs ≠ 0xde then none
  else some (ofs + recLenAt buf ofs)

def FileFits : Prop :=
  ofs + 8 ≤ buf.size ∧
    (inodeAt buf ofs ≠ 0 → fileTypeAt buf ofs ≠ 2 →
      buf.NameInside (nameLenAt buf ofs) (ofs + 8))

def isTail : Bool := inodeAt buf ofs = 0 ∧ fileTypeAt buf ofs = 0xde

/-- Where `inodeFilter` goes from an entry. -/
def nextInode : Option Nat :=
  if inodeAt buf ofs = 0 then none
  else
    let behind := ofs + recLenAt buf ofs
    some (if isTail buf behind then behind + recLenAt buf behind else behind)

def InodeFits : Prop :=
  ofs + 4 ≤ buf.size ∧
    (inodeAt buf ofs ≠ 0 →
      ofs + 7 ≤ buf.size ∧ (∀ i < nameLenAt buf ofs, ofs + 8 + i < buf.size) ∧
        ofs + recLenAt buf ofs + 4 ≤ buf.size ∧
          (inodeAt buf (ofs + recLenAt buf ofs) = 0 → ofs + recLenAt buf ofs + 8 ≤ buf.size))

end Steering

variable {buf : Buffer} {ofs : Nat}

theorem direntInode_eq (inside : ofs + 4 ≤ buf.size) :
    direntInode buf ofs = .ok (inodeAt buf ofs) := Buffer.le_of_inside inside

theorem direntRecLen_eq (inside : ofs + 6 ≤ buf.size) :
    direntRecLen buf ofs = .ok (recLenAt buf ofs) := Buffer.le_of_inside (by omega)

theorem direntNameLen_eq (inside : ofs + 7 ≤ buf.size) :
    direntNameLen buf ofs = .ok (nameLenAt buf ofs) := Buffer.le_of_inside (by omega)

theorem direntFileType_eq (inside : ofs + 8 ≤ buf.size) :
    direntFileType buf ofs = .ok (fileTypeAt buf ofs) := Buffer.le_of_inside (by omega)

theorem direntInode_ok {value : Nat} (read : direntInode buf ofs = .ok value) :
    ofs + 4 ≤ buf.size ∧ value = inodeAt buf ofs := Buffer.le_eq_ok read

theorem direntRecLen_ok {value : Nat} (read : direntRecLen buf ofs = .ok value) :
    value = recLenAt buf ofs := (Buffer.le_eq_ok read).2

theorem direntNameLen_ok {value : Nat} (read : direntNameLen buf ofs = .ok value) :
    ofs + 7 ≤ buf.size ∧ value = nameLenAt buf ofs := by
  obtain ⟨inside, same⟩ := Buffer.le_eq_ok read
  exact ⟨inside, same⟩

theorem direntFileType_ok {value : Nat} (read : direntFileType buf ofs = .ok value) :
    ofs + 8 ≤ buf.size ∧ value = fileTypeAt buf ofs := by
  obtain ⟨inside, same⟩ := Buffer.le_eq_ok read
  exact ⟨inside, same⟩

theorem nameLenAt_lt (buf : Buffer) (ofs : Nat) : nameLenAt buf ofs < 256 :=
  leValue_lt buf.byte (ofs + 6) 1

theorem inodeAt_lt (buf : Buffer) (ofs : Nat) : inodeAt buf ofs < 2 ^ 32 :=
  leValue_lt buf.byte ofs 4

theorem steered_visitEntry (tgName : List UInt8) (dirIno : UInt64) (buf : Buffer) :
    Steered buf.size (visitEntry tgName dirIno buf) (fun s => Cached s.nameiCache)
      (EntryFits buf) (nextEntry buf) where
  forward ofs ofs' hop := by
    unfold nextEntry at hop
    split_ifs at hop
    obtain rfl := Option.some.inj hop
    exact Nat.le_add_right _ _
  stops s ofs cached inside fits last := by
    refine ⟨s, ?_⟩
    unfold nextEntry at last
    split_ifs at last with stop
    rw [visitEntry, direntInode_eq (by have := fits.1; omega), ok_bind,
      direntNameLen_eq fits.1, ok_bind, direntRecLen_eq (by have := fits.1; omega), ok_bind,
      if_pos stop]
  goes s ofs ofs' cached inside fits hop := by
    have name := fits.2 (by rw [hop]; exact Option.some_ne_none _)
    unfold nextEntry at hop
    split_ifs at hop with stop
    obtain rfl := Option.some.inj hop
    obtain ⟨found, compared⟩ : ∃ found, matchName buf tgName (nameLenAt buf ofs) (ofs + 8) =
        .ok found := by
      unfold matchName
      split_ifs with same
      · exact Buffer.sameStr_eq_ok (same ▸ name)
      · exact ⟨false, rfl⟩
    obtain ⟨chars, copied, -, -⟩ := Buffer.str_eq_ok name
    have short : ¬ szKey2 < nameLenAt buf ofs := by
      have := nameLenAt_lt buf ofs
      unfold szKey2
      omega
    obtain ⟨nameiCache', written, cached'⟩ := cached.write
      ⟨dirIno, fun i => chars.getD i 0, .ofNat (inodeAt buf ofs)⟩
    rw [visitEntry, direntInode_eq (by have := fits.1; omega), ok_bind,
      direntNameLen_eq fits.1, ok_bind, direntRecLen_eq (by have := fits.1; omega), ok_bind,
      if_neg stop, compared, ok_bind, copied, ok_bind, NameiNode.new, if_neg short, ok_bind,
      written, ok_bind]
    exact ⟨_, rfl, cached'⟩
  fitting s ofs hop _ _ visited := by
    obtain ⟨ino, hino, visited⟩ := bind_eq_ok.1 visited
    obtain ⟨nlen, hnlen, visited⟩ := bind_eq_ok.1 visited
    obtain ⟨rlen, hrlen, visited⟩ := bind_eq_ok.1 visited
    obtain ⟨-, rfl⟩ := direntInode_ok hino
    obtain ⟨header, rfl⟩ := direntNameLen_ok hnlen
    obtain rfl := direntRecLen_ok hrlen
    refine ⟨header, fun goes => ?_⟩
    unfold nextEntry at goes
    split_ifs at goes with stop
    · exact absurd rfl goes
    · rw [if_neg stop] at visited
      obtain ⟨found, -, visited⟩ := bind_eq_ok.1 visited
      obtain ⟨name, copied, -⟩ := bind_eq_ok.1 visited
      exact Buffer.nameInside_of_str copied

theorem steered_visitFile (size : Nat) (bufDir : Buffer) :
    Steered bufDir.size (visitFile size bufDir) (fun _ => True) (FileFits bufDir)
      (nextFile bufDir) where
  forward ofs ofs' hop := by
    unfold nextFile at hop
    split_ifs at hop
    obtain rfl := Option.some.inj hop
    exact Nat.le_add_right _ _
  stops s ofs _ inside fits last := by
    unfold nextFile at last
    split_ifs at last with stop
    refine ⟨s, ?_⟩
    rw [visitFile, direntInode_eq (by have := fits.1; omega), ok_bind,
      direntFileType_eq fits.1, ok_bind, if_pos stop.1, if_neg stop.2]
  goes s ofs ofs' _ inside fits hop := by
    unfold nextFile at hop
    split_ifs at hop with stop
    obtain rfl := Option.some.inj hop
    have recLen : direntRecLen bufDir ofs = .ok (recLenAt bufDir ofs) :=
      direntRecLen_eq (by have := fits.1; omega)
    rw [visitFile, direntInode_eq (by have := fits.1; omega), ok_bind,
      direntFileType_eq fits.1, ok_bind]
    by_cases deleted : inodeAt bufDir ofs = 0
    · have tail : fileTypeAt bufDir ofs = 0xde := by
        by_contra other
        exact stop ⟨deleted, other⟩
      rw [if_pos deleted, if_pos tail, recLen, ok_bind]
      exact ⟨_, rfl, trivial⟩
    · rw [if_neg deleted]
      by_cases file : fileTypeAt bufDir ofs ≠ 2
      · obtain ⟨name, copied, -, -⟩ := Buffer.str_eq_ok (fits.2 deleted file)
        rw [if_pos file, direntNameLen_eq (by have := fits.1; omega), ok_bind, copied, ok_bind,
          recLen, ok_bind]
        exact ⟨_, rfl, trivial⟩
      · rw [if_neg file, recLen, ok_bind]
        exact ⟨_, rfl, trivial⟩
  fitting s ofs hop _ _ visited := by
    obtain ⟨inode, hinode, visited⟩ := bind_eq_ok.1 visited
    obtain ⟨fileType, hfileType, visited⟩ := bind_eq_ok.1 visited
    obtain ⟨-, rfl⟩ := direntInode_ok hinode
    obtain ⟨header, rfl⟩ := direntFileType_ok hfileType
    refine ⟨header, fun used file => ?_⟩
    rw [if_neg used, if_pos file] at visited
    obtain ⟨nameLen, hnameLen, visited⟩ := bind_eq_ok.1 visited
    obtain ⟨-, rfl⟩ := direntNameLen_ok hnameLen
    obtain ⟨name, copied, -⟩ := bind_eq_ok.1 visited
    exact Buffer.nameInside_of_str copied

theorem steered_visitInode (dents : Buffer) :
    Steered dents.size (visitInode dents) (fun _ => True) (InodeFits dents)
      (nextInode dents) where
  forward ofs ofs' hop := by
    unfold nextInode at hop
    split_ifs at hop
    obtain rfl := Option.some.inj hop
    split_ifs <;> omega
  stops s ofs _ inside fits last := by
    unfold nextInode at last
    split_ifs at last with stop
    exact ⟨s, by rw [visitInode, direntInode_eq fits.1, ok_bind, if_pos stop]⟩
  goes s ofs ofs' _ inside fits hop := by
    unfold nextInode at hop
    split_ifs at hop with stop
    obtain rfl := Option.some.inj hop
    obtain ⟨header, name, behind, tail⟩ := fits.2 stop
    obtain ⟨data, copied⟩ := Buffer.bytes_eq_ok name
    rw [visitInode, direntInode_eq fits.1, ok_bind, if_neg stop, direntNameLen_eq header,
      ok_bind, copied, ok_bind, direntRecLen_eq (by omega), ok_bind, direntInode_eq behind,
      ok_bind]
    by_cases deleted : inodeAt dents (ofs + recLenAt dents ofs) = 0
    · rw [if_pos deleted, direntFileType_eq (tail deleted), ok_bind]
      by_cases checksum : fileTypeAt dents (ofs + recLenAt dents ofs) = 0xde
      · have skipped : isTail dents (ofs + recLenAt dents ofs) = true := by
          simp [isTail, deleted, checksum]
        rw [if_pos checksum, direntRecLen_eq (by have := tail deleted; omega), ok_bind,
          if_pos skipped]
        exact ⟨_, rfl, trivial⟩
      · rw [if_neg checksum, if_neg (by simp [isTail, checksum])]
        exact ⟨_, rfl, trivial⟩
    · rw [if_neg deleted, if_neg (by simp [isTail, deleted])]
      exact ⟨_, rfl, trivial⟩
  fitting s ofs hop _ _ visited := by
    obtain ⟨inode, hinode, visited⟩ := bind_eq_ok.1 visited
    obtain ⟨header, rfl⟩ := direntInode_ok hinode
    refine ⟨header, fun used => ?_⟩
    rw [if_neg used] at visited
    obtain ⟨nameLen, hnameLen, visited⟩ := bind_eq_ok.1 visited
    obtain ⟨header', rfl⟩ := direntNameLen_ok hnameLen
    obtain ⟨data, copied, visited⟩ := bind_eq_ok.1 visited
    obtain ⟨recLen, hrecLen, visited⟩ := bind_eq_ok.1 visited
    obtain rfl := direntRecLen_ok hrecLen
    obtain ⟨next, hnext, visited⟩ := bind_eq_ok.1 visited
    obtain ⟨behind, rfl⟩ := direntInode_ok hnext
    refine ⟨header', Buffer.inside_of_bytes copied, behind, fun deleted => ?_⟩
    rw [if_pos deleted] at visited
    obtain ⟨fileType, hfileType, -⟩ := bind_eq_ok.1 visited
    exact (direntFileType_ok hfileType).1

/-! ## Ends -/

def Scannable (buf : Buffer) (fits : Nat → Prop) (next : Nat → Option Nat) : Prop :=
  ∀ ofs, Reached buf.size next 0 ofs → ofs < buf.size → Passes fits next ofs

/-- Each loop ends, and reads inside of the buffer, exactly if the entries it comes to fit the
buffer and none has the length 0. -/
theorem directory_scans_end_iff (buf : Buffer) :
    (∀ tgName dirIno s, Cached s.nameiCache →
      ((∃ fuel s', scan buf.size (visitEntry tgName dirIno buf) fuel s 0 = some (.ok s')) ↔
        Scannable buf (EntryFits buf) (nextEntry buf))) ∧
    ((∃ fuel bufOutSz, MD5APP.directoryPass buf fuel = some (.ok bufOutSz)) ↔
      Scannable buf (FileFits buf) (nextFile buf)) ∧
    ((∃ fuel nFiles, GrepAPP.directoryPass buf fuel = some (.ok nFiles)) ↔
      Scannable buf (FileFits buf) (nextFile buf)) ∧
    ((∃ fuel res, StatdirAPP.inodeFilter buf fuel = some (.ok res)) ↔
      Scannable buf (InodeFits buf) (nextInode buf)) :=
  ⟨fun tgName dirIno _ cached => (steered_visitEntry tgName dirIno buf).ends_iff cached,
    (steered_visitFile 16 buf).ends_iff trivial, (steered_visitFile 1 buf).ends_iff trivial,
    (steered_visitInode buf).ends_iff trivial⟩

def filesBlock : Buffer where
  size := BLK_SIZE
  byte i :=
    if i < 4084 then
      ([11, 0, 0, 0, 12, 0, 1, 1, 97, 0, 0, 0, 12, 0, 0, 0, 0xE8, 0x0F, 2, 1, 98, 99]
        : List UInt8).getD i 0
    else ([0, 0, 0, 0, 12, 0, 0, 0xde] : List UInt8).getD (i - 4084) 0

theorem scannable_of_stops {fits : Nat → Prop} {next : Nat → Option Nat} (stops : List Nat)
    (first : 0 ∈ stops)
    (closed : ∀ ofs ∈ stops, ofs < buf.size → ∀ mid ∈ next ofs, mid ∈ stops)
    (passes : ∀ ofs ∈ stops, ofs < buf.size → Passes fits next ofs) :
    Scannable buf fits next := by
  have stays : ∀ {ofs ofs'}, Reached buf.size next ofs ofs' → ofs ∈ stops → ofs' ∈ stops := by
    intro ofs ofs' reached
    induction reached with
    | here => exact id
    | hop inside goes _ ih => exact fun stop => ih (closed _ stop inside _ goes)
  exact fun ofs reached inside => passes ofs (stays reached first) inside

theorem nameInside_of_le {nlen name : Nat} (inside : name + nlen ≤ buf.size) :
    buf.NameInside nlen name := fun i hi _ => by omega

/-- Each loop comes to the two entries; `inodeFilter` skips the tail, where the others stop once
more. -/
theorem directory_scans_end_iff_filesBlock :
    (∃ fuel s', scan BLK_SIZE (visitEntry [98, 99] 2 filesBlock) fuel
      ⟨ERROR_INO, LRURegion.init namei⟩ 0 = some (.ok s')) ∧
    (∃ fuel bufOutSz, MD5APP.directoryPass filesBlock fuel = some (.ok bufOutSz)) ∧
    (∃ fuel nFiles, GrepAPP.directoryPass filesBlock fuel = some (.ok nFiles)) ∧
    ∃ fuel res, StatdirAPP.inodeFilter filesBlock fuel = some (.ok res) := by
  obtain ⟨entries, md5, grep, inodes⟩ := directory_scans_end_iff filesBlock
  have files : Scannable filesBlock (FileFits filesBlock) (nextFile filesBlock) := by
    refine scannable_of_stops [0, 12, 4084, BLK_SIZE] (by decide) (by decide) ?_
    intro ofs stop inside
    refine ⟨⟨?_, fun _ _ => nameInside_of_le ?_⟩, ?_⟩
    all_goals revert ofs; decide
  refine ⟨(entries [98, 99] 2 _ cached_init).2 ?_, md5.2 files, grep.2 files, inodes.2 ?_⟩
  · refine scannable_of_stops [0, 12, 4084, BLK_SIZE] (by decide) (by decide) ?_
    intro ofs stop inside
    refine ⟨⟨?_, fun _ => nameInside_of_le ?_⟩, ?_⟩
    all_goals revert ofs; decide
  · refine scannable_of_stops [0, 12, BLK_SIZE] (by decide) (by decide) ?_
    unfold Passes InodeFits
    decide

def stuckBlock : Buffer := ⟨BLK_SIZE, fun i => if i = 0 then 1 else 0⟩

theorem scans_do_not_end :
    (¬ ∀ buf tgName dirIno s, Cached s.nameiCache →
      ∃ fuel s', scan buf.size (visitEntry tgName dirIno buf) fuel s 0 = some (.ok s')) ∧
    (¬ ∀ buf, ∃ fuel bufOutSz, MD5APP.directoryPass buf fuel = some (.ok bufOutSz)) ∧
    (¬ ∀ buf, ∃ fuel nFiles, GrepAPP.directoryPass buf fuel = some (.ok nFiles)) ∧
    ¬ ∀ buf, ∃ fuel res, StatdirAPP.inodeFilter buf fuel = some (.ok res) := by
  have nonempty : 0 < stuckBlock.size := by decide
  refine ⟨fun all => ?_, fun all => ?_, fun all => ?_, fun all => ?_⟩
  · have ends := all stuckBlock [] 2 ⟨ERROR_INO, LRURegion.init namei⟩ cached_init
    have leaves := ((steered_visitEntry [] 2 stuckBlock).ends_iff cached_init).1 ends 0 .here
      nonempty
    exact leaves.2 (by decide)
  · have leaves := ((steered_visitFile 16 stuckBlock).ends_iff trivial).1 (all _) 0 .here nonempty
    exact leaves.2 (by decide)
  · have leaves := ((steered_visitFile 1 stuckBlock).ends_iff trivial).1 (all _) 0 .here nonempty
    exact leaves.2 (by decide)
  · have leaves := ((steered_visitInode stuckBlock).ends_iff trivial).1 (all _) 0 .here nonempty
    exact leaves.2 (by decide)

end Ext4

end SimpleSSD.ISC
