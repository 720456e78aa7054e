import Mathlib.Data.List.TakeWhile
import SimpleSSD.Foundation.Prefixes
import SimpleSSD.ISC.Slet.Dirents

/-!
# The files of a directory

`MD5APP`, `GrepAPP` and `Stats32APP` go through the buffer of a directory twice.  The first
pass counts files and looks at the inodes.  The second one picks a file at a time, goes by the
type of the file alone, and goes on where it was.
-/

namespace SimpleSSD.ISC.Ext4

open SimpleSSD.Foundation

structure DirFile where
  oBufDir : Nat
  name : List UInt8

/-! ## The first pass -/

def listFile (bufDir : Buffer) (files : List DirFile) (oBufDir : Nat) :
    Except Fault (Hop (List DirFile)) := do
  let inode ← direntInode bufDir oBufDir
  let fileType ← direntFileType bufDir oBufDir
  if inode = 0 then
    if fileType = 0xde then
      let recLen ← direntRecLen bufDir oBufDir
      .ok (.go files (oBufDir + recLen))
    else .ok (.stop files)
  else if fileType ≠ 2 then
    let nameLen ← direntNameLen bufDir oBufDir
    let name ← bufDir.str nameLen (oBufDir + 8)
    let recLen ← direntRecLen bufDir oBufDir
    .ok (.go (files ++ [⟨oBufDir, name⟩]) (oBufDir + recLen))
  else
    let recLen ← direntRecLen bufDir oBufDir
    .ok (.go files (oBufDir + recLen))

/-! ## The second pass -/

structure Picking where
  oBufDir : Nat
  file : Option DirFile

def visitPick (wanted : Nat → Bool) (bufDir : Buffer) (_ : Picking) (oBufDir : Nat) :
    Except Fault (Hop Picking) := do
  let fileType ← direntFileType bufDir oBufDir
  if wanted fileType then
    let nameLen ← direntNameLen bufDir oBufDir
    let name ← bufDir.str nameLen (oBufDir + 8)
    let recLen ← direntRecLen bufDir oBufDir
    .ok (.stop ⟨oBufDir + recLen, some ⟨oBufDir, name⟩⟩)
  else
    let recLen ← direntRecLen bufDir oBufDir
    .ok (.go ⟨oBufDir + recLen, none⟩ (oBufDir + recLen))

/-- What a result is computed from: the file picked, if there was one, and the path, which is
the one before if there was none. -/
structure Picked where
  file : Option DirFile
  pathFile : List UInt8

/-- What `snprintf` leaves of a path. -/
def pathOf (path name : List UInt8) : List UInt8 := (path ++ name).take 510

/-- The loop over the results.  It ends early if the task on a file fails. -/
def pickFiles (wanted : Nat → Bool) (task : List UInt8 → Bool) (path : List UInt8)
    (bufDir : Buffer) (fuel : Nat) :
    Nat → Nat → List UInt8 → Option (Except Fault (List Picked))
  | 0, _, _ => some (.ok [])
  | left + 1, oBufDir, pathFile =>
      match scan bufDir.size (visitPick wanted bufDir) fuel ⟨oBufDir, none⟩ oBufDir with
      | none => none
      | some (.error e) => some (.error e)
      | some (.ok s) =>
          let picked : Picked := ⟨s.file, (s.file.map (pathOf path ·.name)).getD pathFile⟩
          if task picked.pathFile then
            (pickFiles wanted task path bufDir fuel left s.oBufDir picked.pathFile).map
              (Except.map (picked :: ·))
          else some (.ok [picked])

/-! ## Both passes -/

def directoryRun (size : Nat) (wanted : Nat → Bool) (task : List UInt8 → Bool) (image : Image)
    (exts : List Ext) (path : List UInt8) (fuel : Nat) :
    Option (Except Fault (Nat × List Picked)) :=
  match readDir image 0 exts (zeroDir exts) with
  | .error e => some (.error e)
  | .ok bufDir =>
      match scan bufDir.size (visitFile size bufDir) fuel 0 0 with
      | none => none
      | some (.error e) => some (.error e)
      | some (.ok count) =>
          (pickFiles wanted task path bufDir fuel (count / size) 0 []).map
            (Except.map (count, ·))

def MD5APP.directoryRun : Image → List Ext → List UInt8 → Nat →
    Option (Except Fault (Nat × List Picked)) :=
  Ext4.directoryRun 16 (· ≠ 2) fun _ => true

def Stats32APP.directoryRun : Image → List Ext → List UInt8 → Nat →
    Option (Except Fault (Nat × List Picked)) :=
  Ext4.directoryRun 16 (· ≠ 2) fun _ => true

/-- It takes regular files only, and `grep` fails on a file shorter than the pattern. -/
def GrepAPP.directoryRun (bytes : List UInt8 → Nat) (tlen : Nat) : Image → List Ext →
    List UInt8 → Nat → Option (Except Fault (Nat × List Picked)) :=
  Ext4.directoryRun 1 (· = 1) fun pathFile => tlen ≤ bytes pathFile

/-- The first pass finds some files, and the results are computed from them, one from each. -/
def Agree (size : Nat) (run : Image → List Ext → List UInt8 → Nat →
    Option (Except Fault (Nat × List Picked))) (image : Image) (exts : List Ext)
    (path : List UInt8) : Prop :=
  ∃ fuel bufDir files, readDir image 0 exts (zeroDir exts) = .ok bufDir ∧
    scan bufDir.size (listFile bufDir) fuel [] 0 = some (.ok files) ∧
    run image exts path fuel =
      some (.ok (size * files.length, files.map fun file => ⟨some file, pathOf path file.name⟩))

/-! ## What each pass finds -/

def Dirent.isFile (d : Dirent) : Bool := d.inode ≠ 0 ∧ d.fileType ≠ 2

def Dirent.isPassed (d : Dirent) : Bool := d.inode ≠ 0 ∨ d.fileType = 0xde

def passed (entries : List Dirent) : List Dirent := entries.takeWhile Dirent.isPassed

def DirFile.of (p : Nat × Dirent) : DirFile := ⟨p.1, cstr p.2.name⟩

def filesOf (placed : List (Nat × Dirent)) : List DirFile :=
  (placed.filter fun p => p.2.isFile).map DirFile.of

section Passes

variable {bufDir : Buffer} {ofs next : Nat} {d : Dirent} {placed : List (Nat × Dirent)}
  {wanted : Nat → Bool} {task : List UInt8 → Bool} {path : List UInt8}

def PlacedAt (bufDir : Buffer) (ofs : Nat) (p : Nat × Dirent) (next : Nat) : Prop :=
  p.1 = ofs ∧ DirentAt bufDir ofs p.2 next

theorem listFile_go (h : DirentAt bufDir ofs d next) (inside : next ≤ bufDir.size)
    (pass : d.isPassed = true) (files : List DirFile) :
    listFile bufDir files ofs =
      .ok (.go (if d.isFile then files ++ [.of (ofs, d)] else files) next) := by
  rw [listFile, h.inode_eq inside, ok_bind, h.fileType_eq inside, ok_bind]
  by_cases used : d.inode = 0
  · have tail : d.fileType = 0xde := by simpa [Dirent.isPassed, used] using pass
    rw [if_pos used, if_pos tail, h.recLen_eq inside, ok_bind, h.next]
    simp [Dirent.isFile, used]
  · rw [if_neg used]
    by_cases dir : d.fileType = 2
    · rw [if_neg (not_not_intro dir), h.recLen_eq inside, ok_bind, h.next]
      simp [Dirent.isFile, dir]
    · rw [if_pos dir, h.nameLen_eq inside, ok_bind, h.str inside, ok_bind, h.recLen_eq inside,
        ok_bind, h.next]
      simp [Dirent.isFile, used, dir, DirFile.of]

theorem listFile_stop (h : DirentAt bufDir ofs d next) (inside : next ≤ bufDir.size)
    (stop : d.isPassed = false) (files : List DirFile) :
    listFile bufDir files ofs = .ok (.stop files) := by
  have deleted : d.inode = 0 ∧ d.fileType ≠ 0xde := by simpa [Dirent.isPassed] using stop
  rw [listFile, h.inode_eq inside, ok_bind, h.fileType_eq inside, ok_bind, if_pos deleted.1,
    if_neg deleted.2]

theorem scan_listFile (row : InRow bufDir.size (PlacedAt bufDir) 0 placed) :
    ∃ fuel, scan bufDir.size (listFile bufDir) fuel [] 0 =
      some (.ok (filesOf (placed.takeWhile fun p => p.2.isPassed))) := by
  have listed : ∃ fuel files, scan bufDir.size (listFile bufDir) fuel [] 0 = some (.ok files) ∧
      files = filesOf ([] ++ placed.takeWhile fun p => p.2.isPassed) := by
    refine scan_row_while (fun seen files => files = filesOf seen) ?_ ?_ row rfl
    · rintro seen files ofs p next found inside ⟨rfl, entry⟩ pass
      refine ⟨_, listFile_go entry inside pass files, ?_⟩
      rw [found]
      by_cases file : p.2.isFile = true <;> simp [file, filesOf]
    · rintro seen files ofs p next - inside ⟨rfl, entry⟩ stop
      exact listFile_stop entry inside stop files
  obtain ⟨fuel, files, run, found⟩ := listed
  rw [found, List.nil_append] at run
  exact ⟨fuel, run⟩

theorem visitFile_eq (size : Nat) (bufDir : Buffer) (files : List DirFile) (oBufDir : Nat) :
    visitFile size bufDir (size * files.length) oBufDir =
      (listFile bufDir files oBufDir).map (Hop.map fun files => size * files.length) := by
  rw [visitFile, listFile, map_of_bind]
  refine bind_congr fun inode => ?_
  rw [map_of_bind]
  refine bind_congr fun fileType => ?_
  by_cases deleted : inode = 0
  · rw [if_pos deleted, if_pos deleted]
    by_cases tail : fileType = 0xde
    · rw [if_pos tail, if_pos tail, map_of_bind]
      rfl
    · rw [if_neg tail, if_neg tail]
      rfl
  · rw [if_neg deleted, if_neg deleted]
    by_cases file : fileType ≠ 2
    · rw [if_pos file, if_pos file, map_of_bind]
      refine bind_congr fun nameLen => ?_
      rw [map_of_bind]
      refine bind_congr fun name => ?_
      rw [map_of_bind]
      refine bind_congr fun recLen => ?_
      simp [Except.map, Hop.map, Nat.mul_add]
    · rw [if_neg file, if_neg file, map_of_bind]
      rfl

theorem scan_visitFile (size : Nat) (bufDir : Buffer) (fuel : Nat) :
    scan bufDir.size (visitFile size bufDir) fuel 0 0 =
      (scan bufDir.size (listFile bufDir) fuel [] 0).map
        (Except.map fun files => size * files.length) :=
  scan_map (fun files : List DirFile => size * files.length) (visitFile_eq size bufDir) fuel [] 0

theorem scan_visitPick (wanted : Nat → Bool)
    (row : InRow bufDir.size (PlacedAt bufDir) ofs placed)
    {fuel : Nat} (enough : placed.length < fuel) :
    ∃ s later, scan bufDir.size (visitPick wanted bufDir) fuel ⟨ofs, none⟩ ofs = some (.ok s) ∧
      InRow bufDir.size (PlacedAt bufDir) s.oBufDir later ∧ later.length ≤ placed.length ∧
      s.file = ((placed.filter fun p => wanted p.2.fileType).head?).map DirFile.of ∧
      (later.filter fun p => wanted p.2.fileType) =
        (placed.filter fun p => wanted p.2.fileType).tail := by
  induction placed generalizing ofs fuel with
  | nil =>
      obtain ⟨fuel, rfl⟩ := Nat.exists_eq_succ_of_ne_zero (Nat.ne_of_gt enough)
      have last : ofs = bufDir.size := row
      refine ⟨⟨ofs, none⟩, [], ?_, row, le_refl _, rfl, rfl⟩
      rw [scan, if_neg (by omega)]
  | cons p rest ih =>
      obtain ⟨fuel, rfl⟩ := Nat.exists_eq_succ_of_ne_zero (Nat.ne_of_gt (Nat.zero_lt_of_lt enough))
      obtain ⟨next, lt, inside, ⟨rfl, entry⟩, later⟩ := row
      rw [List.length_cons] at enough
      rw [scan, if_pos (Nat.lt_of_lt_of_le lt inside)]
      by_cases want : wanted p.2.fileType = true
      · refine ⟨⟨next, some (.of p)⟩, rest, ?_, later, Nat.le_succ _, ?_, ?_⟩
        · rw [visitPick, entry.fileType_eq inside, ok_bind, if_pos want, entry.nameLen_eq inside,
            ok_bind, entry.str inside, ok_bind, entry.recLen_eq inside, ok_bind, entry.next]
          rfl
        · simp [want]
        · simp [want]
      · have enoughLater : rest.length < fuel := Nat.lt_of_succ_lt_succ enough
        obtain ⟨s, after, run, rowAfter, short, file, left⟩ := ih later enoughLater
        refine ⟨s, after, ?_, rowAfter, Nat.le_succ_of_le short, ?_, ?_⟩
        · rw [visitPick, entry.fileType_eq inside, ok_bind, if_neg want, entry.recLen_eq inside,
            ok_bind, entry.next]
          exact run
        · rw [file]
          simp [want]
        · rw [left]
          simp [want]

theorem pickFiles_succ {fuel left : Nat} {pathFile : List UInt8} {s : Picking} {first : Picked}
    {picked : List Picked}
    (run : scan bufDir.size (visitPick wanted bufDir) fuel ⟨ofs, none⟩ ofs = some (.ok s))
    (pick : first = ⟨s.file, (s.file.map (pathOf path ·.name)).getD pathFile⟩)
    (later : pickFiles wanted task path bufDir fuel left s.oBufDir first.pathFile =
      some (.ok picked)) :
    pickFiles wanted task path bufDir fuel (left + 1) ofs pathFile =
      some (.ok (if task first.pathFile then first :: picked else [first])) := by
  subst pick
  rw [pickFiles, run]
  dsimp only at later ⊢
  rw [later]
  split_ifs <;> rfl

/-- What is picked for some files is what was found for them exactly if they stand in front of
the entries of a wanted type, and the tasks before the last one succeed. -/
theorem pickFiles_eq_iff (wanted : Nat → Bool) (task : List UInt8 → Bool) (path : List UInt8)
    (row : InRow bufDir.size (PlacedAt bufDir) ofs placed) {fuel : Nat}
    (enough : placed.length < fuel) (files : List DirFile) (pathFile : List UInt8) :
    ∃ picked, pickFiles wanted task path bufDir fuel files.length ofs pathFile =
        some (.ok picked) ∧
      (picked = files.map (fun file => ⟨some file, pathOf path file.name⟩) ↔
        files <+: (placed.filter fun p => wanted p.2.fileType).map DirFile.of ∧
          ∀ file ∈ files.dropLast, task (pathOf path file.name) = true) := by
  induction files generalizing ofs placed pathFile with
  | nil => exact ⟨[], rfl, by simp⟩
  | cons file rest ih =>
      obtain ⟨s, later, run, rowLater, short, found, left⟩ := scan_visitPick wanted row enough
      obtain ⟨picked, runLater, agree⟩ := ih rowLater (Nat.lt_of_le_of_lt short enough)
        ((s.file.map (pathOf path ·.name)).getD pathFile)
      rw [left] at agree
      let first : Picked := ⟨s.file, (s.file.map (pathOf path ·.name)).getD pathFile⟩
      refine ⟨_, pickFiles_succ run rfl runLater, ?_⟩
      change (if task first.pathFile then first :: picked else [first]) = _ ↔ _
      cases selection : placed.filter fun p => wanted p.2.fileType with
      | nil =>
          -- nothing is left to be picked
          rw [selection] at found
          have none : first = ⟨none, pathFile⟩ := by simp [first, found]
          rw [none]
          by_cases fine : task pathFile = true <;> simp [fine]
      | cons p others =>
          rw [selection] at found agree
          have some : first = ⟨some (.of p), pathOf path (cstr p.2.name)⟩ := by
            simp [first, found, DirFile.of]
          rw [some, List.map_cons, List.map_cons, List.cons_prefix_cons, forall_mem_dropLast_cons]
          by_cases fine : task (pathOf path (cstr p.2.name)) = true
          · rw [if_pos fine, List.cons.injEq, agree, List.tail_cons]
            constructor
            · rintro ⟨same, front, tasks⟩
              obtain rfl := Option.some.inj (Picked.mk.inj same).1
              exact ⟨⟨rfl, front⟩, fun _ => fine, tasks⟩
            · rintro ⟨⟨rfl, front⟩, -, tasks⟩
              exact ⟨rfl, front, tasks⟩
          · -- no file may be left behind one whose task fails
            rw [if_neg fine, List.cons.injEq]
            constructor
            · rintro ⟨same, last⟩
              obtain rfl := Option.some.inj (Picked.mk.inj same).1
              obtain rfl := List.map_eq_nil_iff.1 last.symm
              exact ⟨⟨rfl, List.nil_prefix⟩, fun more => absurd rfl more, nofun⟩
            · rintro ⟨⟨rfl, -⟩, first, -⟩
              have last : rest = [] := by
                by_contra more
                exact fine (first more)
              rw [last]
              exact ⟨rfl, rfl⟩

theorem pickFiles_mono {fuel fuel' left : Nat} {pathFile : List UInt8}
    {result : Except Fault (List Picked)}
    (run : pickFiles wanted task path bufDir fuel left ofs pathFile = some result)
    (le : fuel ≤ fuel') :
    pickFiles wanted task path bufDir fuel' left ofs pathFile = some result := by
  induction left generalizing ofs pathFile result with
  | zero => exact run
  | succ left ih =>
      rw [pickFiles] at run
      cases found : scan bufDir.size (visitPick wanted bufDir) fuel ⟨ofs, none⟩ ofs with
      | none =>
          rw [found] at run
          cases run
      | some hop =>
          rw [found] at run
          rw [pickFiles, scan_mono found le]
          cases hop with
          | error e => exact run
          | ok s =>
              simp only at run ⊢
              split_ifs at run ⊢ with fine
              · obtain ⟨picked, later, rfl⟩ := Option.map_eq_some_iff.1 run
                rw [ih later]
                rfl
              · exact run

end Passes

/-! ## Agreement -/

section Agreement

variable {image : Image} {exts : List Ext} {entries : List Dirent} {size : Nat}

/-- The passes agree exactly if the entries counted stand in front of those of a wanted type,
and the tasks before the last one succeed. -/
theorem agree_iff (stored : DirectoryImage image exts entries) (pos : 0 < size)
    (wanted : Nat → Bool) (task : List UInt8 → Bool) (path : List UInt8) :
    ∃ placed : List (Nat × Dirent), placed.map Prod.snd = entries ∧
      (Agree size (directoryRun size wanted task) image exts path ↔
        (placed.takeWhile fun p => p.2.isPassed).filter (fun p => p.2.isFile) <+:
            placed.filter (fun p => wanted p.2.fileType) ∧
          ∀ d ∈ ((passed entries).filter Dirent.isFile).dropLast,
            task (pathOf path (cstr d.name)) = true) := by
  obtain ⟨bufDir, read, row⟩ := readDir_row stored
  obtain ⟨placed, rfl, rowPlaced, -, increasing⟩ := row.placed
  refine ⟨placed, rfl, ?_⟩
  obtain ⟨fuel, listed⟩ := scan_listFile rowPlaced
  obtain ⟨picked, picks, agree⟩ := pickFiles_eq_iff wanted task path rowPlaced
    (Nat.lt_succ_self _) (filesOf (placed.takeWhile fun p => p.2.isPassed)) []
  have run : ∀ fuel' files, scan bufDir.size (listFile bufDir) fuel' [] 0 = some (.ok files) →
      directoryRun size wanted task image exts path fuel' =
        (pickFiles wanted task path bufDir fuel' files.length 0 []).map
          (Except.map (size * files.length, ·)) := by
    intro fuel' files found
    rw [directoryRun, read]
    simp only [scan_visitFile, found, Option.map_some, Except.map]
    rw [Nat.mul_div_cancel_left _ pos]
  have same : Agree size (directoryRun size wanted task) image exts path ↔
      picked = (filesOf (placed.takeWhile fun p => p.2.isPassed)).map fun file =>
        ⟨some file, pathOf path file.name⟩ := by
    constructor
    · rintro ⟨fuel', bufDir', files, read', listed', ran⟩
      obtain rfl := Except.ok.inj (read.symm.trans read')
      obtain rfl := Except.ok.inj (scan_agree listed' listed)
      rw [run fuel' _ listed'] at ran
      obtain ⟨result, picks', mapped⟩ := Option.map_eq_some_iff.1 ran
      have one := (pickFiles_mono picks (le_max_left _ fuel')).symm.trans
        (pickFiles_mono picks' (le_max_right _ _))
      rw [← Option.some.inj one] at mapped
      exact (Prod.mk.inj (Except.ok.inj mapped)).2
    · rintro rfl
      have listedLater := scan_mono listed (le_max_left fuel placed.length.succ)
      refine ⟨_, bufDir, _, read, listedLater, ?_⟩
      rw [run _ _ listedLater, pickFiles_mono picks (le_max_right _ _)]
      rfl
  have apart : (placed.map DirFile.of).Nodup := by
    refine List.pairwise_map.2 (increasing.imp fun lt one => ?_)
    exact Nat.ne_of_lt lt (congrArg DirFile.oBufDir one)
  have counted : (passed (placed.map Prod.snd)).filter Dirent.isFile =
      ((placed.takeWhile fun p => p.2.isPassed).filter fun p => p.2.isFile).map Prod.snd := by
    rw [passed, List.takeWhile_map, List.filter_map]
    rfl
  rw [same, agree, counted, filesOf, ← List.map_dropLast, ← List.map_dropLast,
    List.forall_mem_map, List.forall_mem_map, map_prefix_iff apart ?_ ?_]
  · exact Iff.rfl
  · exact fun p hp => List.takeWhile_subset _ (List.mem_of_mem_filter hp)
  · exact List.filter_subset_self _

theorem isPassed_of_mem {placed : List (Nat × Dirent)} {p : Nat × Dirent}
    (hp : p ∈ placed.takeWhile fun p => p.2.isPassed) : p.2.inode ≠ 0 ∨ p.2.fileType = 0xde := by
  have pass := List.mem_takeWhile_imp hp
  simpa [Dirent.isPassed] using pass

/-- An application that takes all but directories takes the tails of blocks for files. -/
theorem picks_not_directories_iff (placed : List (Nat × Dirent)) :
    (placed.takeWhile fun p => p.2.isPassed).filter (fun p => p.2.isFile) <+:
        placed.filter (fun p => p.2.fileType ≠ 2) ↔
      (passed (placed.map Prod.snd)).Pairwise fun d later => later.isFile → d.inode ≠ 0 := by
  let front := placed.takeWhile fun p => p.2.isPassed
  have split : placed.filter (fun p => p.2.fileType ≠ 2) =
      front.filter (fun p => p.2.fileType ≠ 2) ++
        (placed.dropWhile fun p => p.2.isPassed).filter (fun p => p.2.fileType ≠ 2) := by
    rw [← List.filter_append, List.takeWhile_append_dropWhile]
  have weaker : ∀ p : Nat × Dirent, p.2.isFile = true → decide (p.2.fileType ≠ 2) = true := by
    intro p file
    simp only [Dirent.isFile, decide_eq_true_eq] at file ⊢
    exact file.2
  have short : (front.filter fun p => p.2.isFile).length ≤
      (front.filter fun p => p.2.fileType ≠ 2).length :=
    (List.monotone_filter_right front weaker).length_le
  have inFront : front.filter (fun p => p.2.isFile) <+: placed.filter (fun p => p.2.fileType ≠ 2) ↔
      front.filter (fun p => p.2.isFile) <+: front.filter (fun p => p.2.fileType ≠ 2) := by
    rw [split]
    exact ⟨fun h => List.prefix_of_prefix_length_le h (List.prefix_append _ _) short,
      fun h => h.trans (List.prefix_append _ _)⟩
  rw [inFront, filter_prefix_filter_iff fun p _ => weaker p, passed, List.takeWhile_map,
    List.pairwise_map]
  refine List.Pairwise.iff_of_mem fun {p later} hp _ => ?_
  have pass := isPassed_of_mem hp
  simp only [Dirent.isFile, decide_eq_true_eq]
  constructor
  · intro h file
    by_contra deleted
    have tail : p.2.fileType = 0xde := pass.resolve_left (not_not_intro deleted)
    exact (h (by omega) file).1 deleted
  · exact fun h dir file => ⟨h file, dir⟩

theorem picks_regular_iff (placed : List (Nat × Dirent)) :
    (placed.takeWhile fun p => p.2.isPassed).filter (fun p => p.2.isFile) <+:
        placed.filter (fun p => p.2.fileType = 1) ↔
      ∀ d ∈ passed (placed.map Prod.snd), d.isFile → d.fileType = 1 := by
  rw [passed, List.takeWhile_map, List.forall_mem_map]
  constructor
  · intro h p hp file
    have taken := h.subset (List.mem_filter.2 ⟨hp, file⟩)
    simpa using (List.mem_filter.1 taken).2
  · intro regular
    have same : (placed.takeWhile fun p => p.2.isPassed).filter (fun p => p.2.isFile) =
        (placed.takeWhile fun p => p.2.isPassed).filter fun p => p.2.fileType = 1 := by
      refine List.filter_congr fun p hp => ?_
      rw [Bool.eq_iff_iff, decide_eq_true_eq]
      refine ⟨regular p hp, fun one => ?_⟩
      simpa [Dirent.isFile, one] using isPassed_of_mem hp
    rw [same]
    exact (List.takeWhile_prefix _).filter _

theorem agree_not_directories_iff (stored : DirectoryImage image exts entries)
    (path : List UInt8) :
    Agree 16 (directoryRun 16 (· ≠ 2) fun _ => true) image exts path ↔
      (passed entries).Pairwise fun d later => later.isFile → d.inode ≠ 0 := by
  obtain ⟨placed, rfl, agree⟩ := agree_iff stored (Nat.succ_pos 15) (· ≠ 2) (fun _ => true) path
  rw [agree, picks_not_directories_iff]
  exact and_iff_left fun _ _ => rfl

theorem agree_regular_iff (stored : DirectoryImage image exts entries)
    (bytes : List UInt8 → Nat) (tlen : Nat) (path : List UInt8) :
    Agree 1 (GrepAPP.directoryRun bytes tlen) image exts path ↔
      (∀ d ∈ passed entries, d.isFile → d.fileType = 1) ∧
        ∀ d ∈ ((passed entries).filter Dirent.isFile).dropLast,
          tlen ≤ bytes (pathOf path (cstr d.name)) := by
  obtain ⟨placed, rfl, agree⟩ := agree_iff stored Nat.one_pos (· = 1)
    (fun pathFile => tlen ≤ bytes pathFile) path
  refine agree.trans ?_
  rw [picks_regular_iff]
  simp only [decide_eq_true_eq]

/-- The passes of `MD5APP` and of `Stats32APP` agree exactly if no tail of a block stands in
front of a file that is counted.  Those of `GrepAPP` do exactly if all files counted are regular
files, and no file but the last one is shorter than the pattern. -/
theorem passes_agree_iff (stored : DirectoryImage image exts entries) (bytes : List UInt8 → Nat)
    (tlen : Nat) (path : List UInt8) :
    (Agree 16 MD5APP.directoryRun image exts path ↔
      (passed entries).Pairwise fun d later => later.isFile → d.inode ≠ 0) ∧
    (Agree 16 Stats32APP.directoryRun image exts path ↔
      (passed entries).Pairwise fun d later => later.isFile → d.inode ≠ 0) ∧
    (Agree 1 (GrepAPP.directoryRun bytes tlen) image exts path ↔
      (∀ d ∈ passed entries, d.isFile → d.fileType = 1) ∧
        ∀ d ∈ ((passed entries).filter Dirent.isFile).dropLast,
          tlen ≤ bytes (pathOf path (cstr d.name))) :=
  ⟨agree_not_directories_iff stored path, agree_not_directories_iff stored path,
    agree_regular_iff stored bytes tlen path⟩

end Agreement

theorem stored_tailedBlocks :
    DirectoryImage tailedBlocks [⟨0, 0, 2⟩] (tailedRow 0 ++ tailedRow 1) ∧
      DirectoryImage tailedBlocks [⟨0, 1, 1⟩] (tailedRow 1) :=
  have first := (inRow_tailedBlocks (show 0 < 3 by decide)).imp fun _ _ _ _ long => long.1
  have second := (inRow_tailedBlocks (show 1 < 3 by decide)).imp fun _ _ _ _ long => long.1
  ⟨⟨[tailedRow 0, tailedRow 1], .cons first (.cons second .nil), rfl⟩,
    [tailedRow 1], .cons second .nil, rfl⟩

theorem passes_agree_iff_tailedBlocks :
    Agree 16 MD5APP.directoryRun tailedBlocks [⟨0, 1, 1⟩] [47] ∧
      Agree 1 (GrepAPP.directoryRun (fun _ => 8) 1) tailedBlocks [⟨0, 1, 1⟩] [47] := by
  have agree := passes_agree_iff stored_tailedBlocks.2 (fun _ => 8) 1 [47]
  exact ⟨agree.1.2 (by decide), agree.2.2.2 (by decide)⟩

/-- A tail in front of a file, and a symbolic link. -/
theorem passes_do_not_agree :
    DirectoryImage tailedBlocks [⟨0, 0, 2⟩] (tailedRow 0 ++ tailedRow 1) ∧
      ¬ Agree 16 MD5APP.directoryRun tailedBlocks [⟨0, 0, 2⟩] [47] ∧
      ¬ Agree 16 Stats32APP.directoryRun tailedBlocks [⟨0, 0, 2⟩] [47] ∧
      ¬ Agree 1 (GrepAPP.directoryRun (fun _ => 8) 1) tailedBlocks [⟨0, 0, 2⟩] [47] := by
  have stored := stored_tailedBlocks.1
  have tails : ¬ Agree 16 (directoryRun 16 (· ≠ 2) fun _ => true) tailedBlocks [⟨0, 0, 2⟩]
      [47] := by
    rw [agree_not_directories_iff stored]
    decide
  refine ⟨stored, tails, tails, ?_⟩
  rw [agree_regular_iff stored]
  decide

end SimpleSSD.ISC.Ext4
