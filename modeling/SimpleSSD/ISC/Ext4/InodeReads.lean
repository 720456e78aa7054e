import SimpleSSD.Foundation.Word
import SimpleSSD.ISC.Ext4.NameCache

/-!
# Reads of inodes

`Ext4::getInode` looks for an inode in two caches, and reads ahead when the inodes it is asked for
follow each other.
-/

namespace SimpleSSD.ISC.Ext4

open SimpleSSD.Foundation Function

def INODE_PREFETCH_NUM : Nat := 128

def INODE_PREFETCH_THRESHOLD : UInt64 := 16

def szGroupDesc : Nat := 64

def szInode : Nat := 160

structure GrpNode where
  valid : Bool
  data : Nat → UInt8

/-- The image, what the constructor keeps of its superblock, and what each `malloc` leaves in the
memory it returns. -/
structure InodeTables where
  image : Image
  nrGrps : UInt64
  inodesPerGroup : UInt32
  inodeSize : UInt16
  garbage : Nat → Nat → UInt8

structure InodeCaches where
  grpCache : UInt64 → GrpNode
  lruInoCache : LRURegion
  mallocs : Nat

structure InodeReader where
  caches : InodeCaches
  lastIno : UInt64
  numContigIno : UInt64

namespace InodeTables

variable (vol : InodeTables)

def szVal : Nat := max vol.inodeSize.toNat szInode

def inoCache := LRURegion.inodes 256 8 vol.szVal

def number (ino : UInt64) : Fin 8 → UInt8 := fun i => leByte ino i

def groupDesc (iGrp : UInt64) : Nat → UInt8 := fun k =>
  vol.image (BLK_SIZE + iGrp.toNat * szGroupDesc + k)

def getGrpDesc (iGrp : UInt64) (s : InodeCaches) : Except Fault ((Nat → UInt8) × InodeCaches) :=
  if vol.nrGrps ≤ iGrp then .error (.panic "iGrp < this->nrGrps")
  else if (s.grpCache iGrp).valid then .ok ((s.grpCache iGrp).data, s)
  else .ok (vol.groupDesc iGrp,
    { s with grpCache := update s.grpCache iGrp ⟨true, vol.groupDesc iGrp⟩ })

def group (ino : UInt64) : UInt64 := (ino - 1) / vol.inodesPerGroup.toUInt64

def ofsITab (gd : Nat → UInt8) (ino : UInt64) : Nat :=
  (CAT3232U (leValue gd 40 4) (leValue gd 8 4) * BLK_SIZE +
    ((ino - 1) % vol.inodesPerGroup.toUInt64).toNat * vol.inodeSize.toNat) % wordSize

/-- `doit` of `getInode` -/
def lookUp (ino : UInt64) (s : InodeCaches) :
    Except Fault (Option (Fin vol.szVal → UInt8) × InodeCaches) :=
  if ino = 0 then .ok (none, s)
  else
    let buf : Fin vol.szVal → UInt8 := fun i => vol.garbage s.mallocs i
    let (status, e, lruInoCache) := s.lruInoCache.read vol.inoCache.toRegion (number ino, buf)
    let s := { s with lruInoCache := lruInoCache, mallocs := s.mallocs + 1 }
    if status ≠ -ENOENT then .ok (some e.2, s)
    else if vol.inodesPerGroup = 0 then .error .undefined
    else do
      let (gd, s) ← vol.getGrpDesc (vol.group ino) s
      let buf : Fin vol.szVal → UInt8 := fun i =>
        if i < vol.inodeSize.toNat then vol.image (vol.ofsITab gd ino + i) else buf i
      let (_, lruInoCache) ← s.lruInoCache.write vol.inoCache.toRegion (number ino, buf)
      .ok (some buf, { s with lruInoCache := lruInoCache })

def prefetch (inoNum : UInt64) (s : InodeReader) (i : Nat) : Except Fault InodeReader := do
  let lastIno := inoNum + .ofNat (i + 1)
  let (_, caches) ← vol.lookUp lastIno s.caches
  .ok { s with caches := caches, lastIno := lastIno }

def getInode (inoNum : UInt64) (s : InodeReader) :
    Except Fault (Option (Fin vol.szVal → UInt8) × InodeReader) := do
  let (res, caches) ← vol.lookUp inoNum s.caches
  let s := { s with caches := caches }
  let s ←
    if inoNum ≠ s.lastIno + 1 then .ok { s with numContigIno := 0 }
    else
      let s := { s with numContigIno := s.numContigIno + 1 }
      if .ofNat INODE_PREFETCH_NUM ≤ s.numContigIno then .ok { s with numContigIno := 0 }
      else if s.numContigIno = INODE_PREFETCH_THRESHOLD then
        (List.range INODE_PREFETCH_NUM).foldlM (vol.prefetch inoNum) s
      else .ok s
  .ok (res, { s with lastIno := inoNum })

def construct : Except Fault InodeReader := do
  let caches : InodeCaches :=
    ⟨fun _ => ⟨false, fun _ => 0⟩, LRURegion.init vol.inoCache.toRegion, 0⟩
  let caches ← (List.range vol.nrGrps.toNat).foldlM (fun caches i => do
    let (_, caches) ← vol.getGrpDesc (.ofNat i) caches
    .ok caches) caches
  .ok ⟨caches, 0, 0⟩

def getInodes : List UInt64 → InodeReader → Except Fault (List (Option (Fin vol.szVal → UInt8)))
  | [], _ => .ok []
  | ino :: rest, s => do
      let (res, s) ← vol.getInode ino s
      let later ← getInodes rest s
      .ok (res :: later)

/-! ## What is on the volume -/

/-- The number of an inode that the descriptors reach, or the number of none. -/
def InTables (ino : UInt64) : Prop :=
  ino = 0 ∨ vol.inodesPerGroup ≠ 0 ∧ vol.group ino < vol.nrGrps

def Shows (ino : UInt64) : Option (Fin vol.szVal → UInt8) → Prop
  | none => ino = 0
  | some buf => ino ≠ 0 ∧ ∀ i : Fin vol.szVal, i < vol.inodeSize.toNat →
      buf i = vol.image (vol.ofsITab (vol.groupDesc (vol.group ino)) ino + i)

def inRow (last contig ino : UInt64) : UInt64 :=
  if ino ≠ last + 1 ∨ .ofNat INODE_PREFETCH_NUM ≤ contig + 1 then 0 else contig + 1

def ahead (contig ino : UInt64) : List UInt64 :=
  if contig = INODE_PREFETCH_THRESHOLD then
    (List.range INODE_PREFETCH_NUM).map fun i => ino + .ofNat (i + 1)
  else []

def lookedUp (last contig : UInt64) : List UInt64 → List UInt64
  | [] => []
  | ino :: rest =>
      ino :: ahead (inRow last contig ino) ino ++ lookedUp ino (inRow last contig ino) rest

/-! ## What the caches hold -/

theorem number_injective : Injective number := by
  intro a b same
  have bytes : ∀ i < 8, leByte a (0 + i) = leByte b i := by
    intro i hi
    rw [Nat.zero_add]
    exact congrFun same ⟨i, hi⟩
  have own : UInt64.ofNat (leValue (leByte a) 0 8) = a :=
    ofNat_leValue fun i _ => by rw [Nat.zero_add]
  exact own.symm.trans (ofNat_leValue bytes)

structure Right (s : InodeCaches) : Prop where
  groups : ∀ iGrp, (s.grpCache iGrp).valid → (s.grpCache iGrp).data = vol.groupDesc iGrp
  inodes : ∃ history, LRURegion.Inv vol.inoCache history s.lruInoCache ∧
    ∀ k v, LRURegion.lastWritten vol.inoCache k history = some v →
      ∃ ino, number ino = k ∧ vol.InTables ino ∧ vol.Shows ino (some v)

variable {vol}

theorem getGrpDesc_returns {s : InodeCaches} (right : vol.Right s) (iGrp : UInt64) :
    Returns (iGrp < vol.nrGrps) (fun r => r.1 = vol.groupDesc iGrp ∧ vol.Right r.2)
      (vol.getGrpDesc iGrp s) := by
  unfold getGrpDesc
  by_cases beyond : vol.nrGrps ≤ iGrp
  · rw [if_pos beyond]
    exact UInt64.not_lt.2 beyond
  · have within := UInt64.not_le.1 beyond
    rw [if_neg beyond]
    by_cases valid : (s.grpCache iGrp).valid
    · rw [if_pos valid]
      exact ⟨within, right.groups iGrp valid, right⟩
    · rw [if_neg valid]
      refine ⟨within, rfl, ?_, right.inodes⟩
      intro other hother
      by_cases same : other = iGrp
      · simp [same]
      · simp only [update_of_ne same] at hother ⊢
        exact right.groups other hother

theorem lookUp_returns {s : InodeCaches} (right : vol.Right s) (ino : UInt64) :
    Returns (vol.InTables ino) (fun r => vol.Shows ino r.1 ∧ vol.Right r.2)
      (vol.lookUp ino s) := by
  have capacity : 0 < vol.inoCache.nmem := show 0 < 256 by decide
  have positive : 0 < vol.inoCache.unit := show 0 < 8 + vol.szVal by omega
  unfold lookUp
  by_cases zero : ino = 0
  · rw [if_pos zero]
    exact ⟨.inl zero, zero, right⟩
  · obtain ⟨history, inv, written⟩ := right.inodes
    rw [if_neg zero]
    by_cases live : LRURegion.Live vol.inoCache history (number ino)
    · obtain ⟨status, -, last⟩ := (inv.boundedMap positive).hit
        (number ino, fun i => vol.garbage s.mallocs i) live
      obtain ⟨lru, read, inv'⟩ := LRURegion.access_total inv capacity positive
        (.read (number ino, fun i => vol.garbage s.mallocs i))
      obtain ⟨other, same, inTables, shows⟩ := written _ _ last
      obtain rfl := number_injective same
      obtain rfl := Except.ok.inj read
      dsimp only
      rw [if_pos (by rw [status]; decide)]
      exact ⟨inTables, shows, right.groups, _, inv', written⟩
    · have missed := (inv.boundedMap positive).miss
        (number ino, fun i => vol.garbage s.mallocs i) live
      dsimp only
      rw [missed, if_neg (by simp)]
      by_cases none : vol.inodesPerGroup = 0
      · rw [if_pos none]
        exact fun inTables => inTables.elim zero fun some => some.1 none
      · rw [if_neg none]
        have there : (vol.group ino < vol.nrGrps ∧ True) ↔ vol.InTables ino := by
          simp [InTables, zero, none]
        refine ((getGrpDesc_returns (s := { s with mallocs := s.mallocs + 1 })
          ⟨right.groups, right.inodes⟩ (vol.group ino)).bind ?_).congr there fun _ => id
        rintro within ⟨gd, s'⟩ ⟨rfl, right'⟩
        obtain ⟨history', inv', written'⟩ := right'.inodes
        obtain ⟨lru, stored, inv''⟩ := LRURegion.write_total inv' capacity positive
          (number ino, fun i => if i < vol.inodeSize.toNat then
            vol.image (vol.ofsITab (vol.groupDesc (vol.group ino)) ino + i)
          else vol.garbage s.mallocs i)
        dsimp only
        rw [stored]
        refine ⟨trivial, ⟨zero, fun i hi => if_pos hi⟩, right'.groups, _, inv'', ?_⟩
        intro k v last
        rw [LRURegion.lastWritten] at last
        split_ifs at last with same
        · obtain rfl := Option.some.inj last
          exact ⟨ino, same, there.1 ⟨within, trivial⟩, zero, fun i hi => if_pos hi⟩
        · exact written' k v last

theorem prefetch_returns {s : InodeReader} (right : vol.Right s.caches) (inoNum : UInt64)
    (i : Nat) : Returns (vol.InTables (inoNum + .ofNat (i + 1)))
      (fun t => vol.Right t.caches ∧ t.numContigIno = s.numContigIno)
      (vol.prefetch inoNum s i) := by
  refine ((lookUp_returns right _).bind ?_).congr (and_iff_left trivial) fun _ => id
  rintro - ⟨res, caches⟩ ⟨-, right'⟩
  exact ⟨trivial, right', rfl⟩

theorem getInode_returns {s : InodeReader} (right : vol.Right s.caches) (inoNum : UInt64) :
    Returns (∀ ino ∈ inoNum :: ahead (inRow s.lastIno s.numContigIno inoNum) inoNum,
        vol.InTables ino)
      (fun r => vol.Shows inoNum r.1 ∧ vol.Right r.2.caches ∧ r.2.lastIno = inoNum ∧
        r.2.numContigIno = inRow s.lastIno s.numContigIno inoNum)
      (vol.getInode inoNum s) := by
  unfold getInode
  rw [List.forall_mem_cons]
  refine (lookUp_returns right inoNum).bind ?_
  rintro - ⟨res, caches⟩ ⟨shows, right'⟩
  dsimp only
  by_cases apart : inoNum ≠ s.lastIno + 1
  · have row : inRow s.lastIno s.numContigIno inoNum = 0 := if_pos (.inl apart)
    rw [if_pos apart, row]
    exact ⟨by simp [ahead, INODE_PREFETCH_THRESHOLD], shows, right', rfl, rfl⟩
  · rw [if_neg apart]
    by_cases many : .ofNat INODE_PREFETCH_NUM ≤ s.numContigIno + 1
    · have row : inRow s.lastIno s.numContigIno inoNum = 0 := if_pos (.inr many)
      rw [if_pos many, row]
      exact ⟨by simp [ahead, INODE_PREFETCH_THRESHOLD], shows, right', rfl, rfl⟩
    · have row : inRow s.lastIno s.numContigIno inoNum = s.numContigIno + 1 :=
        if_neg (not_or.2 ⟨apart, many⟩)
      rw [if_neg many, row]
      by_cases reached : s.numContigIno + 1 = INODE_PREFETCH_THRESHOLD
      · rw [if_pos reached, ahead, if_pos reached, List.forall_mem_map]
        have step : ∀ (t : InodeReader) (i : Nat),
            vol.Right t.caches ∧ t.numContigIno = s.numContigIno + 1 →
            Returns (vol.InTables (inoNum + .ofNat (i + 1)))
              (fun t => vol.Right t.caches ∧ t.numContigIno = s.numContigIno + 1)
              (vol.prefetch inoNum t i) := by
          intro t i ⟨held, count⟩
          rw [← count]
          exact prefetch_returns held inoNum i
        refine ((Returns.foldlM step (List.range INODE_PREFETCH_NUM) ⟨right', rfl⟩).bind ?_).congr
          (and_iff_left trivial) fun _ => id
        rintro - t ⟨held, count⟩
        exact ⟨trivial, shows, held, rfl, count⟩
      · rw [if_neg reached, ahead, if_neg reached]
        exact ⟨by simp, shows, right', rfl, rfl⟩

theorem getInodes_returns (inos : List UInt64) {s : InodeReader} (right : vol.Right s.caches) :
    Returns (∀ ino ∈ lookedUp s.lastIno s.numContigIno inos, vol.InTables ino)
      (fun answers => List.Forall₂ vol.Shows inos answers) (vol.getInodes inos s) := by
  induction inos generalizing s with
  | nil => exact ⟨by simp [lookedUp], .nil⟩
  | cons ino rest ih =>
      rw [lookedUp, List.forall_mem_append]
      refine (getInode_returns right ino).bind ?_
      rintro - ⟨res, t⟩ ⟨shows, right', last, count⟩
      have later := ih right'
      rw [last, count] at later
      refine (later.bind ?_).congr (and_iff_left trivial) fun _ => id
      rintro - answers those
      exact ⟨trivial, .cons shows those⟩

theorem construct_right (vol : InodeTables) : ∃ start, vol.construct = .ok start ∧
    vol.Right start.caches ∧ start.lastIno = 0 ∧ start.numContigIno = 0 := by
  have fresh : vol.Right ⟨fun _ => ⟨false, fun _ => 0⟩, LRURegion.init vol.inoCache.toRegion, 0⟩ :=
    ⟨by simp, [], LRURegion.inv_init, by simp [LRURegion.lastWritten]⟩
  unfold construct
  dsimp only
  have step : ∀ caches (i : Nat), vol.Right caches →
      Returns (UInt64.ofNat i < vol.nrGrps) vol.Right (do
        let (_, caches) ← vol.getGrpDesc (.ofNat i) caches
        .ok caches) := by
    intro caches i held
    refine ((getGrpDesc_returns held (.ofNat i)).bind ?_).congr (and_iff_left trivial) fun _ => id
    rintro - ⟨gd, caches'⟩ ⟨-, held'⟩
    exact ⟨trivial, held'⟩
  have each : ∀ i ∈ List.range vol.nrGrps.toNat, UInt64.ofNat i < vol.nrGrps := by
    intro i hi
    rw [List.mem_range] at hi
    rw [UInt64.lt_iff_toNat_lt, UInt64.toNat_ofNat']
    exact lt_of_le_of_lt (Nat.mod_le _ _) hi
  obtain ⟨caches, read, right⟩ := (Returns.foldlM step _ fresh).ok each
  rw [read]
  exact ⟨_, rfl, right, rfl, rfl⟩

/-- Whatever was looked up before, a call answers with what the inode tables hold.  The calls go
through exactly if no inode asked for or read ahead lies behind the last group. -/
theorem inodes_as_on_disk (vol : InodeTables) : ∃ start, vol.construct = .ok start ∧
    ∀ inos, Returns (∀ ino ∈ lookedUp 0 0 inos, vol.InTables ino)
      (fun answers => List.Forall₂ vol.Shows inos answers) (vol.getInodes inos start) := by
  obtain ⟨start, built, right, last, count⟩ := construct_right vol
  refine ⟨start, built, fun inos => ?_⟩
  have answered := getInodes_returns inos right
  rwa [last, count] at answered

-- The sixteenth inode in a row has the reader look at the next 128.
example : 144 ∈ lookedUp 0 0 ((List.range 16).map fun i => .ofNat (i + 1)) := by decide

end InodeTables

end SimpleSSD.ISC.Ext4
