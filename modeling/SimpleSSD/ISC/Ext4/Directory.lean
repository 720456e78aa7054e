import SimpleSSD.Foundation.Hops
import SimpleSSD.ISC.Ext4.Extents
import SimpleSSD.ISC.LRURegion

/-!
# Directories

`isc/fs/ext4/ext4.cc` and the directory passes of `isc/slet`.  A directory is read into one
buffer, and its entries are found by adding up their lengths.  Looking up a name also fills a
cache of names in device memory.
-/

namespace SimpleSSD.ISC

open SimpleSSD.Foundation

namespace Buffer

/-- What `strncpy` copies of up to `n` characters: none from a NUL on, which is not read past. -/
def str (buf : Buffer) : Nat → Nat → Except Fault (List UInt8)
  | 0, _ => .ok []
  | n + 1, ofs =>
      if ofs < buf.size then
        if buf.byte ofs = 0 then .ok []
        else (str buf n (ofs + 1)).map (buf.byte ofs :: ·)
      else .error .undefined

def bytes (buf : Buffer) : Nat → Nat → Except Fault (List UInt8)
  | 0, _ => .ok []
  | n + 1, ofs =>
      if ofs < buf.size then (bytes buf n (ofs + 1)).map (buf.byte ofs :: ·)
      else .error .undefined

/-- Whether `strncmp` with all of a name gives 0. -/
def sameStr (buf : Buffer) : List UInt8 → Nat → Except Fault Bool
  | [], _ => .ok true
  | c :: rest, ofs =>
      if ofs < buf.size then
        if buf.byte ofs ≠ c then .ok false
        else if c = 0 then .ok true
        else sameStr buf rest (ofs + 1)
      else .error .undefined

def fill (buf : Buffer) (image : Image) (ofs ofsData sz : Nat) : Except Fault Buffer :=
  if sz = 0 ∨ ofs + sz ≤ buf.size then
    .ok { buf with byte := fun i =>
      if ofs ≤ i ∧ i < ofs + sz then image (ofsData + (i - ofs)) else buf.byte i }
  else .error .undefined

end Buffer

namespace Ext4

/-! ## The cache of names -/

def cstr (s : List UInt8) : List UInt8 := s.takeWhile (· ≠ 0)

def szKey2 : Nat := 256

structure NameiNode where
  diri : UInt64
  name : Fin szKey2 → UInt8
  inode : UInt64

/-- The constructor, with what is copied of the `nl` characters at `n`. -/
def NameiNode.new (di : UInt64) (n : List UInt8) (nl : Nat) (ino : UInt64) :
    Except Fault NameiNode :=
  if szKey2 < nl then .error .undefined else .ok ⟨di, fun i => n.getD i 0, ino⟩

/-- The difference at the first place where up to `n` characters differ. -/
def strncmp : Nat → List UInt8 → List UInt8 → Int
  | n + 1, a :: as, b :: bs =>
      if a ≠ b then (a.toNat : Int) - b.toNat
      else if a = 0 then 0
      else strncmp n as bs
  | _, _, _ => 0

def leByte (n : UInt64) (i : Nat) : UInt8 := .ofNat (n.toNat / 256 ^ i)

def szNode : Nat := 8 + szKey2 + 8

def NameiNode.toCell (node : NameiNode) (i : Fin szNode) : UInt8 :=
  if i.val < 8 then leByte node.diri i
  else if h : i.val - 8 < szKey2 then node.name ⟨i - 8, h⟩
  else leByte node.inode (i - (8 + szKey2))

def NameiNode.ofCell (cell : Fin szNode → UInt8) : NameiNode :=
  let byte := fun i => if h : i < szNode then cell ⟨i, h⟩ else 0
  ⟨.ofNat (leValue byte 0 8), fun i => byte (8 + i), .ofNat (leValue byte (8 + szKey2) 8)⟩

def NameiNode.cmp (a b : NameiNode) : Int :=
  if a.diri ≠ b.diri then if a.diri < b.diri then -1 else 1
  else strncmp 255 (List.ofFn a.name) (List.ofFn b.name)

def namei : Region NameiNode where
  nmem := 10000
  unit := szNode
  cmp cell dat := (NameiNode.ofCell cell).cmp dat
  cpin _ dat := dat.toCell
  cpout _ cell := .ofCell cell

/-! ## Entries -/

section Entry

variable (buf : Buffer) (ofs : Nat)

def direntInode : Except Fault Nat := buf.le ofs 4

def direntRecLen : Except Fault Nat := buf.le (ofs + 4) 2

def direntNameLen : Except Fault Nat := buf.le (ofs + 6) 1

def direntFileType : Except Fault Nat := buf.le (ofs + 7) 1

end Entry

def ERROR_INO : UInt64 := 0

def EXT4_INDEX_FL : Nat := 0x00001000

structure Search where
  inode : UInt64
  nameiCache : LRURegion

/-- Whether an entry's name of `nlen` characters is the one searched for. -/
def matchName (buf : Buffer) (tgName : List UInt8) (nlen name : Nat) : Except Fault Bool :=
  if tgName.length = nlen then buf.sameStr tgName name else .ok false

def visitEntry (tgName : List UInt8) (dirIno : UInt64) (buf : Buffer) (s : Search) (ofs : Nat) :
    Except Fault (Hop Search) := do
  let ino ← direntInode buf ofs
  let nlen ← direntNameLen buf ofs
  let rlen ← direntRecLen buf ofs
  if ino = 0 ∧ rlen < 8 then .ok (.stop s)
  else
    let found ← matchName buf tgName nlen (ofs + 8)
    let name ← buf.str nlen (ofs + 8)
    let tmp ← NameiNode.new dirIno name nlen (.ofNat ino)
    let (_, nameiCache) ← s.nameiCache.write namei tmp
    .ok (.go ⟨if found then .ofNat ino else s.inode, nameiCache⟩ (ofs + rlen))

def readExtents (image : Image) : Nat → List Ext → Buffer → Except Fault Buffer
  | _, [], buf => .ok buf
  | ie, e :: rest, buf => do
      let buf ← buf.fill image (ie * BLK_SIZE) (e.slbn * BLK_SIZE) (e.len * BLK_SIZE)
      readExtents image (ie + 1) rest buf

/-- The image, what `getInode` gives for each inode number, and what `malloc` leaves in the
memory it returns. -/
structure Volume where
  image : Image
  inodes : UInt64 → Inode
  garbage : Nat → UInt8

/-- The inode found and the cache.  The name is searched for in the bytes from `tgName` on,
of which it has all. -/
def dirSearchFile (vol : Volume) (frames fuel : Nat) (tgName : List UInt8) (dirIno : UInt64)
    (nameiCache : LRURegion) : Option (Except Fault (UInt64 × LRURegion)) :=
  match NameiNode.new dirIno (cstr tgName) tgName.length ERROR_INO with
  | .error e => some (.error e)
  | .ok cache =>
      let (status, cache, nameiCache) := nameiCache.read namei cache
      if status ≠ -ENOENT then some (.ok (cache.inode, nameiCache))
      else
        match getExtent vol.image frames (vol.inodes dirIno) with
        | .error e => some (.error e)
        | .ok (none, _) => some (.ok (ERROR_INO, nameiCache))
        | .ok (some exts, szExts) =>
            if szExts = 0 then some (.error (.panic "szExts > 0"))
            else
              let szBuf := (exts.map fun e => e.len * BLK_SIZE).sum
              match readExtents vol.image 0 exts ⟨szBuf, vol.garbage⟩ with
              | .error e => some (.error e)
              | .ok buf =>
                  if (vol.inodes dirIno).iFlags &&& EXT4_INDEX_FL ≠ 0 then
                    some (.ok (ERROR_INO, nameiCache))
                  else
                    (scan szBuf (visitEntry tgName dirIno buf) fuel ⟨ERROR_INO, nameiCache⟩ 0).map
                      fun result => result.map fun s => (s.inode, s.nameiCache)

/-! ## The passes of the applications -/

/-- One pass of the loop that counts the files of a directory; a count goes up by `size`. -/
def visitFile (size : Nat) (bufDir : Buffer) (count oBufDir : Nat) :
    Except Fault (Hop Nat) := do
  let inode ← direntInode bufDir oBufDir
  let fileType ← direntFileType bufDir oBufDir
  if inode = 0 then
    -- the tail of a block
    if fileType = 0xde then
      let recLen ← direntRecLen bufDir oBufDir
      .ok (.go count (oBufDir + recLen))
    else .ok (.stop count)
  else if fileType ≠ 2 then
    let nameLen ← direntNameLen bufDir oBufDir
    let _ ← bufDir.str nameLen (oBufDir + 8)
    let recLen ← direntRecLen bufDir oBufDir
    .ok (.go (count + size) (oBufDir + recLen))
  else
    let recLen ← direntRecLen bufDir oBufDir
    .ok (.go count (oBufDir + recLen))

/-- The pass of `MD5APP`, which counts `BYTES_PER_RESULT`. -/
def MD5APP.directoryPass (bufDir : Buffer) (fuel : Nat) : Option (Except Fault Nat) :=
  scan bufDir.size (visitFile 16 bufDir) fuel 0 0

def GrepAPP.directoryPass (bufDir : Buffer) (fuel : Nat) : Option (Except Fault Nat) :=
  scan bufDir.size (visitFile 1 bufDir) fuel 0 0

/-- One pass of the loop of `StatdirAPP::inodeFilter`, which collects inodes and names.  It
skips a tail that stands behind the entry. -/
def visitInode (dents : Buffer) (res : List (Nat × List UInt8)) (ofs : Nat) :
    Except Fault (Hop (List (Nat × List UInt8))) := do
  let inode ← direntInode dents ofs
  if inode = 0 then .ok (.stop res)
  else
    let nameLen ← direntNameLen dents ofs
    let data ← dents.bytes nameLen (ofs + 8)
    let recLen ← direntRecLen dents ofs
    let next ← direntInode dents (ofs + recLen)
    if next = 0 then
      let fileType ← direntFileType dents (ofs + recLen)
      if fileType = 0xde then
        let tail ← direntRecLen dents (ofs + recLen)
        .ok (.go (res ++ [(inode, data)]) (ofs + recLen + tail))
      else .ok (.go (res ++ [(inode, data)]) (ofs + recLen))
    else .ok (.go (res ++ [(inode, data)]) (ofs + recLen))

def StatdirAPP.inodeFilter (dents : Buffer) (fuel : Nat) :
    Option (Except Fault (List (Nat × List UInt8))) :=
  scan dents.size (visitInode dents) fuel [] 0

end Ext4

end SimpleSSD.ISC
