import SimpleSSD.Foundation.Overlay
import SimpleSSD.Foundation.Replies
import SimpleSSD.Foundation.Word

/-!
# Disks

`util/disk.cc`.  A disk in memory keeps the blocks that have been written, and a copy-on-write
disk keeps them over a file.  Memory is a function of the distance from a pointer into it.
-/

namespace SimpleSSD

open SimpleSSD.Foundation

abbrev Memory := Nat → UInt8

/-- A disk with its file, which is open or not.  `diskSize` is the size of the file. -/
structure Disk (sectorSize : UInt32) where
  isOpen : Bool
  file : List UInt8
  small : file.length < wordSize

namespace Disk

variable {sectorSize : UInt32}

def diskSize (d : Disk sectorSize) : Nat := d.file.length

def read (d : Disk sectorSize) (slba : Nat) (nlblk : UInt16) (buffer : Memory) (ofs : Nat) :
    UInt16 × Memory :=
  if d.isOpen then
    let slba := mul64 slba sectorSize.toNat
    let size := nlblk.toNat * sectorSize.toNat % 2 ^ 32
    let avail :=
      if d.diskSize < add64 slba size then
        if d.diskSize ≤ slba then 0 else d.diskSize - slba
      else size
    let buffer :=
      if 0 < avail then fill buffer ofs fun k : Fin avail => d.file.getD (slba + k) 0 else buffer
    (nlblk, fill buffer (ofs + avail) fun _ : Fin (size - avail) => 0)
  else (0, buffer)

def erase (_ : Disk sectorSize) (_ : Nat) (nlblk : UInt16) : UInt16 := nlblk

end Disk

structure CoWDisk (sectorSize : UInt32) extends Disk sectorSize where
  table : Overlay UInt8 sectorSize.toNat

structure MemDisk (sectorSize : UInt32) where
  diskSize : UInt64
  table : Overlay UInt8 sectorSize.toNat

/-- Both disks write alike: each block is inserted, or copied over the one that is there. -/
def writeTable {size : Nat} (table : Overlay UInt8 size) (slba : UInt64) (nlblk : UInt16)
    (buffer : Memory) : UInt16 × Overlay UInt8 size :=
  (List.range nlblk.toNat).foldl (fun (write, table) i =>
    (write + 1, table.lay (add64 slba.toNat i) (slice buffer (i * size) size)))
    (0, table)

namespace CoWDisk

variable {sectorSize : UInt32}

def «open» (file : List UInt8) (small : file.length < wordSize) : CoWDisk sectorSize :=
  ⟨⟨true, file, small⟩, fun _ => none⟩

def read (d : CoWDisk sectorSize) (slba : UInt64) (nlblk : UInt16) (buffer : Memory) :
    UInt16 × Memory :=
  (List.range nlblk.toNat).foldl (fun (read, buffer) i =>
    match d.table (add64 slba.toNat i) with
    | some block => (read + 1, fill buffer (i * sectorSize.toNat) block)
    | none =>
        let (one, buffer) := d.toDisk.read (add64 slba.toNat i) 1 buffer (i * sectorSize.toNat)
        (read + one, buffer)) (0, buffer)

def write (d : CoWDisk sectorSize) (slba : UInt64) (nlblk : UInt16) (buffer : Memory) :
    UInt16 × CoWDisk sectorSize :=
  let (write, table) := writeTable d.table slba nlblk buffer
  (write, { d with table := table })

end CoWDisk

namespace MemDisk

variable {sectorSize : UInt32}

def «open» (size : UInt64) : MemDisk sectorSize := ⟨size, fun _ => none⟩

def read (d : MemDisk sectorSize) (slba : UInt64) (nlblk : UInt16) (buffer : Memory) :
    UInt16 × Memory :=
  (List.range nlblk.toNat).foldl (fun (read, buffer) i =>
    match d.table (add64 slba.toNat i) with
    | some block => (read + 1, fill buffer (i * sectorSize.toNat) block)
    | none =>
        (read + 1, fill buffer (i * sectorSize.toNat) fun _ : Fin sectorSize.toNat => 0))
    (0, buffer)

def write (d : MemDisk sectorSize) (slba : UInt64) (nlblk : UInt16) (buffer : Memory) :
    UInt16 × MemDisk sectorSize :=
  let (write, table) := writeTable d.table slba nlblk buffer
  (write, { d with table := table })

def erase (d : MemDisk sectorSize) (slba : UInt64) (nlblk : UInt16) :
    UInt16 × MemDisk sectorSize :=
  (List.range nlblk.toNat).foldl (fun (erase, d) i =>
    match d.table (add64 slba.toNat i) with
    | some _ =>
        (erase + 1, { d with table := d.table.lift (add64 slba.toNat i) })
    | none => (erase + 1, d)) (0, d)

end MemDisk

/-! ## Calls -/

inductive DiskCall where
  | read (slba : UInt64) (nlblk : UInt16) (buffer : Memory)
  | write (slba : UInt64) (nlblk : UInt16) (buffer : Memory)
  | erase (slba : UInt64) (nlblk : UInt16)

structure DiskReply where
  blocks : UInt16
  buffer : Option Memory

def DiskCall.Inside (sectorSize : UInt32) (diskSize : Nat) : DiskCall → Prop
  | .read slba nlblk _ | .write slba nlblk _ | .erase slba nlblk =>
      (slba.toNat + nlblk.toNat) * sectorSize.toNat ≤ diskSize

instance (sectorSize : UInt32) (diskSize : Nat) (call : DiskCall) :
    Decidable (call.Inside sectorSize diskSize) :=
  match call with
  | .read .. | .write .. | .erase .. => inferInstanceAs (Decidable (_ ≤ _))

section Calls

variable {sectorSize : UInt32}

def CoWDisk.call (d : CoWDisk sectorSize) : DiskCall → CoWDisk sectorSize × DiskReply
  | .read slba nlblk buffer =>
      (d, ⟨(d.read slba nlblk buffer).1, some (d.read slba nlblk buffer).2⟩)
  | .write slba nlblk buffer =>
      ((d.write slba nlblk buffer).2, ⟨(d.write slba nlblk buffer).1, none⟩)
  | .erase slba nlblk => (d, ⟨d.erase slba.toNat nlblk, none⟩)

def MemDisk.call (d : MemDisk sectorSize) : DiskCall → MemDisk sectorSize × DiskReply
  | .read slba nlblk buffer =>
      (d, ⟨(d.read slba nlblk buffer).1, some (d.read slba nlblk buffer).2⟩)
  | .write slba nlblk buffer =>
      ((d.write slba nlblk buffer).2, ⟨(d.write slba nlblk buffer).1, none⟩)
  | .erase slba nlblk => ((d.erase slba nlblk).2, ⟨(d.erase slba nlblk).1, none⟩)

end Calls

/-- A flat array of bytes that is called as a disk.  An erase either writes zeros or nothing. -/
def flatCall (sectorSize : UInt32) (zeroing : Bool) (bytes : Memory) :
    DiskCall → Memory × DiskReply
  | .read slba nlblk buffer =>
      (bytes, ⟨nlblk, some (fill buffer 0 (slice bytes (slba.toNat * sectorSize.toNat)
        (nlblk.toNat * sectorSize.toNat)))⟩)
  | .write slba nlblk buffer =>
      (fill bytes (slba.toNat * sectorSize.toNat)
        (slice buffer 0 (nlblk.toNat * sectorSize.toNat)), ⟨nlblk, none⟩)
  | .erase slba nlblk =>
      (if zeroing then fill bytes (slba.toNat * sectorSize.toNat)
        (slice (fun _ => 0) 0 (nlblk.toNat * sectorSize.toNat)) else bytes, ⟨nlblk, none⟩)

/-! ## Blocks inside the disk -/

section Inside

variable {sectorSize : UInt32} {slba : UInt64} {nlblk : UInt16} {diskSize n : Nat}

theorem block_offset (inside : (slba.toNat + nlblk.toNat) * sectorSize.toNat ≤ diskSize)
    (small : diskSize < wordSize) (hn : n < nlblk.toNat) :
    add64 slba.toNat n * sectorSize.toNat =
      slba.toNat * sectorSize.toNat + n * sectorSize.toNat := by
  rcases Nat.eq_zero_or_pos sectorSize.toNat with zero | pos
  · simp [zero]
  · have count : slba.toNat + nlblk.toNat ≤ diskSize :=
      le_trans (Nat.le_mul_of_pos_right _ pos) inside
    rw [add64_of_lt (by omega), Nat.add_mul]

theorem ofNat_succ (n : Nat) : UInt16.ofNat n + 1 = UInt16.ofNat (n + 1) := by
  rw [UInt16.ofNat_add]
  rfl

theorem read_loop {bytes buffer : Memory} {f : UInt16 × Memory → Nat → UInt16 × Memory}
    (inside : (slba.toNat + nlblk.toNat) * sectorSize.toNat ≤ diskSize)
    (small : diskSize < wordSize)
    (pass : ∀ i < nlblk.toNat, ∀ read buffer, f (read, buffer) i =
      (read + 1, fill buffer (i * sectorSize.toNat)
        (slice bytes (add64 slba.toNat i * sectorSize.toNat) sectorSize.toNat))) :
    (List.range nlblk.toNat).foldl f (0, buffer) =
      (nlblk, fill buffer 0 (slice bytes (slba.toNat * sectorSize.toNat)
        (nlblk.toNat * sectorSize.toNat))) := by
  have all := loop_invariant (fun n s => s = (UInt16.ofNat n, fill buffer 0
    (slice bytes (slba.toNat * sectorSize.toNat) (n * sectorSize.toNat)))) nlblk.toNat
    (f := f) (s := (0, buffer)) ?start ?pass
  · rw [all, UInt16.ofNat_toNat]
  case start =>
    rw [fill_empty (Nat.zero_mul _)]
    rfl
  case pass =>
    rintro i hi _ rfl
    have next := fill_succ buffer bytes 0 (slba.toNat * sectorSize.toNat) i sectorSize.toNat
    rw [Nat.zero_add] at next
    rw [pass i hi, ofNat_succ, block_offset inside small hi, next]

theorem writeTable_shows {table : Overlay UInt8 sectorSize.toNat} {base bytes : Memory}
    (shows : table.Shows base bytes) (buffer : Memory)
    (inside : (slba.toNat + nlblk.toNat) * sectorSize.toNat ≤ diskSize)
    (small : diskSize < wordSize) :
    (writeTable table slba nlblk buffer).1 = nlblk ∧
      (writeTable table slba nlblk buffer).2.Shows base
        (fill bytes (slba.toNat * sectorSize.toNat)
          (slice buffer 0 (nlblk.toNat * sectorSize.toNat))) := by
  have all := loop_invariant (fun n (s : UInt16 × Overlay UInt8 sectorSize.toNat) =>
    s.1 = UInt16.ofNat n ∧ s.2.Shows base (fill bytes (slba.toNat * sectorSize.toNat)
      (slice buffer 0 (n * sectorSize.toNat)))) nlblk.toNat
    (f := fun (write, table) i => (write + 1, table.lay (add64 slba.toNat i)
      (slice buffer (i * sectorSize.toNat) sectorSize.toNat))) (s := (0, table)) ?start ?pass
  · rw [UInt16.ofNat_toNat] at all
    exact all
  case start =>
    rw [fill_empty (Nat.zero_mul _)]
    exact ⟨rfl, shows⟩
  case pass =>
    rintro i hi ⟨write, table⟩ ⟨count, shows⟩
    have next := fill_succ bytes buffer (slba.toNat * sectorSize.toNat) 0 i sectorSize.toNat
    have laid := shows.lay (add64 slba.toNat i)
      (slice buffer (i * sectorSize.toNat) sectorSize.toNat)
    rw [Nat.zero_add] at next
    rw [block_offset inside small hi, next] at laid
    refine ⟨?_, laid⟩
    rw [← ofNat_succ, ← count]

end Inside

/-! ## The copy-on-write disk -/

namespace CoWDisk

variable {sectorSize : UInt32} {d : CoWDisk sectorSize} {bytes : Memory}

def image (file : List UInt8) : Memory := fun i => file.getD i 0

theorem diskRead_inside {disk : Disk sectorSize} (opened : disk.isOpen = true) {n : Nat}
    (inside : n * sectorSize.toNat + sectorSize.toNat ≤ disk.diskSize) (buffer : Memory)
    (ofs : Nat) :
    disk.read n 1 buffer ofs =
      (1, fill buffer ofs (slice (image disk.file) (n * sectorSize.toNat) sectorSize.toNat)) := by
  have small : disk.diskSize < wordSize := disk.small
  have word := sectorSize.toNat_lt
  have one : (1 : UInt16).toNat = 1 := rfl
  have start : mul64 n sectorSize.toNat = n * sectorSize.toNat :=
    Nat.mod_eq_of_lt (by omega)
  have within : add64 (n * sectorSize.toNat) sectorSize.toNat =
      n * sectorSize.toNat + sectorSize.toNat := add64_of_lt (by omega)
  unfold Disk.read
  rw [if_pos opened, one, Nat.one_mul, Nat.mod_eq_of_lt word]
  dsimp only
  rw [start, within, if_neg (not_lt.2 inside), fill_empty (Nat.sub_self _)]
  split_ifs with some
  · rfl
  · rw [fill_empty (by omega)]

theorem read_eq (shows : d.table.Shows (image d.file) bytes) (opened : d.isOpen = true)
    {slba : UInt64} {nlblk : UInt16}
    (inside : (slba.toNat + nlblk.toNat) * sectorSize.toNat ≤ d.diskSize) (buffer : Memory) :
    d.read slba nlblk buffer = (nlblk, fill buffer 0 (slice bytes
      (slba.toNat * sectorSize.toNat) (nlblk.toNat * sectorSize.toNat))) := by
  refine read_loop inside d.small fun i hi read buffer => ?_
  rw [shows.block, Overlay.block]
  cases d.table (add64 slba.toNat i) with
  | some block => rfl
  | none =>
      have stop : (i + 1) * sectorSize.toNat ≤ nlblk.toNat * sectorSize.toNat :=
        Nat.mul_le_mul_right _ hi
      have fits : add64 slba.toNat i * sectorSize.toNat + sectorSize.toNat ≤ d.diskSize := by
        rw [block_offset inside d.small hi]
        rw [Nat.add_mul] at inside stop
        omega
      dsimp only
      rw [diskRead_inside opened fits]
      rfl

def Holds (d : CoWDisk sectorSize) (file : List UInt8) (bytes : Memory) : Prop :=
  d.isOpen = true ∧ d.file = file ∧ d.table.Shows (image file) bytes

theorem call_eq {file : List UInt8} (holds : d.Holds file bytes) (call : DiskCall)
    (inside : call.Inside sectorSize file.length) :
    (d.call call).2 = (flatCall sectorSize false bytes call).2 ∧
      (d.call call).1.Holds file (flatCall sectorSize false bytes call).1 := by
  obtain ⟨opened, rfl, shows⟩ := holds
  cases call with
  | read slba nlblk buffer =>
      have answer := read_eq shows opened inside buffer
      refine ⟨?_, opened, rfl, shows⟩
      rw [call, answer]
      rfl
  | write slba nlblk buffer =>
      obtain ⟨count, shows'⟩ := writeTable_shows shows buffer inside d.small
      refine ⟨?_, opened, rfl, shows'⟩
      exact congrArg (DiskReply.mk · none) count
  | erase slba nlblk => exact ⟨rfl, opened, rfl, shows⟩

end CoWDisk

/-! ## The disk in memory -/

namespace MemDisk

variable {sectorSize : UInt32} {d : MemDisk sectorSize} {bytes : Memory} {slba : UInt64}
  {nlblk : UInt16}

theorem read_eq (shows : d.table.Shows (fun _ => 0) bytes)
    (inside : (slba.toNat + nlblk.toNat) * sectorSize.toNat ≤ d.diskSize.toNat)
    (buffer : Memory) :
    d.read slba nlblk buffer = (nlblk, fill buffer 0 (slice bytes
      (slba.toNat * sectorSize.toNat) (nlblk.toNat * sectorSize.toNat))) := by
  refine read_loop inside d.diskSize.toNat_lt fun i hi read buffer => ?_
  rw [shows.block, Overlay.block]
  cases d.table (add64 slba.toNat i) with
  | some block => rfl
  | none => rfl

theorem erase_shows (shows : d.table.Shows (fun _ => 0) bytes)
    (inside : (slba.toNat + nlblk.toNat) * sectorSize.toNat ≤ d.diskSize.toNat) :
    (d.erase slba nlblk).1 = nlblk ∧ (d.erase slba nlblk).2.diskSize = d.diskSize ∧
      (d.erase slba nlblk).2.table.Shows (fun _ => 0)
        (fill bytes (slba.toNat * sectorSize.toNat)
          (slice (fun _ => 0) 0 (nlblk.toNat * sectorSize.toNat))) := by
  have all := loop_invariant (fun n (s : UInt16 × MemDisk sectorSize) =>
    s.1 = UInt16.ofNat n ∧ s.2.diskSize = d.diskSize ∧ s.2.table.Shows (fun _ => 0)
      (fill bytes (slba.toNat * sectorSize.toNat)
        (slice (fun _ => 0) 0 (n * sectorSize.toNat)))) nlblk.toNat
    (f := fun (erase, d) i =>
      match d.table (add64 slba.toNat i) with
      | some _ => (erase + 1, { d with table := d.table.lift (add64 slba.toNat i) })
      | none => (erase + 1, d)) (s := (0, d)) ?start ?pass
  · rw [UInt16.ofNat_toNat] at all
    exact all
  case start =>
    rw [fill_empty (Nat.zero_mul _)]
    exact ⟨rfl, rfl, shows⟩
  case pass =>
    rintro i hi ⟨erase, d'⟩ ⟨count, size, shows⟩
    have next := fill_succ bytes (fun _ => 0) (slba.toNat * sectorSize.toNat) 0 i sectorSize.toNat
    rw [Nat.zero_add, ← block_offset inside d.diskSize.toNat_lt hi] at next
    have zeros : ∀ start, slice (fun _ => (0 : UInt8)) start sectorSize.toNat = fun _ => 0 :=
      fun _ => rfl
    dsimp only at count shows ⊢
    rw [count, ofNat_succ, ← next, zeros]
    cases held : d'.table (add64 slba.toNat i) with
    | some block => exact ⟨rfl, size, shows.lift _⟩
    | none =>
        -- the block shows zeros already
        have same := shows.block (add64 slba.toNat i)
        rw [Overlay.block, held, Option.getD_none, zeros] at same
        rw [← same, fill_slice_self]
        exact ⟨rfl, size, shows⟩

def Holds (d : MemDisk sectorSize) (size : UInt64) (bytes : Memory) : Prop :=
  d.diskSize = size ∧ d.table.Shows (fun _ => 0) bytes

theorem call_eq {size : UInt64} (holds : d.Holds size bytes) (call : DiskCall)
    (inside : call.Inside sectorSize size.toNat) :
    (d.call call).2 = (flatCall sectorSize true bytes call).2 ∧
      (d.call call).1.Holds size (flatCall sectorSize true bytes call).1 := by
  obtain ⟨rfl, shows⟩ := holds
  cases call with
  | read slba nlblk buffer =>
      have answer := read_eq shows inside buffer
      refine ⟨?_, rfl, shows⟩
      rw [call, answer]
      rfl
  | write slba nlblk buffer =>
      obtain ⟨count, shows'⟩ := writeTable_shows shows buffer inside d.diskSize.toNat_lt
      refine ⟨?_, rfl, shows'⟩
      exact congrArg (DiskReply.mk · none) count
  | erase slba nlblk =>
      obtain ⟨count, size, shows'⟩ := erase_shows shows inside
      refine ⟨?_, size, shows'⟩
      exact congrArg (DiskReply.mk · none) count

end MemDisk

/-! ## Every run -/

/-- A disk in memory answers as an array of zeros does that is written to, a copy-on-write disk
as an array with the content of the file, which stays as it is. -/
theorem disks_flat (sectorSize : UInt32) (calls : List DiskCall) :
    (∀ size : UInt64, (∀ call ∈ calls, call.Inside sectorSize size.toNat) →
      replies MemDisk.call (MemDisk.open size : MemDisk sectorSize) calls =
        replies (flatCall sectorSize true) (fun _ => 0) calls) ∧
    (∀ (file : List UInt8) (small : file.length < wordSize),
      (∀ call ∈ calls, call.Inside sectorSize file.length) →
        replies CoWDisk.call (CoWDisk.open file small : CoWDisk sectorSize) calls =
            replies (flatCall sectorSize false) (CoWDisk.image file) calls ∧
          (after CoWDisk.call (CoWDisk.open file small : CoWDisk sectorSize) calls).file =
            file) := by
  refine ⟨fun size inside => ?_, fun file small inside => ⟨?_, ?_⟩⟩
  · have start : (MemDisk.open size : MemDisk sectorSize).Holds size fun _ => 0 :=
      ⟨rfl, Overlay.shows_empty _⟩
    exact replies_eq (fun d bytes => MemDisk.Holds d size bytes)
      (DiskCall.Inside sectorSize size.toNat)
      (fun _ _ call holds within => MemDisk.call_eq holds call within) start inside
  · have start : (CoWDisk.open file small : CoWDisk sectorSize).Holds file
        (CoWDisk.image file) := ⟨rfl, rfl, Overlay.shows_empty _⟩
    exact replies_eq (fun d bytes => CoWDisk.Holds d file bytes)
      (DiskCall.Inside sectorSize file.length)
      (fun _ _ call holds within => CoWDisk.call_eq holds call within) start inside
  · refine after_eq (fun d : CoWDisk sectorSize => d.file) (fun d call => ?_) _ calls
    cases call <;> rfl

def fewCalls : List DiskCall :=
  [.write 1 1 fun _ => 7, .erase 0 1, .read 0 2 fun _ => 9]

theorem disks_flat_few :
    replies MemDisk.call (MemDisk.open 8 : MemDisk 4) fewCalls =
        replies (flatCall 4 true) (fun _ => 0) fewCalls ∧
      replies CoWDisk.call (CoWDisk.open (List.replicate 8 5) (by decide) : CoWDisk 4) fewCalls =
        replies (flatCall 4 false) (CoWDisk.image (List.replicate 8 5)) fewCalls := by
  have inside : ∀ call ∈ fewCalls, call.Inside 4 8 := by decide
  exact ⟨(disks_flat 4 fewCalls).1 8 inside,
    ((disks_flat 4 fewCalls).2 (List.replicate 8 5) (by decide) inside).1⟩

end SimpleSSD
