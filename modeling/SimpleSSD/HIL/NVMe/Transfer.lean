import SimpleSSD.HIL.NVMe.PRPList

/-!
# Data transfers

`hil/nvme/dma.cc`.  A command names its buffer by a PRP list or by an SGL.  Building the list
may take reads of the host memory, and ends with a call of the function that waits for it;
`read` and `write` split a run of bytes into accesses to the entries of the list.  An access
calls back when it ends, but the DMA engine ignores accesses and reads without bytes.
-/

namespace SimpleSSD.HIL.NVMe

open SimpleSSD.Foundation

/-- An entry of a list; the bytes of a bit bucket are ignored. -/
structure Chunk where
  addr : Nat
  length : Nat
  ignore : Bool
  deriving DecidableEq, Repr

namespace PRPList

/-- `PRPList::PRPList` for the base of a queue, which is contiguous or a list. -/
def ofBase (pagesize base size : Nat) (cont : Bool) : PRPList :=
  if cont then { start pagesize [⟨base, size⟩] with initialized := 1 }
  else getPRPListFromPRP base size (start pagesize [])

def chunks (s : PRPList) : List Chunk := s.prpList.map fun prp => ⟨prp.addr, prp.size, false⟩

end PRPList

/-! ## Scatter-gather lists -/

structure SGLDescriptor where
  address : Nat
  length : Nat
  id : Nat
  deriving DecidableEq, Repr

namespace SGLDescriptor

def TYPE_DATA_BLOCK_DESCRIPTOR : Nat := 0x00
def TYPE_BIT_BUCKET_DESCRIPTOR : Nat := 0x01
def TYPE_SEGMENT_DESCRIPTOR : Nat := 0x02
def TYPE_LAST_SEGMENT_DESCRIPTOR : Nat := 0x03
def TYPE_KEYED_DATA_BLOCK_DESCRIPTOR : Nat := 0x04

def ofWords (first second : Nat) : SGLDescriptor :=
  ⟨first, second % 2 ^ 32, second / 2 ^ 56 % 2 ^ 8⟩

def type (desc : SGLDescriptor) : Nat := desc.id >>> 4

def subtype (desc : SGLDescriptor) : Nat := desc.id &&& 0x0F

def isData (desc : SGLDescriptor) : Bool :=
  desc.type = TYPE_DATA_BLOCK_DESCRIPTOR ∨ desc.type = TYPE_KEYED_DATA_BLOCK_DESCRIPTOR

def isBitBucket (desc : SGLDescriptor) : Bool := desc.type = TYPE_BIT_BUCKET_DESCRIPTOR

def isSegment (desc : SGLDescriptor) : Bool :=
  desc.type = TYPE_SEGMENT_DESCRIPTOR ∨ desc.type = TYPE_LAST_SEGMENT_DESCRIPTOR

end SGLDescriptor

/-- `reading` is the address and the length of the segment that is being read, and
`initialized` counts the calls of the function that is waiting for the list. -/
structure SGL where
  chunkList : List Chunk
  totalSize : Nat
  callCounter : Nat
  reading : Option (Nat × Nat)
  initialized : Nat
  deriving DecidableEq, Repr

namespace SGL

def parseSGLDescriptor (desc : SGLDescriptor) (s : SGL) : Except Fault SGL :=
  if desc.isData ∨ desc.isBitBucket then
    if desc.subtype = 0 then
      .ok { s with
        chunkList := s.chunkList ++ [⟨desc.address, desc.length, desc.isBitBucket⟩]
        totalSize := s.totalSize + desc.length }
    else .error (.panic "Unexpected SGL subtype")
  else .error (.panic "Invalid SGL descriptor")

def parseSGLSegment (address length : Nat) (s : SGL) : SGL :=
  { s with callCounter := s.callCounter + 1, reading := some (address, length) }

def segment (mem : Nat → Nat) (address length : Nat) : List SGLDescriptor :=
  (List.range (length / 16)).map fun i =>
    .ofWords (mem (address + 16 * i)) (mem (address + 16 * i + 8))

/-- The descriptors of a segment; the last one may name the next segment. -/
def readSegment : List SGLDescriptor → SGL → Except Fault (Option SGLDescriptor × SGL)
  | [], s => .ok (none, s)
  | desc :: rest, s =>
      if desc.isData ∨ desc.isBitBucket then parseSGLDescriptor desc s >>= readSegment rest
      else if desc.isSegment then
        match rest with
        | [] => .ok (some desc, s)
        | _ => .error (.panic "Invalid SGL segment")
      else readSegment rest s

def initFunction (s : SGL) : SGL :=
  if s.callCounter = 0 then { s with initialized := s.initialized + 1 } else s

def doRead (mem : Nat → Nat) (address length : Nat) (s : SGL) : Except Fault SGL :=
  if length % 16 ≠ 0 then .error .undefined
  else do
    let (next, s) ← readSegment (segment mem address length)
      { s with callCounter := s.callCounter - 1, reading := none }
    match next with
    | none => .ok (initFunction s)
    | some desc => .ok (initFunction (parseSGLSegment desc.address desc.length s))

def readAll (mem : Nat → Nat) : Nat → SGL → Except Fault SGL
  | 0, s => .ok s
  | fuel + 1, s =>
      match s.reading with
      | none => .ok s
      | some (address, length) =>
          if length = 0 then .ok s else doRead mem address length s >>= readAll mem fuel

def start : SGL where
  chunkList := []
  totalSize := 0
  callCounter := 0
  reading := none
  initialized := 0

/-- `SGL::SGL`.  A descriptor that is neither data nor a segment is dropped. -/
def new (prp1 prp2 : Nat) : Except Fault SGL :=
  let desc : SGLDescriptor := .ofWords prp1 prp2
  if desc.isData then
    (parseSGLDescriptor desc start).map fun s => { s with initialized := s.initialized + 1 }
  else if desc.isSegment then .ok (parseSGLSegment desc.address desc.length start)
  else .ok start

end SGL

/-! ## Accesses -/

/-- A part of an entry, and where its bytes stand in the buffer. -/
structure Piece where
  chunk : Chunk
  skipped : Nat
  size : Nat
  offset : Nat
  deriving DecidableEq, Repr

def piecesFrom (length : Nat) : List Chunk → Nat → List Piece
  | [], _ => []
  | iter :: rest, total =>
      let size := min iter.length (length - total)
      ⟨iter, 0, size, total⟩ ::
        if total + size = length then [] else piecesFrom length rest (total + size)

def pieces (offset length : Nat) : List Chunk → Nat → List Piece
  | [], _ => []
  | iter :: rest, currentOffset =>
      if offset < currentOffset + iter.length then
        let skipped := offset - currentOffset
        let size := min (iter.length - skipped) length
        ⟨iter, skipped, size, 0⟩ :: piecesFrom length rest size
      else pieces offset length rest (currentOffset + iter.length)

def accesses (pieces : List Piece) : List Piece := pieces.filter fun piece => !piece.chunk.ignore

/-- `calls` counts the calls of the function the transfer was made for. -/
structure DMAContext where
  counter : Nat
  calls : Nat
  deriving DecidableEq, Repr

namespace DMAContext

def dmaHandler (c : DMAContext) : DMAContext :=
  let c := { c with counter := c.counter - 1 }
  if c.counter = 0 then { c with calls := c.calls + 1 } else c

/-- The context once all accesses are made; without any the handler is called at once. -/
def submitted (accesses : List Piece) : DMAContext :=
  if accesses.length = 0 then dmaHandler ⟨1, 0⟩ else ⟨accesses.length, 0⟩

def answered (accesses : List Piece) : DMAContext :=
  (accesses.filter fun piece => 0 < piece.size).foldl (fun c _ => c.dmaHandler)
    (submitted accesses)

end DMAContext

/-- How often a transfer calls back, and the bytes it moves until then. -/
structure Moved where
  calls : Nat
  bytes : Nat
  deriving DecidableEq, Repr

def transfer (offset length : Nat) (chunks : List Chunk) : Moved :=
  let pieces := pieces offset length chunks 0
  ⟨(DMAContext.answered (accesses pieces)).calls, (pieces.map Piece.size).sum⟩

structure DataPointer where
  useSGL : Bool
  data1 : Nat
  data2 : Nat
  deriving DecidableEq, Repr

namespace DataPointer

/-- The list after some reads of it have ended, and the calls of the function that is
waiting for it. -/
def build (mem : Nat → Nat) (pagesize reads size : Nat) (p : DataPointer) :
    Except Fault (Nat × List Chunk) :=
  if p.useSGL then
    (SGL.new p.data1 p.data2 >>= SGL.readAll mem reads).map fun s => (s.initialized, s.chunkList)
  else
    (PRPList.new pagesize p.data1 p.data2 size >>= PRPList.readAll mem reads).map fun s =>
      (s.initialized, s.chunks)

def run (mem : Nat → Nat) (pagesize reads size offset length : Nat) (p : DataPointer) :
    Except Fault Moved :=
  (p.build mem pagesize reads size).map fun (initialized, chunks) =>
    let moved := transfer offset length chunks
    ⟨initialized * moved.calls, if initialized = 0 then 0 else moved.bytes⟩

end DataPointer

/-! ## Waiting for a list -/

namespace PRPList

variable {mem : Nat → Nat} {s s' : PRPList} {pContext : DMAInitContext} {pagesize n m : Nat}

def Building (s : PRPList) : Prop :=
  (s.reading.isSome = true ∧ s.callCounter = 1 ∧ s.initialized = 0) ∨
    (s.reading = none ∧ s.callCounter = 0)

theorem Building.ended (building : s.Building) (called : s.initialized ≠ 0) :
    s.reading = none := by
  rcases building with ⟨-, -, zero⟩ | ⟨none, -⟩
  · exact absurd zero called
  · exact none

theorem building_list (pagesize base size : Nat) (prpList : List PRP) :
    (getPRPListFromPRP base size (start pagesize prpList)).Building :=
  .inl ⟨rfl, rfl, rfl⟩

theorem building_called (pagesize : Nat) (prpList : List PRP) :
    { start pagesize prpList with initialized := 1 }.Building :=
  .inr ⟨rfl, rfl⟩

theorem building_doRead (building : s.Building) (reading : s.reading = some pContext)
    (h : doRead mem pContext s = .ok s') : s'.Building := by
  rcases building with ⟨-, counter, zero⟩ | ⟨none, -⟩
  · obtain ⟨⟨currentSize, prpList⟩, -, h⟩ := bind_eq_ok.1 h
    by_cases more : currentSize < pContext.totalSize
    · simp only [if_pos more, nextList] at h
      cases last : prpList.getLast? with
      | none =>
          rw [last] at h
          cases h
      | some listPRP =>
          rw [last] at h
          cases h
          exact .inl (by simp [getPRPListFromPRP, initFunction, counter, zero])
    · simp only [if_neg more] at h
      cases h
      exact .inr (by simp [initFunction, counter])
  · rw [none] at reading
    cases reading

theorem building_readAll (building : s.Building) (h : readAll mem n s = .ok s') :
    s'.Building := by
  induction n generalizing s with
  | zero =>
      cases h
      exact building
  | succ n ih =>
      cases reading : s.reading with
      | none =>
          rw [eq_of_ended reading h]
          exact building
      | some pContext =>
          rw [readAll_of_reading reading] at h
          obtain ⟨mid, read, later⟩ := bind_eq_ok.1 h
          exact ih (building_doRead building reading read) later

theorem readAll_mono (le : n ≤ m) (h : readAll mem n s = .ok s') (ended : s'.reading = none) :
    readAll mem m s = .ok s' := by
  induction n generalizing s m with
  | zero =>
      cases h
      exact readAll_of_ended mem ended m
  | succ n ih =>
      cases reading : s.reading with
      | none =>
          rw [eq_of_ended reading h]
          exact readAll_of_ended mem reading m
      | some pContext =>
          obtain ⟨m, rfl⟩ : ∃ k, m = k + 1 := ⟨m - 1, by omega⟩
          rw [readAll_of_reading reading] at h ⊢
          obtain ⟨mid, read, later⟩ := bind_eq_ok.1 h
          rw [bind_eq_ok]
          exact ⟨mid, read, ih (by omega) later⟩

theorem building_immediate {size : Nat} {prpList : List PRP}
    (h : immediate pagesize size prpList = .ok s) : s.Building := by
  unfold immediate at h
  split at h
  · cases h
  · cases h
    exact building_called pagesize prpList

theorem building_new {prp1 prp2 size : Nat} (h : new pagesize prp1 prp2 size = .ok s) :
    s.Building := by
  unfold new at h
  dsimp only at h
  split at h
  · split at h
    · cases h
      exact building_called _ _
    · exact building_immediate h
  · split at h
    · split at h
      · exact building_immediate h
      · cases h
        exact building_list _ _ _ _
    · cases h
      exact building_list _ _ _ _

theorem building_ofBase (pagesize base size : Nat) (cont : Bool) :
    (ofBase pagesize base size cont).Building := by
  unfold ofBase
  split
  · exact building_called _ _
  · exact building_list _ _ _ _

end PRPList

namespace SGL

variable {mem : Nat → Nat} {s s' : SGL} {address length n m : Nat}

def Building (s : SGL) : Prop :=
  (s.reading.isSome = true ∧ s.callCounter = 1 ∧ s.initialized = 0) ∨
    (s.reading = none ∧ s.callCounter = 0)

theorem Building.ended (building : s.Building) (called : s.initialized ≠ 0) :
    s.reading = none := by
  rcases building with ⟨-, -, zero⟩ | ⟨none, -⟩
  · exact absurd zero called
  · exact none

theorem parseSGLDescriptor_eq_ok {desc : SGLDescriptor} (h : parseSGLDescriptor desc s = .ok s') :
    s'.callCounter = s.callCounter ∧ s'.reading = s.reading ∧
      s'.initialized = s.initialized := by
  unfold parseSGLDescriptor at h
  split at h
  · split at h
    · cases h
      exact ⟨rfl, rfl, rfl⟩
    · cases h
  · cases h

theorem readSegment_eq_ok {descriptors : List SGLDescriptor} {next : Option SGLDescriptor}
    (h : readSegment descriptors s = .ok (next, s')) :
    s'.callCounter = s.callCounter ∧ s'.reading = s.reading ∧
      s'.initialized = s.initialized := by
  induction descriptors generalizing s with
  | nil =>
      cases h
      exact ⟨rfl, rfl, rfl⟩
  | cons desc rest ih =>
      unfold readSegment at h
      split at h
      · obtain ⟨mid, parsed, later⟩ := bind_eq_ok.1 h
        obtain ⟨counter, reading, initialized⟩ := parseSGLDescriptor_eq_ok parsed
        obtain ⟨counter', reading', initialized'⟩ := ih later
        exact ⟨counter'.trans counter, reading'.trans reading, initialized'.trans initialized⟩
      · split at h
        · split at h
          · cases h
            exact ⟨rfl, rfl, rfl⟩
          · cases h
        · exact ih h

theorem building_segment (address length : Nat) (fresh : s.callCounter = 0)
    (zero : s.initialized = 0) :
    (parseSGLSegment address length s).Building :=
  .inl ⟨rfl, by simp [parseSGLSegment, fresh], zero⟩

theorem building_doRead (building : s.Building) (reading : s.reading = some (address, length))
    (h : doRead mem address length s = .ok s') : s'.Building := by
  rcases building with ⟨-, counter, zero⟩ | ⟨none, -⟩
  · unfold doRead at h
    split at h
    · cases h
    · obtain ⟨⟨next, mid⟩, read, h⟩ := bind_eq_ok.1 h
      obtain ⟨counter', reading', initialized'⟩ := readSegment_eq_ok read
      have none : mid.reading = none := reading'
      have done : mid.callCounter = 0 := by simp [counter', counter]
      cases next with
      | none =>
          cases h
          exact .inr (by simp [initFunction, done, none])
      | some desc =>
          cases h
          have begun := building_segment desc.address desc.length done
            (initialized'.trans zero)
          have counted : (parseSGLSegment desc.address desc.length mid).callCounter ≠ 0 := by
            simp [parseSGLSegment]
          rw [initFunction, if_neg counted]
          exact begun
  · rw [none] at reading
    cases reading

theorem readAll_of_ended (mem : Nat → Nat) (ended : s.reading = none) (fuel : Nat) :
    readAll mem fuel s = .ok s := by
  cases fuel with
  | zero => rfl
  | succ fuel => simp only [readAll, ended]

theorem readAll_of_empty (mem : Nat → Nat) (reading : s.reading = some (address, 0))
    (fuel : Nat) : readAll mem fuel s = .ok s := by
  cases fuel with
  | zero => rfl
  | succ fuel => simp only [readAll, reading, if_true]

theorem readAll_of_reading (reading : s.reading = some (address, length)) (bytes : length ≠ 0) :
    readAll mem (n + 1) s = doRead mem address length s >>= readAll mem n := by
  simp only [readAll, reading, if_neg bytes]

theorem building_readAll (building : s.Building) (h : readAll mem n s = .ok s') :
    s'.Building := by
  induction n generalizing s with
  | zero =>
      cases h
      exact building
  | succ n ih =>
      cases reading : s.reading with
      | none =>
          rw [readAll_of_ended mem reading] at h
          cases h
          exact building
      | some segment =>
          obtain ⟨address, length⟩ := segment
          by_cases bytes : length = 0
          · subst bytes
            rw [readAll_of_empty mem reading] at h
            cases h
            exact building
          · rw [readAll_of_reading reading bytes] at h
            obtain ⟨mid, read, later⟩ := bind_eq_ok.1 h
            exact ih (building_doRead building reading read) later

theorem readAll_mono (le : n ≤ m) (h : readAll mem n s = .ok s') (ended : s'.reading = none) :
    readAll mem m s = .ok s' := by
  induction n generalizing s m with
  | zero =>
      cases h
      exact readAll_of_ended mem ended m
  | succ n ih =>
      cases reading : s.reading with
      | none =>
          rw [readAll_of_ended mem reading] at h ⊢
          exact h
      | some segment =>
          obtain ⟨address, length⟩ := segment
          by_cases bytes : length = 0
          · subst bytes
            rw [readAll_of_empty mem reading] at h ⊢
            exact h
          · obtain ⟨m, rfl⟩ : ∃ k, m = k + 1 := ⟨m - 1, by omega⟩
            rw [readAll_of_reading reading bytes] at h ⊢
            obtain ⟨mid, read, later⟩ := bind_eq_ok.1 h
            rw [bind_eq_ok]
            exact ⟨mid, read, ih (by omega) later⟩

theorem building_new {prp1 prp2 : Nat} (h : new prp1 prp2 = .ok s) : s.Building := by
  unfold new at h
  dsimp only at h
  split at h
  · cases parsed : parseSGLDescriptor (.ofWords prp1 prp2) start with
    | error fault =>
        rw [parsed] at h
        cases h
    | ok mid =>
        rw [parsed] at h
        cases h
        obtain ⟨counter, reading, -⟩ := parseSGLDescriptor_eq_ok parsed
        exact .inr ⟨reading, counter⟩
  · split at h
    · cases h
      exact building_segment _ _ rfl rfl
    · cases h
      exact .inr ⟨rfl, rfl⟩

end SGL

/-! ## Calls of a transfer -/

section Calls

variable {α : Type} {c : DMAContext} {served : List α}

theorem answered_of_lt (few : served.length < c.counter) :
    served.foldl (fun c _ => c.dmaHandler) c = ⟨c.counter - served.length, c.calls⟩ := by
  induction served generalizing c with
  | nil => rfl
  | cons piece rest ih =>
      rw [List.length_cons] at few ⊢
      have left : c.dmaHandler = ⟨c.counter - 1, c.calls⟩ :=
        if_neg (by simp only; omega)
      rw [List.foldl_cons, left, ih (by simp only; omega)]
      simp only [DMAContext.mk.injEq, and_true]
      omega

theorem answered_of_eq (some_ : served ≠ []) (all : c.counter = served.length) :
    served.foldl (fun c _ => c.dmaHandler) c = ⟨0, c.calls + 1⟩ := by
  obtain ⟨init, last, rfl⟩ : ∃ init last, served = init ++ [last] :=
    ⟨_, _, (List.dropLast_append_getLast some_).symm⟩
  rw [List.length_append, List.length_singleton] at all
  have earlier : init.foldl (fun c _ => c.dmaHandler) c = ⟨c.counter - init.length, c.calls⟩ :=
    answered_of_lt (by omega)
  rw [List.foldl_append, earlier, all]
  simp [DMAContext.dmaHandler]

end Calls

namespace DataPointer

variable {mem : Nat → Nat} {pagesize size offset length n m : Nat} {p : DataPointer}

theorem build_mono {called : Nat} {chunks : List Chunk} (le : n ≤ m)
    (h : p.build mem pagesize n size = .ok (called, chunks)) (waits : called ≠ 0) :
    p.build mem pagesize m size = .ok (called, chunks) := by
  unfold build at h ⊢
  by_cases sgl : p.useSGL = true
  · rw [if_pos sgl] at h ⊢
    cases built : SGL.new p.data1 p.data2 >>= SGL.readAll mem n with
    | error fault =>
        rw [built] at h
        cases h
    | ok s =>
        rw [built] at h
        cases h
        obtain ⟨first, made, read⟩ := bind_eq_ok.1 built
        have ended := (SGL.building_readAll (SGL.building_new made) read).ended waits
        rw [bind_eq_ok.2 ⟨first, made, SGL.readAll_mono le read ended⟩]
        rfl
  · rw [if_neg sgl] at h ⊢
    cases built : PRPList.new pagesize p.data1 p.data2 size >>= PRPList.readAll mem n with
    | error fault =>
        rw [built] at h
        cases h
    | ok s =>
        rw [built] at h
        cases h
        obtain ⟨first, made, read⟩ := bind_eq_ok.1 built
        have ended := (PRPList.building_readAll (PRPList.building_new made) read).ended waits
        rw [bind_eq_ok.2 ⟨first, made, PRPList.readAll_mono le read ended⟩]
        rfl

end DataPointer

end SimpleSSD.HIL.NVMe
