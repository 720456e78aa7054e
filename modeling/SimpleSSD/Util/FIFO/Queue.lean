import Mathlib.Data.List.Induction
import Mathlib.Algebra.BigOperators.Group.List.Basic
import SimpleSSD.Util.Def

/-!
# DMA queues

`util/fifo.cc`.  A request waits, is cut into pieces no larger than the queue, and each
piece takes room in the queue until it has been moved on.  Both queues of a FIFO admit
pieces in the same way.
-/

namespace SimpleSSD.FIFO

open SimpleSSD.Foundation

structure FIFOParam where
  rqSize : Nat
  wqSize : Nat
  transferUnit : Nat
  latency : Nat → Nat

/-- A unit of no bytes divides by zero; the other bounds are the check of the constructor. -/
structure FIFOParam.Valid (p : FIFOParam) : Prop where
  unit : 0 < p.transferUnit
  read : p.transferUnit ≤ p.rqSize
  write : p.transferUnit ≤ p.wqSize

structure Request where
  addr : Nat
  size : Nat
  buffer : Option Nat
  deriving DecidableEq, Repr

structure FIFOEntry where
  last : Bool
  id : Nat
  addr : Nat
  size : Nat
  buffer : Option Nat
  insertEndAt : Tick
  func : Nat
  deriving DecidableEq, Repr

structure Queue where
  capacity : Nat
  usage : Nat
  waitQueue : List FIFOEntry
  transferQueue : List FIFOEntry
  insertPending : Bool
  transferPending : Bool
  insertDone : Option Tick
  beginTransfer : Option Tick
  submitCompletion : Option Tick

structure Piece where
  func : Nat
  last : Bool
  addr : Nat
  size : Nat
  buffer : Option Nat
  deriving DecidableEq, Repr

def FIFOEntry.piece (e : FIFOEntry) : Piece := ⟨e.func, e.last, e.addr, e.size, e.buffer⟩

/-- A queue with what it has been asked, what the upstream was asked for and has not
completed yet, and the functions called. -/
structure Side extends Queue where
  requests : List Request
  accesses : List Piece
  outstanding : Nat
  calls : List Nat

def Queue.new (capacity : Nat) : Queue where
  capacity := capacity
  usage := 0
  waitQueue := []
  transferQueue := []
  insertPending := false
  transferPending := false
  insertDone := none
  beginTransfer := none
  submitCompletion := none

def Side.new (capacity : Nat) : Side where
  toQueue := .new capacity
  requests := []
  accesses := []
  outstanding := 0
  calls := []

def Side.entry (s : Side) (request : Request) : FIFOEntry where
  last := true
  id := 0
  addr := request.addr
  size := request.size
  buffer := request.buffer
  insertEndAt := 0
  func := s.requests.length

/-- An event of the queue, or the upstream's answer to an access.  A function that is
called may make further requests of the same queue. -/
inductive Action where
  | request (request : Request)
  | insertDone (handler : List Request)
  | beginTransfer
  | submitCompletion (handler : List Request)
  | transferDone (handler : List Request)

/-- New requests are not counted as steps. -/
def Action.steps : Action → Nat
  | .request _ => 0
  | _ => 1

def FIFOParam.calcSize (p : FIFOParam) (size : Nat) : Nat :=
  if size < p.transferUnit then size
  else ((size - 1) / p.transferUnit + 1) * p.transferUnit

def FIFOParam.unitLatency (p : FIFOParam) (size : Nat) : Nat :=
  if size < p.transferUnit then p.latency size else p.latency p.transferUnit

/-- The first unit of a request that is too large, and the rest of it as a request of its
own. -/
def FIFOParam.split (p : FIFOParam) (maxSize : Nat) (iter : FIFOEntry) (rest : List FIFOEntry) :
    FIFOEntry × List FIFOEntry :=
  if maxSize < p.calcSize iter.size then
    ({ iter with last := false, size := p.transferUnit },
      { iter with
        last := true
        addr := iter.addr + p.transferUnit
        size := iter.size - p.transferUnit
        buffer := iter.buffer.map fun at_ => at_ + p.transferUnit } :: rest)
  else (iter, rest)

/-- Take the first waiting entry into the queue, unless the one before is still being
taken or there is no room.  A request that is too large does not wait for room. -/
def enter (p : FIFOParam) (now : Tick) (maxSize : Nat) (pending : Bool)
    (mark : FIFOEntry → FIFOEntry) (q : Queue) : Except Fault (Option (FIFOEntry × Queue)) :=
  match q.waitQueue with
  | [] => .error .undefined
  | iter :: rest =>
      if (pending = true ∨ q.capacity < q.usage + p.calcSize iter.size) ∧
          p.calcSize iter.size ≤ maxSize then .ok none
      else
        let cut := p.split maxSize iter rest
        let iter := mark cut.1
        .ok (some (iter, {
          q with
          waitQueue := iter :: cut.2
          usage := q.usage + p.calcSize iter.size
          beginTransfer := if q.beginTransfer.isSome then q.beginTransfer
            else some (now + p.unitLatency iter.size)
          transferQueue := q.transferQueue ++ [iter] }))

/-! ## Pieces of a request -/

/-- The pieces a request is cut into, for a queue of `maxSize` bytes. -/
def pieces (p : FIFOParam) (maxSize func addr size : Nat) (buffer : Option Nat) : List Piece :=
  if maxSize < p.calcSize size ∧ 0 < p.transferUnit ∧ p.transferUnit < size then
    ⟨func, false, addr, p.transferUnit, buffer⟩ ::
      pieces p maxSize func (addr + p.transferUnit) (size - p.transferUnit)
        (buffer.map fun at_ => at_ + p.transferUnit)
  else [⟨func, true, addr, size, buffer⟩]
termination_by size

def FIFOEntry.pieces (p : FIFOParam) (maxSize : Nat) (e : FIFOEntry) : List Piece :=
  FIFO.pieces p maxSize e.func e.addr e.size e.buffer

/-- Consecutive pieces that cover `size` bytes from `addr` on, each with its own part of
the buffer. -/
def Tiles (addr size : Nat) (buffer : Option Nat) : List Piece → Prop
  | [] => size = 0
  | piece :: rest =>
      piece.addr = addr ∧ piece.buffer = buffer ∧ 0 < piece.size ∧ piece.size ≤ size ∧
        Tiles (addr + piece.size) (size - piece.size) (buffer.map fun at_ => at_ + piece.size) rest

def allPieces (p : FIFOParam) (maxSize : Nat) (requests : List Request) : List Piece :=
  requests.zipIdx.flatMap fun request =>
    pieces p maxSize request.2 request.1.addr request.1.size request.1.buffer

variable {p : FIFOParam} {maxSize func addr size : Nat} {buffer : Option Nat} {now : Tick}

theorem calcSize_le (unit : 0 < p.transferUnit) (fits : p.transferUnit ≤ maxSize)
    (h : size ≤ p.transferUnit) : p.calcSize size ≤ maxSize := by
  unfold FIFOParam.calcSize
  split_ifs with hlt
  · omega
  · obtain rfl : size = p.transferUnit := by omega
    rw [Nat.div_eq_of_lt (by omega)]
    omega

theorem lt_of_calcSize (unit : 0 < p.transferUnit) (fits : p.transferUnit ≤ maxSize)
    (h : maxSize < p.calcSize size) : p.transferUnit < size := by
  by_contra hle
  exact absurd (calcSize_le unit fits (not_lt.1 hle)) (not_le.2 h)

theorem pieces_tiles (positive : 0 < size) :
    Tiles addr size buffer (pieces p maxSize func addr size buffer) := by
  induction size using Nat.strongRecOn generalizing addr buffer with
  | ind size ih =>
      rw [pieces]
      split_ifs with h
      · obtain ⟨-, unit, hlt⟩ := h
        exact ⟨rfl, rfl, unit, hlt.le, ih (size - p.transferUnit) (by omega) (by omega)⟩
      · exact ⟨rfl, rfl, positive, le_rfl, Nat.sub_self size⟩

theorem pieces_last (p : FIFOParam) (maxSize func addr size : Nat) (buffer : Option Nat) :
    ∃ init piece, pieces p maxSize func addr size buffer = init ++ [piece] ∧
      piece.last = true ∧ piece.func = func ∧ ∀ other ∈ init, other.last = false := by
  induction size using Nat.strongRecOn generalizing addr buffer with
  | ind size ih =>
      rw [pieces]
      split_ifs with h
      · obtain ⟨-, unit, hlt⟩ := h
        obtain ⟨init, piece, heq, hlast, hfunc, hinit⟩ := ih (size - p.transferUnit) (by omega)
          (addr + p.transferUnit) (buffer.map fun at_ => at_ + p.transferUnit)
        refine ⟨_ :: init, piece, by rw [heq]; rfl, hlast, hfunc, ?_⟩
        exact List.forall_mem_cons.2 ⟨rfl, hinit⟩
      · exact ⟨[], _, rfl, rfl, rfl, by simp⟩

theorem allPieces_concat (p : FIFOParam) (maxSize : Nat) (requests : List Request)
    (request : Request) : allPieces p maxSize (requests ++ [request]) =
      allPieces p maxSize requests ++
        pieces p maxSize requests.length request.addr request.size request.buffer := by
  simp [allPieces, List.zipIdx_append]

/-- An entry that still waits: a request, or the rest of one. -/
def Waits (e : FIFOEntry) : Prop := e.last = true ∧ 0 < e.size

theorem split_spec (unit : 0 < p.transferUnit) (fits : p.transferUnit ≤ maxSize)
    {iter : FIFOEntry} {rest : List FIFOEntry} (waits : Waits iter)
    (hrest : ∀ e ∈ rest, Waits e) :
    (iter :: rest).flatMap (FIFOEntry.pieces p maxSize) =
        (p.split maxSize iter rest).1.piece ::
          (p.split maxSize iter rest).2.flatMap (FIFOEntry.pieces p maxSize) ∧
      p.calcSize (p.split maxSize iter rest).1.size ≤ maxSize ∧
      ∀ e ∈ (p.split maxSize iter rest).2, Waits e := by
  unfold FIFOParam.split
  rw [List.flatMap_cons, FIFOEntry.pieces, pieces]
  by_cases large : maxSize < p.calcSize iter.size
  · have hlt := lt_of_calcSize unit fits large
    rw [if_pos large, if_pos ⟨large, unit, hlt⟩]
    refine ⟨by simp [FIFOEntry.piece, FIFOEntry.pieces], calcSize_le unit fits le_rfl, ?_⟩
    exact List.forall_mem_cons.2 ⟨⟨rfl, Nat.sub_pos_of_lt hlt⟩, hrest⟩
  · rw [if_neg large, if_neg fun h => large h.1]
    exact ⟨by simp [FIFOEntry.piece, waits.1], not_lt.1 large, hrest⟩

/-! ## What both queues keep -/

/-- The entries that wait and are not being taken. -/
def waiting (taking : Bool) (q : Queue) : List FIFOEntry :=
  if taking then q.waitQueue.tail else q.waitQueue

/-- `taking` is the pending flag of the stage that takes entries from the wait queue,
`serving` that of the stage at the front of the transfer queue.  Entries that have
passed both are `finished`. -/
structure Kept (p : FIFOParam) (maxSize : Nat) (taking serving : Bool)
    (finished : List FIFOEntry) (requests : List Request) (q : Queue) : Prop where
  capacity : q.capacity = maxSize
  usage : q.usage = (q.transferQueue.map fun e => p.calcSize e.size).sum
  head : taking = true → ∃ e rest, q.waitQueue = e :: rest ∧ p.calcSize e.size ≤ maxSize
  waits : ∀ e ∈ waiting taking q, Waits e
  served : serving = true → q.transferQueue ≠ []
  scheduled : q.beginTransfer.isSome → (q.transferQueue.drop serving.toNat) ≠ []
  pieces : (finished ++ q.transferQueue).map FIFOEntry.piece ++
    (waiting taking q).flatMap (FIFOEntry.pieces p maxSize) = allPieces p maxSize requests
  positive : ∀ request ∈ requests, 0 < request.size

def Ready (serving : Bool) (q : Queue) : Prop :=
  q.transferQueue ≠ [] → serving = true ∨ q.beginTransfer.isSome

def Blocked (p : FIFOParam) (maxSize : Nat) (taking : Bool) (q : Queue) : Prop :=
  taking = false → ∀ e rest, q.waitQueue = e :: rest →
    q.capacity < q.usage + p.calcSize e.size ∧ p.calcSize e.size ≤ maxSize

variable {taking serving : Bool} {finished : List FIFOEntry} {requests : List Request}
  {q q' : Queue} {mark : FIFOEntry → FIFOEntry} {iter : FIFOEntry}

structure Taken (now : Tick) (p : FIFOParam) (iter : FIFOEntry) (q q' : Queue) : Prop where
  transferQueue : q'.transferQueue = q.transferQueue ++ [iter]
  beginTransfer : q'.beginTransfer = if q.beginTransfer.isSome then q.beginTransfer
    else some (now + p.unitLatency iter.size)
  head : ∃ rest, q'.waitQueue = iter :: rest
  flags : q'.insertPending = q.insertPending ∧ q'.transferPending = q.transferPending ∧
    q'.insertDone = q.insertDone ∧ q'.submitCompletion = q.submitCompletion

theorem Taken.ready (taken : Taken now p iter q q') : Ready serving q' := by
  intro _
  right
  rw [taken.beginTransfer]
  split_ifs with h
  · exact h
  · rfl

theorem toNat_le_length {entries : List FIFOEntry} (served : serving = true → entries ≠ []) :
    serving.toNat ≤ entries.length := by
  cases serving with
  | false => exact Nat.zero_le _
  | true => exact List.length_pos_of_ne_nil (served rfl)

theorem take_concat {entries : List FIFOEntry} (served : serving = true → entries ≠ [])
    (e : FIFOEntry) : (entries ++ [e]).take serving.toNat = entries.take serving.toNat :=
  List.take_append_of_le_length (toNat_le_length served)

theorem drop_concat {entries : List FIFOEntry} (served : serving = true → entries ≠ [])
    (e : FIFOEntry) : (entries ++ [e]).drop serving.toNat = entries.drop serving.toNat ++ [e] :=
  List.drop_append_of_le_length (toNat_le_length served)

theorem Kept.enter (kept : Kept p maxSize taking serving finished requests q)
    (unit : 0 < p.transferUnit) (fits : p.transferUnit ≤ maxSize) (now : Tick)
    (mark : FIFOEntry → FIFOEntry) (same : ∀ e, (mark e).piece = e.piece)
    (nonempty : q.waitQueue ≠ []) :
    (enter p now maxSize taking mark q = .ok none ∧ Blocked p maxSize taking q) ∨
      ∃ e q', taking = false ∧ enter p now maxSize taking mark q = .ok (some (mark e, q')) ∧
        Kept p maxSize true serving finished requests q' ∧ Taken now p (mark e) q q' ∧
        (waiting false q).flatMap (FIFOEntry.pieces p maxSize) =
          (mark e).piece :: (waiting true q').flatMap (FIFOEntry.pieces p maxSize) := by
  unfold FIFO.enter
  cases hwait : q.waitQueue with
  | nil => exact absurd hwait nonempty
  | cons iter rest =>
      simp only
      by_cases held : (taking = true ∨ q.capacity < q.usage + p.calcSize iter.size) ∧
          p.calcSize iter.size ≤ maxSize
      · refine .inl ⟨if_pos held, fun free e rest' heq => ?_⟩
        rw [hwait] at heq
        cases heq
        exact ⟨held.1.resolve_left (by simp [free]), held.2⟩
      · have free : taking = false := by
          cases taking with
          | false => rfl
          | true =>
              obtain ⟨e, rest', heq, hsmall⟩ := kept.head rfl
              rw [hwait] at heq
              cases heq
              exact absurd ⟨.inl rfl, hsmall⟩ held
        subst free
        have hwaits : ∀ e ∈ iter :: rest, Waits e := by
          simpa [waiting, hwait] using kept.waits
        obtain ⟨hiter, hrest⟩ := List.forall_mem_cons.1 hwaits
        obtain ⟨hpieces, hsmall, hcut⟩ := split_spec unit fits hiter hrest
        have hsize : ∀ e, (mark e).size = e.size := fun e => congrArg Piece.size (same e)
        refine .inr ⟨(p.split maxSize iter rest).1, _, rfl, if_neg held, ?_, ?_, ?_⟩
        · constructor
          · exact kept.capacity
          · simp [kept.usage]
          · intro _
            exact ⟨_, _, rfl, by rw [hsize]; exact hsmall⟩
          · exact hcut
          · intro _
            simp
          · intro _
            rw [drop_concat kept.served]
            simp
          · have hall := kept.pieces
            have hwaiting : waiting false q = iter :: rest := hwait
            rw [hwaiting, hpieces] at hall
            rw [← hall]
            simp [waiting, same]
          · exact kept.positive
        · exact ⟨rfl, rfl, ⟨_, rfl⟩, rfl, rfl, rfl, rfl⟩
        · have hwaiting : waiting false q = iter :: rest := hwait
          rw [hwaiting, hpieces, same]
          rfl

theorem Kept.waiting_concat (kept : Kept p maxSize taking serving finished requests q)
    (e : FIFOEntry) : waiting taking { q with waitQueue := q.waitQueue ++ [e] } =
      waiting taking q ++ [e] := by
  cases taking with
  | false => rfl
  | true =>
      obtain ⟨first, rest, heq, -⟩ := kept.head rfl
      simp [waiting, heq]

theorem Kept.request (kept : Kept p maxSize taking serving finished requests q)
    {request : Request} (e : FIFOEntry) (positive : 0 < request.size)
    (entry : e.last = true ∧ e.addr = request.addr ∧ e.size = request.size ∧
      e.buffer = request.buffer ∧ e.func = requests.length) :
    Kept p maxSize taking serving finished (requests ++ [request])
      { q with waitQueue := q.waitQueue ++ [e] } := by
  obtain ⟨hlast, haddr, hsize, hbuffer, hfunc⟩ := entry
  have hwaiting := kept.waiting_concat e
  refine { kept with head := fun h => ?_, waits := ?_, pieces := ?_, positive := ?_ }
  · obtain ⟨first, rest, heq, hsmall⟩ := kept.head h
    exact ⟨first, rest ++ [e], by simp [heq], hsmall⟩
  · rw [hwaiting]
    exact List.forall_mem_append.2 ⟨kept.waits, by simp [Waits, hlast, hsize, positive]⟩
  · rw [hwaiting, List.flatMap_append, ← List.append_assoc, kept.pieces, allPieces_concat]
    simp [FIFOEntry.pieces, haddr, hsize, hbuffer, hfunc]
  · exact List.forall_mem_append.2 ⟨kept.positive, by simpa using positive⟩

theorem Kept.taken (kept : Kept p maxSize true serving finished requests q) :
    Kept p maxSize false serving finished requests { q with waitQueue := q.waitQueue.tail } :=
  { kept with head := by simp }

theorem Kept.serve (kept : Kept p maxSize taking false finished requests q)
    (nonempty : q.transferQueue ≠ []) (idle : q.beginTransfer = none) :
    Kept p maxSize taking true finished requests q :=
  { kept with served := fun _ => nonempty, scheduled := by simp [idle] }

theorem Kept.finish {rest : List FIFOEntry} (front : q.transferQueue = iter :: rest)
    (kept : Kept p maxSize taking true finished requests q) :
    Kept p maxSize taking false (finished ++ [iter]) requests
      { q with usage := sub64 q.usage (p.calcSize iter.size), transferQueue := rest } := by
  have husage := kept.usage
  rw [front, List.map_cons, List.sum_cons] at husage
  refine { kept with usage := ?_, served := by simp, scheduled := fun h => ?_, pieces := ?_ }
  · rw [sub64_of_le (by omega)]
    simp only
    omega
  · have hscheduled := kept.scheduled h
    rw [front] at hscheduled
    exact hscheduled
  · rw [← kept.pieces, front]
    simp [waiting]

/-! ## When nothing is left to do -/

/-- The numbers of the requests whose last piece is among the pieces. -/
def functions (list : List Piece) : List Nat := (list.filter Piece.last).map Piece.func

theorem functions_append (list list' : List Piece) :
    functions (list ++ list') = functions list ++ functions list' := by
  simp [functions]

theorem functions_pieces (p : FIFOParam) (maxSize func addr size : Nat) (buffer : Option Nat) :
    functions (pieces p maxSize func addr size buffer) = [func] := by
  obtain ⟨init, piece, heq, hlast, hfunc, hinit⟩ := pieces_last p maxSize func addr size buffer
  have hnone : init.filter Piece.last = [] := List.filter_eq_nil_iff.2 fun other hother => by
    simp [hinit other hother]
  simp [heq, functions, hnone, hlast, hfunc]

theorem functions_allPieces (p : FIFOParam) (maxSize : Nat) (requests : List Request) :
    functions (allPieces p maxSize requests) = List.range requests.length := by
  induction requests using List.reverseRecOn with
  | nil => rfl
  | append_singleton requests request ih =>
      rw [allPieces_concat, functions_append, functions_pieces, ih, List.length_append,
        List.length_singleton, List.range_succ]

theorem Kept.finished_all (kept : Kept p maxSize false false finished requests q)
    (ready : Ready false q) (blocked : Blocked p maxSize false q) (idle : q.beginTransfer = none) :
    finished.map FIFOEntry.piece = allPieces p maxSize requests ∧ q.usage = 0 := by
  have hempty : q.transferQueue = [] := by
    by_contra hne
    rcases ready hne with h | h
    · cases h
    · simp [idle] at h
  have husage : q.usage = 0 := by simp [kept.usage, hempty]
  have hwait : q.waitQueue = [] := by
    cases heq : q.waitQueue with
    | nil => rfl
    | cons e rest =>
        obtain ⟨hfull, hsmall⟩ := blocked rfl e rest heq
        have hcapacity := kept.capacity
        omega
  refine ⟨?_, husage⟩
  have hpieces := kept.pieces
  simpa [waiting, hempty, hwait] using hpieces

end SimpleSSD.FIFO
