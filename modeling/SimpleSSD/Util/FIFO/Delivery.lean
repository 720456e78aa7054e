import SimpleSSD.Util.FIFO.Write
import SimpleSSD.Util.FIFO.Read

/-!
# Delivery of DMA requests

The two queues of a FIFO share nothing but the clock.  A run takes one event or answer
after the other, in any order and at any time; a function that makes requests of the
other queue does so in steps of their own.
-/

namespace SimpleSSD

open SimpleSSD.Foundation

structure FIFO where
  write : FIFO.Side
  read : FIFO.ReadSide

namespace FIFO

def new (p : FIFOParam) : FIFO where
  write := .new p.wqSize
  read := .new p.rqSize

inductive Run (p : FIFOParam) : FIFO → Nat → Prop
  | start : Run p (new p) 0
  | write {fifo : FIFO} {n : Nat} (run : Run p fifo n) (now : Tick) (action : Action) {s : Side}
      (h : Write.step p now action fifo.write = some (.ok s)) :
      Run p { fifo with write := s } (n + action.steps)
  | read {fifo : FIFO} {n : Nat} (run : Run p fifo n) (now : Tick) (action : Action)
      {s : ReadSide} (h : Read.step p now action fifo.read = some (.ok s)) :
      Run p { fifo with read := s } (n + action.steps)

def Side.completed (s : Side) : List Piece := s.accesses.take (s.accesses.length - s.outstanding)

def Side.Idle (s : Side) : Prop :=
  s.insertDone = none ∧ s.beginTransfer = none ∧ s.submitCompletion = none ∧ s.outstanding = 0

def Side.of (func : Nat) (list : List Piece) : List Piece :=
  list.filter fun piece => piece.func = func

structure Delivered (p : FIFOParam) (maxSize : Nat) (s : Side) : Prop where
  accesses : s.accesses <+: allPieces p maxSize s.requests
  calls : ∃ k ≤ s.requests.length, s.calls = List.range k
  tiled : ∀ func ∈ s.calls, ∃ request, s.requests[func]? = some request ∧
    Side.of func s.completed = Side.of func s.accesses ∧
    Tiles request.addr request.size request.buffer (Side.of func s.accesses)
  usage : s.usage = (s.transferQueue.map fun e => p.calcSize e.size).sum
  returns : s.calls.length = s.requests.length → s.usage = 0
  called : s.Idle → s.calls.length = s.requests.length

variable {p : FIFOParam} {maxSize : Nat} {requests : List Request} {list : List Piece}

/-! ## Pieces of each request -/

theorem pieces_func (p : FIFOParam) (maxSize func addr size : Nat) (buffer : Option Nat) :
    ∀ piece ∈ pieces p maxSize func addr size buffer, piece.func = func := by
  induction size using Nat.strongRecOn generalizing addr buffer with
  | ind size ih =>
      rw [pieces]
      split_ifs with h
      · obtain ⟨-, unit, hlt⟩ := h
        exact List.forall_mem_cons.2 ⟨rfl, ih (size - p.transferUnit) (by omega) _ _⟩
      · simp

theorem func_lt_of_mem {piece : Piece} (h : piece ∈ allPieces p maxSize requests) :
    piece.func < requests.length := by
  induction requests using List.reverseRecOn with
  | nil => simp [allPieces] at h
  | append_singleton requests request ih =>
      rw [allPieces_concat] at h
      rw [List.length_append, List.length_singleton]
      rcases List.mem_append.1 h with h | h
      · exact Nat.lt_succ_of_lt (ih h)
      · exact Nat.lt_succ_of_le (pieces_func p maxSize _ _ _ _ piece h).le

theorem of_allPieces (p : FIFOParam) (maxSize : Nat) (requests : List Request) {func : Nat}
    {request : Request} (h : requests[func]? = some request) :
    Side.of func (allPieces p maxSize requests) =
      pieces p maxSize func request.addr request.size request.buffer := by
  induction requests using List.reverseRecOn with
  | nil => simp at h
  | append_singleton requests last ih =>
      rw [allPieces_concat, Side.of, List.filter_append]
      by_cases hlt : func < requests.length
      · rw [List.getElem?_append_left hlt] at h
        have hnone : (pieces p maxSize requests.length last.addr last.size last.buffer).filter
            (fun piece => piece.func = func) = [] := by
          refine List.filter_eq_nil_iff.2 fun piece hmem => ?_
          have hfunc := pieces_func p maxSize _ _ _ _ piece hmem
          simp only [decide_eq_true_eq]
          omega
        rw [hnone, List.append_nil]
        exact ih h
      · have hlen := (List.getElem?_eq_some_iff.1 h).1
        rw [List.length_append, List.length_singleton] at hlen
        obtain rfl : func = requests.length := by omega
        obtain rfl : last = request := by simpa using h
        have hnone : (allPieces p maxSize requests).filter
            (fun piece => piece.func = requests.length) = [] := by
          refine List.filter_eq_nil_iff.2 fun piece hmem => ?_
          have hfunc := func_lt_of_mem hmem
          simp only [decide_eq_true_eq]
          omega
        rw [hnone, List.nil_append]
        exact List.filter_eq_self.2 fun piece hmem => by
          simpa using pieces_func p maxSize _ _ _ _ piece hmem

theorem allPieces_last (p : FIFOParam) (maxSize : Nat) (requests : List Request) {init : List Piece}
    {piece : Piece} (h : allPieces p maxSize requests = init ++ [piece]) : piece.last = true := by
  cases requests using List.reverseRecOn with
  | nil => simp [allPieces] at h
  | append_singleton requests request =>
      obtain ⟨others, last, heq, hlast, -, -⟩ :=
        pieces_last p maxSize requests.length request.addr request.size request.buffer
      rw [allPieces_concat, heq, ← List.append_assoc] at h
      obtain rfl : last = piece := by simpa using (List.append_inj' h rfl).2
      exact hlast

theorem allPieces_take (p : FIFOParam) (maxSize k : Nat) (requests : List Request) :
    allPieces p maxSize (requests.take k) <+: allPieces p maxSize requests := by
  conv => rhs; rw [← List.take_append_drop k requests]
  unfold allPieces
  rw [List.zipIdx_append, List.flatMap_append]
  exact List.prefix_append _ _

theorem allPieces_prefix (h : list <+: allPieces p maxSize requests) :
    allPieces p maxSize (requests.take (functions list).length) <+: list := by
  rcases List.prefix_or_prefix_of_prefix (allPieces_take p maxSize _ requests) h with
    hle | ⟨rest, hrest⟩
  · exact hle
  · cases rest using List.reverseRecOn with
    | nil =>
        exact ⟨[], (List.append_nil _).trans (hrest.symm.trans (List.append_nil _))⟩
    | append_singleton rest piece =>
        have hlast := allPieces_last p maxSize _ (hrest.symm.trans (List.append_assoc _ _ _).symm)
        have hcount := congrArg List.length
          (functions_allPieces p maxSize (requests.take (functions list).length))
        rw [← hrest, functions_append, functions_append] at hcount
        simp [functions, hlast] at hcount
        omega

theorem functions_prefix (h : list <+: allPieces p maxSize requests) :
    ∃ k ≤ requests.length, functions list = List.range k := by
  obtain ⟨rest, hrest⟩ := h
  have hfunctions := functions_allPieces p maxSize requests
  rw [← hrest, functions_append] at hfunctions
  have hlength := congrArg List.length hfunctions
  rw [List.length_append, List.length_range] at hlength
  refine ⟨(functions list).length, by omega, ?_⟩
  have htake := congrArg (List.take (functions list).length) hfunctions
  rw [List.take_left, List.take_range, Nat.min_eq_left (by omega)] at htake
  exact htake

/-! ## Each queue -/

variable {taking serving : Bool} {finished : List FIFOEntry} {s : Side}

theorem Kept.delivered
    (kept : Kept p maxSize taking serving finished s.requests s.toQueue)
    {started : List FIFOEntry} (front : started <+: s.transferQueue)
    (accesses : s.accesses = (finished ++ started).map FIFOEntry.piece)
    (outstanding : s.outstanding ≤ started.length)
    (calls : s.calls = functions (finished.map FIFOEntry.piece))
    (idle : s.Idle → finished.map FIFOEntry.piece = allPieces p maxSize s.requests) :
    Delivered p maxSize s := by
  have hall : s.accesses <+: allPieces p maxSize s.requests := by
    rw [← kept.pieces, accesses]
    exact (((List.prefix_append_right_inj finished).2 front).map _).trans (List.prefix_append _ _)
  have completed : finished.map FIFOEntry.piece <+: s.completed := by
    rw [Side.completed, accesses, List.prefix_take_iff, List.map_append]
    refine ⟨List.prefix_append _ _, ?_⟩
    simp only [List.length_append, List.length_map]
    omega
  have hcompleted : s.completed <+: s.accesses := List.take_prefix _ _
  have hfinished : finished.map FIFOEntry.piece <+: allPieces p maxSize s.requests :=
    completed.trans (hcompleted.trans hall)
  have hwhole := allPieces_prefix hfinished
  rw [← calls] at hwhole
  obtain ⟨k, hle, hrange⟩ := functions_prefix hfinished
  rw [← calls] at hrange
  have hlength : s.calls.length = k := by simp [hrange]
  refine ⟨hall, ⟨k, hle, hrange⟩, ?_, kept.usage, ?_, ?_⟩
  · intro func hmem
    have hlt : func < k := by simpa [hrange] using hmem
    obtain ⟨request, hrequest⟩ : ∃ request, s.requests[func]? = some request :=
      ⟨_, List.getElem?_eq_getElem (hlt.trans_le hle)⟩
    have htake : (s.requests.take s.calls.length)[func]? = some request := by
      rw [List.getElem?_take_of_lt (by omega), hrequest]
    have hpieces := of_allPieces p maxSize s.requests hrequest
    have hlower : Side.of func (allPieces p maxSize (s.requests.take s.calls.length)) <+:
        Side.of func s.completed := (hwhole.trans completed).filter _
    have hmiddle : Side.of func s.completed <+: Side.of func s.accesses := hcompleted.filter _
    have hupper : Side.of func s.accesses <+: Side.of func (allPieces p maxSize s.requests) :=
      hall.filter _
    rw [of_allPieces p maxSize _ htake] at hlower
    rw [of_allPieces p maxSize _ hrequest] at hupper
    have hsame : Side.of func s.completed = Side.of func s.accesses :=
      hmiddle.eq_of_length_le (hupper.length_le.trans hlower.length_le)
    refine ⟨request, hrequest, hsame, ?_⟩
    rw [hupper.eq_of_length_le (hlower.length_le.trans hmiddle.length_le)]
    exact pieces_tiles (kept.positive request (List.mem_of_getElem? hrequest))
  · intro hcalled
    rw [hcalled, List.take_length, ← kept.pieces] at hwhole
    have hlen := hwhole.length_le
    simp only [List.map_append, List.length_append, List.length_map] at hlen
    have hempty : s.transferQueue = [] := List.length_eq_zero_iff.1 (by omega)
    rw [kept.usage, hempty]
    rfl
  · intro hidle
    rw [calls, idle hidle, functions_allPieces, List.length_range]

theorem Write.Inv.delivered (inv : Write.Inv p finished s) : Delivered p p.wqSize s := by
  have transit := inv.transit
  refine inv.kept.delivered (List.take_prefix _ _) inv.accesses ?_ inv.calls ?_
  · rw [List.length_take, Nat.min_eq_left (toNat_le_length inv.kept.served)]
    omega
  · rintro ⟨insertDone, begin, submit, outstanding⟩
    have insert : s.insertPending = false := by rw [inv.insert, insertDone]; rfl
    have transfer : s.transferPending = false := by
      rw [outstanding, submit] at transit
      simpa using transit.symm
    have kept := inv.kept
    have ready := inv.ready
    have blocked := inv.blocked
    rw [insert, transfer] at kept
    rw [transfer] at ready
    rw [insert] at blocked
    exact (kept.finished_all ready blocked begin).1

theorem Read.Inv.delivered {s : ReadSide} (inv : Read.Inv p finished s) :
    Delivered p p.rqSize s.toSide := by
  refine inv.kept.delivered List.prefix_rfl inv.accesses ?_ inv.calls ?_
  · rw [inv.outstanding]
    refine toNat_le_length fun pending hnil => ?_
    obtain ⟨e, -, hlast⟩ := inv.linked pending
    simp [Read.ids, hnil] at hlast
  · rintro ⟨insertDone, begin, submit, outstanding⟩
    have transfer : s.transferPending = false := by
      have houtstanding := inv.outstanding
      rw [outstanding] at houtstanding
      simpa using houtstanding.symm
    have insert : s.insertPending = false := by
      cases inv.phase with
      | inserts insert => rw [insert, insertDone]; rfl
      | waits _ _ _ pending => simp [transfer] at pending
      | completes _ _ scheduled => simp [submit] at scheduled
    have kept := inv.kept
    have ready := inv.ready
    have blocked := inv.blocked
    rw [insert, transfer] at kept
    rw [insert] at ready
    rw [transfer] at blocked
    exact (kept.finished_all ready blocked begin).1

/-! ## Runs -/

theorem Write.Inv.new (p : FIFOParam) : Write.Inv p [] (.new p.wqSize) where
  kept := {
    capacity := rfl
    usage := rfl
    head := by simp [Side.new, Queue.new]
    waits := by simp [waiting, Side.new, Queue.new]
    served := by simp [Side.new, Queue.new]
    scheduled := by simp [Side.new, Queue.new]
    pieces := rfl
    positive := by simp [Side.new] }
  insert := rfl
  accesses := rfl
  ready := by simp [Ready, Side.new, Queue.new]
  blocked := by simp [Blocked, Side.new, Queue.new]
  calls := rfl
  transit := rfl

theorem Read.Inv.new (p : FIFOParam) : Read.Inv p [] (.new p.rqSize) where
  kept := {
    capacity := rfl
    usage := rfl
    head := by simp [ReadSide.new, Side.new, Queue.new]
    waits := by simp [waiting, ReadSide.new, Side.new, Queue.new]
    served := by simp [ReadSide.new, Side.new, Queue.new]
    scheduled := by simp [ReadSide.new, Side.new, Queue.new]
    pieces := rfl
    positive := by simp [ReadSide.new, Side.new] }
  accesses := rfl
  ready := by simp [Ready, ReadSide.new, Side.new, Queue.new]
  ordered := List.Pairwise.nil
  fresh := by simp [Read.ids, ReadSide.new, Side.new, Queue.new]
  calls := rfl
  linked := by simp [Read.Linked, ReadSide.new, Side.new, Queue.new]
  outstanding := rfl
  phase := .inserts rfl rfl rfl
  blocked := by simp [Blocked, ReadSide.new, Side.new, Queue.new]

variable {fifo : FIFO} {n : Nat}

def total (p : FIFOParam) (fifo : FIFO) : Nat :=
  (allPieces p p.wqSize fifo.write.requests).length +
    (allPieces p p.rqSize fifo.read.requests).length

theorem run_inv (valid : p.Valid) (run : Run p fifo n) :
    (∃ finished, Write.Inv p finished fifo.write) ∧ (∃ finished, Read.Inv p finished fifo.read) ∧
      Write.load p fifo.write + Read.load p fifo.read + n ≤ 4 * total p fifo := by
  induction run with
  | start => exact ⟨⟨[], .new p⟩, ⟨[], .new p⟩, le_rfl⟩
  | write run now action h ih =>
      obtain ⟨⟨finished, inv⟩, read, hload⟩ := ih
      obtain ⟨finished', s', heq, inv', pays⟩ := Write.step_eq_ok now valid inv h
      cases heq
      refine ⟨⟨finished', inv'⟩, read, ?_⟩
      unfold Write.Pays total at *
      simp only at *
      omega
  | read run now action h ih =>
      obtain ⟨write, ⟨finished, inv⟩, hload⟩ := ih
      obtain ⟨finished', s', heq, inv', pays⟩ := Read.step_eq_ok now valid inv h
      cases heq
      refine ⟨write, ⟨finished', inv'⟩, ?_⟩
      unfold Read.Pays total at *
      simp only at *
      omega

/-- What is requested is delivered once and in full, with at most four steps for each
piece, and an event or answer is to come until then. -/
theorem delivers_once (valid : p.Valid) (run : Run p fifo n) :
    Delivered p p.wqSize fifo.write ∧ Delivered p p.rqSize fifo.read.toSide ∧
      n ≤ 4 * total p fifo ∧
      (∀ now action result, Write.step p now action fifo.write = some result →
        ∃ s, result = .ok s) ∧
      (∀ now action result, Read.step p now action fifo.read = some result →
        ∃ s, result = .ok s) := by
  obtain ⟨⟨finished, write⟩, ⟨finished', read⟩, hload⟩ := run_inv valid run
  refine ⟨write.delivered, read.delivered, by omega, ?_, ?_⟩
  · intro now action result h
    obtain ⟨-, s, heq, -, -⟩ := Write.step_eq_ok now valid write h
    exact ⟨s, heq⟩
  · intro now action result h
    obtain ⟨-, s, heq, -, -⟩ := Read.step_eq_ok now valid read h
    exact ⟨s, heq⟩

/-- Six bytes in units of four, through a write queue of one unit. -/
def narrow : FIFOParam where
  rqSize := 8
  wqSize := 4
  transferUnit := 4
  latency := fun size => size

theorem delivers_once_six_bytes : ∃ fifo, fifo.write.calls = [0] ∧
    Delivered narrow 4 fifo.write ∧ 6 ≤ 4 * total narrow fifo := by
  have requested := Run.write (.start (p := narrow)) 0 (.request ⟨0, 6, some 100⟩) rfl
  have inserted := Run.write requested 4 (.insertDone []) rfl
  have begun := Run.write inserted 4 .beginTransfer rfl
  have first := Run.write begun 9 (.transferDone []) rfl
  have inserted' := Run.write first 11 (.insertDone []) rfl
  have begun' := Run.write inserted' 11 .beginTransfer rfl
  have second := Run.write begun' 20 (.transferDone []) rfl
  obtain ⟨delivered, -, hsteps, -, -⟩ := delivers_once ⟨by decide, by decide, by decide⟩ second
  exact ⟨_, rfl, delivered, hsteps⟩

end FIFO

end SimpleSSD
