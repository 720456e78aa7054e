import SimpleSSD.HIL.NVMe.Transfer

/-!
# What a scatter-gather transfer moves

`read` and `write` of `PRPList` and `SGL` in `hil/nvme/dma.cc` hand the engine a run of
bytes of their list, access by access, and call the caller back when the last one ends.
-/

namespace SimpleSSD.HIL.NVMe

open SimpleSSD.Foundation

/-- A `dmaRead` or `dmaWrite`; `buffer` counts from where the caller's buffer starts. -/
structure DMARequest where
  write : Bool
  addr : Nat
  size : Nat
  buffer : Nat
  deriving DecidableEq, Repr

structure Transfer where
  requests : List DMARequest
  context : DMAContext
  deriving DecidableEq, Repr

def Piece.request (write : Bool) (piece : Piece) : DMARequest where
  write := write
  addr := piece.chunk.addr + piece.skipped
  size := piece.size
  buffer := piece.offset

def transferList (write : Bool) (chunks : List Chunk) (offset length : Nat) : Transfer where
  requests := (accesses (pieces offset length chunks 0)).map (Piece.request write)
  context := DMAContext.submitted (accesses (pieces offset length chunks 0))

def PRPList.read (s : PRPList) (offset length : Nat) : Transfer :=
  transferList false s.chunks offset length

def PRPList.write (s : PRPList) (offset length : Nat) : Transfer :=
  transferList true s.chunks offset length

def SGL.read (s : SGL) (offset length : Nat) : Transfer :=
  transferList false s.chunkList offset length

def SGL.write (s : SGL) (offset length : Nat) : Transfer :=
  transferList true s.chunkList offset length

inductive DMAInterface where
  | prpList (s : PRPList)
  | sgl (s : SGL)

namespace DMAInterface

def chunks : DMAInterface → List Chunk
  | .prpList s => s.chunks
  | .sgl s => s.chunkList

def read (offset length : Nat) : DMAInterface → Transfer
  | .prpList s => s.read offset length
  | .sgl s => s.read offset length

def write (offset length : Nat) : DMAInterface → Transfer
  | .prpList s => s.write offset length
  | .sgl s => s.write offset length

end DMAInterface

/-! ## Bytes -/

def Chunk.bytes (chunk : Chunk) : List (Nat × Bool) :=
  (List.range chunk.length).map fun i => (chunk.addr + i, chunk.ignore)

def listBytes (chunks : List Chunk) : List (Nat × Bool) := chunks.flatMap Chunk.bytes

/-- The addresses of the bytes `offset` to `offset + length` of a list that are not ignored,
each with its place in the buffer. -/
def wanted (chunks : List Chunk) (offset length : Nat) : List (Nat × Nat) :=
  ((((listBytes chunks).drop offset).take length).zipIdx.filter fun byte => !byte.1.2).map
    fun byte => (byte.1.1, byte.2)

def DMARequest.bytes (request : DMARequest) : List (Nat × Nat) :=
  (List.range request.size).map fun i => (request.addr + i, request.buffer + i)

/-- The engine answers the requests that have bytes, in any order. -/
def Answers (t : Transfer) (answers : List DMARequest) : Prop :=
  answers.Perm (t.requests.filter fun request => 0 < request.size)

def DMAContext.after (c : DMAContext) (answers : List DMARequest) : DMAContext :=
  answers.foldl (fun c _ => c.dmaHandler) c

/-- The requests have bytes, cover what is wanted in order, and the function is called with
the last answer and not before. -/
structure Complete (chunks : List Chunk) (offset length : Nat) (t : Transfer) : Prop where
  positive : ∀ request ∈ t.requests, 0 < request.size
  bytes : t.requests.flatMap DMARequest.bytes = wanted chunks offset length
  once : ∀ answers, Answers t answers → ∀ k ≤ answers.length,
    (t.context.after (answers.take k)).calls = if k = answers.length then 1 else 0

/-! ## The condition -/

/-- From a position on, data entries that start before `stop` have bytes. -/
def Filled (stop : Nat) : List Chunk → Nat → Prop
  | [], _ => True
  | iter :: rest, position =>
      position < stop →
        (iter.length = 0 → iter.ignore = true) ∧ Filled stop rest (position + iter.length)

/-- An entry that holds the whole range is followed by a bit bucket or by nothing, and no
data entry that starts inside the range is empty. -/
def Splits (offset length : Nat) : List Chunk → Nat → Prop
  | [], _ => True
  | iter :: rest, position =>
      if offset < position + iter.length then
        if offset + length ≤ position + iter.length then
          ∀ next ∈ rest.head?, next.ignore = true
        else Filled (offset + length) rest (position + iter.length)
      else Splits offset length rest (position + iter.length)

/-! ## Tiling -/

variable {chunks : List Chunk} {offset length total position : Nat}

def Piece.bytes (piece : Piece) : List ((Nat × Bool) × Nat) :=
  (List.range piece.size).map fun i =>
    ((piece.chunk.addr + piece.skipped + i, piece.chunk.ignore), piece.offset + i)

theorem bytes_part (iter : Chunk) {skipped size : Nat} (at_ : Nat)
    (inside : skipped + size ≤ iter.length) :
    Piece.bytes ⟨iter, skipped, size, at_⟩ =
      ((iter.bytes.drop skipped).take size).zipIdx at_ := by
  have hlen : ((iter.bytes.drop skipped).take size).length = size := by
    simp [Chunk.bytes]
    omega
  apply List.ext_getElem
  · simp [Piece.bytes, hlen]
  · intro i hi hi'
    simp [Piece.bytes, Chunk.bytes, Nat.add_assoc]

theorem length_bytes (iter : Chunk) : iter.bytes.length = iter.length := by
  simp [Chunk.bytes]

theorem piecesFrom_bytes (within : total ≤ length) :
    (piecesFrom length chunks total).flatMap Piece.bytes =
      ((listBytes chunks).take (length - total)).zipIdx total := by
  induction chunks generalizing total with
  | nil => simp [piecesFrom, listBytes]
  | cons iter rest ih =>
      have hsize : 0 + min iter.length (length - total) ≤ iter.length := by omega
      have hbytes : listBytes (iter :: rest) = iter.bytes ++ listBytes rest := rfl
      rw [piecesFrom, List.flatMap_cons, bytes_part iter total hsize, List.drop_zero, hbytes,
        List.take_append, List.zipIdx_append, length_bytes]
      congr 1
      · rcases Nat.le_total iter.length (length - total) with hle | hle
        · rw [Nat.min_eq_left hle, List.take_of_length_le (length_bytes iter).le,
            List.take_of_length_le (by rw [length_bytes]; exact hle)]
        · rw [Nat.min_eq_right hle]
      · rw [List.length_take, length_bytes, Nat.min_comm (length - total)]
        split_ifs with hlast
        · have hzero : length - total - iter.length = 0 := by omega
          simp [hzero]
        · have hmin : min iter.length (length - total) = iter.length := by omega
          rw [hmin, ih (by omega), Nat.sub_sub]

theorem pieces_bytes (before : position ≤ offset) :
    (pieces offset length chunks position).flatMap Piece.bytes =
      (((listBytes chunks).drop (offset - position)).take length).zipIdx := by
  induction chunks generalizing position with
  | nil => simp [pieces, listBytes]
  | cons iter rest ih =>
      have hbytes : listBytes (iter :: rest) = iter.bytes ++ listBytes rest := rfl
      rw [pieces, hbytes, List.drop_append, length_bytes]
      by_cases holds : offset < position + iter.length
      · have hsize : offset - position + min (iter.length - (offset - position)) length ≤
            iter.length := by omega
        have hnone : offset - position - iter.length = 0 := by omega
        have hdrop : (iter.bytes.drop (offset - position)).length =
            iter.length - (offset - position) := by
          rw [List.length_drop, length_bytes]
        rw [if_pos holds, List.flatMap_cons, bytes_part iter 0 hsize, hnone, List.drop_zero,
          List.take_append, List.zipIdx_append, piecesFrom_bytes (by omega), hdrop]
        congr 1
        · rcases Nat.le_total (iter.length - (offset - position)) length with hle | hle
          · rw [Nat.min_eq_left hle, List.take_of_length_le hdrop.le,
              List.take_of_length_le (by rw [hdrop]; exact hle)]
          · rw [Nat.min_eq_right hle]
        · rw [List.length_take, hdrop, Nat.min_comm length, Nat.zero_add]
          congr 2
          omega
      · have hall : iter.bytes.drop (offset - position) = [] := by
          rw [List.drop_eq_nil_iff, length_bytes]
          omega
        rw [if_neg holds, ih (by omega), hall, List.nil_append]
        congr 3
        omega

theorem requests_bytes (write : Bool) (list : List Piece) :
    ((accesses list).map (Piece.request write)).flatMap DMARequest.bytes =
      ((list.flatMap Piece.bytes).filter fun byte => !byte.1.2).map
        fun byte => (byte.1.1, byte.2) := by
  induction list with
  | nil => rfl
  | cons piece rest ih =>
      rw [List.flatMap_cons, List.filter_append, List.map_append, ← ih]
      cases hignore : piece.chunk.ignore with
      | true => simp [accesses, Piece.bytes, hignore]
      | false =>
          simp [accesses, Piece.bytes, Piece.request, DMARequest.bytes, hignore,
            List.filter_map, Function.comp_def]

theorem transferList_bytes (write : Bool) (chunks : List Chunk) (offset length : Nat) :
    (transferList write chunks offset length).requests.flatMap DMARequest.bytes =
      wanted chunks offset length := by
  rw [transferList, requests_bytes, pieces_bytes (Nat.zero_le offset), Nat.sub_zero]
  rfl

/-! ## Empty accesses -/

def Positive (list : List Piece) : Prop := ∀ piece ∈ accesses list, 0 < piece.size

theorem positive_cons (piece : Piece) (rest : List Piece) :
    Positive (piece :: rest) ↔
      (piece.size = 0 → piece.chunk.ignore = true) ∧ Positive rest := by
  unfold Positive accesses
  cases hignore : piece.chunk.ignore <;> simp [hignore, Nat.pos_iff_ne_zero]

theorem positive_nil : Positive [] := by simp [Positive, accesses]

theorem filled_of_le {stop : Nat} (h : stop ≤ position) : Filled stop chunks position := by
  cases chunks with
  | nil => trivial
  | cons iter rest => exact fun hlt => absurd hlt (Nat.not_lt.2 h)

theorem positive_piecesFrom (within : total < length) :
    Positive (piecesFrom length chunks total) ↔
      Filled (offset + length) chunks (offset + total) := by
  induction chunks generalizing total with
  | nil => simp [piecesFrom, positive_nil, Filled]
  | cons iter rest ih =>
      have inside : offset + total < offset + length := by omega
      have hzero : min iter.length (length - total) = 0 ↔ iter.length = 0 := by omega
      rw [piecesFrom, positive_cons, Filled, hzero, forall_prop_of_true inside]
      apply and_congr_right
      intro _
      split_ifs with hlast
      · have covered : offset + length ≤ offset + total + iter.length := by omega
        simp [positive_nil, filled_of_le covered]
      · have hmin : min iter.length (length - total) = iter.length := by omega
        rw [hmin, ih (by omega), Nat.add_assoc]

theorem positive_covered :
    Positive (piecesFrom length chunks length) ↔ ∀ next ∈ chunks.head?, next.ignore = true := by
  cases chunks with
  | nil => simp [piecesFrom, positive_nil]
  | cons iter rest => simp [piecesFrom, positive_cons, positive_nil]

theorem positive_pieces (positive : 0 < length) (before : position ≤ offset) :
    Positive (pieces offset length chunks position) ↔ Splits offset length chunks position := by
  induction chunks generalizing position with
  | nil => simp [pieces, positive_nil, Splits]
  | cons iter rest ih =>
      rw [pieces, Splits]
      by_cases holds : offset < position + iter.length
      · have hfirst : min (iter.length - (offset - position)) length ≠ 0 := by omega
        simp only [holds, if_true, positive_cons, hfirst, false_imp_iff, true_and]
        split_ifs with hwhole
        · have hmin : min (iter.length - (offset - position)) length = length := by omega
          rw [hmin, positive_covered]
        · have hmin : offset + min (iter.length - (offset - position)) length =
              position + iter.length := by omega
          rw [positive_piecesFrom (by omega), hmin]
      · simp only [holds, if_false]
        exact ih (by omega)

/-! ## Answers -/

variable {t : Transfer} {write : Bool}

theorem called_once (positive : Positive (pieces offset length chunks 0))
    {answers : List DMARequest} (h : Answers (transferList write chunks offset length) answers)
    {k : Nat} (hk : k ≤ answers.length) :
    ((transferList write chunks offset length).context.after (answers.take k)).calls =
      if k = answers.length then 1 else 0 := by
  have hall : (transferList write chunks offset length).requests.filter
      (fun request => 0 < request.size) = (transferList write chunks offset length).requests := by
    apply List.filter_eq_self.2
    simpa [Positive, transferList, Piece.request] using positive
  have hlen : answers.length = (accesses (pieces offset length chunks 0)).length := by
    have hperm := h.length_eq
    rw [hall] at hperm
    simpa [transferList] using hperm
  have htake : (answers.take k).length = k := by simp [hk]
  simp only [transferList, DMAContext.submitted, DMAContext.after, ← hlen]
  by_cases hnone : answers.length = 0
  · have hnil : answers = [] := List.length_eq_zero_iff.1 hnone
    obtain rfl : k = 0 := by omega
    simp [hnil, DMAContext.dmaHandler]
  · rw [if_neg hnone]
    rcases Nat.eq_or_lt_of_le hk with heq | hlt
    · have hsome : answers.take k ≠ [] := by
        intro hnil
        rw [hnil] at htake
        simp at htake
        omega
      rw [answered_of_eq hsome (by simp [heq]), if_pos heq]
    · rw [answered_of_lt (by simpa [htake] using hlt), if_neg (Nat.ne_of_lt hlt)]

theorem complete_iff (positive : 0 < length) :
    Complete chunks offset length (transferList write chunks offset length) ↔
      Splits offset length chunks 0 := by
  rw [← positive_pieces positive (Nat.zero_le offset)]
  constructor
  · intro complete
    simpa [Positive, transferList, Piece.request] using complete.positive
  · intro nonempty
    refine ⟨?_, transferList_bytes write chunks offset length, ?_⟩
    · simpa [Positive, transferList, Piece.request] using nonempty
    · intro answers h k hk
      exact called_once nonempty h hk

/-- For every list and range: `read` and `write` hand out only requests with bytes, cover the
range in order and call back once, exactly if the entries split the range well. -/
theorem scatter_gather_complete (dma : DMAInterface) (offset length : Nat)
    (positive : 0 < length) :
    (Complete dma.chunks offset length (dma.read offset length) ↔
        Splits offset length dma.chunks 0) ∧
      (Complete dma.chunks offset length (dma.write offset length) ↔
        Splits offset length dma.chunks 0) := by
  cases dma with
  | prpList s => exact ⟨complete_iff positive, complete_iff positive⟩
  | sgl s => exact ⟨complete_iff positive, complete_iff positive⟩

def twoPages : DMAInterface := .prpList (.start 4096 [⟨4096, 4096⟩, ⟨8192, 4096⟩])

theorem two_pages_read : Complete twoPages.chunks 1024 4096 (twoPages.read 1024 4096) := by
  have split : Splits 1024 4096 twoPages.chunks 0 := by
    simp [twoPages, DMAInterface.chunks, PRPList.chunks, PRPList.start, Splits, Filled]
  exact (scatter_gather_complete twoPages 1024 4096 (by decide)).1.2 split

/-- A block of the first page, and no bytes of the second one. -/
theorem one_block_read :
    twoPages.read 0 512 = ⟨[⟨false, 4096, 512, 0⟩, ⟨false, 8192, 0, 512⟩], ⟨2, 0⟩⟩ ∧
      ¬Complete twoPages.chunks 0 512 (twoPages.read 0 512) := by
  have requests : twoPages.read 0 512 =
      ⟨[⟨false, 4096, 512, 0⟩, ⟨false, 8192, 0, 512⟩], ⟨2, 0⟩⟩ := by decide
  refine ⟨requests, fun complete => ?_⟩
  have positive := complete.positive ⟨false, 8192, 0, 512⟩ (by rw [requests]; decide)
  exact absurd positive (by decide)

end SimpleSSD.HIL.NVMe
