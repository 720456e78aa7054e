import SimpleSSD.Foundation.Intervals
import SimpleSSD.ICL.GenericCache

/-!
# Requests to the cache

`icl/icl.cc`.  A request of HIL is split into one access to the cache for each of its
logical pages; the accesses all begin when the request does, and the request ends with the
last of them.
-/

namespace SimpleSSD.ICL

open SimpleSSD.Foundation

/-- The loop of `read` and `write`, with what is left of the request. -/
def requests (logicalPageSize : Nat) (slpn offset reqRemain : Nat) : Nat → List Request
  | 0 => []
  | nlp + 1 =>
      let length := min reqRemain (sub64 logicalPageSize offset)
      ⟨offset, length, slpn⟩ ::
        requests logicalPageSize (add64 slpn 1) 0 (sub64 reqRemain length) nlp

def pageRequests (logicalPageSize : Nat) (req : HIL.Request) : List Request :=
  requests logicalPageSize req.range.slpn req.offset req.length req.range.nlp

variable (cfg : Config) (latency : CPUFunction → Tick)

def perform
    (cache : Request → Tick → GenericCache → Except Fault (Bool × Tick × GenericCache))
    (tick : Tick) (acc : Tick × GenericCache) (req : Request) :
    Except Fault (Tick × GenericCache) := do
  let (_, beginAt, s) ← cache req tick acc.2
  .ok (max acc.1 beginAt, s)

def read (logicalPageSize : Nat) (req : HIL.Request) (tick : Tick) (s : GenericCache) :
    Except Fault (Tick × GenericCache) := do
  let (finishedAt, s) ← (pageRequests logicalPageSize req).foldlM
    (perform (GenericCache.read cfg) tick) (tick, s)
  .ok (cfg.sum finishedAt (latency .read), s)

def write (logicalPageSize : Nat) (req : HIL.Request) (tick : Tick) (s : GenericCache) :
    Except Fault (Tick × GenericCache) := do
  let (finishedAt, s) ← (pageRequests logicalPageSize req).foldlM
    (perform (GenericCache.write cfg) tick) (tick, s)
  .ok (cfg.sum finishedAt (latency .write), s)

def flush (range : LPNRange) (tick : Tick) (s : GenericCache) : Tick × GenericCache :=
  let done := GenericCache.flush cfg range tick s
  (cfg.sum done.1 (latency .flush), done.2)

def trim (range : LPNRange) (tick : Tick) (s : GenericCache) : Tick × GenericCache :=
  let done := GenericCache.trim cfg range tick s
  (cfg.sum done.1 (latency .trim), done.2)

/-! ## The bytes of the accesses -/

/-- The bytes an access touches, from the first byte of page `base` on. -/
def bytes (logicalPageSize base : Nat) (req : Request) : Nat × Nat :=
  ((req.slpn - base) * logicalPageSize + req.offset,
    (req.slpn - base) * logicalPageSize + req.offset + req.length)

/-- One access for each page from `slpn` on, none of them empty or beyond its page, which
together are the bytes from `first` to `last`. -/
structure Tiled (logicalPageSize base first last slpn nlp : Nat) (accesses : List Request) :
    Prop where
  pages : accesses.map Request.slpn = List.range' slpn nlp
  inside : ∀ req ∈ accesses, 0 < req.length ∧ req.offset + req.length ≤ logicalPageSize
  tiling : Tiling first last (accesses.map (bytes logicalPageSize base))

variable {logicalPageSize base slpn offset reqRemain nlp : Nat}

/-- The pages end with the request: what is left begins on the first page and ends on the
last one. -/
theorem requests_tiled (in_page : offset < logicalPageSize)
    (behind : base ≤ slpn) (numbers : slpn + (nlp + 1) ≤ wordSize)
    (more : nlp * logicalPageSize < offset + reqRemain)
    (enough : offset + reqRemain ≤ (nlp + 1) * logicalPageSize) (left : 0 < reqRemain) :
    Tiled logicalPageSize base ((slpn - base) * logicalPageSize + offset)
      ((slpn - base) * logicalPageSize + offset + reqRemain) slpn (nlp + 1)
      (requests logicalPageSize slpn offset reqRemain (nlp + 1)) := by
  induction nlp generalizing slpn offset reqRemain with
  | zero =>
      rw [Nat.zero_add, Nat.one_mul] at enough
      rw [requests, sub64_of_le in_page.le, Nat.min_eq_left (by omega)]
      refine ⟨rfl, ?_, ?_⟩
      · intro req hmem
        rw [requests, List.mem_singleton] at hmem
        subst hmem
        exact ⟨left, enough⟩
      · exact ⟨rfl, Nat.le_add_right _ _, rfl⟩
  | succ nlp ih =>
      have split : (nlp + 1) * logicalPageSize = nlp * logicalPageSize + logicalPageSize :=
        Nat.succ_mul _ _
      have next : (slpn + 1 - base) * logicalPageSize =
          (slpn - base) * logicalPageSize + logicalPageSize := by
        rw [Nat.sub_add_comm behind, Nat.succ_mul]
      rw [Nat.succ_mul] at enough
      rw [requests, sub64_of_le in_page.le, Nat.min_eq_right (by omega), sub64_of_le (by omega),
        add64_of_lt (by omega)]
      have rest : Tiled logicalPageSize base ((slpn + 1 - base) * logicalPageSize + 0)
          ((slpn + 1 - base) * logicalPageSize + 0 + (reqRemain - (logicalPageSize - offset)))
          (slpn + 1) (nlp + 1) (requests logicalPageSize (slpn + 1) 0
            (reqRemain - (logicalPageSize - offset)) (nlp + 1)) := by
        apply ih
        · exact Nat.zero_lt_of_lt in_page
        · exact behind.trans (Nat.le_succ _)
        · omega
        · omega
        · omega
        · omega
      refine ⟨?_, ?_, ?_⟩
      · rw [List.map_cons, rest.pages, List.range'_succ (s := slpn)]
      · rw [List.forall_mem_cons]
        refine ⟨⟨Nat.sub_pos_of_lt in_page, ?_⟩, rest.inside⟩
        change offset + (logicalPageSize - offset) ≤ logicalPageSize
        omega
      · refine ⟨rfl, Nat.le_add_right _ _, ?_⟩
        have tiling := rest.tiling
        rw [next] at tiling
        convert tiling using 1
        · simp only [bytes]
          omega
        · omega

end SimpleSSD.ICL
