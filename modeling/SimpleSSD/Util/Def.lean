import SimpleSSD.Foundation.Word

/-!
# Request structures

The request records of `util/def.hh` that the layers hand to each other.
Ticks, page numbers and byte counts are natural numbers.
-/

namespace SimpleSSD

open SimpleSSD.Foundation

abbrev Tick := Nat

/-- How a function can fail to return: one of its panics, an exception of a
bounds-checked access, a step the language leaves undefined, or a random search
that has run out of draws. -/
inductive Fault where
  | panic (message : String)
  | outOfRange
  | undefined
  | noDraw
  deriving DecidableEq, Repr

structure LPNRange where
  slpn : Nat
  nlp : Nat
  deriving DecidableEq, Repr

def LPNRange.Contains (range : LPNRange) (lpn : Nat) : Prop :=
  range.slpn ≤ lpn ∧ lpn < add64 range.slpn range.nlp

instance (range : LPNRange) (lpn : Nat) : Decidable (range.Contains lpn) :=
  inferInstanceAs (Decidable (_ ∧ _))

namespace HIL

abbrev UserID := Nat

inductive OpType where
  | read
  | write
  | flush
  | compare
  | datasetMgmt
  | iscSet
  | iscGet
  | creditOnly
  | iscResult
  deriving DecidableEq, Repr

/-- The two operations that reach the internal cache layer. -/
def OpType.isHost : OpType → Bool
  | .read | .write => true
  | _ => false

structure Request where
  reqID : Nat
  reqSubID : Nat
  offset : Nat
  length : Nat
  range : LPNRange
  userID : UserID
  prio : Nat
  op : OpType
  finishedAt : Tick
  deriving DecidableEq, Repr

def pageSz : Nat := 4096

def Request.pages (req : Request) : Nat := (req.length + pageSz - 1) / pageSz

def Request.ofPages (op : OpType) (uid : UserID) (count : Nat) : Request where
  reqID := 0
  reqSubID := 0
  offset := 0
  length := count * pageSz
  range := ⟨0, count⟩
  userID := uid
  prio := 0
  op := op
  finishedAt := 0

end HIL

end SimpleSSD
