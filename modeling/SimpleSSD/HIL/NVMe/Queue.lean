import SimpleSSD.Util.Def

/-!
# Submission queues

The rings of submission entries in host memory and the records that travel from
them.  Indices are 16-bit words.
-/

namespace SimpleSSD.HIL.NVMe

structure SQEntry where
  commandID : Nat
  namespaceID : Nat
  reserved2 : Nat
  dword12 : Nat
  deriving DecidableEq, Repr

/-- A fetched entry; `ticket` numbers the fetch. -/
structure SQEntryWrapper where
  entry : SQEntry
  sqID : Nat
  cqID : Nat
  sqHead : Nat
  sqUID : Nat
  ticket : Nat
  deriving DecidableEq, Repr

structure CQEntryWrapper where
  cqID : Nat
  sqUID : Nat
  sqHead : Nat
  sqID : Nat
  commandID : Nat
  status : Nat
  submitAt : Tick
  ticket : Nat
  deriving DecidableEq, Repr

def CQEntryWrapper.respond (req : SQEntryWrapper) (sqHead status : Nat) : CQEntryWrapper where
  cqID := req.cqID
  sqUID := req.sqUID
  sqHead := sqHead
  sqID := req.sqID
  commandID := req.entry.commandID
  status := status
  submitAt := 0
  ticket := req.ticket

structure SQueue where
  id : Nat
  cqID : Nat
  priority : Nat
  head : Nat
  tail : Nat
  size : Nat
  deriving DecidableEq, Repr

structure CQueue where
  id : Nat
  interruptVector : Nat
  deriving DecidableEq, Repr

namespace SQueue

def getItemCount (q : SQueue) : Nat :=
  if q.head ≤ q.tail then q.tail - q.head
  else (q.size + 2 ^ 16 - q.head + q.tail) % 2 ^ 16

def setTail (q : SQueue) (newTail : Nat) : SQueue := { q with tail := newTail }

def getData (q : SQueue) : SQueue :=
  if q.head ≠ q.tail then
    let head := (q.head + 1) % 2 ^ 16
    { q with head := if head = q.size then 0 else head }
  else q

end SQueue

def PRIORITY_URGENT : Nat := 0
def PRIORITY_HIGH : Nat := 1
def PRIORITY_MEDIUM : Nat := 2

end SimpleSSD.HIL.NVMe
