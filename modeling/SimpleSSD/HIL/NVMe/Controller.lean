import Mathlib.Data.List.Rotate
import SimpleSSD.Foundation.QueueMap
import SimpleSSD.HIL.NVMe.Queue

/-!
# The NVMe controller

Submission entries are fetched by DMA, staged for their users, handed to the
subsystem by credit-aware round robin and completed into `lCQFIFO`.  A staged
entry also enters the older global `lSQFIFO`, which only Abort and Delete I/O
Submission Queue still read.
-/

namespace SimpleSSD.HIL.NVMe

open SimpleSSD.Foundation

/-- A read of a submission entry that is under way.  `freed` says that the queue
object it points to has been deleted. -/
structure Fetch where
  ticket : Nat
  sqID : Nat
  oldhead : Nat
  freed : Bool
  deriving DecidableEq, Repr

inductive ArbitrationMethod where
  | roundRobin
  | weightedRoundRobin
  deriving DecidableEq, Repr

structure Arbitration where
  ready : Bool
  method : ArbitrationMethod
  wrrHigh : Nat
  wrrMedium : Nat
  maxRequest : Nat
  requestInterval : Nat
  workInterval : Nat

/-- The controller.  `fetching` and `executing` are the entries read by DMA and
those inside the subsystem; the last three fields number the fetches and record
which of them were handed to the subsystem and which were completed as aborted. -/
structure Controller where
  tick : Tick
  ppSQueue : List (Option SQueue)
  ppCQueue : List (Option CQueue)
  lSQFIFO : List SQEntryWrapper
  lCQFIFO : List CQEntryWrapper
  lSQByUser : QueueMap UserID SQEntryWrapper
  rrUsers : List UserID
  lastUid : UserID
  uidSQMap : List (UserID × List Nat)
  bootstrappedUsers : List UserID
  requestCounter : Nat
  lastWorkAt : Tick
  requestEvent : Option Tick
  workEvent : Option Tick
  fetching : List Fetch
  executing : List SQEntryWrapper
  fault : Option Fault
  fetched : Nat
  executed : List Nat
  aborted : List Nat

namespace Controller

def fail (c : Controller) (fault : Fault) : Controller := { c with fault := some fault }

def queue? (c : Controller) (i : Nat) : Option SQueue := c.ppSQueue[i]?.join

def setQueue (c : Controller) (i : Nat) (q : Option SQueue) : Controller :=
  { c with ppSQueue := c.ppSQueue.set i q }

def ringSQTailDoorbell (qid tail : Nat) (c : Controller) : Controller :=
  match c.ppSQueue[qid]? with
  | none => c.fail .undefined
  | some none => c
  | some (some q) => c.setQueue qid (q.setTail tail)

/-! ## Completion entries -/

def insertBySubmitAt (entry : CQEntryWrapper) (fifo : List CQEntryWrapper) :
    List CQEntryWrapper :=
  fifo.takeWhile (fun e => e.submitAt ≤ entry.submitAt) ++
    entry :: fifo.dropWhile fun e => e.submitAt ≤ entry.submitAt

def submit (entry : CQEntryWrapper) (c : Controller) : Controller :=
  match c.ppCQueue[entry.cqID]? with
  | none => c.fail .undefined
  | some none => c.fail (.panic "nvme_ctrl: Completion Queue not created!")
  | some (some _) =>
      { c with lCQFIFO := insertBySubmitAt { entry with submitAt := c.tick } c.lCQFIFO }

def abortRequested : Nat := 0x8000 ||| (7 <<< 1)

def abortDueToSQDelete : Nat := 0x8000 ||| (8 <<< 1)

/-- The completion the controller itself writes for an entry of `lSQFIFO`. -/
def submitAborted (sqHead status : Nat) (req : SQEntryWrapper) (c : Controller) :
    Controller :=
  { c with aborted := c.aborted ++ [req.ticket] }.submit (.respond req sqHead status)

/-! ## Fetching -/

def checkQueue (i : Nat) (c : Controller) : Option Controller :=
  match c.queue? i with
  | none => none
  | some q =>
      if 0 < q.getItemCount then
        some { c.setQueue i q.getData with
          fetching := c.fetching ++ [⟨c.fetched, i, q.head, false⟩]
          fetched := c.fetched + 1 }
      else none

/-- One pass of a `for` over queues, with the number of entries fetched. -/
def sweep (wanted : SQueue → Bool) : List Nat → Controller × Nat → Controller × Nat
  | [], state => state
  | i :: rest, (c, updated) =>
      match c.queue? i with
      | some q =>
          match if wanted q then c.checkQueue i else none with
          | some c => sweep wanted rest (c, (updated + 1) % 2 ^ 16)
          | none => sweep wanted rest (c, updated)
      | none => sweep wanted rest (c, updated)

def sweepUntilIdle (wanted : SQueue → Bool) (indices : List Nat) :
    Nat → Controller → Option Controller
  | 0, _ => none
  | fuel + 1, c =>
      let (c, updated) := sweep wanted indices (c, 0)
      if updated = 0 then some c else sweepUntilIdle wanted indices fuel c

def drainQueue (i : Nat) : Nat → Controller → Option Controller
  | 0, _ => none
  | fuel + 1, c =>
      match c.checkQueue i with
      | none => some c
      | some c => drainQueue i fuel c

/-- The counters `updated` and `total_updated` of the weighted round robin. -/
structure Sweep where
  c : Controller
  updated : Nat
  total : Nat

/-- A pass over the queues of a priority that ends early once `weight` entries are
counted. -/
def weightedSweep (priority weight : Nat) : List Nat → Sweep → Sweep
  | [], s => s
  | i :: rest, s =>
      match s.c.queue? i with
      | some q =>
          match if q.priority = priority then s.c.checkQueue i else none with
          | some c =>
              let updated := (s.updated + 1) % 2 ^ 16
              if updated = weight then ⟨c, 0, s.total + 1⟩
              else weightedSweep priority weight rest ⟨c, updated, s.total + 1⟩
          | none => weightedSweep priority weight rest s
      | none => weightedSweep priority weight rest s

def singleSweep (priority : Nat) : List Nat → Sweep → Sweep
  | [], s => s
  | i :: rest, s =>
      match s.c.queue? i with
      | some q =>
          match if q.priority = priority then s.c.checkQueue i else none with
          | some c => ⟨c, s.updated, s.total + 1⟩
          | none => singleSweep priority rest s
      | none => singleSweep priority rest s

/-- The third pass is meant for the low priority and compares with the medium one. -/
def weightedRound (p : Arbitration) (indices : List Nat) (s : Sweep) : Sweep :=
  let s := weightedSweep PRIORITY_HIGH p.wrrHigh indices s
  let s := weightedSweep PRIORITY_MEDIUM p.wrrMedium indices s
  singleSweep PRIORITY_MEDIUM indices s

def weightedRoundRobin (p : Arbitration) (indices : List Nat) : Nat → Sweep → Option Controller
  | 0, _ => none
  | fuel + 1, s =>
      let s := weightedRound p indices s
      if s.total = 0 then some s.c
      else weightedRoundRobin p indices fuel { s with total := 0 }

/-- `collectSQueue`, with a bound on the passes of each of its loops. -/
def collectSQueue (p : Arbitration) (fuel : Nat) (c : Controller) : Option Controller :=
  let indices := List.range c.ppSQueue.length
  if p.ready then
    match p.method with
    | .roundRobin => sweepUntilIdle (fun _ => true) indices fuel c
    | .weightedRoundRobin =>
        match c.queue? 0 with
        | none => some (c.fail .undefined)
        | some _ => do
            let c ← drainQueue 0 fuel c
            let c ← sweepUntilIdle (fun q => q.priority = PRIORITY_URGENT) indices.tail fuel c
            weightedRoundRobin p indices.tail fuel ⟨c, 0, 0⟩
  else some c

/-- The part of `work` between the collection and the first request. -/
def queueFunction (now : Tick) (c : Controller) : Controller :=
  { c with lastWorkAt := now, requestCounter := 0 }

/-- The users of `lSQByUser` keep the queues they have entries from. -/
def noteQueue (uid : UserID) (sqid : Nat) : List (UserID × List Nat) → List (UserID × List Nat)
  | [] => [(uid, [sqid])]
  | user :: rest =>
      if user.1 = uid then (uid, user.2.insert sqid) :: rest
      else user :: noteQueue uid sqid rest

def doRead (fetch : Fetch) (entry : SQEntry) (c : Controller) : Controller :=
  match c.queue? fetch.sqID with
  | none => c.fail .undefined
  | some q =>
      if fetch.freed then c.fail .undefined
      else
        let uid := entry.reserved2
        let wrapper : SQEntryWrapper := ⟨entry, q.id, q.cqID, q.head, fetch.oldhead, fetch.ticket⟩
        { c with
          lSQByUser := c.lSQByUser.push uid wrapper
          uidSQMap := noteQueue uid q.id c.uidSQMap
          rrUsers := if uid ∈ c.rrUsers then c.rrUsers else c.rrUsers ++ [uid]
          lSQFIFO := c.lSQFIFO ++ [wrapper]
          fetching := c.fetching.erase fetch }

/-! ## Dispatch -/

def needPages (lbaSize : Nat → Nat) (front : SQEntryWrapper) : Nat :=
  let nlb := ((front.entry.dword12 &&& 0xFFFF) + 1) % 2 ^ 16
  let needBytes := nlb * (lbaSize front.entry.namespaceID % 2 ^ 32)
  let needPages := (needBytes + 4096 - 1) / 4096
  if needPages = 0 then 1 else needPages

def startIdx (c : Controller) : Nat :=
  if c.lastUid ≠ 0 ∧ c.lastUid ∈ c.rrUsers then
    (c.rrUsers.idxOf c.lastUid + 1) % c.rrUsers.length
  else 0

def pickUser (canServe : UserID → Nat → Bool) (lbaSize : Nat → Nat) :
    List UserID → Controller → Option SQEntryWrapper × Controller
  | [], c => (none, c)
  | uid :: rest, c =>
      match c.lSQByUser.get uid with
      | [] => pickUser canServe lbaSize rest c
      | front :: _ =>
          let isFirstPick := uid ∉ c.bootstrappedUsers
          let c := { c with bootstrappedUsers := c.bootstrappedUsers.insert uid }
          if isFirstPick ∨ canServe uid (needPages lbaSize front) then
            (some front, { c with lSQByUser := c.lSQByUser.pop uid, lastUid := uid })
          else pickUser canServe lbaSize rest c

def selectRequest (canServe : UserID → Nat → Bool) (lbaSize : Nat → Nat) (c : Controller) :
    Option SQEntryWrapper × Controller :=
  match c.lSQByUser.get 0 with
  | front :: _ => (some front, { c with lSQByUser := c.lSQByUser.pop 0 })
  | [] => pickUser canServe lbaSize (c.rrUsers.rotate c.startIdx) c

def dispatch (req : SQEntryWrapper) (c : Controller) : Controller :=
  { c with executing := c.executing ++ [req], executed := c.executed ++ [req.ticket] }

/-- The next check: soon after a selection while there is more work, and else at
the work interval. -/
def reschedule (p : Arbitration) (now : Tick) (selected : Bool) (c : Controller) :
    Controller :=
  let c := { c with requestCounter := c.requestCounter + 1 }
  if selected ∧ c.lSQByUser.all ≠ [] ∧ c.requestCounter < p.maxRequest then
    { c with requestEvent := some (now + p.requestInterval) }
  else
    { c with workEvent := some (max (now + p.requestInterval) (c.lastWorkAt + p.workInterval)) }

def handleRequest (p : Arbitration) (now : Tick) (canServe : UserID → Nat → Bool)
    (lbaSize : Nat → Nat) (c : Controller) : Controller :=
  match c.selectRequest canServe lbaSize with
  | (some req, c) => (c.dispatch req).reschedule p now true
  | (none, c) => c.reschedule p now false

def complete (req : SQEntryWrapper) (status : Nat) (c : Controller) : Controller :=
  { c with executing := c.executing.erase req }.submit (.respond req req.sqHead status)

/-! ## Abort and Delete I/O Submission Queue -/

def abort (sqid cid : Nat) (c : Controller) : Nat × Controller :=
  match c.lSQFIFO.find? fun req => req.sqID = sqid ∧ req.entry.commandID = cid with
  | none => (0, c)
  | some req =>
      match c.queue? sqid with
      | none => (0, c.fail .undefined)
      | some q =>
          (1, { c.submitAborted q.head abortRequested req with
            lSQFIFO := c.lSQFIFO.eraseP fun req =>
              req.sqID = sqid ∧ req.entry.commandID = cid })

/-- The loop of `deleteSQueue` from its iterator on, and what it leaves in
`lSQFIFO`.  The iterator that `erase` returns is advanced once more by the loop,
so the entry behind an erased one is passed over, and behind the last one the
iterator leaves the list. -/
def abortQueue (sqid sqHead : Nat) :
    List SQEntryWrapper → Controller → List SQEntryWrapper × Controller
  | [], c => ([], c)
  | req :: rest, c =>
      if req.sqID = sqid then
        let c := c.submitAborted sqHead abortDueToSQDelete req
        match rest with
        | [] => ([], c.fail .undefined)
        | next :: rest =>
            let (left, c) := abortQueue sqid sqHead rest c
            (next :: left, c)
      else
        let (left, c) := abortQueue sqid sqHead rest c
        (req :: left, c)

def droppedUsers (lSQByUser : QueueMap UserID SQEntryWrapper)
    (uidSQMap : List (UserID × List Nat)) :
    List UserID :=
  (uidSQMap.filter fun user => (lSQByUser.get user.1).isEmpty ∧ user.2.isEmpty).map Prod.fst

def purgeSQFromUserQueues (sqid : Nat) (c : Controller) : Controller :=
  let lSQByUser := c.lSQByUser.filter fun req => req.sqID ≠ sqid
  let uidSQMap := c.uidSQMap.map fun user => (user.1, user.2.erase sqid)
  let dropped := droppedUsers lSQByUser uidSQMap
  { c with
    lSQByUser := lSQByUser
    uidSQMap := uidSQMap.filter fun user => user.1 ∉ dropped
    rrUsers := c.rrUsers.filter fun uid => uid ∉ dropped
    bootstrappedUsers := c.bootstrappedUsers.filter fun uid => uid ∉ dropped }

def freeQueue (sqid : Nat) (c : Controller) : Controller :=
  { c.setQueue sqid none with
    fetching := c.fetching.map fun f => if f.sqID = sqid then { f with freed := true } else f }

def deleteSQueue (sqid : Nat) (c : Controller) : Nat × Controller :=
  match c.ppSQueue[sqid]? with
  | none => (1, c.fail .undefined)
  | some none => (1, c)
  | some (some q) =>
      if 0 < sqid then
        let (left, c) := abortQueue sqid q.head c.lSQFIFO c
        (0, ({ c with lSQFIFO := left }.freeQueue sqid).purgeSQFromUserQueues sqid)
      else (1, c)

/-! ## Steps -/

/-- What can happen next.  The host, the DMA engine and the subsystem choose the
order; `canServe` and `lbaSize` are the answers of the subsystem. -/
inductive Action where
  | doorbell (qid tail : Nat)
  | collect (fuel : Nat)
  | fetchDone (fetch : Fetch) (entry : SQEntry)
  | queueFunction (now : Tick)
  | handleRequest (now : Tick) (canServe : UserID → Nat → Bool) (lbaSize : Nat → Nat)
  | complete (req : SQEntryWrapper) (status : Nat)
  | abort (sqid cid : Nat)
  | deleteSQueue (sqid : Nat)
  | advance (tick : Tick)

def step (p : Arbitration) (c : Controller) (a : Action) : Option Controller :=
  if c.fault ≠ none then none
  else
    match a with
    | .doorbell qid tail => some (c.ringSQTailDoorbell qid tail)
    | .collect fuel => c.collectSQueue p fuel
    | .fetchDone fetch entry =>
        if fetch ∈ c.fetching then some (c.doRead fetch entry) else none
    | .queueFunction now => some (c.queueFunction now)
    | .handleRequest now canServe lbaSize => some (c.handleRequest p now canServe lbaSize)
    | .complete req status =>
        if req ∈ c.executing then some (c.complete req status) else none
    | .abort sqid cid => some (c.abort sqid cid).2
    | .deleteSQueue sqid => some (c.deleteSQueue sqid).2
    | .advance tick => if c.tick ≤ tick then some { c with tick := tick } else none

end Controller

end SimpleSSD.HIL.NVMe
