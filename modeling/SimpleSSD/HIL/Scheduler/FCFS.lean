import Mathlib.Data.List.Sort
import Mathlib.Logic.Function.Basic
import SimpleSSD.HIL.Scheduler.Base

/-!
# The first-come first-served scheduler

The functions of `hil/scheduler/fcfs_scheduler.cc`.  The ordered map of users
is the sorted list of its keys together with the accounts.  `completions` is an
observation: what the cache layer has been given, the latest first.
-/

namespace SimpleSSD.HIL

namespace FCFSScheduler

structure UserAccount where
  totalConsumed : Nat
  consumedHost : Nat
  consumedISC : Nat
  isActive : Bool
  queue : List Request
  queueISC : List Request
  deriving DecidableEq, Repr

def newAccount : UserAccount where
  totalConsumed := 0
  consumedHost := 0
  consumedISC := 0
  isActive := false
  queue := []
  queueISC := []

end FCFSScheduler

open FCFSScheduler in
structure FCFSScheduler where
  users : List UserID
  account : UserID → UserAccount
  lastChosenUid : UserID
  lastChosenUidISC : UserID
  lastReportTick : Tick
  currentTick : Tick
  completions : List Completion

namespace FCFSScheduler

def reportIntervalTicks : Tick := 1000000000

def modify (uid : UserID) (f : UserAccount → UserAccount) (s : FCFSScheduler) :
    FCFSScheduler :=
  { s with account := Function.update s.account uid (f (s.account uid)) }

def getOrCreateUser (uid : UserID) (s : FCFSScheduler) : FCFSScheduler :=
  if uid ∈ s.users then s
  else
    { s with
      users := s.users.orderedInsert (· ≤ ·) uid
      account := Function.update s.account uid newAccount }

def statUsers : List UserID := [1001, 1002]

def construct : FCFSScheduler :=
  statUsers.foldl (fun s uid => s.getOrCreateUser uid)
    { users := []
      account := fun _ => newAccount
      lastChosenUid := 0
      lastChosenUidISC := 0
      lastReportTick := 0
      currentTick := 0
      completions := [] }

def submitRequest (req : Request) (s : FCFSScheduler) : FCFSScheduler :=
  (s.getOrCreateUser req.userID).modify req.userID fun acc =>
    { acc with queue := acc.queue ++ [req], isActive := true }

def submitRequestISC (uid : UserID) (req : Request) (s : FCFSScheduler) :
    FCFSScheduler :=
  (s.getOrCreateUser uid).modify uid fun acc =>
    { acc with queueISC := acc.queueISC ++ [req], isActive := true }

def recordPageConsumptionByOpType (uid : UserID) (pages : Nat) (op : OpType)
    (s : FCFSScheduler) : FCFSScheduler :=
  (s.getOrCreateUser uid).modify uid fun acc =>
    { acc with
      totalConsumed := acc.totalConsumed + pages
      consumedHost := if op.isHost then acc.consumedHost + pages else acc.consumedHost
      consumedISC := if op.isHost then acc.consumedISC else acc.consumedISC + pages }

section Dispatch

variable (storage : Storage)

/-- The tick is the member `currentTick`, passed by reference. -/
def dispatchICL (req : Request) (s : FCFSScheduler) : FCFSScheduler :=
  if req.op.isHost then
    let finishedAt := storage.answer req s.currentTick s.completions
    { s with
      currentTick := finishedAt
      completions := ⟨req, s.currentTick, finishedAt⟩ :: s.completions }
  else s

def dispatchRequest (req : Request) (s : FCFSScheduler) : FCFSScheduler :=
  (s.recordPageConsumptionByOpType req.userID req.pages req.op).dispatchICL storage req

def popQueue (acc : UserAccount) : UserAccount := { acc with queue := acc.queue.tail }

def popQueueISC (acc : UserAccount) : UserAccount :=
  { acc with queueISC := acc.queueISC.tail }

def tryDispatchHost : List UserID → FCFSScheduler → Bool × FCFSScheduler
  | [], s => (false, s)
  | uid :: rest, s =>
      match (s.account uid).queue with
      | [] => tryDispatchHost rest s
      | req :: _ =>
          (true, dispatchRequest storage req
            { s.modify uid popQueue with lastChosenUid := uid })

def tryDispatchISC : List UserID → FCFSScheduler → Bool × FCFSScheduler
  | [], s => (false, s)
  | uid :: rest, s =>
      match (s.account uid).queueISC with
      | [] => tryDispatchISC rest s
      | req :: _ =>
          (true, dispatchRequest storage req
            { s.modify uid popQueueISC with lastChosenUidISC := uid })

/-- At most one host request, then at most one in-storage request. -/
def schedule (s : FCFSScheduler) : FCFSScheduler :=
  let s := (tryDispatchHost storage (scanOrder s.lastChosenUid s.users) s).2
  (tryDispatchISC storage (scanOrder s.lastChosenUidISC s.users) s).2

/-- The tick is taken by value: what the dispatches make of it stays in
`currentTick`. -/
def tick (now : Tick) (s : FCFSScheduler) : FCFSScheduler :=
  schedule storage { s with
    currentTick := now
    lastReportTick :=
      if Foundation.sub64 now s.lastReportTick < reportIntervalTicks then s.lastReportTick
      else now }

/-- `latency` is the firmware latency of the scheduling step. -/
def processUntil (latency : Tick) (req : Request) (completionTick : Tick)
    (s : FCFSScheduler) : Tick × FCFSScheduler :=
  (completionTick + latency, tick storage completionTick (s.submitRequest req))

end Dispatch

def pendingForUser (uid : UserID) (s : FCFSScheduler) : Bool :=
  decide (uid ∈ s.users) &&
    (!(s.account uid).queue.isEmpty || !(s.account uid).queueISC.isEmpty)

def resetStatValues (s : FCFSScheduler) : FCFSScheduler :=
  statUsers.foldl (fun s uid => s.getOrCreateUser uid)
    { s with users := [], lastReportTick := 0, lastChosenUid := 0, lastChosenUidISC := 0 }

/-! ## What a call hands to the storage -/

def nextHost (s : FCFSScheduler) : Option UserID :=
  (scanOrder s.lastChosenUid s.users).find? fun uid => !(s.account uid).queue.isEmpty

def hostHead (s : FCFSScheduler) : Option Request :=
  s.nextHost.bind fun uid => (s.account uid).queue.head?

def hostCompletion (storage : Storage) (s : FCFSScheduler) : List Completion :=
  match s.hostHead with
  | none => []
  | some req =>
      if req.op.isHost then
        [⟨req, s.currentTick, storage.answer req s.currentTick s.completions⟩]
      else []

section Lemmas

variable (storage : Storage) (s : FCFSScheduler) (uid other : UserID) (req : Request)

theorem modify_account (f : UserAccount → UserAccount) :
    (s.modify uid f).account other =
      if other = uid then f (s.account uid) else s.account other := by
  by_cases h : other = uid <;> simp [modify, h]

theorem getOrCreateUser_account :
    (s.getOrCreateUser uid).account other = s.account other ∨
      (s.getOrCreateUser uid).account other = newAccount := by
  unfold getOrCreateUser
  split
  · exact .inl rfl
  · by_cases h : other = uid
    · exact .inr (by simp [h])
    · exact .inl (by simp [h])

@[simp] theorem getOrCreateUser_completions :
    (s.getOrCreateUser uid).completions = s.completions := by
  unfold getOrCreateUser
  split <;> rfl

@[simp] theorem getOrCreateUser_currentTick :
    (s.getOrCreateUser uid).currentTick = s.currentTick := by
  unfold getOrCreateUser
  split <;> rfl

@[simp] theorem getOrCreateUser_lastChosenUid :
    (s.getOrCreateUser uid).lastChosenUid = s.lastChosenUid := by
  unfold getOrCreateUser
  split <;> rfl

theorem dispatchRequest_completions :
    (s.dispatchRequest storage req).completions =
      (if req.op.isHost then
        [⟨req, s.currentTick, storage.answer req s.currentTick s.completions⟩]
        else []) ++ s.completions := by
  unfold dispatchRequest dispatchICL
  split <;> simp [recordPageConsumptionByOpType, modify]

theorem dispatchRequest_queueISC {front : Request}
    (h : front ∈ ((s.dispatchRequest storage req).account uid).queueISC) :
    front ∈ (s.account uid).queueISC := by
  have kept : (s.dispatchRequest storage req).account =
      (s.recordPageConsumptionByOpType req.userID req.pages req.op).account := by
    unfold dispatchRequest dispatchICL
    split <;> rfl
  rw [kept, recordPageConsumptionByOpType, modify_account] at h
  have stable : ∀ other, front ∈ ((s.getOrCreateUser req.userID).account other).queueISC →
      front ∈ (s.account other).queueISC := by
    intro other hmem
    rcases getOrCreateUser_account s req.userID other with same | fresh
    · rwa [same] at hmem
    · rw [fresh] at hmem
      exact absurd hmem List.not_mem_nil
  split at h
  · rename_i heq
    rw [heq]
    exact stable _ h
  · exact stable _ h

theorem tryDispatchHost_eq (order : List UserID) :
    tryDispatchHost storage order s =
      match order.find? fun uid => !(s.account uid).queue.isEmpty with
      | none => (false, s)
      | some uid =>
          match (s.account uid).queue with
          | [] => (false, s)
          | req :: _ =>
              (true, dispatchRequest storage req
                { s.modify uid popQueue with lastChosenUid := uid }) := by
  induction order with
  | nil => rfl
  | cons uid order ih =>
      cases h : (s.account uid).queue with
      | nil => simp [tryDispatchHost, h, ih]
      | cons req rest => simp [tryDispatchHost, h]

theorem tryDispatchHost_completions :
    (tryDispatchHost storage (scanOrder s.lastChosenUid s.users) s).2.completions =
      hostCompletion storage s ++ s.completions := by
  have dispatch := tryDispatchHost_eq storage s (scanOrder s.lastChosenUid s.users)
  rw [dispatch]
  unfold hostCompletion hostHead nextHost
  cases picked : (scanOrder s.lastChosenUid s.users).find? fun uid =>
      !(s.account uid).queue.isEmpty with
  | none => rfl
  | some uid =>
      cases head : (s.account uid).queue with
      | nil => simp [head]
      | cons req rest =>
          simp only [head, dispatchRequest_completions, Option.bind_some, List.head?_cons]
          rfl

theorem tryDispatchHost_queueISC {front : Request} (order : List UserID)
    (h : front ∈ ((tryDispatchHost storage order s).2.account other).queueISC) :
    ∃ uid, front ∈ (s.account uid).queueISC := by
  induction order with
  | nil => exact ⟨other, h⟩
  | cons uid order ih =>
      cases head : (s.account uid).queue with
      | nil =>
          simp only [tryDispatchHost, head] at h
          exact ih h
      | cons req rest =>
          simp only [tryDispatchHost, head] at h
          have h := dispatchRequest_queueISC storage _ _ _ h
          simp only [modify_account] at h
          split at h
          · exact ⟨uid, h⟩
          · exact ⟨other, h⟩

theorem construct_account : construct.account uid = newAccount := by
  simp only [construct, statUsers, List.foldl_cons, List.foldl_nil]
  rcases getOrCreateUser_account (getOrCreateUser 1001 _) 1002 uid with same | fresh
  · rw [same]
    rcases getOrCreateUser_account _ 1001 uid with same | fresh
    · rw [same]
    · exact fresh
  · exact fresh

theorem tryDispatchISC_completions (order : List UserID) :
    ∃ new, (tryDispatchISC storage order s).2.completions = new ++ s.completions ∧
      ∀ done ∈ new, ∃ uid, done.req ∈ (s.account uid).queueISC := by
  induction order with
  | nil => exact ⟨[], rfl, by simp⟩
  | cons uid order ih =>
      cases h : (s.account uid).queueISC with
      | nil => simpa [tryDispatchISC, h] using ih
      | cons req rest =>
          simp only [tryDispatchISC, h, dispatchRequest_completions]
          refine ⟨_, rfl, fun done hmem => ⟨uid, ?_⟩⟩
          split at hmem
          · rw [List.mem_singleton.1 hmem, h]
            exact List.mem_cons_self
          · exact absurd hmem List.not_mem_nil

end Lemmas

end FCFSScheduler

end SimpleSSD.HIL
