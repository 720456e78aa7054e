import Mathlib.Data.NNRat.Floor
import Mathlib.Algebra.Order.Ring.Rat
import Mathlib.Logic.Function.Basic
import Mathlib.Data.List.Nodup
import SimpleSSD.Util.Def

/-!
# State of the credit scheduler

The members of `CreditScheduler` in `hil/scheduler/credit_scheduler.hh`.  The
doubles of the token bucket are exact non-negative rationals.  The hash map of
users is a list of keys in iteration order together with the accounts, and the
order in which an insertion leaves the keys is a parameter.

`trace` is an observation that no function of the scheduler reads: the newest
event stands first.
-/

namespace SimpleSSD.HIL

open SimpleSSD.Foundation

namespace CreditScheduler

inductive SLOMode where
  | none
  | iopsTarget
  | tailTarget
  deriving DecidableEq, Repr

structure UserAccount where
  weight : Nat
  creditCap : Nat
  credit : Nat
  carry : ℚ≥0
  totalConsumed : Nat
  consumedHost : Nat
  consumedISC : Nat
  isSLO : Bool
  isActive : Bool
  lastRefillTick : Tick
  idlePeriods : Nat
  pendingGates : Nat
  queue : List Request
  queueISC : List Request
  sloMode : SLOMode
  targetIOPS : ℚ≥0
  winHostPages : Nat
  winHostIOs : Nat
  budgetBoost : ℚ≥0
  deriving DecidableEq

structure DeferredRequest where
  req : Request
  pages : Nat
  deferTime : Tick
  deriving DecidableEq, Repr

/-- A callback registered through `submitISCDeferred`; `resume` says whether
the function pointer is set. -/
structure DeferredCustom where
  uid : UserID
  pages : Nat
  deferTime : Tick
  ctx : Nat
  resume : Bool
  deriving DecidableEq, Repr

structure ISCDeferredRequest where
  uid : UserID
  pagesNeeded : Nat
  iscContext : Nat
  submitTick : Tick
  estimatedLatency : Tick
  deriving DecidableEq, Repr

/-- What a caller hands to the scheduler, in one of its three submission
functions. -/
inductive Item where
  | request (req : Request)
  | custom (dc : DeferredCustom)
  | isc (uid : UserID) (pages iscContext : Nat)
  deriving DecidableEq, Repr

inductive ChargeSite where
  | hostQueue
  | deferredQueue
  | deferredISC
  | queueISC
  | submitISCRequest
  | processISCRequests
  | useCredit
  | useCreditISC
  deriving DecidableEq, Repr

inductive Event where
  | timerStart (tick : Tick)
  | refillCheck (now : Tick)
  | refill (phase : Tick) (slo be : Nat) (carryBefore carryAfter : ℚ≥0)
  | charge (site : ChargeSite) (uid : UserID) (held paid left : Nat)
  | serve (item : Item)
  | icl (req : Request) (beginAt finishedAt : Tick)
  deriving DecidableEq

/-- Constructor arguments; HIL passes a period of one millisecond. -/
structure Params where
  periodTicks : Tick
  ticksPerSec : Tick
  periodTicks_pos : 0 < periodTicks
  ticksPerSec_pos : 0 < ticksPerSec
  /-- iteration order of the hash map after an insertion -/
  emplaceOrder : List UserID → UserID → List UserID
  emplaceOrder_perm : ∀ order uid, (emplaceOrder order uid).Perm (uid :: order)

end CreditScheduler

open CreditScheduler in
structure CreditScheduler where
  adminQueue : List Request
  users : List UserID
  account : UserID → UserAccount
  lastChosenUid : UserID
  lastChosenUidISC : UserID
  inTick : Bool
  timerStarted : Bool
  refillEvent : Option Tick
  lastGlobalRefillTick : Tick
  deferredQueue : List DeferredRequest
  deferredISC : List DeferredCustom
  deferredISCRequests : List ISCDeferredRequest
  /-- the function-local statics of `tick`; `none` before the first call -/
  lastStatTick : Option Tick
  /-- `front()` of an empty queue has been taken -/
  fault : Bool
  trace : List Event

namespace CreditScheduler

def pagesPerSec : Nat := 12000

namespace Params

variable (p : Params)

def periodSec : ℚ≥0 := p.periodTicks / p.ticksPerSec

def pagesPerPeriod : ℚ≥0 := pagesPerSec * p.periodTicks / p.ticksPerSec

def creditCap : Nat := max 50 ⌊p.pagesPerPeriod * 2000⌋₊

def newAccount : UserAccount where
  weight := 1
  creditCap := p.creditCap
  credit := 0
  carry := 0
  totalConsumed := 0
  consumedHost := 0
  consumedISC := 0
  isSLO := false
  isActive := false
  lastRefillTick := 0
  idlePeriods := 0
  pendingGates := 0
  queue := []
  queueISC := []
  sloMode := .none
  targetIOPS := 0
  winHostPages := 0
  winHostIOs := 0
  budgetBoost := 1

end Params

/-! ## Access to accounts -/

def modify (uid : UserID) (f : UserAccount → UserAccount)
    (s : CreditScheduler) : CreditScheduler :=
  { s with account := Function.update s.account uid (f (s.account uid)) }

def mapUsers (f : UserAccount → UserAccount) (s : CreditScheduler) :
    CreditScheduler :=
  { s with account := fun uid =>
      if uid ∈ s.users then f (s.account uid) else s.account uid }

def emit (event : Event) (s : CreditScheduler) : CreditScheduler :=
  { s with trace := event :: s.trace }

def getOrCreateUser (p : Params) (uid : UserID) (s : CreditScheduler) :
    CreditScheduler :=
  if uid ∈ s.users then s
  else
    { s with
      users := p.emplaceOrder s.users uid
      account := Function.update s.account uid p.newAccount }

inductive ChargeClass where
  | host
  | isc
  | totalOnly
  deriving DecidableEq, Repr

def ChargeClass.ofOp (op : OpType) : ChargeClass :=
  if op.isHost then .host else .isc

def UserAccount.pay (cls : ChargeClass) (pages : Nat) (acc : UserAccount) :
    UserAccount :=
  { acc with
    credit := sub64 acc.credit pages
    totalConsumed := acc.totalConsumed + pages
    consumedHost := if cls = .host then acc.consumedHost + pages else acc.consumedHost
    consumedISC := if cls = .isc then acc.consumedISC + pages else acc.consumedISC }

/-- Subtract `pages` from a balance, as every charging site does. -/
def charge (site : ChargeSite) (cls : ChargeClass) (uid : UserID) (pages : Nat)
    (s : CreditScheduler) : CreditScheduler :=
  (s.modify uid (·.pay cls pages)).emit
    (.charge site uid (s.account uid).credit pages
      (sub64 (s.account uid).credit pages))

section Fields

variable (s : CreditScheduler) (uid other : UserID)
  (f : UserAccount → UserAccount) (event : Event)

@[simp] theorem modify_account_self :
    (s.modify uid f).account uid = f (s.account uid) := by
  simp [modify]

theorem modify_account_ne (h : other ≠ uid) :
    (s.modify uid f).account other = s.account other := by
  simp [modify, h]

theorem modify_account :
    (s.modify uid f).account other =
      if other = uid then f (s.account uid) else s.account other := by
  by_cases h : other = uid <;> simp [modify, h]

theorem modify_field {α : Type*} {f : UserAccount → UserAccount}
    (field : UserAccount → α) (h : ∀ acc, field (f acc) = field acc) :
    field ((s.modify uid f).account other) = field (s.account other) := by
  rw [modify_account]
  split
  · rename_i heq
    rw [h, heq]
  · rfl

theorem mapUsers_field {α : Type*} {f : UserAccount → UserAccount}
    (field : UserAccount → α) (h : ∀ acc, field (f acc) = field acc) :
    field ((s.mapUsers f).account uid) = field (s.account uid) := by
  simp only [mapUsers]
  split
  · exact h _
  · rfl

@[simp] theorem mapUsers_users : (s.mapUsers f).users = s.users := rfl
@[simp] theorem modify_users : (s.modify uid f).users = s.users := rfl
@[simp] theorem modify_trace : (s.modify uid f).trace = s.trace := rfl
@[simp] theorem modify_adminQueue :
    (s.modify uid f).adminQueue = s.adminQueue := rfl
@[simp] theorem modify_deferredQueue :
    (s.modify uid f).deferredQueue = s.deferredQueue := rfl
@[simp] theorem modify_deferredISC :
    (s.modify uid f).deferredISC = s.deferredISC := rfl
@[simp] theorem modify_deferredISCRequests :
    (s.modify uid f).deferredISCRequests = s.deferredISCRequests := rfl
@[simp] theorem modify_timerStarted :
    (s.modify uid f).timerStarted = s.timerStarted := rfl
@[simp] theorem modify_lastGlobalRefillTick :
    (s.modify uid f).lastGlobalRefillTick = s.lastGlobalRefillTick := rfl
@[simp] theorem modify_inTick : (s.modify uid f).inTick = s.inTick := rfl

@[simp] theorem emit_account : (s.emit event).account = s.account := rfl
@[simp] theorem emit_users : (s.emit event).users = s.users := rfl
@[simp] theorem emit_trace : (s.emit event).trace = event :: s.trace := rfl
@[simp] theorem emit_adminQueue : (s.emit event).adminQueue = s.adminQueue := rfl
@[simp] theorem emit_deferredQueue :
    (s.emit event).deferredQueue = s.deferredQueue := rfl
@[simp] theorem emit_deferredISC :
    (s.emit event).deferredISC = s.deferredISC := rfl
@[simp] theorem emit_deferredISCRequests :
    (s.emit event).deferredISCRequests = s.deferredISCRequests := rfl
@[simp] theorem emit_timerStarted :
    (s.emit event).timerStarted = s.timerStarted := rfl
@[simp] theorem emit_lastGlobalRefillTick :
    (s.emit event).lastGlobalRefillTick = s.lastGlobalRefillTick := rfl
@[simp] theorem emit_inTick : (s.emit event).inTick = s.inTick := rfl

end Fields

theorem mem_getOrCreateUser (p : Params) (uid : UserID) (s : CreditScheduler) :
    uid ∈ (s.getOrCreateUser p uid).users := by
  unfold getOrCreateUser
  split
  · assumption
  · exact (p.emplaceOrder_perm s.users uid).mem_iff.2 List.mem_cons_self

theorem getOrCreateUser_of_mem {p : Params} {uid : UserID} {s : CreditScheduler}
    (h : uid ∈ s.users) : s.getOrCreateUser p uid = s := by
  simp [getOrCreateUser, h]

theorem getOrCreateUser_account (p : Params) (uid other : UserID)
    (s : CreditScheduler) :
    (s.getOrCreateUser p uid).account other = s.account other ∨
      (other = uid ∧ uid ∉ s.users ∧
        (s.getOrCreateUser p uid).account other = p.newAccount) := by
  unfold getOrCreateUser
  split
  · exact .inl rfl
  · rename_i hmem
    by_cases h : other = uid
    · subst h
      exact .inr ⟨rfl, hmem, by simp⟩
    · exact .inl (by simp [h])

end CreditScheduler

end SimpleSSD.HIL
