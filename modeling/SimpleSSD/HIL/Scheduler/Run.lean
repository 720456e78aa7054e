import SimpleSSD.HIL.Scheduler.Ledger

/-!
# Runs of the credit scheduler

A run starts from the constructed scheduler, in which any further users have
been entered and configured, and applies public functions in any order.  The
callbacks of each call may make runs of their own.
-/

namespace SimpleSSD.HIL.CreditScheduler

inductive Op where
  | submitRequest (getTick : Tick) (req : Request)
  | submitISCDeferred (getTick : Tick) (uid : UserID) (pages ctx : Nat) (cb : Bool)
  | submitISCRequest (getTick : Tick) (uid : UserID) (pages : Nat)
      (iscContext : Option Nat)
  | ensureActiveUser (getTick : Tick) (uid : UserID)
  | tick (now : Tick)
  | processISCRequests (now : Tick)
  | processEvent (now : Tick)
  | processUntil (getTick : Tick) (req : Request) (completionTick : Tick)
  | useCredit (uid : UserID) (used : Nat)
  | useCreditISC (uid : UserID) (used : Nat)
  | resetStatValues (getTick : Tick)
  deriving DecidableEq, Repr

def Op.isReset : Op → Bool
  | .resetStatValues _ => true
  | _ => false

def Op.run (p : Params) (env : Env) (op : Op) (s : CreditScheduler) :
    CreditScheduler :=
  match op with
  | .submitRequest getTick req => s.submitRequest p getTick req
  | .submitISCDeferred getTick uid pages ctx cb =>
      s.submitISCDeferred getTick uid pages ctx cb
  | .submitISCRequest getTick uid pages iscContext =>
      (s.submitISCRequest p env getTick uid pages iscContext).2
  | .ensureActiveUser getTick uid => s.ensureActiveUser p getTick uid
  | .tick now => (s.tick p env now).2
  | .processISCRequests now => s.processISCRequests p env now
  | .processEvent now => s.processEvent p env now
  | .processUntil getTick req completionTick =>
      (s.processUntil p env getTick req completionTick).2
  | .useCredit uid used => s.useCredit p uid used
  | .useCreditISC uid used => s.useCreditISC p uid used
  | .resetStatValues getTick => s.resetStatValues getTick

structure Profile where
  weight : Nat
  isSLO : Bool
  sloMode : SLOMode
  targetIOPS : ℚ≥0
  budgetBoost : ℚ≥0

def UserAccount.configure (profile : Profile) (acc : UserAccount) : UserAccount :=
  { acc with
    weight := profile.weight
    isSLO := profile.isSLO
    sloMode := profile.sloMode
    targetIOPS := profile.targetIOPS
    budgetBoost := profile.budgetBoost }

/-- The constructed scheduler with the users `uids` entered and configured. -/
def start (p : Params) (uids : List UserID) (profile : UserID → Profile) :
    CreditScheduler :=
  uids.foldl (fun s uid => (s.getOrCreateUser p uid).modify uid
    (UserAccount.configure (profile uid))) (construct p)

inductive Runs (p : Params) (reset : Bool) : CreditScheduler → CreditScheduler → Prop
  | refl (s : CreditScheduler) : Runs p reset s s
  | next {s t : CreditScheduler} (env : Env) (op : Op) (earlier : Runs p reset s t)
      (allowed : op.isReset = true → reset = true)
      (icl : ∀ req now u, Runs p reset u (env.icl req now u).2)
      (resume : ∀ dc now u, Runs p reset u (env.resume dc now u))
      (iscCallback : ∀ ctx now u, Runs p reset u (env.iscCallback ctx now u)) :
      Runs p reset s (op.run p env t)

variable {p : Params} {reset : Bool}

theorem Op.run_evolves {env : Env} (respects : env.Respects p reset) (op : Op)
    (allowed : op.isReset = true → reset = true) (s : CreditScheduler) :
    Evolves p reset s (op.run p env s) := by
  cases op with
  | submitRequest getTick req => exact submitRequest_evolves getTick req s
  | submitISCDeferred getTick uid pages ctx cb => exact .single (.frame rfl)
  | submitISCRequest getTick uid pages iscContext =>
      exact submitISCRequest_evolves respects getTick uid pages iscContext s
  | ensureActiveUser getTick uid => exact ensureActiveUser_evolves getTick uid s
  | tick now => exact tick_evolves respects now s
  | processISCRequests now => exact processISCLoop_evolves respects now _ _ s
  | processEvent now => exact processEvent_evolves respects now s
  | processUntil getTick req completionTick =>
      exact processUntil_evolves respects getTick req completionTick s
  | useCredit uid used => exact useCreditAs_evolves _ _ uid used s
  | useCreditISC uid used => exact useCreditAs_evolves _ _ uid used s
  | resetStatValues getTick => exact .single (.resetStat getTick (allowed rfl))

theorem Runs.evolves {s t : CreditScheduler} (run : Runs p reset s t) :
    Evolves p reset s t := by
  induction run with
  | refl s => exact .refl
  | next env op _ allowed _ _ _ earlier icl resume iscCallback =>
      exact earlier.trans (op.run_evolves ⟨icl, resume, iscCallback⟩ allowed _)

theorem Runs.quiet {env : Env} (quiet : env.Quiet) {s t : CreditScheduler}
    (earlier : Runs p reset s t) (op : Op) (allowed : op.isReset = true → reset = true) :
    Runs p reset s (op.run p env t) := by
  refine .next env op earlier allowed ?_ ?_ ?_
  · intro req now u
    rw [quiet.icl]
    exact .refl u
  · intro dc now u
    rw [quiet.resume]
    exact .refl u
  · intro ctx now u
    rw [quiet.iscCallback]
    exact .refl u

/-! ## The start of a run -/

theorem start_induction {uids : List UserID} {profile : UserID → Profile}
    (Inv : CreditScheduler → Prop) (base : Inv (empty p))
    (create : ∀ s uid, Inv s → Inv (s.getOrCreateUser p uid))
    (configure : ∀ s uid profile, Inv s →
      Inv (s.modify uid (UserAccount.configure profile))) :
    Inv (start p uids profile) := by
  have constructed : Inv (construct p) :=
    List.foldlRecOn statUsers _ base fun s inv uid _ => create s uid inv
  exact List.foldlRecOn uids _ constructed fun s inv uid _ =>
    configure _ uid _ (create s uid inv)

structure Fresh (s : CreditScheduler) : Prop where
  trace : s.trace = []
  timerStarted : s.timerStarted = false
  credit : ∀ uid, (s.account uid).credit = 0
  carry : ∀ uid, (s.account uid).carry = 0
  totalConsumed : ∀ uid, (s.account uid).totalConsumed = 0
  queue : ∀ uid, (s.account uid).queue = []
  queueISC : ∀ uid, (s.account uid).queueISC = []
  adminQueue : s.adminQueue = []
  deferredQueue : s.deferredQueue = []
  deferredISC : s.deferredISC = []
  deferredISCRequests : s.deferredISCRequests = []

theorem start_fresh (p : Params) (uids : List UserID) (profile : UserID → Profile) :
    Fresh (start p uids profile) := by
  refine start_induction Fresh ?_ ?_ ?_
  · constructor <;> intros <;> rfl
  · intro s uid fresh
    unfold getOrCreateUser
    split
    · exact fresh
    · constructor
      case credit | carry | totalConsumed | queue | queueISC =>
        intro other
        by_cases h : other = uid
        · simp [h, Params.newAccount]
        · simp [h, fresh.credit, fresh.carry, fresh.totalConsumed, fresh.queue,
            fresh.queueISC]
      all_goals first
        | exact fresh.trace
        | exact fresh.timerStarted
        | exact fresh.adminQueue
        | exact fresh.deferredQueue
        | exact fresh.deferredISC
        | exact fresh.deferredISCRequests
  · intro s uid profile fresh
    constructor
    case credit | carry | totalConsumed | queue | queueISC =>
      intro other
      rw [modify_account]
      split <;>
        simp [UserAccount.configure, fresh.credit, fresh.carry, fresh.totalConsumed,
          fresh.queue, fresh.queueISC]
    all_goals first
      | exact fresh.trace
      | exact fresh.timerStarted
      | exact fresh.adminQueue
      | exact fresh.deferredQueue
      | exact fresh.deferredISC
      | exact fresh.deferredISCRequests

/-! ## A small instance -/

def Params.small : Params where
  periodTicks := 1000
  ticksPerSec := 1000000
  periodTicks_pos := by decide
  ticksPerSec_pos := by decide
  emplaceOrder order uid := uid :: order
  emplaceOrder_perm order uid := .refl _

def Profile.standard : Profile where
  weight := 1
  isSLO := false
  sloMode := .none
  targetIOPS := 0
  budgetBoost := 1

def Env.idle : Env := .passive fun _ now _ => now + 10

theorem Env.idle_quiet : Env.idle.Quiet := Env.passive_quiet _

end SimpleSSD.HIL.CreditScheduler
