import SimpleSSD.HIL.Scheduler.Service
import SimpleSSD.HIL.Scheduler.Target

/-!
# The credit gate of in-storage computing

In-storage code reaches the data in two places: `FTL::read` waits for credit by
driving the refill itself, and `isc_get` hands a transfer it cannot pay to the
scheduler.  Both check first and charge later, and the charge takes at most what is
held.  A covered access is charged its pages exactly; what passes uncovered is the
first traffic of a user that has not been refilled, and a read whose wait ran out.  A
transfer that waited is charged the size its result had before, and moves the size it
has then.
-/

namespace SimpleSSD.ISC

open SimpleSSD.Foundation SimpleSSD.HIL SimpleSSD.HIL.CreditScheduler Relation

inductive AccessKind where
  | read
  | transfer
  deriving DecidableEq, Repr

def iscPageFactor : ℚ≥0 := 115 / 100

def FTL.pages (nlp : Nat) : Nat :=
  let basePages := if nlp = 0 then 1 else nlp
  let weighted := (basePages : ℚ≥0) * iscPageFactor
  if ⌈weighted⌉₊ = 0 then 1 else ⌈weighted⌉₊

/-- The credit that so many pages of data ask for. -/
def AccessKind.weigh : AccessKind → Nat → Nat
  | .read => FTL.pages
  | .transfer => id

/-- An access of `length` pages that is let through, with the credit it asks for and with the
scheduler at its last check and behind its charge. -/
structure Access where
  kind : AccessKind
  uid : UserID
  length : Nat
  pages : Nat
  before : CreditScheduler
  after : CreditScheduler

namespace Access

def held (a : Access) : Nat := (a.before.account a.uid).credit

def left (a : Access) : Nat := (a.after.account a.uid).credit

def covered (a : Access) : Bool := a.pages ≤ a.held

def Bootstrap (a : Access) : Prop :=
  a.uid ∉ a.before.users ∨
    a.held = 0 ∧ 0 < (a.before.account a.uid).creditCap ∧
      (a.before.account a.uid).totalConsumed = 0

def WaitExpired (a : Access) : Prop :=
  a.kind = .read ∧ a.before.checkCredit a.uid a.pages = false

/-- The charge is exact where the credit covers the access, and there is none where
it does not. -/
structure Settled (a : Access) : Prop where
  weighed : a.pages = a.kind.weigh a.length
  exact : a.pages ≤ a.held → a.left + a.pages = a.held
  uncovered : ¬ a.pages ≤ a.held → a.left = a.held ∧ (a.Bootstrap ∨ a.WaitExpired)

end Access

/-! ## The two gates -/

namespace FTL

def maxWaits : Nat := 100000

variable (p : Params) (env : Env)

/-- The time is advanced by a period and the refill processed, at most `guard` times. -/
def wait (period : Tick) (uid : UserID) (pages : Nat) :
    Nat → Tick → CreditScheduler → Tick × CreditScheduler
  | 0, simTick, s => (simTick, s)
  | guard + 1, simTick, s =>
      if s.checkCredit uid pages then (simTick, s)
      else wait period uid pages guard (simTick + period)
        (s.processEvent p env (simTick + period))

def read (getTick : Tick) (uid : UserID) (nlp : Nat) (simTick : Tick)
    (s : CreditScheduler) : Tick × CreditScheduler × Access :=
  let pages := pages nlp
  if uid = 0 then (simTick, s, ⟨.read, uid, nlp, pages, s, s⟩)
  else
    let period := if p.periodTicks = 0 then 10000000 else p.periodTicks
    let waited := wait p env period uid pages maxWaits simTick
      (s.ensureActiveUser p getTick uid)
    let after :=
      if waited.2.checkCredit uid pages then waited.2.useCreditISC p uid pages
      else waited.2
    (waited.1, after, ⟨.read, uid, nlp, pages, waited.2, after⟩)

end FTL

def pageSize : Nat := 4096

def resultPages (nlb lbaSize resultSize : Nat) : Nat :=
  (min (nlb * lbaSize) resultSize + pageSize - 1) / pageSize

/-- A transfer that waits for credit, and the size its result had when it was left to the
scheduler. -/
structure ISCResumeCtx where
  entry : DeferredCustom
  nlb : Nat
  lbaSize : Nat
  resultSize : Nat

/-- The pages that `resumeThunk` moves: it asks for the size of the result again. -/
def ISCResumeCtx.moves (rc : ISCResumeCtx) (resultSize : Nat) : Nat :=
  resultPages rc.nlb rc.lbaSize resultSize

inductive Transfer where
  | done (access : Access)
  | waits (rc : ISCResumeCtx)

/-- The result transfer of `isc_get`; without credit it is left to the scheduler. -/
def iscGet (p : Params) (getTick : Tick) (uid : UserID) (nlb lbaSize resultSize ctx : Nat)
    (s : CreditScheduler) : CreditScheduler × Transfer :=
  let pages := resultPages nlb lbaSize resultSize
  if s.checkCredit uid pages then
    let after := s.useCreditISC p uid pages
    (after, .done ⟨.transfer, uid, pages, pages, s, after⟩)
  else (s.submitISCDeferred getTick uid pages ctx true,
    .waits ⟨⟨uid, pages, getTick, ctx, true⟩, nlb, lbaSize, resultSize⟩)

/-! ## Runs -/

/-- The scheduler, the accesses the gates have let through and the transfers that were left
to the scheduler, the last ones first. -/
structure World where
  scheduler : CreditScheduler
  accesses : List Access
  contexts : List ISCResumeCtx

inductive Call where
  | scheduler (op : Op)
  | read (getTick : Tick) (uid : UserID) (nlp : Nat) (simTick : Tick)
  | iscGet (getTick : Tick) (uid : UserID) (nlb lbaSize resultSize ctx : Nat)

def Call.run (p : Params) (env : Env) (call : Call) (w : World) : World :=
  match call with
  | .scheduler op => { w with scheduler := op.run p env w.scheduler }
  | .read getTick uid nlp simTick =>
      let done := FTL.read p env getTick uid nlp simTick w.scheduler
      { w with scheduler := done.2.1, accesses := done.2.2 :: w.accesses }
  | .iscGet getTick uid nlb lbaSize resultSize ctx =>
      let done := ISC.iscGet p getTick uid nlb lbaSize resultSize ctx w.scheduler
      match done.2 with
      | .done access => { w with scheduler := done.1, accesses := access :: w.accesses }
      | .waits rc => { w with scheduler := done.1, contexts := rc :: w.contexts }

inductive Calls (p : Params) (w : World) : World → Prop
  | refl : Calls p w w
  | next {t : World} (env : Env) (call : Call) (earlier : Calls p w t)
      (icl : ∀ req now u, Runs p true u (env.icl req now u).2)
      (resume : ∀ dc now u, Runs p true u (env.resume dc now u))
      (iscCallback : ∀ ctx now u, Runs p true u (env.iscCallback ctx now u)) :
      Calls p w (call.run p env t)

def World.start (p : Params) (uids : List UserID) (profile : UserID → Profile) : World :=
  ⟨CreditScheduler.start p uids profile, [], []⟩

/-! ## Sums over a run -/

def servedPages (size : Access → Nat) (uid : UserID) : List Access → Nat
  | [] => 0
  | a :: rest => (if a.uid = uid then size a else 0) + servedPages size uid rest

/-- The pages that a resumed callback moves, which are none if it is not a transfer. -/
def movedBy (contexts : List ISCResumeCtx) (dc : DeferredCustom) (resultSize : Nat) : Nat :=
  (contexts.find? fun rc => rc.entry = dc).elim 0 fun rc => rc.moves resultSize

/-- The sum of `f` over what has been resumed.  The size of its result is what the runtime
has at that time, after the earlier events. -/
def resumedSum (f : DeferredCustom → Nat → Nat) (size : List Event → DeferredCustom → Nat)
    (uid : UserID) : List Event → Nat
  | [] => 0
  | .serve (.custom dc) :: rest =>
      (if dc.uid = uid then f dc (size rest dc) else 0) + resumedSum f size uid rest
  | _ :: rest => resumedSum f size uid rest

def movedPages (w : World) (size : List Event → DeferredCustom → Nat) (uid : UserID) : Nat :=
  resumedSum (movedBy w.contexts) size uid w.scheduler.trace

/-- The pages by which results have grown while their transfers waited. -/
def grownPages (w : World) (size : List Event → DeferredCustom → Nat) (uid : UserID) : Nat :=
  resumedSum (fun dc n => movedBy w.contexts dc n - dc.pages) size uid w.scheduler.trace

def paidAt (sites : ChargeSite → Bool) (uid : UserID) : List Event → Nat
  | [] => 0
  | .charge site payer _ paid _ :: rest =>
      (if sites site ∧ payer = uid then paid else 0) + paidAt sites uid rest
  | _ :: rest => paidAt sites uid rest

def hostPages (uid : UserID) (trace : List Event) : Nat :=
  paidAt (fun site => site = .hostQueue ∨ site = .deferredQueue) uid trace

def PaidOnResume (trace : List Event) : Prop :=
  ∀ later dc earlier, trace = later ++ .serve (.custom dc) :: earlier →
    ∃ held left before, earlier = .charge .deferredISC dc.uid held dc.pages left :: before ∧
      left + dc.pages = held

/-! ## A charge at the gate -/

section Charge

variable {p : Params} {s : CreditScheduler}

theorem credit_getOrCreateUser (proper : Proper s) (uid other : UserID) :
    ((s.getOrCreateUser p uid).account other).credit = (s.account other).credit := by
  rcases getOrCreateUser_account p uid other s with same | ⟨rfl, absent, fresh⟩
  · rw [same]
  · have idle : (s.account other).isActive = false := by
      have active := proper.active other
      simpa using fun h => absent (active h)
    rw [fresh, proper.inactive other idle]
    rfl

def taken (uid : UserID) (used : Nat) (s : CreditScheduler) : Nat :=
  min used (s.account uid).credit

theorem useCreditISC_eq (proper : Proper s) (uid : UserID) (used : Nat) :
    s.useCreditISC p uid used =
      (s.getOrCreateUser p uid).charge .useCreditISC .isc uid (taken uid used s) := by
  unfold useCreditISC useCreditAs taken
  simp only [credit_getOrCreateUser proper]
  congr 1
  split <;> omega

theorem useCreditISC_credit (proper : Proper s) (uid : UserID) (used : Nat) :
    ((s.useCreditISC p uid used).account uid).credit + taken uid used s =
      (s.account uid).credit := by
  rw [useCreditISC_eq proper]
  unfold CreditScheduler.charge
  rw [emit_account, modify_account_self]
  change sub64 ((s.getOrCreateUser p uid).account uid).credit _ + _ = _
  rw [credit_getOrCreateUser proper]
  exact sub64_add_cancel (min_le_right _ _)

theorem useCreditISC_trace (proper : Proper s) (uid : UserID) (used : Nat) :
    ∃ held left, (s.useCreditISC p uid used).trace =
      .charge .useCreditISC uid held (taken uid used s) left :: s.trace := by
  rw [useCreditISC_eq proper]
  unfold CreditScheduler.charge
  rw [emit_trace, modify_trace, getOrCreateUser_trace]
  exact ⟨_, _, rfl⟩

theorem bootstrap_of_checkCredit {a : Access}
    (check : a.before.checkCredit a.uid a.pages = true) (short : ¬ a.pages ≤ a.held) :
    a.Bootstrap := by
  unfold checkCredit at check
  simp only [Bool.or_eq_true, Bool.and_eq_true, decide_eq_true_eq, beq_iff_eq] at check
  rcases check with (absent | covered) | ⟨⟨empty, cap⟩, consumed⟩
  · exact .inl absent
  · exact absurd covered short
  · exact .inr ⟨empty, cap, consumed⟩

theorem Access.Bootstrap.held_eq {a : Access} (proper : Proper a.before)
    (bootstrap : a.Bootstrap) : a.held = 0 := by
  rcases bootstrap with absent | ⟨empty, -, -⟩
  · refine proper.inactive a.uid ?_
    have active := proper.active a.uid
    simpa using fun h => absent (active h)
  · exact empty

theorem settled_of_charge (proper : Proper s) {kind : AccessKind} {uid : UserID} (length : Nat)
    (check : s.checkCredit uid (kind.weigh length) = true) :
    Access.Settled ⟨kind, uid, length, kind.weigh length, s,
      s.useCreditISC p uid (kind.weigh length)⟩ := by
  have credit := useCreditISC_credit (p := p) proper uid (kind.weigh length)
  unfold taken at credit
  refine ⟨rfl, ?_, ?_⟩
  · intro covered
    simp only [Access.held, Access.left] at covered ⊢
    omega
  · intro short
    have bootstrap := bootstrap_of_checkCredit
      (a := ⟨kind, uid, length, kind.weigh length, s,
        s.useCreditISC p uid (kind.weigh length)⟩) check short
    have empty := bootstrap.held_eq proper
    refine ⟨?_, .inl bootstrap⟩
    simp only [Access.held, Access.left] at empty ⊢
    omega

theorem settled_of_expired {uid : UserID} (nlp : Nat)
    (check : s.checkCredit uid (FTL.pages nlp) = false) :
    Access.Settled ⟨.read, uid, nlp, FTL.pages nlp, s, s⟩ := by
  refine ⟨rfl, ?_, ?_⟩
  · intro covered
    simp only [Access.held] at covered
    simp [checkCredit, covered] at check
  · exact fun _ => ⟨rfl, .inr ⟨rfl, check⟩⟩

end Charge

/-! ## The scheduler part of a run -/

section Run

variable {p : Params} {env : Env} {s t : CreditScheduler}

theorem wait_runs (period : Tick) (uid : UserID) (pages guard : Nat) (simTick : Tick)
    (icl : ∀ req now u, Runs p true u (env.icl req now u).2)
    (resume : ∀ dc now u, Runs p true u (env.resume dc now u))
    (iscCallback : ∀ ctx now u, Runs p true u (env.iscCallback ctx now u))
    (earlier : Runs p true s t) :
    Runs p true s (FTL.wait p env period uid pages guard simTick t).2 := by
  induction guard generalizing simTick t with
  | zero => exact earlier
  | succ guard ih =>
      unfold FTL.wait
      split
      · exact earlier
      · exact ih _ (.next env (.processEvent (simTick + period)) earlier (fun _ => rfl)
          icl resume iscCallback)

/-- What one call does to a world: it extends the scheduler's run, and logs at most one
access, which is settled and pays what its credit covers. -/
structure Extends (s : CreditScheduler) (p : Params) (w w' : World) : Prop where
  run : Runs p true s w'.scheduler
  trace : w.scheduler.trace <:+ w'.scheduler.trace
  deferred : ∀ rc ∈ w'.contexts, rc ∈ w.contexts ∨ rc.entry.pages = rc.moves rc.resultSize
  logged : w'.accesses = w.accesses ∨ ∃ a, w'.accesses = a :: w.accesses ∧
    (a.uid ≠ 0 → a.Settled ∧ ∃ earlier held left, w.scheduler.trace <:+ earlier ∧
      (a.covered = true →
        w'.scheduler.trace = .charge .useCreditISC a.uid held a.pages left :: earlier))

theorem useCreditISC_extends {w : World} (proper : Proper t) (run : Runs p true s t)
    (trace : w.scheduler.trace <:+ t.trace) (kind : AccessKind) {uid : UserID} (length : Nat)
    (check : t.checkCredit uid (kind.weigh length) = true) :
    Extends s p w { w with
      scheduler := t.useCreditISC p uid (kind.weigh length)
      accesses := ⟨kind, uid, length, kind.weigh length, t,
        t.useCreditISC p uid (kind.weigh length)⟩ :: w.accesses } := by
  obtain ⟨held, left, charged⟩ := useCreditISC_trace (p := p) proper uid (kind.weigh length)
  refine ⟨?_, ?_, fun rc => .inl, .inr ⟨_, rfl, fun _ => ⟨settled_of_charge proper length check,
    t.trace, held, left, trace, fun covered => ?_⟩⟩⟩
  · exact run.quiet Env.idle_quiet (.useCreditISC uid _) fun _ => rfl
  · simp only [charged]
    exact trace.trans (List.suffix_cons _ _)
  · have all : taken uid (kind.weigh length) t = kind.weigh length :=
      min_eq_left (of_decide_eq_true covered)
    simp only [charged, all]

theorem iscGet_extends {uids : List UserID} {profile : UserID → Profile} {w : World}
    (getTick : Tick) (uid : UserID) (nlb lbaSize resultSize ctx : Nat)
    (run : Runs p true (CreditScheduler.start p uids profile) w.scheduler) :
    Extends (CreditScheduler.start p uids profile) p w
      ((Call.iscGet getTick uid nlb lbaSize resultSize ctx).run p env w) := by
  unfold Call.run ISC.iscGet
  simp only
  by_cases check : w.scheduler.checkCredit uid (resultPages nlb lbaSize resultSize) = true
  · simp only [if_pos check]
    exact useCreditISC_extends run.proper run List.suffix_rfl .transfer _ check
  · simp only [if_neg check]
    refine ⟨run.quiet Env.idle_quiet (.submitISCDeferred getTick uid _ ctx true)
      fun _ => rfl, List.suffix_rfl, fun rc hmem => ?_, .inl rfl⟩
    rcases List.mem_cons.1 hmem with rfl | earlier
    · exact .inr rfl
    · exact .inl earlier

theorem read_extends {uids : List UserID} {profile : UserID → Profile} {w : World}
    (getTick : Tick) (uid : UserID) (nlp : Nat) (simTick : Tick)
    (icl : ∀ req now u, Runs p true u (env.icl req now u).2)
    (resume : ∀ dc now u, Runs p true u (env.resume dc now u))
    (iscCallback : ∀ ctx now u, Runs p true u (env.iscCallback ctx now u))
    (run : Runs p true (CreditScheduler.start p uids profile) w.scheduler) :
    Extends (CreditScheduler.start p uids profile) p w
      ((Call.read getTick uid nlp simTick).run p env w) := by
  unfold Call.run FTL.read
  by_cases admin : uid = 0
  · simp only [if_pos admin]
    exact ⟨run, List.suffix_rfl, fun rc => .inl,
      .inr ⟨_, rfl, fun user => absurd admin user⟩⟩
  · simp only [if_neg admin]
    have waits : ∀ u, Runs p true u (w.scheduler.ensureActiveUser p getTick uid) →
        Runs p true u (FTL.wait p env (if p.periodTicks = 0 then 10000000 else
          p.periodTicks) uid (FTL.pages nlp) FTL.maxWaits simTick
            (w.scheduler.ensureActiveUser p getTick uid)).2 := fun u =>
      wait_runs _ _ _ _ _ icl resume iscCallback
    have readied : ∀ {u}, Runs p true u w.scheduler →
        Runs p true u (w.scheduler.ensureActiveUser p getTick uid) := fun earlier =>
      earlier.quiet Env.idle_quiet (.ensureActiveUser getTick uid) fun _ => rfl
    have waited := waits _ (readied run)
    have trace := Acts.trace (waits _ (readied (.refl w.scheduler))).acts
    generalize FTL.wait p env _ uid (FTL.pages nlp) FTL.maxWaits simTick
      (w.scheduler.ensureActiveUser p getTick uid) = done at waited trace ⊢
    by_cases check : done.2.checkCredit uid (FTL.pages nlp) = true
    · simp only [if_pos check]
      exact useCreditISC_extends waited.proper waited trace .read nlp check
    · simp only [if_neg check]
      have short := eq_false_of_ne_true check
      refine ⟨waited, trace, fun rc => .inl,
        .inr ⟨_, rfl, fun _ => ⟨settled_of_expired nlp short, ?_⟩⟩⟩
      refine ⟨w.scheduler.trace, 0, 0, List.suffix_rfl, fun covered => ?_⟩
      have held : FTL.pages nlp ≤ (done.2.account uid).credit := of_decide_eq_true covered
      simp [checkCredit, held] at short

theorem Call.extends {uids : List UserID} {profile : UserID → Profile} (call : Call)
    {w : World} (icl : ∀ req now u, Runs p true u (env.icl req now u).2)
    (resume : ∀ dc now u, Runs p true u (env.resume dc now u))
    (iscCallback : ∀ ctx now u, Runs p true u (env.iscCallback ctx now u))
    (run : Runs p true (CreditScheduler.start p uids profile) w.scheduler) :
    Extends (CreditScheduler.start p uids profile) p w (call.run p env w) := by
  cases call with
  | scheduler op =>
      have single : Runs p true w.scheduler (op.run p env w.scheduler) :=
        .next env op (.refl _) (fun _ => rfl) icl resume iscCallback
      exact ⟨.next env op run (fun _ => rfl) icl resume iscCallback, Acts.trace single.acts,
        fun rc => .inl, .inl rfl⟩
  | iscGet getTick uid nlb lbaSize resultSize ctx =>
      exact iscGet_extends getTick uid nlb lbaSize resultSize ctx run
  | read getTick uid nlp simTick =>
      exact read_extends getTick uid nlp simTick icl resume iscCallback run

end Run

/-! ## What is paid where -/

section Sums

variable {p : Params} {uid : UserID}

@[simp] theorem paidAt_charge (sites : ChargeSite → Bool) (site : ChargeSite) (payer : UserID)
    (held paid left : Nat) (trace : List Event) :
    paidAt sites uid (.charge site payer held paid left :: trace) =
      (if sites site ∧ payer = uid then paid else 0) + paidAt sites uid trace := rfl

theorem paidAt_of_none (sites : ChargeSite → Bool) {event : Event} (h : event.charged = none)
    (trace : List Event) : paidAt sites uid (event :: trace) = paidAt sites uid trace := by
  cases event with
  | charge => contradiction
  | _ => rfl

theorem paidAt_suffix (sites : ChargeSite → Bool) {earlier later : List Event}
    (h : earlier <:+ later) : paidAt sites uid earlier ≤ paidAt sites uid later := by
  obtain ⟨new, rfl⟩ := h
  induction new with
  | nil => exact le_rfl
  | cons event new ih =>
      refine ih.trans ?_
      rw [List.cons_append]
      cases event with
      | charge => exact Nat.le_add_left _ _
      | _ => exact le_rfl

theorem paidAt_add_le (uid : UserID) (f g h : ChargeSite → Bool)
    (apart : ∀ site, (f site).toNat + (g site).toNat + (h site).toNat ≤ 1)
    (trace : List Event) :
    paidAt f uid trace + paidAt g uid trace + paidAt h uid trace ≤ consumed uid trace := by
  induction trace with
  | nil => exact le_rfl
  | cons event trace ih =>
      cases event with
      | charge site payer held paid left =>
          have once := apart site
          simp only [paidAt_charge, consumed_charge]
          by_cases own : payer = uid
          · simp only [own, and_true, if_true]
            cases hf : f site <;> cases hg : g site <;> cases hh : h site <;>
              simp [hf, hg, hh] at once ⊢ <;> omega
          · simp only [own, and_false, if_false, Nat.zero_add]
            exact ih
      | _ =>
          rw [consumed_of_none rfl]
          exact ih

theorem PaidOnResume.of_cons {event : Event} {trace : List Event}
    (paid : PaidOnResume (event :: trace)) : PaidOnResume trace :=
  fun later dc earlier h => paid (event :: later) dc earlier (by rw [h, List.cons_append])

theorem PaidOnResume.cons {event : Event} {trace : List Event}
    (plain : ∀ dc, event ≠ .serve (.custom dc)) (paid : PaidOnResume trace) :
    PaidOnResume (event :: trace) := by
  intro later dc earlier h
  cases later with
  | nil => exact absurd (List.cons.inj h).1 (plain dc)
  | cons first later => exact paid later dc earlier (List.cons.inj h).2

theorem resumedSum_le_paidAt (size : List Event → DeferredCustom → Nat) (uid : UserID)
    {trace : List Event} (paid : PaidOnResume trace) :
    resumedSum (fun dc _ => dc.pages) size uid trace ≤ paidAt (· = .deferredISC) uid trace ∧
      resumedSum (fun dc _ => dc.pages) size uid trace.tail ≤
        paidAt (· = .deferredISC) uid trace.tail := by
  induction trace with
  | nil => exact ⟨le_rfl, le_rfl⟩
  | cons event trace ih =>
      obtain ⟨here, below⟩ := ih paid.of_cons
      refine ⟨?_, here⟩
      cases event with
      | serve item =>
          cases item with
          | custom dc =>
              obtain ⟨held, left, before, rfl, -⟩ := paid [] dc trace rfl
              rw [paidAt_of_none _ rfl, paidAt_charge]
              simp only [resumedSum, decide_true, true_and]
              exact Nat.add_le_add_left below _
          | _ => exact here
      | charge site payer held paid left => exact here.trans (Nat.le_add_left _ _)
      | _ => exact here

theorem resumedSum_le_add {f g h : DeferredCustom → Nat → Nat}
    (le : ∀ dc n, f dc n ≤ g dc n + h dc n) (size : List Event → DeferredCustom → Nat)
    (uid : UserID) (trace : List Event) :
    resumedSum f size uid trace ≤ resumedSum g size uid trace + resumedSum h size uid trace := by
  induction trace with
  | nil => exact Nat.zero_le _
  | cons event trace ih =>
      cases event with
      | serve item =>
          cases item with
          | custom dc =>
              have here := le dc (size trace dc)
              simp only [resumedSum]
              split <;> omega
          | _ => exact ih
      | _ => exact ih

theorem PaidOnResume.act {s s' : CreditScheduler} (step : Act p s s')
    (paid : PaidOnResume s.trace) : PaidOnResume s'.trace := by
  cases step with
  | create other =>
      rw [getOrCreateUser_trace]
      exact paid
  | activate other getTick known =>
      unfold CreditScheduler.activate
      split
      · exact paid
      · simp only
        split
        · exact paid
        · exact paid.cons nofun
  | charge | phase => exact paid.cons nofun
  | emit event plain => exact paid.cons plain
  | resume dc held left earlier charged rest =>
      intro later dc' earlier' h
      cases later with
      | nil =>
          obtain ⟨same, rfl⟩ := List.cons.inj h
          cases same
          exact ⟨held, left, earlier, charged, rest⟩
      | cons first later => exact paid later dc' earlier' (List.cons.inj h).2
  | _ => exact paid

theorem effect_credit (uid : UserID) {reset : Bool} {s s' : CreditScheduler}
    (step : Effect p reset s s') :
    (s'.account uid).credit + consumed uid s'.trace ≤
      (s.account uid).credit + consumed uid s.trace +
        (if phases s'.trace = phases s.trace then 0
          else (s'.account uid).credit - (s.account uid).credit) := by
  cases step with
  | frame h =>
      simp only [books, Books.mk.injEq] at h
      obtain ⟨-, balance, -, -, trace⟩ := h
      have same := congrFun balance uid
      simp only [UserAccount.balance, Prod.mk.injEq] at same
      rw [same.1, trace]
      exact Nat.le_add_right _ _
  | create other =>
      rw [getOrCreateUser_trace]
      refine le_trans (Nat.add_le_add_right ?_ _) (Nat.le_add_right _ _)
      rcases getOrCreateUser_account p other uid s with same | ⟨-, -, fresh⟩
      · rw [same]
      · rw [fresh]
        exact Nat.zero_le _
  | charge site cls other pages held =>
      refine le_trans ?_ (Nat.le_add_right _ _)
      unfold CreditScheduler.charge
      rw [emit_account, emit_trace, modify_trace, consumed_charge, modify_account]
      by_cases same : uid = other
      · subst same
        have covered := sub64_add_cancel held
        rw [if_pos rfl, if_pos rfl]
        simp only [UserAccount.pay]
        omega
      · rw [if_neg same, if_neg (Ne.symm same), Nat.zero_add]
  | activate other getTick =>
      obtain ⟨-, trace⟩ := activate_trace (p := p) (s := s) getTick uid other
      have less : ((s.activate p getTick other).account uid).credit ≤
          (s.account uid).credit := activate_credit_le getTick other
      omega
  | serve | icl | check =>
      rw [emit_trace, consumed_of_none rfl, emit_account]
      exact Nat.le_add_right _ _
  | phase now started due seen =>
      have changed : phases (s.refillPhase p).trace ≠ phases s.trace := by
        rw [phases_refillPhase]
        omega
      have trace : consumed uid (s.refillPhase p).trace = consumed uid s.trace :=
        consumed_of_none rfl _
      rw [if_neg changed, trace]
      omega
  | resetStat getTick allowed =>
      refine le_trans (Nat.add_le_add_right ?_ _) (Nat.le_add_right _ _)
      unfold CreditScheduler.resetStatValues mapUsers
      simp only
      split
      · exact Nat.zero_le _
      · exact le_rfl

theorem history_credit (uid : UserID) {reset : Bool} {s t : CreditScheduler}
    {history : List CreditScheduler} (chain : (s :: history).IsChain (Effect p reset))
    (last : (s :: history).getLast? = some t) :
    (t.account uid).credit + consumed uid t.trace ≤
      (s.account uid).credit + consumed uid s.trace + grantedTo uid (s :: history) := by
  induction history generalizing s with
  | nil =>
      cases last
      exact Nat.le_add_right _ _
  | cons u rest ih =>
      obtain ⟨first, later⟩ := List.isChain_cons_cons.1 chain
      have step := effect_credit uid first
      have run := ih later (by rwa [List.getLast?_cons_cons] at last)
      rw [grantedTo]
      omega

end Sums

/-! ## Whole runs -/

section Runs

variable {p : Params} {uids : List UserID} {profile : UserID → Profile} {w : World}

structure Held (p : Params) (s : CreditScheduler) (w : World) : Prop where
  run : Runs p true s w.scheduler
  settled : ∀ a ∈ w.accesses, a.uid ≠ 0 → a.Settled
  deferred : ∀ rc ∈ w.contexts, rc.entry.pages = rc.moves rc.resultSize
  paid : ∀ uid ≠ 0, servedPages Access.pages uid (w.accesses.filter Access.covered) ≤
    paidAt (· = .useCreditISC) uid w.scheduler.trace

theorem Held.extends {s : CreditScheduler} {w' : World} (gates : Held p s w)
    (step : Extends s p w w') : Held p s w' := by
  have kept : ∀ uid, paidAt (· = .useCreditISC) uid w.scheduler.trace ≤
      paidAt (· = .useCreditISC) uid w'.scheduler.trace := fun uid =>
    paidAt_suffix _ step.trace
  have deferred : ∀ rc ∈ w'.contexts, rc.entry.pages = rc.moves rc.resultSize := fun rc hmem =>
    (step.deferred rc hmem).elim (gates.deferred rc) id
  rcases step.logged with same | ⟨a, logged, charged⟩
  · refine ⟨step.run, ?_, deferred, fun uid user => ?_⟩
    · rw [same]
      exact gates.settled
    · rw [same]
      exact (gates.paid uid user).trans (kept uid)
  · refine ⟨step.run, ?_, deferred, fun uid user => ?_⟩
    · rw [logged]
      exact List.forall_mem_cons.2 ⟨fun other => (charged other).1, gates.settled⟩
    · rw [logged]
      by_cases own : a.uid = uid
      · subst own
        obtain ⟨-, earlier, held, left, trace, pays⟩ := charged user
        by_cases covered : a.covered = true
        · rw [List.filter_cons_of_pos covered, pays covered, paidAt_charge]
          simp only [servedPages, decide_true, true_and, if_true]
          exact Nat.add_le_add_left ((gates.paid _ user).trans (paidAt_suffix _ trace)) _
        · rw [List.filter_cons_of_neg covered]
          exact (gates.paid _ user).trans (kept _)
      · refine le_trans ?_ ((gates.paid uid user).trans (kept uid))
        rw [List.filter_cons]
        split
        · simp [servedPages, own]
        · exact le_rfl

theorem Calls.held (calls : Calls p (World.start p uids profile) w) :
    Held p (CreditScheduler.start p uids profile) w := by
  induction calls with
  | refl =>
      exact ⟨.refl _, fun a hmem => absurd hmem List.not_mem_nil,
        fun rc hmem => absurd hmem List.not_mem_nil, fun _ _ => Nat.zero_le _⟩
  | next env call _ icl resume iscCallback ih =>
      exact ih.extends (call.extends icl resume iscCallback ih.run)

theorem paidOnResume_of_runs {s : CreditScheduler}
    (run : Runs p true (CreditScheduler.start p uids profile) s) : PaidOnResume s.trace := by
  have kept : ∀ t t', Act p t t' → PaidOnResume t.trace → PaidOnResume t'.trace :=
    fun _ _ => PaidOnResume.act
  refine invariant_of_steps kept run.acts ?_
  rw [(start_fresh p uids profile).trace]
  intro later dc earlier h
  simp at h

theorem Calls.granted (calls : Calls p (World.start p uids profile) w) {uid : UserID}
    (user : uid ≠ 0) (size : List Event → DeferredCustom → Nat)
    {history : List CreditScheduler}
    (chain : (CreditScheduler.start p uids profile :: history).IsChain (Effect p true))
    (last : (CreditScheduler.start p uids profile :: history).getLast? = some w.scheduler) :
    servedPages Access.pages uid (w.accesses.filter Access.covered) + movedPages w size uid +
        hostPages uid w.scheduler.trace ≤
      grantedTo uid (CreditScheduler.start p uids profile :: history) +
        grownPages w size uid := by
  have held := calls.held
  have direct := held.paid uid user
  have resumed := (resumedSum_le_paidAt size uid (paidOnResume_of_runs held.run)).1
  have moved := resumedSum_le_add (f := movedBy w.contexts) (g := fun dc _ => dc.pages)
    (h := fun dc n => movedBy w.contexts dc n - dc.pages)
    (fun dc n => by omega) size uid w.scheduler.trace
  have spent := paidAt_add_le uid (· = .useCreditISC) (· = .deferredISC)
    (fun site => site = .hostQueue ∨ site = .deferredQueue)
    (fun site => by cases site <;> decide) w.scheduler.trace
  have total := history_credit uid chain last
  have fresh := start_fresh p uids profile
  have none : consumed uid [] = 0 := rfl
  rw [fresh.credit, fresh.trace, none] at total
  unfold hostPages movedPages grownPages
  omega

/-- In every run a covered access is charged the pages it asks for and an uncovered one
nothing, a transfer is resumed directly behind a charge of the pages its result had when it
was left to the scheduler, and what is served so and the host pages together stay within the
granted credit, but for the pages by which results have grown meanwhile. -/
theorem gates_hold_credit (p : Params) (uids : List UserID) (profile : UserID → Profile)
    (w : World) (calls : Calls p (World.start p uids profile) w) (uid : UserID)
    (user : uid ≠ 0) :
    (∀ a ∈ w.accesses, a.uid = uid → a.Settled) ∧ PaidOnResume w.scheduler.trace ∧
      (∀ rc ∈ w.contexts, rc.entry.pages = rc.moves rc.resultSize) ∧
      ∀ size history,
        (CreditScheduler.start p uids profile :: history).IsChain (Effect p true) →
        (CreditScheduler.start p uids profile :: history).getLast? = some w.scheduler →
          servedPages Access.pages uid (w.accesses.filter Access.covered) +
              movedPages w size uid + hostPages uid w.scheduler.trace ≤
            grantedTo uid (CreditScheduler.start p uids profile :: history) +
              grownPages w size uid := by
  refine ⟨fun a hmem own => ?_, paidOnResume_of_runs calls.held.run, calls.held.deferred,
    fun size history chain last => ?_⟩
  · exact calls.held.settled a hmem (own ▸ user)
  · exact calls.granted user size chain last

end Runs

/-! ## The first read of a user -/

def firstRead : World :=
  (Call.read 0 1001 1 0).run .small .idle (World.start .small [] fun _ => .standard)

theorem firstRead_calls : Calls .small (World.start .small [] fun _ => .standard) firstRead := by
  refine .next .idle (.read 0 1001 1 0) .refl ?_ ?_ ?_
  · exact fun req now u => Env.idle_quiet.icl req now u ▸ .refl _
  · exact fun dc now u => Env.idle_quiet.resume dc now u ▸ .refl _
  · exact fun ctx now u => Env.idle_quiet.iscCallback ctx now u ▸ .refl _

theorem firstRead_settled : ∃ a ∈ firstRead.accesses, a.uid = 1001 ∧ a.Settled := by
  have issued : ∃ a ∈ firstRead.accesses, a.uid = 1001 := by decide +kernel
  obtain ⟨a, hmem, own⟩ := issued
  have settled := (gates_hold_credit .small [] (fun _ => .standard) firstRead firstRead_calls
    1001 (by decide)).1
  exact ⟨a, hmem, own, settled a hmem own⟩

/-- It is let through, and nothing is charged. -/
theorem firstRead_uncharged :
    ¬ ∀ w, Calls .small (World.start .small [] fun _ => .standard) w →
      ∀ uid ≠ 0, (∀ a ∈ w.accesses, a.uid = uid → a.left + a.length = a.held) ∧
        ∀ size history,
          (CreditScheduler.start .small [] (fun _ => .standard) :: history).IsChain
            (Effect .small true) →
          (CreditScheduler.start .small [] (fun _ => .standard) :: history).getLast? =
            some w.scheduler →
          servedPages Access.length uid w.accesses + movedPages w size uid +
              hostPages uid w.scheduler.trace ≤
            grantedTo uid (CreditScheduler.start .small [] (fun _ => .standard) :: history) := by
  intro charged
  have exactly := (charged firstRead firstRead_calls 1001 (by decide)).1
  revert exactly
  decide +kernel

end SimpleSSD.ISC
