import SimpleSSD.HIL.Scheduler.TokenBucket

/-!
# Configured targets

`setUserIopsTarget` stores a target and the mode that goes with it, and leaves the
user in the class it is in.  No function of the scheduler moves a user to the
service-level class, so that a refill phase never reads the target: the user is
granted its share by weight, whatever the target is.
-/

namespace SimpleSSD.HIL.CreditScheduler

open SimpleSSD.Foundation Relation

variable {p : Params} {s s' : CreditScheduler} {uid : UserID}

def setUserIopsTarget (p : Params) (uid : UserID) (iops : ℚ≥0) (s : CreditScheduler) :
    CreditScheduler :=
  (s.getOrCreateUser p uid).modify uid fun acc =>
    { acc with sloMode := .iopsTarget, targetIOPS := iops }

theorem setUserIopsTarget_evolves {reset : Bool} (uid : UserID) (iops : ℚ≥0)
    (s : CreditScheduler) : Evolves p reset s (s.setUserIopsTarget p uid iops) :=
  (ReflTransGen.single (.create uid)).tail (.frame (books_modify _ uid _ fun _ => rfl))

/-! ## The class of a user -/

def BestEffort (s : CreditScheduler) : Prop := ∀ uid ∈ s.users, (s.account uid).isSLO = false

theorem BestEffort.of_kept (all : BestEffort s) (users : s'.users = s.users)
    (kept : ∀ uid, (s'.account uid).isSLO = (s.account uid).isSLO) : BestEffort s' := by
  intro uid hmem
  rw [kept]
  exact all uid (users ▸ hmem)

theorem BestEffort.effect {reset : Bool} (step : Effect p reset s s') (all : BestEffort s) :
    BestEffort s' := by
  cases step with
  | frame h =>
      simp only [books, Books.mk.injEq] at h
      obtain ⟨users, balance, -, -, -⟩ := h
      refine all.of_kept users fun uid => ?_
      have same := congrFun balance uid
      simp only [UserAccount.balance, Prod.mk.injEq] at same
      exact same.2.2.2
  | create other =>
      unfold getOrCreateUser
      split
      · exact all
      · intro uid hmem
        by_cases same : uid = other
        · rw [same]
          simp [Params.newAccount]
        · have old := (p.emplaceOrder_perm s.users other).mem_iff.1 hmem
          simp only [Function.update_of_ne same]
          exact all uid ((List.mem_cons.1 old).resolve_left same)
  | charge site cls other pages held =>
      exact all.of_kept rfl fun uid =>
        modify_field s other uid (f := (·.pay cls pages)) (·.isSLO) fun _ => rfl
  | activate other getTick =>
      exact all.of_kept (activate_users _ _) fun uid =>
        activate_field _ (·.isSLO) fun _ => rfl
  | serve item => exact all
  | icl req beginAt finishedAt => exact all
  | check now => exact all
  | phase now started due seen =>
      exact all.of_kept (refillGrants_users p s) (refillGrants_isSLO p s)
  | resetStat getTick allowed =>
      exact all.of_kept rfl fun uid =>
        mapUsers_field s uid (f := UserAccount.resetStat getTick) (·.isSLO) fun _ => rfl

theorem start_bestEffort (uids : List UserID) {profile : UserID → Profile}
    (be : ∀ uid, (profile uid).isSLO = false) : BestEffort (start p uids profile) := by
  have constructed : BestEffort (construct p) :=
    List.foldlRecOn statUsers _ (by intro uid hmem; exact absurd hmem List.not_mem_nil)
      fun s all uid _ => all.effect (.create uid : Effect p true s _)
  refine List.foldlRecOn uids _ constructed fun s all uid _ => ?_
  have created : BestEffort (s.getOrCreateUser p uid) :=
    all.effect (.create uid : Effect p true s _)
  intro other hmem
  rw [modify_account]
  split
  · exact be uid
  · exact created other hmem

theorem BestEffort.spill (all : BestEffort s) :
    spillToBE p (s.mapUsers UserAccount.age) = p.pagesPerPeriod := by
  have none : activeUsers true s = [] := by
    refine List.eq_nil_iff_forall_not_mem.2 fun uid hmem => ?_
    obtain ⟨user, -, slo⟩ := (mem_activeUsers s).1 hmem
    rw [all uid user] at slo
    contradiction
  have weight : s.activeWeight true = 0 := by
    rw [activeWeight_eq, none]
    rfl
  simp [spillToBE, weight]

/-! ## What the phases of a stretch grant -/

structure Served (uid : UserID) (s : CreditScheduler) : Prop where
  user : uid ∈ s.users
  active : (s.account uid).isActive = true
  weight : 0 < (s.account uid).weight
  room : (s.account uid).credit < (s.account uid).creditCap

def weightShare (p : Params) (uid : UserID) (s : CreditScheduler) : ℚ≥0 :=
  p.pagesPerPeriod * ((s.account uid).weight / s.activeWeight false)

def grantedTo (uid : UserID) : List CreditScheduler → Nat
  | s :: t :: rest =>
      (if phases t.trace = phases s.trace then 0
        else (t.account uid).credit - (s.account uid).credit) + grantedTo uid (t :: rest)
  | _ => 0

def sharesOf (p : Params) (uid : UserID) : List CreditScheduler → ℚ≥0
  | s :: t :: rest =>
      (if phases t.trace = phases s.trace then 0 else weightShare p uid s) +
        sharesOf p uid (t :: rest)
  | _ => 0

theorem pagesPerPeriod_pos (p : Params) : 0 < p.pagesPerPeriod := by
  have period : (0 : ℚ≥0) < p.periodTicks := by exact_mod_cast p.periodTicks_pos
  have second : (0 : ℚ≥0) < p.ticksPerSec := by exact_mod_cast p.ticksPerSec_pos
  have pages : (0 : ℚ≥0) < pagesPerSec := by exact_mod_cast (by decide : 0 < pagesPerSec)
  exact div_pos (mul_pos pages period) second

theorem served_phase (all : BestEffort s) (before : Served uid s)
    (after : Served uid (s.refillPhase p)) :
    ((s.refillPhase p).account uid).credit =
        (s.account uid).credit + ⌊(s.account uid).carry + weightShare p uid s⌋₊ ∧
      (⌊(s.account uid).carry + weightShare p uid s⌋₊ : ℚ≥0) +
        ((s.refillPhase p).account uid).carry = (s.account uid).carry + weightShare p uid s := by
  have be := all uid before.user
  have active : uid ∈ activeUsers false s :=
    (mem_activeUsers s).2 ⟨before.user, before.active, be⟩
  have weight : 0 < s.activeWeight false := by
    rw [activeWeight_eq]
    refine before.weight.trans_le (List.le_sum_of_mem ?_)
    exact List.mem_map_of_mem (f := fun uid => (s.account uid).weight) active
  have spill : 0 < spillToBE p (s.mapUsers UserAccount.age) := by
    rw [all.spill]
    exact pagesPerPeriod_pos p
  have share : beShare p s uid = weightShare p uid s := by
    rw [beShare, if_pos ⟨active, spill, weight⟩, all.spill, weightShare]
  have credit : ((s.refillPhase p).account uid).credit =
      (s.account uid).credit + phaseGrant p s uid := refillGrants_credit p s uid
  have grant : phaseGrant p s uid = ⌊(s.account uid).carry + weightShare p uid s⌋₊ := by
    have whole := phaseGrant_of_share active spill weight
    rw [share] at whole
    rw [whole]
    refine min_eq_left (not_lt.1 fun cut => ?_)
    have full := after.room
    rw [credit, whole, min_eq_right cut.le, phase_account, refillGrants_creditCap,
      UserAccount.credit_add_headroom _ before.room.le] at full
    exact lt_irrefl _ full
  have total := phase_credit_add_carry (p := p) be
  rw [credit, grant, share] at total
  refine ⟨by rw [credit, grant], ?_⟩
  push_cast at total
  rw [add_assoc, add_assoc] at total
  exact add_left_cancel total

theorem effect_served {reset : Bool} (step : Effect p reset s s')
    (before : Served uid s) (after : Served uid s') :
    phases s'.trace = phases s.trace ∧ (s'.account uid).carry = (s.account uid).carry ∨
      phases s'.trace = phases s.trace + 1 ∧ s' = s.refillPhase p := by
  cases step with
  | frame h =>
      simp only [books, Books.mk.injEq] at h
      obtain ⟨-, balance, -, -, trace⟩ := h
      have same := congrFun balance uid
      simp only [UserAccount.balance, Prod.mk.injEq] at same
      exact .inl ⟨by rw [trace], same.2.2.1⟩
  | create other =>
      unfold getOrCreateUser
      split
      · exact .inl ⟨rfl, rfl⟩
      next new =>
        have ne : uid ≠ other := ne_of_mem_of_not_mem before.user new
        exact .inl ⟨rfl, by simp [Function.update_of_ne ne]⟩
  | charge site cls other pages held =>
      refine .inl ⟨by simp [CreditScheduler.charge, Event.phases], ?_⟩
      exact modify_field s other uid (f := (·.pay cls pages)) (·.carry) fun _ => rfl
  | activate other getTick =>
      exact .inl ⟨(activate_trace getTick uid other).1, activate_field _ (·.carry) fun _ => rfl⟩
  | serve item => exact .inl ⟨by simp [Event.phases], rfl⟩
  | icl req beginAt finishedAt => exact .inl ⟨by simp [Event.phases], rfl⟩
  | check now => exact .inl ⟨by simp [Event.phases], rfl⟩
  | phase now started due seen => exact .inr ⟨phases_refillPhase s, rfl⟩
  | resetStat getTick allowed =>
      have active := after.active
      simp [CreditScheduler.resetStatValues, mapUsers, before.user, UserAccount.resetStat]
        at active

theorem granted_add_carry {a t : CreditScheduler} {stretch : List CreditScheduler}
    {reset : Bool} (chain : (a :: stretch).IsChain (Effect p reset))
    (all : BestEffort a) (served : ∀ s ∈ a :: stretch, Served uid s)
    (last : (a :: stretch).getLast? = some t) :
    phases a.trace ≤ phases t.trace ∧
      (grantedTo uid (a :: stretch) : ℚ≥0) + (t.account uid).carry =
        (a.account uid).carry + sharesOf p uid (a :: stretch) ∧
      ((a.account uid).carry < 1 ∨ phases a.trace < phases t.trace →
        (t.account uid).carry < 1) := by
  induction stretch generalizing a with
  | nil =>
      cases last
      refine ⟨le_rfl, by simp [grantedTo, sharesOf], fun h => h.resolve_right (lt_irrefl _)⟩
  | cons b rest ih =>
      obtain ⟨first, later⟩ := List.isChain_cons_cons.1 chain
      obtain ⟨before, after⟩ := List.forall_mem_cons.1 served
      have here := after b List.mem_cons_self
      obtain ⟨mono, total, fraction⟩ := ih later (all.effect first) after
        (by rwa [List.getLast?_cons_cons] at last)
      rcases effect_served first before here with ⟨quiet, carry⟩ | ⟨phase, rfl⟩
      · rw [grantedTo, sharesOf, if_pos quiet, if_pos quiet, Nat.zero_add, zero_add, ← carry,
          ← quiet]
        exact ⟨mono, total, fraction⟩
      · have changed : phases (a.refillPhase p).trace ≠ phases a.trace := by omega
        obtain ⟨credit, split⟩ := served_phase all before here
        have whole := Nat.lt_floor_add_one ((a.account uid).carry + weightShare p uid a)
        generalize ⌊(a.account uid).carry + weightShare p uid a⌋₊ = grant at credit split whole
        refine ⟨by omega, ?_, fun _ => fraction (.inl ?_)⟩
        · rw [grantedTo, sharesOf, if_neg changed, if_neg changed, credit,
            Nat.add_sub_cancel_left, Nat.cast_add, add_assoc, total, ← add_assoc, split,
            ← add_assoc]
        · rw [← split] at whole
          exact lt_of_add_lt_add_left whole

/-- A stretch of `n` phases after the call, in which the user is served throughout. -/
structure Follows (p : Params) (uid : UserID) (iops : ℚ≥0) (n : Nat) (s a t : CreditScheduler)
    (stretch : List CreditScheduler) : Prop where
  run : ∃ run, (s.setUserIopsTarget p uid iops :: run).IsChain (Effect p true) ∧
    a :: stretch <:+: s.setUserIopsTarget p uid iops :: run
  last : (a :: stretch).getLast? = some t
  served : ∀ u ∈ a :: stretch, Served uid u
  counted : phases t.trace = phases a.trace + n

def Honoured (p : Params) (uid : UserID) (iops : ℚ≥0) (n : Nat)
    (stretch : List CreditScheduler) : Prop :=
  ⌊n * (iops * p.periodSec)⌋₊ ≤ grantedTo uid stretch + 1

/-- A target is met exactly where the shares by weight come up to it. -/
theorem iopsTarget_honoured_iff (p : Params) (uids : List UserID) (profile : UserID → Profile)
    (be : ∀ uid, (profile uid).isSLO = false) (s : CreditScheduler)
    (reached : Evolves p true (start p uids profile) s) (uid : UserID) (iops : ℚ≥0) (n : Nat)
    (a t : CreditScheduler) (stretch : List CreditScheduler)
    (follows : Follows p uid iops n s a t stretch) :
    Honoured p uid iops n (a :: stretch) ↔
      ⌊n * (iops * p.periodSec)⌋₊ ≤
        ⌊(a.account uid).carry + sharesOf p uid (a :: stretch)⌋₊ + 1 := by
  obtain ⟨run, chain, inside⟩ := follows.run
  have kept : ∀ u u', Effect p true u u' → BestEffort u → BestEffort u' :=
    fun _ _ => BestEffort.effect
  have configured : BestEffort (s.setUserIopsTarget p uid iops) :=
    invariant_of_steps kept (reached.trans (setUserIopsTarget_evolves uid iops s))
      (start_bestEffort uids be)
  have all := forall_of_history kept chain configured a (inside.subset List.mem_cons_self)
  have stretch := List.IsChain.infix chain inside
  obtain ⟨mono, total, fraction⟩ := granted_add_carry stretch all follows.served follows.last
  unfold Honoured
  cases n with
  | zero => simp
  | succ n =>
      have counted := follows.counted
      have less : (t.account uid).carry < 1 := fraction (.inr (by omega))
      rw [← total, add_comm (_ : ℚ≥0), Nat.floor_add_natCast zero_le,
        Nat.floor_eq_zero.2 less, Nat.zero_add]

/-! ## Two users share twelve pages a phase -/

def TargetsFit (p : Params) (s : CreditScheduler) : Prop :=
  (s.users.map fun uid => (s.account uid).targetIOPS * p.periodSec).sum ≤ p.pagesPerPeriod

def twoUsers : CreditScheduler :=
  (Op.ensureActiveUser 0 1002).run .small .idle
    ((Op.ensureActiveUser 0 1001).run .small .idle (construct .small))

theorem twoUsers_runs : Runs .small true (start .small [] fun _ => .standard) twoUsers :=
  ((Runs.refl _).quiet Env.idle_quiet _ (by simp)).quiet Env.idle_quiet _ (by simp)

/-- The states of one phase after user 1001 was given a target. -/
def targetPhase (iops : ℚ≥0) : List CreditScheduler :=
  let configured := twoUsers.setUserIopsTarget .small 1001 iops
  let due := configured.emit (.refillCheck 1000)
  [configured, due, due.refillPhase .small]

instance (uid : UserID) (s : CreditScheduler) : Decidable (Served uid s) :=
  decidable_of_iff (uid ∈ s.users ∧ (s.account uid).isActive = true ∧
    0 < (s.account uid).weight ∧ (s.account uid).credit < (s.account uid).creditCap)
    ⟨fun h => ⟨h.1, h.2.1, h.2.2.1, h.2.2.2⟩, fun h => ⟨h.user, h.active, h.weight, h.room⟩⟩

theorem targetPhase_follows (iops : ℚ≥0) (served : ∀ u ∈ targetPhase iops, Served 1001 u)
    {last : CreditScheduler} (h : (targetPhase iops).getLast? = some last)
    (one : phases last.trace = 1) :
    Follows .small 1001 iops 1 twoUsers (twoUsers.setUserIopsTarget .small 1001 iops) last
      (targetPhase iops).tail where
  run := by
    refine ⟨(targetPhase iops).tail, ?_, List.infix_refl _⟩
    simp only [targetPhase, List.tail_cons, List.isChain_cons_cons, List.isChain_singleton,
      and_true]
    refine ⟨.check 1000, .phase 1000 rfl ?_ List.mem_cons_self⟩
    change (twoUsers.getOrCreateUser .small 1001).lastGlobalRefillTick ≤ 1000
    decide
  last := h
  served := served
  counted := one

/-- A target of four pages a phase is met by the share of six, … -/
theorem iopsTarget_honoured_small :
    Honoured .small 1001 4000 1 (targetPhase 4000) :=
  (iopsTarget_honoured_iff .small [] (fun _ => .standard) (fun _ => rfl) twoUsers
    twoUsers_runs.evolves 1001 4000 1 _ _ _
    (targetPhase_follows 4000 (by decide +kernel) rfl (by decide +kernel))).2
    (by decide +kernel)

/-- … and one of ten pages is not, although it fits in the budget. -/
theorem iopsTarget_missed :
    ¬ ∀ s, Runs .small true (start .small [] fun _ => .standard) s →
      ∀ (uid : UserID) (iops : ℚ≥0) (n : Nat) (a t : CreditScheduler)
        (stretch : List CreditScheduler), Follows .small uid iops n s a t stretch →
        (∀ u ∈ a :: stretch, TargetsFit .small u) →
          Honoured .small uid iops n (a :: stretch) := by
  intro honoured
  have follows := targetPhase_follows 10000 (by decide +kernel) rfl (by decide +kernel)
  have fits : ∀ u ∈ targetPhase 10000, TargetsFit .small u := by
    unfold TargetsFit
    decide +kernel
  have met := honoured twoUsers twoUsers_runs 1001 10000 1 _ _ _ follows fits
  revert met
  unfold Honoured
  decide +kernel

end SimpleSSD.HIL.CreditScheduler
