import SimpleSSD.HIL.Scheduler.Phase
import SimpleSSD.HIL.Scheduler.Run

/-!
# The rate limit

Credit is granted only in refill phases, at most `pagesPerPeriod` of it in each,
and there are no more phases than periods since the timer was started.
-/

namespace SimpleSSD.HIL.CreditScheduler

open SimpleSSD.Foundation

/-! ## Totals over a trace -/

namespace Event

def phases : Event → Nat
  | .refill _ _ _ _ _ => 1
  | _ => 0

def granted : Event → Nat
  | .refill _ slo be _ _ => slo + be
  | _ => 0

def seen : Event → Tick
  | .refillCheck now => now
  | _ => 0

end Event

def phases (trace : List Event) : Nat := (trace.map Event.phases).sum

def granted (trace : List Event) : Nat := (trace.map Event.granted).sum

def largestNow (trace : List Event) : Tick := (trace.map Event.seen).foldr max 0

section Totals

variable (event : Event) (trace : List Event)

@[simp] theorem phases_cons : phases (event :: trace) = event.phases + phases trace := by
  simp [phases]

@[simp] theorem granted_cons :
    granted (event :: trace) = event.granted + granted trace := by
  simp [granted]

@[simp] theorem largestNow_cons :
    largestNow (event :: trace) = max event.seen (largestNow trace) := rfl

theorem le_largestNow {trace : List Event} {now : Tick}
    (h : .refillCheck now ∈ trace) : now ≤ largestNow trace := by
  induction trace with
  | nil => exact absurd h List.not_mem_nil
  | cons event trace ih =>
      rw [largestNow_cons]
      rcases List.mem_cons.1 h with rfl | later
      · exact le_max_left _ _
      · exact (ih later).trans (le_max_right _ _)

end Totals

/-! ## The invariant -/

def Event.WithinBudget (p : Params) : Event → Prop
  | .refill _ slo be carryBefore carryAfter =>
      (slo : ℚ≥0) + be + carryAfter ≤ p.pagesPerPeriod + carryBefore
  | _ => True

/-- The timer that started at `first` has fired every phase before the next one
and none that is not due. -/
structure Clock (p : Params) (first next : Tick) (trace : List Event) : Prop where
  started : ∀ tick, .timerStart tick ∈ trace ↔ tick = first
  next_eq : next = first + (phases trace + 1) * p.periodTicks
  due : phases trace = 0 ∨ first + phases trace * p.periodTicks ≤ largestNow trace

structure RateInv (p : Params) (s : CreditScheduler) : Prop where
  within : ∀ event ∈ s.trace, event.WithinBudget p
  total : (granted s.trace : ℚ≥0) + s.beCarry ≤ phases s.trace * p.pagesPerPeriod
  stopped : s.timerStarted = false →
    phases s.trace = 0 ∧ ∀ tick, .timerStart tick ∉ s.trace
  started : s.timerStarted = true →
    ∃ first, Clock p first s.lastGlobalRefillTick s.trace

section Invariant

variable {p : Params} {s s' : CreditScheduler}

theorem beCarry_congr (users : s'.users = s.users)
    (carry : ∀ uid, (s'.account uid).carry = (s.account uid).carry)
    (isSLO : ∀ uid, (s'.account uid).isSLO = (s.account uid).isSLO) :
    s'.beCarry = s.beCarry := by
  simp [beCarry, classUsers, users, carry, isSLO]

theorem beCarry_modify (uid : UserID) (f : UserAccount → UserAccount)
    (carry : ∀ acc, (f acc).carry = acc.carry)
    (isSLO : ∀ acc, (f acc).isSLO = acc.isSLO) : (s.modify uid f).beCarry = s.beCarry :=
  beCarry_congr rfl (fun other => modify_field s uid other (·.carry) carry)
    fun other => modify_field s uid other (·.isSLO) isSLO

theorem beCarry_getOrCreateUser (uid : UserID) :
    (s.getOrCreateUser p uid).beCarry = s.beCarry := by
  unfold getOrCreateUser
  split
  · rfl
  · rename_i absent
    simp only [beCarry, classUsers, sum_filter_map]
    rw [((p.emplaceOrder_perm s.users uid).map _).sum_eq]
    have rest : ∀ other ∈ s.users,
        Function.update s.account uid p.newAccount other = s.account other :=
      fun other hmem =>
        Function.update_of_ne (ne_of_mem_of_not_mem hmem absent) _ _
    have fresh : p.newAccount.carry = 0 := rfl
    rw [List.map_cons, List.sum_cons, Function.update_self, fresh, ite_self, zero_add]
    congr 1
    refine List.map_congr_left fun other hmem => ?_
    rw [rest other hmem]

theorem RateInv.extend (inv : RateInv p s) (events : List Event)
    (trace : s'.trace = events ++ s.trace) (quiet : ∀ event ∈ events,
      event.phases = 0 ∧ event.granted = 0 ∧ event.WithinBudget p ∧
        ∀ tick, event ≠ .timerStart tick)
    (carry : s'.beCarry = s.beCarry) (timer : s'.timerStarted = s.timerStarted)
    (next : s'.lastGlobalRefillTick = s.lastGlobalRefillTick) : RateInv p s' := by
  have totals : phases s'.trace = phases s.trace ∧ granted s'.trace = granted s.trace ∧
      largestNow s.trace ≤ largestNow s'.trace := by
    rw [trace]
    clear trace
    induction events with
    | nil => exact ⟨rfl, rfl, le_rfl⟩
    | cons event events ih =>
        obtain ⟨nophase, nogrant, -, -⟩ := quiet event List.mem_cons_self
        obtain ⟨hp, hg, hl⟩ := ih fun e he => quiet e (List.mem_cons_of_mem _ he)
        refine ⟨?_, ?_, hl.trans ?_⟩
        · simp [nophase, hp]
        · simp [nogrant, hg]
        · simp
  have started_iff : ∀ tick, .timerStart tick ∈ s'.trace ↔ .timerStart tick ∈ s.trace := by
    intro tick
    rw [trace, List.mem_append, or_iff_right]
    exact fun hnew => (quiet _ hnew).2.2.2 tick rfl
  obtain ⟨hp, hg, hl⟩ := totals
  refine ⟨?_, ?_, ?_, ?_⟩
  · intro event hmem
    rw [trace] at hmem
    rcases List.mem_append.1 hmem with hnew | hold
    · exact (quiet event hnew).2.2.1
    · exact inv.within event hold
  · rw [hp, hg, carry]
    exact inv.total
  · intro stopped
    obtain ⟨none, absent⟩ := inv.stopped (timer ▸ stopped)
    exact ⟨hp.trans none, fun tick hmem => absent tick ((started_iff tick).1 hmem)⟩
  · intro started
    obtain ⟨first, clock⟩ := inv.started (timer ▸ started)
    refine ⟨first, fun tick => (started_iff tick).trans (clock.started tick), ?_, ?_⟩
    · rw [next, hp]
      exact clock.next_eq
    · rw [hp]
      exact clock.due.imp_right fun h => h.trans hl

theorem RateInv.activate (inv : RateInv p s) (uid : UserID) (getTick : Tick) :
    RateInv p (s.activate p getTick uid) := by
  unfold CreditScheduler.activate
  split
  · exact inv
  · have carry : (s.modify uid (UserAccount.activate getTick)).beCarry = s.beCarry :=
      beCarry_modify uid _ (fun _ => rfl) fun _ => rfl
    simp only
    split
    · exact inv.extend [] rfl (by simp) carry rfl rfl
    · rename_i stopped
      obtain ⟨none, absent⟩ := inv.stopped (by simpa using stopped)
      refine ⟨?_, ?_, ?_, ?_⟩
      · intro event hmem
        rcases List.mem_cons.1 hmem with rfl | hold
        · trivial
        · exact inv.within event hold
      · have total := inv.total
        rw [← carry] at total
        change ((granted (.timerStart getTick :: s.trace) : Nat) : ℚ≥0) +
          (s.modify uid (UserAccount.activate getTick)).beCarry ≤
            (phases (.timerStart getTick :: s.trace) : Nat) * p.pagesPerPeriod
        simpa [Event.granted, Event.phases] using total
      · intro h
        exact absurd (h : true = false) Bool.noConfusion
      · intro _
        refine ⟨getTick, ?_, ?_, ?_⟩
        · intro tick
          simp [startTimer, absent]
        · simp [startTimer, Event.phases, none]
        · left
          simp [startTimer, Event.phases, none]

theorem RateInv.phase (inv : RateInv p s) {now : Tick} (started : s.timerStarted = true)
    (due : s.lastGlobalRefillTick ≤ now) (seen : .refillCheck now ∈ s.trace) :
    RateInv p (s.refillPhase p) := by
  obtain ⟨account, grants⟩ := s.refillGrants_eq p
  have budget := phase_within_budget p s
  have trace : (s.refillPhase p).trace =
      .refill s.lastGlobalRefillTick (grantedBetween true s (s.refillGrants p))
        (grantedBetween false s (s.refillGrants p)) s.beCarry
        (s.refillGrants p).beCarry :: s.trace := rfl
  have carry : (s.refillPhase p).beCarry = (s.refillGrants p).beCarry :=
    beCarry_congr rfl (fun _ => rfl) (fun _ => rfl)
  refine ⟨?_, ?_, ?_, ?_⟩
  · intro event hmem
    rw [trace] at hmem
    rcases List.mem_cons.1 hmem with rfl | hold
    · exact budget
    · exact inv.within event hold
  · rw [carry, trace, phases_cons, granted_cons]
    simp only [Event.phases, Event.granted]
    push_cast
    calc _ = (grantedBetween true s (s.refillGrants p) : ℚ≥0) +
          grantedBetween false s (s.refillGrants p) + (s.refillGrants p).beCarry +
          granted s.trace := by ring
      _ ≤ p.pagesPerPeriod + s.beCarry + granted s.trace := by gcongr
      _ = p.pagesPerPeriod + ((granted s.trace : ℚ≥0) + s.beCarry) := by ring
      _ ≤ p.pagesPerPeriod + phases s.trace * p.pagesPerPeriod := by
          gcongr
          exact inv.total
      _ = (1 + phases s.trace) * p.pagesPerPeriod := by ring
  · intro stopped
    have : (s.refillPhase p).timerStarted = s.timerStarted := by
      simp [refillPhase, grants]
    rw [this, started] at stopped
    contradiction
  · intro _
    obtain ⟨first, clock⟩ := inv.started started
    have seen_le := le_largestNow seen
    have next := clock.next_eq
    refine ⟨first, ?_, ?_, Or.inr ?_⟩
    · intro tick
      rw [trace, ← clock.started tick]
      simp
    · rw [trace, phases_cons]
      change s.lastGlobalRefillTick + p.periodTicks = _
      rw [next, Event.phases]
      ring
    · simp only [trace, phases_cons, largestNow_cons, Event.phases]
      refine le_trans ?_ (le_max_right _ _)
      rw [add_comm 1, ← next]
      exact due.trans seen_le

theorem RateInv.effect (step : Effect p false s s') (inv : RateInv p s) :
    RateInv p s' := by
  cases step with
  | frame h =>
      simp only [books, Books.mk.injEq] at h
      obtain ⟨users, balance, timer, next, trace⟩ := h
      have same : ∀ uid, (s'.account uid).balance = (s.account uid).balance :=
        fun uid => congrFun balance uid
      simp only [UserAccount.balance, Prod.mk.injEq] at same
      exact inv.extend [] trace (by simp)
        (beCarry_congr users (fun uid => (same uid).2.2.1) fun uid => (same uid).2.2.2)
        timer next
  | create uid =>
      refine inv.extend [] ?_ (by simp) (beCarry_getOrCreateUser uid) ?_ ?_ <;>
      · unfold getOrCreateUser
        split <;> rfl
  | charge site cls uid pages held =>
      exact inv.extend [_] rfl (by simp [Event.phases, Event.granted,
        Event.WithinBudget]) (beCarry_modify uid _ (fun _ => rfl) fun _ => rfl) rfl rfl
  | activate uid getTick => exact inv.activate uid getTick
  | serve item =>
      exact inv.extend [_] rfl (by simp [Event.phases, Event.granted,
        Event.WithinBudget]) (beCarry_congr rfl (fun _ => rfl) fun _ => rfl) rfl rfl
  | icl req beginAt finishedAt =>
      exact inv.extend [_] rfl (by simp [Event.phases, Event.granted,
        Event.WithinBudget]) (beCarry_congr rfl (fun _ => rfl) fun _ => rfl) rfl rfl
  | check now =>
      exact inv.extend [_] rfl (by simp [Event.phases, Event.granted,
        Event.WithinBudget]) (beCarry_congr rfl (fun _ => rfl) fun _ => rfl) rfl rfl
  | phase now started due seen => exact inv.phase started due seen
  | resetStat getTick allowed => contradiction

theorem RateInv.fresh (fresh : Fresh s) : RateInv p s where
  within := by simp [fresh.trace]
  total := by
    have : s.beCarry = 0 := by simp [beCarry, fresh.carry]
    simp [fresh.trace, this, granted]
  stopped _ := by simp [fresh.trace, phases]
  started h := by simp [fresh.timerStarted] at h

theorem Runs.rateInv {uids : List UserID} {profile : UserID → Profile}
    (run : Runs p false (start p uids profile) s) : RateInv p s := by
  have kept : ∀ t t', Effect p false t t' → RateInv p t → RateInv p t' :=
    fun _ _ => RateInv.effect
  exact invariant_of_steps kept run.evolves (.fresh (start_fresh p uids profile))

end Invariant

/-- The rate limit over a run without a statistics reset: per phase, in total,
and in the number of phases. -/
theorem rate_limit (p : Params) (uids : List UserID) (profile : UserID → Profile)
    (s : CreditScheduler) (run : Runs p false (start p uids profile) s) :
    (∀ (phase : Tick) (slo be : Nat) (carryBefore carryAfter : ℚ≥0),
      .refill phase slo be carryBefore carryAfter ∈ s.trace →
        (slo : ℚ) + be + ((carryAfter : ℚ) - carryBefore) ≤ p.pagesPerPeriod) ∧
    (granted s.trace : ℚ≥0) ≤ phases s.trace * p.pagesPerPeriod ∧
    (∀ first, .timerStart first ∈ s.trace →
      phases s.trace ≤ (largestNow s.trace - first) / p.periodTicks) ∧
    ((∀ first, .timerStart first ∉ s.trace) → phases s.trace = 0) := by
  have inv := run.rateInv
  refine ⟨?_, ?_, ?_, ?_⟩
  · intro phase slo be carryBefore carryAfter hmem
    have within : (slo : ℚ≥0) + be + carryAfter ≤ p.pagesPerPeriod + carryBefore :=
      inv.within _ hmem
    have within : (slo : ℚ) + be + carryAfter ≤ p.pagesPerPeriod + carryBefore := by
      exact_mod_cast within
    linarith
  · exact le_self_add.trans inv.total
  · intro first hmem
    cases timer : s.timerStarted with
    | false => exact absurd hmem ((inv.stopped timer).2 first)
    | true =>
        obtain ⟨_, clock⟩ := inv.started timer
        obtain rfl := (clock.started first).1 hmem
        rw [Nat.le_div_iff_mul_le p.periodTicks_pos]
        rcases clock.due with none | due
        · simp [none]
        · exact Nat.le_sub_of_add_le' due
  · intro absent
    cases timer : s.timerStarted with
    | false => exact (inv.stopped timer).1
    | true =>
        obtain ⟨first, clock⟩ := inv.started timer
        exact absurd ((clock.started first).2 rfl) (absent first)

/-- One user reads two pages and two phases are caught up in one call. -/
def caughtUp : CreditScheduler :=
  (Op.tick 2500).run .small .idle
    ((Op.submitRequest 0 (.ofPages .read 1001 2)).run .small .idle (construct .small))

theorem caughtUp_runs : Runs .small false (start .small [] fun _ => .standard) caughtUp :=
  ((Runs.refl _).quiet Env.idle_quiet _ (by simp [Op.isReset])).quiet Env.idle_quiet _
    (by simp [Op.isReset])

theorem rate_limit_caughtUp :
    phases caughtUp.trace = 2 ∧ granted caughtUp.trace = 24 ∧
      (granted caughtUp.trace : ℚ≥0) ≤ phases caughtUp.trace * Params.small.pagesPerPeriod :=
  ⟨by decide +kernel, by decide +kernel,
    (rate_limit .small [] (fun _ => .standard) caughtUp caughtUp_runs).2.1⟩

end SimpleSSD.HIL.CreditScheduler
