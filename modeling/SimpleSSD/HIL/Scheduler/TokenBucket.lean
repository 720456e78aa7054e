import SimpleSSD.HIL.Scheduler.Balance
import SimpleSSD.HIL.Scheduler.Holdings
import SimpleSSD.HIL.Scheduler.RateLimit

/-!
# The token bucket of a best-effort user

A phase adds the whole pages of share and carry as far as the cap leaves room, and
keeps the rest as the next carry.  Where the cap stops a grant the carry takes the
pages that were not granted, so that it no longer is a fraction; where it does not,
cap and shares bound what the user can spend.
-/

namespace SimpleSSD.HIL.CreditScheduler

open SimpleSSD.Foundation

variable {p : Params} {s s' : CreditScheduler} {uid : UserID}

/-! ## One phase -/

def beShare (p : Params) (s : CreditScheduler) (uid : UserID) : ℚ≥0 :=
  if uid ∈ activeUsers false s ∧ 0 < spillToBE p (s.mapUsers UserAccount.age) ∧
      0 < s.activeWeight false then
    spillToBE p (s.mapUsers UserAccount.age) *
      ((s.account uid).weight / s.activeWeight false)
  else 0

theorem phase_account (uid : UserID) :
    (s.refillPhase p).account uid = (s.refillGrants p).account uid := rfl

theorem phase_credit_add_carry (be : (s.account uid).isSLO = false) :
    (((s.refillPhase p).account uid).credit : ℚ≥0) + ((s.refillPhase p).account uid).carry =
      (s.account uid).credit + (s.account uid).carry + beShare p s uid := by
  rw [phase_account, refillGrants_credit, Nat.cast_add, add_assoc, add_assoc,
    refillGrants_carry_of_not_slo p s uid be]
  rfl

theorem phaseGrant_of_share (active : uid ∈ activeUsers false s)
    (spill : 0 < spillToBE p (s.mapUsers UserAccount.age))
    (weight : 0 < s.activeWeight false) :
    phaseGrant p s uid =
      min ⌊(s.account uid).carry + beShare p s uid⌋₊ (s.account uid).headroom := by
  have slo : uid ∉ activeUsers true s := fun h => not_mem_activeUsers_true s uid active h
  unfold phaseGrant beShare
  simp only [slo, active, spill, weight, and_self, if_false, if_true, beAdd, beSum,
    aged_headroom, aged_weight, aged_activeWeight, aged_carry, add_comm]
  split
  next cut => exact (min_eq_right cut.le).symm
  next fits => exact (min_eq_left (not_lt.1 fits)).symm

theorem phaseGrant_eq (be : (s.account uid).isSLO = false) (fraction : (s.account uid).carry < 1) :
    phaseGrant p s uid =
      min ⌊(s.account uid).carry + beShare p s uid⌋₊ (s.account uid).headroom := by
  by_cases served : uid ∈ activeUsers false s ∧
      0 < spillToBE p (s.mapUsers UserAccount.age) ∧ 0 < s.activeWeight false
  · exact phaseGrant_of_share served.1 served.2.1 served.2.2
  · have slo : uid ∉ activeUsers true s := by simp [mem_activeUsers, be]
    have none : ⌊(s.account uid).carry⌋₊ = 0 := by
      rw [Nat.floor_eq_zero]
      exact fraction
    have share : beShare p s uid = 0 := if_neg served
    have grant : phaseGrant p s uid = 0 := by
      unfold phaseGrant
      simp only [slo, if_false]
      split_ifs with active distributes
      · exact absurd ⟨active, distributes⟩ served
      · rfl
      · rfl
    rw [grant, share, add_zero, none, Nat.zero_min]

def Room (p : Params) (s : CreditScheduler) (uid : UserID) : Prop :=
  (s.account uid).carry + beShare p s uid < (s.account uid).headroom + 1

instance (p : Params) (s : CreditScheduler) (uid : UserID) : Decidable (Room p s uid) :=
  inferInstanceAs (Decidable (_ < _))

theorem phase_carry_lt_one_iff (be : (s.account uid).isSLO = false)
    (fraction : (s.account uid).carry < 1) :
    ((s.refillPhase p).account uid).carry < 1 ↔ Room p s uid := by
  have total := refillGrants_carry_of_not_slo p s uid be
  rw [phaseGrant_eq be fraction] at total
  change _ = (s.account uid).carry + beShare p s uid at total
  rw [phase_account, ← add_lt_add_iff_left, total]
  unfold Room
  rw [← Nat.cast_one, ← Nat.cast_add, ← Nat.cast_add, ← Nat.floor_lt zero_le,
    ← Nat.floor_lt zero_le]
  omega

/-! ## Histories -/

def Fractions (s : CreditScheduler) : Prop :=
  ∀ uid ∈ s.users, (s.account uid).isSLO = false → (s.account uid).carry < 1

def CutsNoGrant (p : Params) (s t : CreditScheduler) : Prop :=
  phases t.trace ≠ phases s.trace →
    ∀ uid ∈ s.users, (s.account uid).isSLO = false → Room p s uid

theorem phases_refillPhase (s : CreditScheduler) :
    phases (s.refillPhase p).trace = phases s.trace + 1 := by
  rw [Nat.add_comm]
  rfl

theorem Fractions.of_carry (fractions : Fractions s)
    (kept : ∀ uid ∈ s'.users, (s'.account uid).isSLO = false →
      (s'.account uid).carry = 0 ∨ uid ∈ s.users ∧ (s.account uid).isSLO = false ∧
        (s'.account uid).carry = (s.account uid).carry) : Fractions s' := by
  intro uid hmem be
  rcases kept uid hmem be with zero | ⟨hold, beOld, same⟩
  · rw [zero]
    exact one_pos
  · rw [same]
    exact fractions uid hold beOld

theorem effect_fractions_iff {reset : Bool} (step : Effect p reset s s')
    (fractions : Fractions s) : Fractions s' ↔ CutsNoGrant p s s' := by
  have quiet : phases s'.trace = phases s.trace → Fractions s' →
      (Fractions s' ↔ CutsNoGrant p s s') := fun same fractions' =>
    ⟨fun _ changed => absurd same changed, fun _ => fractions'⟩
  cases step with
  | phase now started due seen =>
      constructor
      · intro fractions' _ uid hmem be
        refine (phase_carry_lt_one_iff be (fractions uid hmem be)).1 (fractions' uid ?_ ?_)
        · exact (refillGrants_users p s).symm ▸ hmem
        · exact (refillGrants_isSLO p s uid).trans be
      · intro cuts uid hmem be
        have hold : uid ∈ s.users := refillGrants_users p s ▸ hmem
        have beOld : (s.account uid).isSLO = false := (refillGrants_isSLO p s uid).symm.trans be
        refine (phase_carry_lt_one_iff beOld (fractions uid hold beOld)).2 ?_
        exact cuts (by rw [phases_refillPhase]; omega) uid hold beOld
  | frame h =>
      simp only [books, Books.mk.injEq] at h
      obtain ⟨users, balance, -, -, trace⟩ := h
      refine quiet (by rw [trace]) (fractions.of_carry fun uid hmem be => .inr ?_)
      have same := congrFun balance uid
      simp only [UserAccount.balance, Prod.mk.injEq] at same
      exact ⟨users ▸ hmem, same.2.2.2 ▸ be, same.2.2.1⟩
  | create other =>
      refine quiet ?_ (fractions.of_carry fun uid hmem be => ?_)
      · unfold getOrCreateUser
        split <;> rfl
      · unfold getOrCreateUser at hmem be ⊢
        split at hmem
        next old =>
          rw [if_pos old] at be ⊢
          exact .inr ⟨hmem, be, rfl⟩
        next new =>
          rw [if_neg new] at be ⊢
          by_cases same : uid = other
          · left
            rw [same]
            simp [Params.newAccount]
          · right
            simp only [Function.update_of_ne same] at be ⊢
            refine ⟨?_, be, trivial⟩
            have := (p.emplaceOrder_perm s.users other).mem_iff.1 hmem
            exact (List.mem_cons.1 this).resolve_left same
  | charge site cls other pages held =>
      refine quiet (by simp [CreditScheduler.charge, Event.phases])
        (fractions.of_carry fun uid hmem be => .inr ⟨hmem, ?_, ?_⟩)
      · rw [← be]
        exact (modify_field s other uid (f := (·.pay cls pages)) (·.isSLO) fun _ => rfl).symm
      · exact modify_field s other uid (f := (·.pay cls pages)) (·.carry) fun _ => rfl
  | activate other getTick =>
      refine quiet ?_ (fractions.of_carry fun uid hmem be => .inr ?_)
      · unfold CreditScheduler.activate
        split
        · rfl
        · dsimp only
          split
          · rfl
          · simp [startTimer, Event.phases]
      · rw [activate_users] at hmem
        rw [activate_field _ (·.isSLO) fun _ => rfl] at be
        exact ⟨hmem, be, activate_field _ (·.carry) fun _ => rfl⟩
  | serve item =>
      exact quiet (by simp [Event.phases])
        (fractions.of_carry fun uid hmem be => .inr ⟨hmem, be, rfl⟩)
  | icl req beginAt finishedAt =>
      exact quiet (by simp [Event.phases])
        (fractions.of_carry fun uid hmem be => .inr ⟨hmem, be, rfl⟩)
  | check now =>
      exact quiet (by simp [Event.phases])
        (fractions.of_carry fun uid hmem be => .inr ⟨hmem, be, rfl⟩)
  | resetStat getTick allowed =>
      refine quiet rfl (fractions.of_carry fun uid hmem be => .inl ?_)
      have users : uid ∈ s.users := hmem
      simp [CreditScheduler.resetStatValues, mapUsers, users, UserAccount.resetStat]

/-! ## What a stretch of a history charges -/

def potential (uid : UserID) (s : CreditScheduler) : ℚ≥0 :=
  (s.account uid).credit + (s.account uid).carry + consumed uid s.trace

theorem spillToBE_le (p : Params) (s : CreditScheduler) : spillToBE p s ≤ p.pagesPerPeriod := by
  by_cases weight : 0 < s.activeWeight true
  · exact le_add_self.trans (totalGranted_add_spill_le p s weight)
  · rw [spillToBE, if_neg weight]

theorem beShare_le (p : Params) (s : CreditScheduler) (uid : UserID) :
    beShare p s uid ≤ p.pagesPerPeriod * ((s.account uid).weight / s.activeWeight false) := by
  unfold beShare
  split
  · gcongr
    exact spillToBE_le p _
  · exact zero_le

theorem consumed_charge (site : ChargeSite) (other : UserID) (held paid left : Nat)
    (trace : List Event) :
    consumed uid (.charge site other held paid left :: trace) =
      (if other = uid then paid else 0) + consumed uid trace := by
  simp [consumed]

theorem consumed_of_none {event : Event} (h : event.charged = none) (trace : List Event) :
    consumed uid (event :: trace) = consumed uid trace := by
  simp [consumed, charges_cons_of_none trace h]

theorem emit_potential {event : Event} (nophase : event.phases = 0)
    (nocharge : event.charged = none) :
    phases (s.emit event).trace = phases s.trace ∧
      potential uid (s.emit event) ≤ potential uid s := by
  unfold potential
  rw [emit_trace, consumed_of_none nocharge, phases_cons, nophase, Nat.zero_add]
  exact ⟨rfl, le_rfl⟩

theorem activate_trace (getTick : Tick) (uid other : UserID) :
    phases (s.activate p getTick other).trace = phases s.trace ∧
      consumed uid (s.activate p getTick other).trace = consumed uid s.trace := by
  unfold CreditScheduler.activate
  split
  · exact ⟨rfl, rfl⟩
  · dsimp only
    split
    · exact ⟨rfl, rfl⟩
    · exact ⟨by simp [startTimer, Event.phases], consumed_of_none rfl _⟩

theorem activate_credit_le (getTick : Tick) (other : UserID) :
    ((s.activate p getTick other).account uid).credit ≤ (s.account uid).credit := by
  have taken : ((s.modify other (UserAccount.activate getTick)).account uid).credit ≤
      (s.account uid).credit := by
    rw [modify_account]
    split
    · exact Nat.zero_le _
    · exact le_rfl
  unfold CreditScheduler.activate
  split
  · exact le_rfl
  · dsimp only
    split
    · exact taken
    · exact taken

theorem effect_potential {reset : Bool} (step : Effect p reset s s') (hmem : uid ∈ s.users)
    (be : (s.account uid).isSLO = false) :
    (uid ∈ s'.users ∧ (s'.account uid).isSLO = false) ∧
      (phases s'.trace = phases s.trace ∧ potential uid s' ≤ potential uid s ∨
        phases s'.trace = phases s.trace + 1 ∧
          potential uid s' ≤ potential uid s + beShare p s uid) := by
  cases step with
  | frame h =>
      simp only [books, Books.mk.injEq] at h
      obtain ⟨users, balance, -, -, trace⟩ := h
      have same := congrFun balance uid
      simp only [UserAccount.balance, Prod.mk.injEq] at same
      refine ⟨⟨users ▸ hmem, same.2.2.2.trans be⟩, .inl ⟨by rw [trace], ?_⟩⟩
      rw [potential, potential, same.1, same.2.2.1, trace]
  | create other =>
      unfold getOrCreateUser
      split
      · exact ⟨⟨hmem, be⟩, .inl ⟨rfl, le_rfl⟩⟩
      next new =>
        have ne : uid ≠ other := ne_of_mem_of_not_mem hmem new
        refine ⟨⟨?_, ?_⟩, .inl ⟨rfl, ?_⟩⟩
        · exact (p.emplaceOrder_perm s.users other).mem_iff.2 (List.mem_cons_of_mem _ hmem)
        · simpa [Function.update_of_ne ne] using be
        · simp [potential, Function.update_of_ne ne]
  | charge site cls other pages held =>
      refine ⟨⟨hmem, ?_⟩, .inl ⟨by simp [CreditScheduler.charge, Event.phases], ?_⟩⟩
      · rw [← be]
        exact modify_field s other uid (f := (·.pay cls pages)) (·.isSLO) fun _ => rfl
      · unfold potential CreditScheduler.charge
        rw [emit_account, emit_trace, modify_trace, consumed_charge, modify_account]
        by_cases same : uid = other
        · rw [if_pos same, if_pos same.symm, same]
          have covered : sub64 (s.account other).credit pages + pages =
              (s.account other).credit := sub64_add_cancel held
          simp only [UserAccount.pay]
          generalize sub64 (s.account other).credit pages = left at covered ⊢
          rw [← covered]
          push_cast
          exact le_of_eq (by ring)
        · rw [if_neg same, if_neg (Ne.symm same), Nat.zero_add]
  | activate other getTick =>
      have quiet := activate_trace (p := p) (s := s) getTick uid other
      refine ⟨⟨by rw [activate_users]; exact hmem, ?_⟩, .inl ⟨quiet.1, ?_⟩⟩
      · rw [activate_field _ (·.isSLO) fun _ => rfl]
        exact be
      · unfold potential
        rw [quiet.2, activate_field _ (·.carry) fun _ => rfl]
        gcongr
        exact activate_credit_le _ _
  | serve item => exact ⟨⟨hmem, be⟩, .inl (emit_potential rfl rfl)⟩
  | icl req beginAt finishedAt => exact ⟨⟨hmem, be⟩, .inl (emit_potential rfl rfl)⟩
  | check now => exact ⟨⟨hmem, be⟩, .inl (emit_potential rfl rfl)⟩
  | phase now started due seen =>
      refine ⟨⟨?_, ?_⟩, .inr ⟨phases_refillPhase s, ?_⟩⟩
      · exact (refillGrants_users p s).symm ▸ hmem
      · exact (refillGrants_isSLO p s uid).trans be
      · have trace : consumed uid (s.refillPhase p).trace = consumed uid s.trace :=
          consumed_of_none rfl _
        unfold potential
        rw [phase_credit_add_carry be, trace]
        exact le_of_eq (by ring)
  | resetStat getTick allowed =>
      refine ⟨⟨hmem, ?_⟩, .inl ⟨rfl, ?_⟩⟩
      · rw [← be]
        exact mapUsers_field s uid (f := UserAccount.resetStat getTick) (·.isSLO) fun _ => rfl
      · have emptied : ((s.resetStatValues getTick).account uid).credit = 0 ∧
            ((s.resetStatValues getTick).account uid).carry = 0 := by
          simp [CreditScheduler.resetStatValues, mapUsers, hmem, UserAccount.resetStat]
        unfold potential
        rw [emptied.1, emptied.2]
        change _ ≤ (_ : ℚ≥0) + _ + (consumed uid s.trace : ℚ≥0)
        simp only [Nat.cast_zero, zero_add]
        exact le_add_self

def WeightsAre (uid : UserID) (weight active : Nat) (s t : CreditScheduler) : Prop :=
  phases t.trace ≠ phases s.trace →
    (s.account uid).weight = weight ∧ s.activeWeight false = active

theorem stretch_potential {reset : Bool} {weight active : Nat} {a t : CreditScheduler}
    {stretch : List CreditScheduler} (chain : (a :: stretch).IsChain (Effect p reset))
    (last : (a :: stretch).getLast? = some t)
    (weights : (a :: stretch).IsChain (WeightsAre uid weight active))
    (hmem : uid ∈ a.users) (be : (a.account uid).isSLO = false) :
    phases a.trace ≤ phases t.trace ∧ potential uid t + phases a.trace *
        (p.pagesPerPeriod * (weight / active)) ≤
      potential uid a + phases t.trace * (p.pagesPerPeriod * (weight / active)) := by
  induction stretch generalizing a with
  | nil =>
      cases last
      exact ⟨le_rfl, le_rfl⟩
  | cons b rest ih =>
      obtain ⟨first, later⟩ := List.isChain_cons_cons.1 chain
      obtain ⟨same, weights⟩ := List.isChain_cons_cons.1 weights
      obtain ⟨⟨hmem', be'⟩, step⟩ := effect_potential first hmem be
      obtain ⟨mono, bound⟩ := ih later (by rwa [List.getLast?_cons_cons] at last) weights
        hmem' be'
      rcases step with ⟨quiet, kept⟩ | ⟨phase, grown⟩
      · rw [← quiet]
        exact ⟨mono, bound.trans (by gcongr)⟩
      · obtain ⟨hw, ha⟩ := same (by omega)
        have share := beShare_le p a uid
        rw [hw, ha] at share
        refine ⟨by omega, ?_⟩
        have counted : (phases b.trace : ℚ≥0) = phases a.trace + 1 := by
          exact_mod_cast phase
        rw [counted] at bound
        set gain : ℚ≥0 := p.pagesPerPeriod * (weight / active)
        have room : potential uid t + phases a.trace * gain + gain ≤
            potential uid a + phases t.trace * gain + gain :=
          calc potential uid t + phases a.trace * gain + gain
              = potential uid t + (phases a.trace + 1) * gain := by ring
            _ ≤ potential uid b + phases t.trace * gain := bound
            _ ≤ potential uid a + beShare p a uid + phases t.trace * gain := by gcongr
            _ ≤ potential uid a + gain + phases t.trace * gain := by gcongr
            _ = potential uid a + phases t.trace * gain + gain := by ring
        exact le_of_add_le_add_right room

def History (p : Params) (uids : List UserID) (profile : UserID → Profile)
    (history : List CreditScheduler) : Prop :=
  history.head? = some (start p uids profile) ∧ history.IsChain (Effect p true)

/-- Charges to a best-effort user over any stretch of a history: one full bucket and
the shares of the phases. -/
def Conforms (p : Params) (history : List CreditScheduler) : Prop :=
  ∀ (uid : UserID) (weight active w : Nat) (a t : CreditScheduler)
    (stretch : List CreditScheduler), a :: stretch <:+: history →
    (a :: stretch).getLast? = some t → uid ∈ a.users → (a.account uid).isSLO = false →
    (a :: stretch).IsChain (WeightsAre uid weight active) →
    phases t.trace = phases a.trace + w →
      (consumed uid t.trace : ℚ≥0) ≤ consumed uid a.trace + (a.account uid).creditCap +
        w * p.pagesPerPeriod * (weight / active) + 1

theorem conforms {a t : CreditScheduler} {stretch : List CreditScheduler} {reset : Bool}
    {weight active w : Nat} (fractions : Fractions a) (balance : BalanceInv a)
    (chain : (a :: stretch).IsChain (Effect p reset))
    (last : (a :: stretch).getLast? = some t) (hmem : uid ∈ a.users)
    (be : (a.account uid).isSLO = false)
    (weights : (a :: stretch).IsChain (WeightsAre uid weight active))
    (counted : phases t.trace = phases a.trace + w) :
    (consumed uid t.trace : ℚ≥0) ≤ consumed uid a.trace + (a.account uid).creditCap +
      w * p.pagesPerPeriod * (weight / active) + 1 := by
  obtain ⟨-, bound⟩ := stretch_potential chain last weights hmem be
  set gain : ℚ≥0 := p.pagesPerPeriod * (weight / active) with gain_eq
  have counted : (phases t.trace : ℚ≥0) = phases a.trace + w := by exact_mod_cast counted
  have spent : potential uid t ≤ potential uid a + w * gain := by
    rw [counted] at bound
    refine le_of_add_le_add_right (bound.trans_eq ?_) (a := phases a.trace * gain)
    ring
  have capped : ((a.account uid).credit : ℚ≥0) ≤ (a.account uid).creditCap := by
    exact_mod_cast balance.capped uid
  calc (consumed uid t.trace : ℚ≥0)
      ≤ potential uid t := le_add_self
    _ ≤ (a.account uid).credit + (a.account uid).carry + consumed uid a.trace + w * gain :=
        spent
    _ ≤ (a.account uid).creditCap + 1 + consumed uid a.trace + w * gain := by
        gcongr
        exact (fractions uid hmem be).le
    _ = _ := by
        rw [gain_eq]
        ring

/-- The bucket of every best-effort user conforms over a history exactly where the cap
cuts no grant. -/
theorem token_bucket_iff (p : Params) (uids : List UserID) (profile : UserID → Profile) :
    (∀ s, Runs p true (start p uids profile) s →
      ∃ history, History p uids profile history ∧ history.getLast? = some s) ∧
    ∀ history, History p uids profile history →
      ((∀ s ∈ history, Fractions s) ∧ Conforms p history ↔
        history.IsChain (CutsNoGrant p)) := by
  constructor
  · intro s run
    obtain ⟨history, chain, last⟩ := exists_history run.evolves
    exact ⟨_ :: history, ⟨rfl, chain⟩, last⟩
  · rintro history ⟨first, chain⟩
    obtain ⟨rest, rfl⟩ := List.head?_eq_some_iff.1 first
    have fresh := start_fresh p uids profile
    have fractions : Fractions (start p uids profile) := by
      intro uid _ _
      rw [fresh.carry]
      exact one_pos
    have exactly := history_iff (fun _ _ step good => effect_fractions_iff step good)
        chain fractions
    refine ⟨fun all => exactly.1 all.1, fun cuts => ⟨exactly.2 cuts, ?_⟩⟩
    have balance := forall_of_history (fun _ _ step inv => BalanceInv.effect step inv) chain
      (.fresh fresh)
    intro uid weight active w a t stretch inside last hmem be weights counted
    have here : a ∈ _ :: rest := inside.subset List.mem_cons_self
    have steps := List.IsChain.infix chain inside
    exact conforms (exactly.2 cuts a here) (balance a here) steps last hmem be weights counted

def onePhase : List CreditScheduler :=
  let active := (construct .small).activate .small 0 1001
  let due := active.emit (.refillCheck 1000)
  [construct .small, active, due, due.refillPhase .small]

theorem onePhase_history : History .small [] (fun _ => .standard) onePhase := by
  refine ⟨rfl, ?_⟩
  unfold onePhase
  simp only [List.isChain_cons_cons, List.isChain_singleton, and_true]
  refine ⟨.activate 1001 0, .check 1000, .phase 1000 rfl ?_ List.mem_cons_self⟩
  decide

theorem onePhase_cutsNoGrant : onePhase.IsChain (CutsNoGrant .small) := by
  unfold onePhase
  simp only [List.isChain_cons_cons, List.isChain_singleton, and_true]
  refine ⟨fun changed => absurd rfl changed, fun changed => absurd rfl changed, fun _ => ?_⟩
  decide +kernel

theorem token_bucket_onePhase :
    (∀ s ∈ onePhase, Fractions s) ∧ Conforms .small onePhase :=
  ((token_bucket_iff .small [] fun _ => .standard).2 onePhase onePhase_history).2
    onePhase_cutsNoGrant

/-! ## An idle user -/

structure Idle (s : CreditScheduler) : Prop where
  deferred : s.deferredQueue = []
  custom : s.deferredISC = []
  isc : s.deferredISCRequests = []
  queue : ∀ uid, (s.account uid).queue = []
  queueISC : ∀ uid, (s.account uid).queueISC = []

namespace Idle

variable {env : Env} {now : Tick}

theorem tryDispatchISC (idle : Idle s) (order : List UserID) :
    s.tryDispatchISC now order = (false, s) := by
  induction order with
  | nil => rfl
  | cons uid order ih =>
      unfold CreditScheduler.tryDispatchISC
      rw [idle.queueISC uid]
      exact ih

theorem tryDispatchHost (idle : Idle s) (order : List UserID) :
    s.tryDispatchHost p env now order = (false, now, s) := by
  induction order with
  | nil => rfl
  | cons uid order ih =>
      unfold CreditScheduler.tryDispatchHost
      rw [idle.queue uid]
      exact ih

theorem dispatchRounds (idle : Idle s) (rounds : Nat) :
    s.dispatchRounds p env rounds now = (now, s) := by
  cases rounds with
  | zero => rfl
  | succ rounds =>
      unfold CreditScheduler.dispatchRounds
      simp only [idle.tryDispatchISC, idle.tryDispatchHost, Bool.false_eq_true, if_false]

theorem serviceQueues (idle : Idle s) : s.serviceQueues p env now = (now, s) := by
  have none : s.processISCRequests p env now = s := by
    unfold processISCRequests
    rw [idle.isc, List.length_nil, Nat.zero_add, Nat.add_comm]
    unfold processISCLoop
    rw [idle.isc]
    simp only [← idle.isc]
  unfold CreditScheduler.serviceQueues
  rw [idle.deferred, List.length_nil]
  simp only [drainDeferred]
  rw [idle.custom, List.length_nil]
  simp only [drainDeferredISC, none]
  exact idle.dispatchRounds _

theorem tick (env : Env) (now : Tick) (out : s.inTick = false) (admin : s.adminQueue = [])
    (idle : Idle (refill p now (iopsWindow p now { s with inTick := true }))) :
    ((Op.tick now).run p env s).users =
        (refill p now (iopsWindow p now { s with inTick := true })).users ∧
      ((Op.tick now).run p env s).account =
        (refill p now (iopsWindow p now { s with inTick := true })).account := by
  have window : (iopsWindow p now { s with inTick := true }).adminQueue = [] := by
    unfold iopsWindow
    simp only
    split <;> exact admin
  have drained : ∀ fuel, drainAdmin p env fuel now
      (iopsWindow p now { s with inTick := true }) =
        (now, iopsWindow p now { s with inTick := true }) := by
    intro fuel
    cases fuel with
    | zero => rfl
    | succ fuel =>
        unfold drainAdmin
        rw [window]
  unfold Op.run CreditScheduler.tick
  simp only [out, Bool.false_eq_true, if_false, drained, idle.serviceQueues, and_self]

end Idle

theorem refillLoop_invariant {Inv : CreditScheduler → Prop} {now : Tick}
    (kept : ∀ t, Inv t → Inv (t.refillPhase p)) (fuel : Nat) (start : Inv s) :
    Inv (s.refillLoop p now fuel) := by
  induction fuel generalizing s with
  | zero => exact start
  | succ fuel ih =>
      unfold refillLoop
      split
      · exact ih (kept s start)
      · exact start

/-- One active user, without requests, that has been given all pages of all phases. -/
structure Filling (p : Params) (uid : UserID) (s : CreditScheduler) : Prop where
  idle : Idle s
  started : s.timerStarted = true
  active : uid ∈ activeUsers false s
  alone : s.activeWeight true = 0 ∧ s.activeWeight false = (s.account uid).weight ∧
    0 < (s.account uid).weight
  balance : BalanceInv s
  capped : (s.account uid).creditCap = p.creditCap
  filled : ((s.account uid).credit : ℚ≥0) + (s.account uid).carry =
    phases s.trace * p.pagesPerPeriod
  clock : s.lastGlobalRefillTick = (phases s.trace + 1) * p.periodTicks

theorem Filling.share (filling : Filling p uid s) : beShare p s uid = p.pagesPerPeriod := by
  obtain ⟨none, own, positive⟩ := filling.alone
  have spill : spillToBE p (s.mapUsers UserAccount.age) = p.pagesPerPeriod := by
    simp [spillToBE, none]
  have whole : ((s.account uid).weight : ℚ≥0) / (s.account uid).weight = 1 :=
    div_self (by exact_mod_cast positive.ne')
  unfold beShare
  rw [spill, own, whole, mul_one]
  split
  · rfl
  next absent =>
    have empty : p.pagesPerPeriod ≤ 0 :=
      not_lt.1 fun pages => absent ⟨filling.active, pages, positive⟩
    exact (nonpos_iff_eq_zero.1 empty).symm

theorem refillPhase_activeWeight (slo : Bool) :
    (s.refillPhase p).activeWeight slo = s.activeWeight slo := by
  have weight := fun other => refillGrants_field p s other (·.weight)
    (fun acc => acc.age_weight) fun _ _ _ _ => rfl
  have active := fun other => refillGrants_field p s other (·.isActive)
    (fun acc => acc.age_isActive) fun _ _ _ _ => rfl
  have users : (s.refillPhase p).users = s.users := refillGrants_users p s
  simp only [activeWeight, users, phase_account, weight, active, refillGrants_isSLO]

theorem Idle.refillPhase (idle : Idle s) : Idle (s.refillPhase p) := by
  obtain ⟨account, grants⟩ := s.refillGrants_eq p
  have age_queue : ∀ acc : UserAccount, acc.age.queue = acc.queue := fun acc => by
    unfold UserAccount.age
    split_ifs <;> rfl
  have age_queueISC : ∀ acc : UserAccount, acc.age.queueISC = acc.queueISC := fun acc => by
    unfold UserAccount.age
    split_ifs <;> rfl
  refine ⟨?_, ?_, ?_, fun uid => ?_, fun uid => ?_⟩
  · exact (congrArg (·.deferredQueue) grants).trans idle.deferred
  · exact (congrArg (·.deferredISC) grants).trans idle.custom
  · exact (congrArg (·.deferredISCRequests) grants).trans idle.isc
  · exact (refillGrants_field p s uid (·.queue) age_queue fun _ _ _ _ => rfl).trans
      (idle.queue uid)
  · exact (refillGrants_field p s uid (·.queueISC) age_queueISC fun _ _ _ _ => rfl).trans
      (idle.queueISC uid)

theorem Filling.refillPhase (filling : Filling p uid s) : Filling p uid (s.refillPhase p) := by
  obtain ⟨account, grants⟩ := s.refillGrants_eq p
  obtain ⟨hmem, active, be⟩ := (mem_activeUsers s).1 filling.active
  have weight : ((s.refillPhase p).account uid).weight = (s.account uid).weight :=
    refillGrants_field p s uid (·.weight) (fun acc => acc.age_weight) fun _ _ _ _ => rfl
  refine ⟨filling.idle.refillPhase, ?_, ?_, ?_, filling.balance.phase, ?_, ?_, ?_⟩
  · exact (congrArg (·.timerStarted) grants).trans filling.started
  · refine (mem_activeUsers _).2 ⟨?_, ?_, (refillGrants_isSLO p s uid).trans be⟩
    · exact (refillGrants_users p s).symm ▸ hmem
    · exact (refillGrants_field p s uid (·.isActive) (fun acc => acc.age_isActive)
        fun _ _ _ _ => rfl).trans active
  · rw [refillPhase_activeWeight, refillPhase_activeWeight, weight]
    exact filling.alone
  · exact (refillGrants_creditCap p s uid).trans filling.capped
  · rw [phase_credit_add_carry be, filling.filled, filling.share, phases_refillPhase]
    push_cast
    ring
  · change s.lastGlobalRefillTick + p.periodTicks = _
    rw [filling.clock, phases_refillPhase]
    ring

theorem Filling.refill {now : Tick} (filling : Filling p uid (s.emit (.refillCheck now))) :
    Filling p uid (s.refill p now) :=
  refillLoop_invariant (fun _ filling => filling.refillPhase) _ filling

theorem Filling.carry_ge (filling : Filling p uid s) :
    phases s.trace * p.pagesPerPeriod ≤ p.creditCap + (s.account uid).carry := by
  rw [← filling.filled, ← filling.capped]
  gcongr
  exact filling.balance.capped uid

theorem Filling.overflow (filling : Filling .small uid s)
    (late : 2002000 < s.lastGlobalRefillTick) : 1 ≤ (s.account uid).carry := by
  have count : (2002 : ℚ≥0) ≤ phases s.trace := by
    rw [filling.clock] at late
    have late : 2002000 < (phases s.trace + 1) * 1000 := late
    exact_mod_cast (by omega : 2002 ≤ phases s.trace)
  have pages : Params.small.pagesPerPeriod = 12 := by decide +kernel
  have cap : Params.small.creditCap = 24000 := by decide +kernel
  have total := filling.carry_ge
  rw [pages, cap] at total
  have more : (24000 : ℚ≥0) + 1 ≤ 24000 + (s.account uid).carry :=
    calc (24000 : ℚ≥0) + 1 ≤ 2002 * 12 := by norm_num
      _ ≤ phases s.trace * 12 := by gcongr
      _ ≤ _ := by exact_mod_cast total
  exact le_of_add_le_add_left more

def firstUse : CreditScheduler :=
  (Op.ensureActiveUser 0 1001).run .small .idle (construct .small)

/-- One user becomes active and the timer comes when its bucket has been filled. -/
def fullBucket : CreditScheduler := (Op.tick 2002000).run .small .idle firstUse

theorem fullBucket_runs :
    Runs .small true (start .small [] fun _ => .standard) fullBucket :=
  ((Runs.refl _).quiet Env.idle_quiet _ (by simp)).quiet Env.idle_quiet _ (by simp)

def beforeRefill : CreditScheduler :=
  iopsWindow .small 2002000 { firstUse with inTick := true }

theorem beforeRefill_filling :
    Filling .small 1001 (beforeRefill.emit (.refillCheck 2002000)) := by
  have fresh := start_fresh .small [] fun _ => .standard
  have user : (construct .small).getOrCreateUser .small 1001 = construct .small :=
    getOrCreateUser_of_mem (by decide)
  have account : beforeRefill.account =
      ((construct .small).activate .small 0 1001).account :=
    congrArg (fun s => (s.activate .small 0 1001).account) user
  refine ⟨⟨rfl, rfl, rfl, fun uid => ?_, fun uid => ?_⟩, rfl, by decide +kernel,
    by decide +kernel, ⟨fun uid => ?_, ?_⟩, by decide +kernel, by decide +kernel,
    by decide +kernel⟩
  · rw [emit_account, account, activate_field _ (·.queue) fun _ => rfl]
    exact fresh.queue uid
  · rw [emit_account, account, activate_field _ (·.queueISC) fun _ => rfl]
    exact fresh.queueISC uid
  · rw [emit_account, account]
    exact ((BalanceInv.fresh fresh).activate 1001 0).capped uid
  · have trace : (beforeRefill.emit (.refillCheck 2002000)).trace =
        [.refillCheck 2002000, .timerStart 0] := by decide +kernel
    rw [trace]
    simp [Event.Covered]

/-- Where a user idles with a full bucket, its carry does not stay a fraction. -/
theorem idle_carry_grows :
    ¬ ∀ s, Runs .small true (start .small [] fun _ => .standard) s → Fractions s := by
  intro all
  have fraction := all fullBucket fullBucket_runs 1001
  have filling : Filling .small 1001 (refill .small 2002000 beforeRefill) :=
    beforeRefill_filling.refill
  obtain ⟨users, account⟩ := Idle.tick (p := .small) (s := firstUse) Env.idle 2002000
      rfl rfl filling.idle
  unfold fullBucket at fraction
  rw [users, account] at fraction
  obtain ⟨hmem, -, be⟩ := (mem_activeUsers _).1 filling.active
  have late := refill_caughtUp .small 2002000 beforeRefill filling.started
  exact absurd (fraction hmem be) (not_lt.2 (filling.overflow late))

end SimpleSSD.HIL.CreditScheduler
