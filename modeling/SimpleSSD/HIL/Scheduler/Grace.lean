import SimpleSSD.HIL.Scheduler.Act

/-!
# The idle grace period

A phase counts for each active user how many phases in a row have found both its queues
empty.  The grants of the phase read neither that count nor the length of the grace period.
-/

namespace SimpleSSD.HIL.CreditScheduler

open SimpleSSD.Foundation Relation

def IdleGracePeriods : Nat := 100

def emptyQ (uid : UserID) (s : CreditScheduler) : Bool :=
  (s.account uid).queue.isEmpty && (s.account uid).queueISC.isEmpty

def queued (uid : UserID) (s : CreditScheduler) : Nat :=
  (s.account uid).queue.length + (s.account uid).queueISC.length

/-- A scheduler, and for each user the phases in a row that have found it idle since it
last submitted. -/
structure Watch where
  scheduler : CreditScheduler
  idle : UserID → Nat

namespace Watch

def Expired (w : Watch) (uid : UserID) : Prop := IdleGracePeriods < w.idle uid

instance (w : Watch) (uid : UserID) : Decidable (w.Expired uid) :=
  inferInstanceAs (Decidable (_ < _))

/-- A phase gives nothing to the users whose grace period is over, and the weights that the
shares are computed with are those of the other active users. -/
structure Enforced (p : Params) (w : Watch) : Prop where
  credit : ∀ uid ∈ w.scheduler.users, w.Expired uid →
    ((w.scheduler.refillPhase p).account uid).credit = (w.scheduler.account uid).credit
  share : ∀ slo, (w.scheduler.mapUsers UserAccount.age).activeWeight slo =
    (w.scheduler.users.map fun uid =>
      if ¬ w.Expired uid ∧ (w.scheduler.account uid).isActive ∧
        (w.scheduler.account uid).isSLO = slo
      then (w.scheduler.account uid).weight else 0).sum

/-- The users whose grace period is over are not active any more. -/
def Departed (w : Watch) : Prop :=
  ∀ uid ∈ w.scheduler.users, w.Expired uid → (w.scheduler.account uid).isActive = false

end Watch

/-- The runs of acts from a state on, with the states in which a phase has been executed,
the last one first.  An act names the users that submit in it; who queues a request is one
of them. -/
inductive Watched (p : Params) (start : Watch) : List Watch → Watch → Prop
  | refl : Watched p start [] start
  | phase {phases : List Watch} {w : Watch} (earlier : Watched p start phases w) :
      Watched p start (w :: phases) {
        scheduler := w.scheduler.refillPhase p
        idle := fun uid => if w.scheduler.emptyQ uid then w.idle uid + 1 else 0 }
  | act {phases : List Watch} {w : Watch} {s : CreditScheduler} (submits : UserID → Bool)
      (earlier : Watched p start phases w) (act : Act p w.scheduler s)
      (queues : ∀ uid, w.scheduler.queued uid < s.queued uid → submits uid) :
      Watched p start phases {
        scheduler := s
        idle := fun uid => if submits uid then 0 else w.idle uid }

variable {p : Params} {s t : CreditScheduler}

/-! ## One phase -/

theorem Watch.enforced_iff {w : Watch}
    (positive : ∀ uid ∈ w.scheduler.users, 0 < (w.scheduler.account uid).weight) :
    w.Enforced p ↔ w.Departed := by
  constructor
  · intro enforced uid hmem expired
    by_contra active
    rw [Bool.not_eq_false] at active
    have share := enforced.share (w.scheduler.account uid).isSLO
    rw [aged_activeWeight, activeWeight] at share
    have le : ∀ other ∈ w.scheduler.users,
        (if ¬ w.Expired other ∧ (w.scheduler.account other).isActive ∧
            (w.scheduler.account other).isSLO = (w.scheduler.account uid).isSLO
          then (w.scheduler.account other).weight else 0) ≤
        if (w.scheduler.account other).isActive ∧
            (w.scheduler.account other).isSLO = (w.scheduler.account uid).isSLO
          then (w.scheduler.account other).weight else 0 := by
      intro other _
      split_ifs with kept all
      · exact Nat.le_refl _
      · exact absurd kept.2 all
      · exact Nat.zero_le _
      · exact Nat.zero_le _
    have lt := List.sum_lt_sum _ _ le ⟨uid, hmem, ?_⟩
    · exact lt.ne' share
    · rw [if_neg (fun kept => kept.1 expired), if_pos ⟨active, rfl⟩]
      exact positive uid hmem
  · intro departed
    refine ⟨?_, ?_⟩
    · intro uid hmem expired
      exact (phase_proper (p := p) w.scheduler uid).2.2.2 (departed uid hmem expired)
    · intro slo
      rw [aged_activeWeight, activeWeight]
      congr 1
      apply List.map_congr_left
      intro uid hmem
      by_cases expired : w.Expired uid
      · simp [departed uid hmem expired]
      · simp [expired]

/-! ## Runs -/

theorem weight_pos_act (step : Act p s t) (positive : ∀ uid, 0 < (s.account uid).weight)
    (uid : UserID) : 0 < (t.account uid).weight := by
  have kept : (t.account uid).weight = (s.account uid).weight →
      0 < (t.account uid).weight := fun same => by rw [same]; exact positive uid
  cases step with
  | create other =>
      rcases getOrCreateUser_account p other uid s with same | ⟨-, -, new⟩
      · rw [same]
        exact positive uid
      · rw [new]
        exact Nat.one_pos
  | receive req admin => exact positive uid
  | enqueue req user known =>
      refine kept (modify_field s req.userID uid (·.weight) fun acc => ?_)
      unfold enqueue
      split <;> rfl
  | activate other getTick known => exact kept (activate_field _ (·.weight) fun _ => rfl)
  | charge site cls other pages known held =>
      exact kept (modify_field s other uid (·.weight) fun _ => rfl)
  | emit event plain => exact positive uid
  | resume dc held left earlier paid rest => exact positive uid
  | takeAdmin => exact positive uid
  | take other => exact kept (modify_field s other uid (·.weight) fun _ => rfl)
  | takeISC other => exact kept (modify_field s other uid (·.weight) fun _ => rfl)
  | defer other req now waits => exact positive uid
  | shuffle queue old => exact positive uid
  | isc custom requests => exact positive uid
  | measure account same =>
      have unmeasured := congrArg UserAccount.weight (same uid)
      exact kept unmeasured
  | mark last lastISC inTick fault event stat => exact positive uid
  | phase =>
      exact kept (refillGrants_field p s uid (·.weight) (fun acc => acc.age_weight)
        fun _ _ _ _ => rfl)
  | resetStat getTick => exact kept (mapUsers_field s uid (·.weight) fun _ => rfl)

theorem Watched.invariant {first last : Watch} {phases : List Watch}
    (run : Watched p first phases last) (Inv : CreditScheduler → Prop)
    (kept : ∀ s t, Act p s t → Inv s → Inv t) (start : Inv first.scheduler) :
    (∀ w ∈ phases, Inv w.scheduler) ∧ Inv last.scheduler := by
  induction run with
  | refl => exact ⟨fun _ hmem => absurd hmem List.not_mem_nil, start⟩
  | phase earlier ih =>
      refine ⟨?_, kept _ _ .phase ih.2⟩
      rw [List.forall_mem_cons]
      exact ⟨ih.2, ih.1⟩
  | act submits earlier act queues ih => exact ⟨ih.1, kept _ _ act ih.2⟩

theorem Runs.watched {reset : Bool} (run : Runs p reset s t) (idle : UserID → Nat) :
    ∃ phases idle', Watched p ⟨s, idle⟩ phases ⟨t, idle'⟩ := by
  have acts := run.acts
  clear run
  induction acts with
  | refl => exact ⟨[], idle, .refl⟩
  | @tail b u _ act ih =>
      obtain ⟨phases, idle', earlier⟩ := ih
      have other : Act p b u → ∃ phases idle', Watched p ⟨s, idle⟩ phases ⟨u, idle'⟩ := fun act =>
        ⟨phases, _, earlier.act (fun uid => b.queued uid < u.queued uid) act fun _ grows =>
          decide_eq_true grows⟩
      have this := act
      cases act with
      | phase => exact ⟨_, _, earlier.phase⟩
      | _ => exact other this

theorem start_weight_pos {uids : List UserID} {profile : UserID → Profile}
    (positive : ∀ uid, 0 < (profile uid).weight) (uid : UserID) :
    0 < ((start p uids profile).account uid).weight := by
  revert uid
  have create : ∀ (s : CreditScheduler) uid, (∀ other, 0 < (s.account other).weight) →
      ∀ other, 0 < ((s.getOrCreateUser p uid).account other).weight :=
    fun s uid kept => weight_pos_act (.create uid) kept
  have constructed : ∀ uid, 0 < ((construct p).account uid).weight :=
    List.foldlRecOn (motive := fun s : CreditScheduler => ∀ uid, 0 < (s.account uid).weight)
        statUsers _
      (fun _ => Nat.one_pos) fun s kept uid _ => create s uid kept
  refine List.foldlRecOn (motive := fun s : CreditScheduler => ∀ uid, 0 < (s.account uid).weight)
      uids _
    constructed fun s kept uid _ other => ?_
  rw [modify_account]
  split
  · exact positive uid
  · exact create s uid kept other

/-- In every run the grace period is enforced in its phases exactly when each of them finds
the users whose grace period is over inactive. -/
theorem grace_enforced_iff {uids : List UserID} {profile : UserID → Profile}
    (positive : ∀ uid, 0 < (profile uid).weight) {phases : List Watch} {last : Watch}
    (run : Watched p ⟨start p uids profile, fun _ => 0⟩ phases last) :
    (∀ w ∈ phases, w.Enforced p) ↔ ∀ w ∈ phases, w.Departed := by
  have weights := (run.invariant (fun s => ∀ uid, 0 < (s.account uid).weight)
    (fun _ _ => weight_pos_act) (start_weight_pos positive)).1
  constructor
  · intro enforced w hmem
    exact (Watch.enforced_iff fun uid _ => weights w hmem uid).1 (enforced w hmem)
  · intro departed w hmem
    exact (Watch.enforced_iff fun uid _ => weights w hmem uid).2 (departed w hmem)

/-! ## A user that stays -/

/-- The watch after some phases in which nothing else happens. -/
def Watch.phases (p : Params) : Nat → Watch → Watch
  | 0, w => w
  | n + 1, w => {
      scheduler := (Watch.phases p n w).scheduler.refillPhase p
      idle := fun uid => if (Watch.phases p n w).scheduler.emptyQ uid
        then (Watch.phases p n w).idle uid + 1 else 0 }

theorem Watch.phases_idle (p : Params) {w : Watch} {uid : UserID} (empty : w.scheduler.emptyQ uid)
    (n : Nat) :
    (Watch.phases p n w).scheduler.emptyQ uid ∧
      (Watch.phases p n w).idle uid = w.idle uid + n ∧
      (Watch.phases p n w).scheduler.users = w.scheduler.users ∧
      ((Watch.phases p n w).scheduler.account uid).isActive =
        (w.scheduler.account uid).isActive := by
  induction n with
  | zero => exact ⟨empty, rfl, rfl, rfl⟩
  | succ n ih =>
      obtain ⟨still, idle, users, active⟩ := ih
      obtain ⟨queue, queueISC, active', -⟩ :=
        phase_proper (p := p) (Watch.phases p n w).scheduler uid
      refine ⟨?_, ?_, ?_, ?_⟩
      · unfold emptyQ at still ⊢
        rw [Watch.phases, queue, queueISC]
        exact still
      · rw [Watch.phases]
        simp only [still, if_true, idle, Nat.add_assoc]
      · exact (refillGrants_users p _).trans users
      · exact active'.trans active

theorem Watched.phases {first w : Watch} {earlier : List Watch}
    (run : Watched p first earlier w) (n : Nat) :
    ∃ phases, Watched p first (phases ++ earlier) (Watch.phases p n w) ∧
      ∀ m < n, Watch.phases p m w ∈ phases := by
  induction n with
  | zero => exact ⟨[], run, fun m lt => absurd lt (Nat.not_lt_zero m)⟩
  | succ n ih =>
      obtain ⟨phases, before, all⟩ := ih
      refine ⟨Watch.phases p n w :: phases, before.phase, ?_⟩
      intro m lt
      rcases Nat.lt_succ_iff_lt_or_eq.1 lt with lt | rfl
      · exact List.mem_cons_of_mem _ (all m lt)
      · exact List.mem_cons_self

def departed : CreditScheduler :=
  (Op.tick 1000).run .small .idle ((Op.submitRequest 0 (.ofPages .read 1001 1)).run .small .idle
    (construct .small))

theorem departed_runs : Runs .small true (start .small [] fun _ => .standard) departed :=
  ((Runs.refl _).quiet Env.idle_quiet _ (by simp)).quiet Env.idle_quiet _ (by simp)

theorem departed_watched :
    ∃ phases last, Watched .small ⟨start .small [] fun _ => .standard, fun _ => 0⟩ phases last ∧
      ∃ w ∈ phases, 1001 ∈ w.scheduler.users ∧ w.Expired 1001 ∧
        (w.scheduler.account 1001).isActive = true := by
  obtain ⟨earlier, idle, before⟩ := departed_runs.watched fun _ => 0
  obtain ⟨phases, run, all⟩ := before.phases (IdleGracePeriods + 2)
  have empty : departed.emptyQ 1001 := by decide +kernel
  have known : 1001 ∈ departed.users := by decide +kernel
  have active : (departed.account 1001).isActive = true := by decide +kernel
  obtain ⟨-, count, users, stays⟩ := Watch.phases_idle .small (w := ⟨departed, idle⟩) empty
    (IdleGracePeriods + 1)
  refine ⟨_, _, run, _, List.mem_append_left earlier (all (IdleGracePeriods + 1) (by decide)),
    ?_, ?_, stays.trans active⟩
  · rw [users]
    exact known
  · rw [Watch.Expired, count]
    omega

theorem grace_enforced_iff_departed :
    ∃ phases last, Watched .small ⟨start .small [] fun _ => .standard, fun _ => 0⟩ phases last ∧
      (∃ w ∈ phases, w.Expired 1001) ∧
      ((∀ w ∈ phases, w.Enforced .small) ↔ ∀ w ∈ phases, w.Departed) := by
  obtain ⟨phases, last, run, w, hmem, -, expired, -⟩ := departed_watched
  exact ⟨phases, last, run, ⟨w, hmem, expired⟩, grace_enforced_iff (fun _ => Nat.one_pos) run⟩

theorem departed_user_counted :
    ∃ phases last, Watched .small ⟨start .small [] fun _ => .standard, fun _ => 0⟩ phases last ∧
      ∃ w ∈ phases, ¬ w.Enforced .small := by
  obtain ⟨phases, last, run, w, hmem, known, expired, active⟩ := departed_watched
  have weights := (run.invariant (fun s => ∀ uid, 0 < (s.account uid).weight)
    (fun _ _ => weight_pos_act) (start_weight_pos fun _ => Nat.one_pos)).1 w hmem
  refine ⟨phases, last, run, w, hmem, fun enforced => ?_⟩
  have left := (Watch.enforced_iff fun uid _ => weights uid).1 enforced 1001 known expired
  exact Bool.false_ne_true (left.symm.trans active)

end SimpleSSD.HIL.CreditScheduler
