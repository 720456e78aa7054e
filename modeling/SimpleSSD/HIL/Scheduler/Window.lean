import SimpleSSD.HIL.Scheduler.QueueStatistics

/-!
# The measurement window

`tick` closes a window of one second and more: it reports the pages of each active
service-level user over the length of the window and starts counting again.  The length
is an unsigned difference of two ticks, and a tick may be earlier than the last reset,
for `processUntil` runs ahead of the periodic event.
-/

namespace SimpleSSD.HIL.CreditScheduler

open SimpleSSD.Foundation Relation

/-- A window as it is closed at `now`; `length` is what the division uses. -/
structure Window where
  since : Tick
  now : Tick
  length : Nat
  deriving DecidableEq, Repr

def windowOf (p : Params) (now : Tick) (lastStatTick : Option Tick) : Option Window :=
  let since := lastStatTick.getD now
  if p.ticksPerSec ≤ sub64 now since then some ⟨since, now, sub64 now since⟩ else none

/-- A second has passed since the last reset, and the length is the time that has. -/
def Window.Full (p : Params) (w : Window) : Prop :=
  (p.ticksPerSec : ℤ) ≤ (w.now : ℤ) - (w.since : ℤ) ∧
    (w.length : ℤ) = (w.now : ℤ) - (w.since : ℤ)

/-- A tick that closes a window is not earlier than the last reset. -/
def OnTime (p : Params) (now : Tick) (lastStatTick : Option Tick) : Prop :=
  p.ticksPerSec ≤ sub64 now (lastStatTick.getD now) → lastStatTick.getD now ≤ now

/-- The windows closed on the way from a state, the latest first.  Between two looks at
the window no counter of a known user is lowered. -/
inductive Chronicle (p : Params) (s : CreditScheduler) : List Window → CreditScheduler → Prop
  | start : Chronicle p s [] s
  | other {ws t u} (earlier : Chronicle p s ws t) (same : u.lastStatTick = t.lastStatTick)
      (counters : ∀ uid ∈ t.users,
        (t.account uid).winHostPages ≤ (u.account uid).winHostPages ∧
          (t.account uid).winHostIOs ≤ (u.account uid).winHostIOs) : Chronicle p s ws u
  | look {ws t} (earlier : Chronicle p s ws t) (now : Tick) :
      Chronicle p s ((windowOf p now t.lastStatTick).toList ++ ws) (t.iopsWindow p now)

section Window

variable {p : Params} {now : Tick} {last : Option Tick} {w : Window} {s t : CreditScheduler}

theorem iopsWindow_eq (now : Tick) (s : CreditScheduler) :
    s.iopsWindow p now =
      match windowOf p now s.lastStatTick with
      | some w => { s.mapUsers UserAccount.resetWindow with lastStatTick := some w.now }
      | none => { s with lastStatTick := some (s.lastStatTick.getD now) } := by
  unfold iopsWindow windowOf
  simp only
  split <;> rfl

theorem windowOf_eq_some (closed : windowOf p now last = some w) :
    p.ticksPerSec ≤ sub64 now (last.getD now) ∧
      w = ⟨last.getD now, now, sub64 now (last.getD now)⟩ := by
  unfold windowOf at closed
  simp only at closed
  split at closed
  next enough => exact ⟨enough, (Option.some.inj closed).symm⟩
  next => exact absurd closed (by simp)

theorem full_iff (closed : windowOf p now last = some w) : w.Full p ↔ w.since ≤ w.now := by
  obtain ⟨enough, rfl⟩ := windowOf_eq_some closed
  unfold Window.Full
  simp only
  constructor
  · intro full
    have positive : (0 : ℤ) < (p.ticksPerSec : ℤ) := Int.natCast_pos.2 p.ticksPerSec_pos
    have ordered : ((last.getD now : Nat) : ℤ) ≤ ((now : Nat) : ℤ) := by linarith [full.1]
    exact Int.ofNat_le.1 ordered
  · intro ordered
    rw [sub64_of_le ordered] at enough ⊢
    rw [Int.ofNat_sub ordered]
    exact ⟨Int.ofNat_sub ordered ▸ Int.ofNat_le.2 enough, rfl⟩

theorem onTime_iff : OnTime p now last ↔ ∀ w, windowOf p now last = some w → w.Full p := by
  constructor
  · intro onTime w closed
    rw [full_iff closed]
    obtain ⟨enough, rfl⟩ := windowOf_eq_some closed
    exact onTime enough
  · intro full enough
    have closed : windowOf p now last = some ⟨last.getD now, now, sub64 now (last.getD now)⟩ := by
      unfold windowOf
      exact if_pos enough
    exact (full_iff closed).1 (full _ closed)

theorem Chronicle.linked {ws : List Window} (chronicle : Chronicle p s ws t) :
    ws.IsChain (fun later earlier => later.since = earlier.now) ∧
      ∀ w ∈ ws.head?, t.lastStatTick = some w.now := by
  induction chronicle with
  | start => exact ⟨.nil, nofun⟩
  | other earlier same counters ih =>
      rw [same]
      exact ih
  | @look ws t earlier now ih =>
      obtain ⟨chain, newest⟩ := ih
      rw [iopsWindow_eq]
      cases closed : windowOf p now t.lastStatTick with
      | none =>
          refine ⟨chain, fun w hmem => ?_⟩
          simp only [newest w hmem, Option.getD_some]
      | some w =>
          obtain ⟨-, rfl⟩ := windowOf_eq_some closed
          refine ⟨?_, ?_⟩
          · cases ws with
            | nil => exact .singleton _
            | cons first rest =>
                refine List.isChain_cons_cons.2 ⟨?_, chain⟩
                simp only [newest first rfl, Option.getD_some]
          · rintro w ⟨rfl⟩
            rfl

end Window

/-! ## Moves -/

section Moves

variable {p : Params} {guard : Guard} {s t : CreditScheduler}

/-- What the window is about: the last reset and the counters of the known users. -/
structure Counting (s t : CreditScheduler) : Prop where
  last : t.lastStatTick = s.lastStatTick
  counters : ∀ uid ∈ s.users, (s.account uid).winHostPages ≤ (t.account uid).winHostPages ∧
    (s.account uid).winHostIOs ≤ (t.account uid).winHostIOs

def UserAccount.counters (acc : UserAccount) : Nat × Nat := (acc.winHostPages, acc.winHostIOs)

theorem Counting.of_eq (last : t.lastStatTick = s.lastStatTick)
    (same : ∀ uid ∈ s.users, (t.account uid).counters = (s.account uid).counters) :
    Counting s t := by
  refine ⟨last, fun uid known => ?_⟩
  have equal := same uid known
  simp only [UserAccount.counters, Prod.mk.injEq] at equal
  omega

theorem Counting.modify (uid : UserID) (f : UserAccount → UserAccount)
    (same : ∀ acc, (f acc).counters = acc.counters) : Counting s (s.modify uid f) :=
  .of_eq rfl fun other _ => modify_field s uid other UserAccount.counters same

theorem charge_counters (site : ChargeSite) (cls : ChargeClass) (uid other : UserID)
    (pages : Nat) : ((s.charge site cls uid pages).account other).counters =
      (s.account other).counters :=
  modify_field s uid other (f := (·.pay cls pages)) UserAccount.counters fun _ => rfl

theorem Counting.charge (site : ChargeSite) (cls : ChargeClass) (uid : UserID) (pages : Nat) :
    Counting s (s.charge site cls uid pages) :=
  .of_eq rfl fun other _ => charge_counters site cls uid other pages

theorem Counting.create (uid : UserID) : Counting s (s.getOrCreateUser p uid) := by
  refine .of_eq ?_ fun other known => ?_
  · unfold getOrCreateUser
    split <;> rfl
  · rcases getOrCreateUser_account p uid other s with same | ⟨rfl, absent, -⟩
    · rw [same]
    · exact absurd known absent

theorem Counting.trans {u : CreditScheduler} (known : s.users ⊆ t.users)
    (first : Counting s t) (later : Counting t u) : Counting s u := by
  refine ⟨later.last.trans first.last, fun uid hmem => ?_⟩
  have low := first.counters uid hmem
  have high := later.counters uid (known hmem)
  exact ⟨low.1.trans high.1, low.2.trans high.2⟩

theorem users_subset_create (uid : UserID) (s : CreditScheduler) :
    s.users ⊆ (s.getOrCreateUser p uid).users := fun other known =>
  (mem_users_getOrCreateUser uid other).2 (.inr known)

theorem Submission.counting {item : Item} (entered : Submission item s t) : Counting s t := by
  cases entered with
  | enqueue req user known =>
      refine .modify req.userID (CreditScheduler.enqueue req) fun acc => ?_
      unfold CreditScheduler.enqueue
      split <;> rfl
  | execute uid pages ctx known held =>
      exact .of_eq rfl fun other _ => charge_counters .submitISCRequest .isc uid other pages
  | receive | postpone | wait => exact .of_eq rfl fun _ _ => rfl

theorem Work.counting {before after : List ISCDeferredRequest × CreditScheduler}
    (step : Work p guard before after) :
    Counting before.2 after.2 ∨
      ∃ now, guard.window now before.2.lastStatTick ∧
        after.2 = before.2.iopsWindow p now := by
  cases step with
  | window now may => exact .inr ⟨now, may, rfl⟩
  | create uid => exact .inl (.create uid)
  | @activate _ s uid getTick known =>
      refine .inl (.of_eq ?_ fun other _ => ?_)
      · simp only [CreditScheduler.activate]
        split
        · rfl
        · split <;> rfl
      · exact activate_field uid UserAccount.counters fun _ => rfl
  | @phase _ s =>
      refine .inl (.of_eq ?_ fun uid _ => ?_)
      · obtain ⟨account, grants⟩ := s.refillGrants_eq p
        simp only [refillPhase, grants]
      · refine refillGrants_field p s uid UserAccount.counters (fun acc => ?_) fun _ _ _ _ => rfl
        unfold UserAccount.age
        split_ifs <;> rfl
  | @measure _ s req =>
      refine .inl ⟨rfl, fun uid _ => ?_⟩
      simp only [modify_account]
      split
      next same =>
        rw [same]
        simp only [UserAccount.measureHost]
        omega
      next => exact ⟨le_rfl, le_rfl⟩
  | dispatch dr rest head known held =>
      exact .inl (.of_eq rfl fun other _ =>
        charge_counters .deferredQueue (.ofOp dr.req.op) dr.req.userID other dr.pages)
  | resume dc rest head known held =>
      exact .inl (.of_eq rfl fun other _ =>
        charge_counters .deferredISC .isc dc.uid other dc.pages)
  | process req rest head known held =>
      exact .inl (.of_eq rfl fun other _ =>
        charge_counters .processISCRequests .isc req.uid other req.pagesNeeded)
  | @gate _ s uid front rest head known held =>
      refine .inl (.of_eq rfl fun other _ => ?_)
      rw [← charge_counters (s := s) .queueISC .isc uid other front.pages]
      exact modify_field _ uid other (f := UserAccount.popQueueISC) UserAccount.counters
        fun _ => rfl
  | deferISC uid front rest now head =>
      exact .inl (.of_eq rfl fun other _ =>
        modify_field _ uid other (f := UserAccount.popQueueISC) UserAccount.counters fun _ => rfl)
  | @host _ s uid front rest head held =>
      have created : Counting s (s.getOrCreateUser p front.userID) := .create front.userID
      refine .inl (created.trans (users_subset_create front.userID s)
        (.of_eq rfl fun other _ => ?_))
      rw [← charge_counters (s := s.getOrCreateUser p front.userID) .hostQueue
        (.ofOp front.op) front.userID other front.pages]
      exact modify_field _ uid other (f := UserAccount.popQueue) UserAccount.counters
        fun _ => rfl
  | @deferHost _ s uid front rest now head =>
      have created : Counting s (s.getOrCreateUser p front.userID) := .create front.userID
      exact .inl (created.trans (users_subset_create front.userID s)
        (.of_eq rfl fun other _ => modify_field _ uid other (f := UserAccount.popQueue)
          UserAccount.counters fun _ => rfl))
  | _ => exact .inl (.of_eq rfl fun _ _ => rfl)

theorem Move.counting {before after : List ISCDeferredRequest × CreditScheduler}
    (move : Move p guard before after) :
    Counting before.2 after.2 ∨
      ∃ now, guard.window now before.2.lastStatTick ∧
        after.2 = before.2.iopsWindow p now := by
  cases move with
  | submit item may entered => exact .inl entered.counting
  | work step => exact step.counting
  | direct site cls uid pages => exact .inl (.charge site cls uid pages)
  | @resetStat _ s getTick =>
      exact .inl (.of_eq rfl fun uid _ =>
        mapUsers_field s uid (f := UserAccount.resetStat getTick) UserAccount.counters
          fun _ => rfl)

/-- Every stretch of moves has its chronicle, each window closed as the guard allows. -/
theorem Moves.chronicle {before after : List ISCDeferredRequest × CreditScheduler}
    (moves : Moves p guard before after)
    (allowed : ∀ now last, guard.window now last → OnTime p now last) :
    ∃ ws, Chronicle p before.2 ws after.2 ∧ ∀ w ∈ ws, w.Full p := by
  induction moves with
  | refl => exact ⟨[], .start, nofun⟩
  | @tail mid after _ last ih =>
      obtain ⟨ws, chronicle, full⟩ := ih
      rcases last.counting with counting | ⟨now, may, looked⟩
      · exact ⟨ws, .other chronicle counting.last counting.counters, full⟩
      · refine ⟨(windowOf p now mid.2.lastStatTick).toList ++ ws, ?_, fun w hmem => ?_⟩
        · rw [looked]
          exact .look chronicle now
        · rcases List.mem_append.1 hmem with new | old
          · exact onTime_iff.1 (allowed _ _ may) w (Option.mem_toList.1 new)
          · exact full w old

end Moves

/-! ## Runs -/

section Runs

variable {p : Params} {uids : List UserID} {profile : UserID → Profile} {s : CreditScheduler}

def Guard.onTime (p : Params) : Guard := { Guard.none with window := OnTime p }

/-- A run each of whose ticks, nested ones and those of `processUntil` included, is on
time. -/
abbrev OnTimeRun (p : Params) : CreditScheduler → CreditScheduler → Prop :=
  RunsBy p fun env op u => op.EachTick p env
    (fun now v => v.inTick = false → OnTime p now v.lastStatTick) u

theorem Guard.onTime_allows (env : Env) (op : Op) (u : CreditScheduler)
    (each : op.EachTick p env (fun now v => v.inTick = false → OnTime p now v.lastStatTick) u) :
    (Guard.onTime p).Allows p env op u := by
  refine ⟨each.mono fun now v onTime outermost => ⟨onTime outermost, .inl trivial⟩, ?_⟩
  cases op with
  | submitISCRequest _ _ _ iscContext => cases iscContext <;> trivial
  | _ => trivial

/-- While the ticks are on time, every window that is closed is full and begins where the
one before it was closed; the next tick closes no window but a full one exactly when it is
on time. -/
theorem windows_full (run : OnTimeRun p (start p uids profile) s) :
    (∃ ws, Chronicle p (start p uids profile) ws s ∧
        ws.IsChain (fun later earlier => later.since = earlier.now) ∧ ∀ w ∈ ws, w.Full p) ∧
      ∀ now, (∀ w, windowOf p now s.lastStatTick = some w → w.Full p) ↔
        OnTime p now s.lastStatTick := by
  have carries : Carries p (.onTime p) (start p uids profile) s :=
    run.carries Guard.onTime_allows
  obtain ⟨ws, chronicle, full⟩ := Moves.chronicle (carries []) fun _ _ onTime => onTime
  exact ⟨⟨ws, chronicle, chronicle.linked.1, full⟩, fun now => onTime_iff.symm⟩

end Runs

/-! ## A tick that comes early -/

def Profile.serviceLevel : Profile := { Profile.standard with isSLO := true }

def onePageRead : CreditScheduler :=
  (Op.tick 2000).run .small .idle ((Op.submitRequest 0 (hostRequest 1 4096)).run .small .idle
    (start .small [1] fun _ => .serviceLevel))

theorem windows_full_small :
    (∃ ws, Chronicle .small (start .small [1] fun _ => .serviceLevel) ws onePageRead ∧
        ws.IsChain (fun later earlier => later.since = earlier.now) ∧
        ∀ w ∈ ws, w.Full .small) ∧ OnTime .small 1002000 onePageRead.lastStatTick :=
  have submitted : OnTimeRun .small (start .small [1] fun _ => .serviceLevel)
      ((Op.submitRequest 0 (hostRequest 1 4096)).run .small .idle
        (start .small [1] fun _ => .serviceLevel)) :=
    .quiet Env.idle_quiet (.refl _) (.submitRequest 0 (hostRequest 1 4096)) trivial
  have run : OnTimeRun .small (start .small [1] fun _ => .serviceLevel) onePageRead :=
    .quiet Env.idle_quiet submitted (.tick 2000) fun _ _ => by decide +kernel
  have full := windows_full run
  ⟨full.1, (full.2 1002000).1 fun w closed => by
    have once : windowOf .small 1002000 onePageRead.lastStatTick =
        some ⟨2000, 1002000, 1000000⟩ := by decide +kernel
    rw [once] at closed
    cases closed
    exact ⟨by decide +kernel, by decide +kernel⟩⟩

/-- The tick at 1999 closes a window that lasted for one tick less than none, and takes its
length for almost all the ticks there are. -/
theorem early_tick_closes :
    Runs .small false (start .small [1] fun _ => .serviceLevel) onePageRead ∧
      (onePageRead.account 1).winHostPages = 1 ∧
      windowOf .small 1999 onePageRead.lastStatTick = some ⟨2000, 1999, 2 ^ 64 - 1⟩ ∧
      ((onePageRead.tick .small .idle 1999).2.account 1).winHostPages = 0 ∧
      ¬ (⟨2000, 1999, 2 ^ 64 - 1⟩ : Window).Full .small := by
  have quiet := Env.idle_quiet
  refine ⟨?_, by decide +kernel, by decide +kernel, by decide +kernel, ?_⟩
  rotate_left
  · exact fun full => absurd full.1 (by decide +kernel)
  exact .quiet quiet (.quiet quiet (.refl _) (.submitRequest 0 (hostRequest 1 4096)) nofun)
    (.tick 2000) nofun

end SimpleSSD.HIL.CreditScheduler
