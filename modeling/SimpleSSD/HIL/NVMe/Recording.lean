import Mathlib.Logic.Function.Basic
import SimpleSSD.Foundation.Fallible
import SimpleSSD.Util.Def

/-!
# Recording of requests

`Subsystem::submitCommand` makes an entry in `tobeRecorded` under the tick of the submission,
and `req_record` looks it up and erases it, some events later.
-/

namespace SimpleSSD.HIL.NVMe.Recording

open SimpleSSD.Foundation Function

structure RequestInfo where
  sec : Nat
  ps : Nat
  deriving DecidableEq, Repr

def RequestInfo.ofTick (tick : Nat) : RequestInfo := ⟨tick / 10 ^ 12, tick % 10 ^ 12⟩

inductive Opcode where
  | flush
  | write
  | read
  | iscGet
  | iscSet
  deriving DecidableEq, Repr

structure Command where
  opcode : Opcode
  namespaceID : UInt32
  dword12 : UInt32
  deriving DecidableEq, Repr

def Command.nlb (c : Command) : Nat := ((c.dword12.toNat &&& 0xFFFF) + 1) % 2 ^ 16

/-- An entry of `tobeRecorded`, with the number of the command it was made for. -/
structure Entry where
  info : RequestInfo
  madeFor : Nat
  deriving DecidableEq, Repr

/-- A command whose next event is still to come.  What the insertion into `tobeRecorded`
returned is not kept by the source. -/
structure Underway where
  command : Command
  nsid : Nat
  submitTick : Nat
  inserted : Bool
  accepted : Bool
  deriving DecidableEq, Repr

structure State where
  getTick : Nat
  lNamespaces : List Nat
  attached : Nat → Bool
  formatFinishedAt : Nat → Nat
  commandCount : Nat
  tobeRecorded : Nat → Option Entry
  underway : Nat → Option Underway

namespace State

def NSID_ALL : Nat := 0xFFFFFFFF

def target (s : State) (c : Command) : Option Nat :=
  if c.namespaceID.toNat < NSID_ALL then s.lNamespaces.find? (· = c.namespaceID.toNat)
  else s.lNamespaces.head?

def insert (s : State) : State :=
  match s.tobeRecorded s.getTick with
  | some _ => s
  | none => { s with
      tobeRecorded := update s.tobeRecorded s.getTick
        (some ⟨.ofTick s.getTick, s.commandCount⟩) }

def submitCommand (c : Command) (s : State) : State :=
  match s.target c with
  | none => { s.insert with commandCount := s.commandCount + 1 }
  | some nsid => { s.insert with
      commandCount := s.commandCount + 1
      underway := update s.underway s.commandCount
        (some ⟨c, nsid, s.getTick, (s.tobeRecorded s.getTick).isNone, false⟩) }

/-- The checks of `Namespace::submitCommand` and of the handlers behind it. -/
def Accepts (s : State) (nsid : Nat) (c : Command) : Prop :=
  s.formatFinishedAt nsid ≤ s.getTick ∧ s.attached nsid ∧ (c.opcode = .flush ∨ c.nlb ≠ 0)

instance (s : State) (nsid : Nat) (c : Command) : Decidable (s.Accepts nsid c) :=
  inferInstanceAs (Decidable (_ ∧ _ ∧ _))

/-- A command that fails is answered, and nothing else happens to it. -/
def onNamespace (n : Nat) (u : Underway) (s : State) : State :=
  if s.Accepts u.nsid u.command then
    { s with underway := update s.underway n (some { u with accepted := true }) }
  else { s with underway := update s.underway n none }

def reqRecord (n : Nat) (u : Underway) (s : State) : Except Fault State :=
  match s.tobeRecorded u.submitTick with
  | none => .error (.panic "todo != tobeRecorded.end()")
  | some _ => .ok { s with
      tobeRecorded := update s.tobeRecorded u.submitTick none
      underway := update s.underway n none }

end State

inductive Action where
  | advance (ticks : Nat)
  | attach (nsid : Nat) (attached : Bool)
  | format (nsid finishedAt : Nat)
  | submit (c : Command)
  | event (n : Nat)
  deriving DecidableEq, Repr

def step (s : State) : Action → Except Fault State
  | .advance ticks => .ok { s with getTick := s.getTick + ticks }
  | .attach nsid attached => .ok { s with attached := update s.attached nsid attached }
  | .format nsid finishedAt => .ok { s with
      formatFinishedAt := update s.formatFinishedAt nsid finishedAt }
  | .submit c => .ok (s.submitCommand c)
  | .event n =>
      match s.underway n with
      | none => .ok s
      | some u => if u.accepted then s.reqRecord n u else .ok (s.onNamespace n u)

def Finds (v : State × Action) : Prop :=
  match v.2 with
  | .event n => ∀ u ∈ v.1.underway n, u.accepted →
      v.1.tobeRecorded u.submitTick = some ⟨.ofTick u.submitTick, n⟩
  | _ => True

/-- A command that found its tick free gets past the checks, and one that did not fails. -/
def Proper (v : State × Action) : Prop :=
  match v.2 with
  | .submit c => v.1.target c = none → v.1.tobeRecorded v.1.getTick ≠ none
  | .event n => ∀ u ∈ v.1.underway n, u.accepted = false →
      (v.1.Accepts u.nsid u.command ↔ u.inserted)
  | _ => True

structure Fresh (s : State) : Prop where
  tobeRecorded : ∀ tick, s.tobeRecorded tick = none
  underway : ∀ n, s.underway n = none

structure Sound (s : State) : Prop where
  entries : ∀ tick entry, s.tobeRecorded tick = some entry →
    entry.info = .ofTick tick ∧ entry.madeFor < s.commandCount
  commands : ∀ n u, s.underway n = some u → n < s.commandCount
  own : ∀ n u, s.underway n = some u →
    (s.tobeRecorded u.submitTick = some ⟨.ofTick u.submitTick, n⟩ ↔ u.inserted)

/-- Every entry waits for a command, and every command past the checks has one. -/
structure Accounted (s : State) : Prop where
  awaited : ∀ tick entry, s.tobeRecorded tick = some entry →
    ∃ n u, s.underway n = some u ∧ u.inserted ∧ u.submitTick = tick
  provided : ∀ n u, s.underway n = some u → u.accepted → u.inserted

theorem Fresh.sound {s : State} (fresh : Fresh s) : Sound s := by
  constructor
  · simp [fresh.tobeRecorded]
  · simp [fresh.underway]
  · simp [fresh.underway]

theorem Fresh.accounted {s : State} (fresh : Fresh s) : Accounted s := by
  constructor
  · simp [fresh.tobeRecorded]
  · simp [fresh.underway]

/-- When no command is underway, the entries are accounted for exactly if there are none. -/
theorem accounted_iff_of_rest {s : State} (rest : ∀ n, s.underway n = none) :
    Accounted s ↔ ∀ tick, s.tobeRecorded tick = none := by
  constructor
  · intro accounted tick
    by_contra hentry
    obtain ⟨entry, hentry⟩ := Option.ne_none_iff_exists'.1 hentry
    obtain ⟨n, u, hu, -⟩ := accounted.awaited tick entry hentry
    simp [rest] at hu
  · intro empty
    constructor
    · simp [empty]
    · simp [rest]

/-! ## Submissions -/

section Submissions

variable {s : State} {c : Command}

theorem insert_of_some {entry : Entry} (h : s.tobeRecorded s.getTick = some entry) :
    s.insert = s := by
  simp [State.insert, h]

theorem insert_of_none (h : s.tobeRecorded s.getTick = none) :
    s.insert = { s with
      tobeRecorded := update s.tobeRecorded s.getTick
        (some ⟨.ofTick s.getTick, s.commandCount⟩) } := by
  simp [State.insert, h]

theorem submitCommand_tobeRecorded (tick : Nat) :
    (s.submitCommand c).tobeRecorded tick =
      if tick = s.getTick ∧ s.tobeRecorded tick = none then
        some ⟨.ofTick tick, s.commandCount⟩
      else s.tobeRecorded tick := by
  have hinsert : (s.submitCommand c).tobeRecorded = s.insert.tobeRecorded := by
    unfold State.submitCommand
    split <;> rfl
  rw [hinsert]
  cases h : s.tobeRecorded s.getTick with
  | some entry =>
      rw [insert_of_some h, if_neg]
      rintro ⟨rfl, hnone⟩
      simp [h] at hnone
  | none =>
      rw [insert_of_none h]
      by_cases same : tick = s.getTick
      · simp [same, h]
      · simp [same]

theorem submitCommand_underway (n : Nat) :
    (s.submitCommand c).underway n =
      if n = s.commandCount ∧ (s.target c).isSome then
        (s.target c).map fun nsid =>
          ⟨c, nsid, s.getTick, (s.tobeRecorded s.getTick).isNone, false⟩
      else s.underway n := by
  have hinsert : s.insert.underway = s.underway := by
    unfold State.insert
    split <;> rfl
  unfold State.submitCommand
  cases htarget : s.target c with
  | none => simp [hinsert]
  | some nsid =>
      by_cases same : n = s.commandCount
      · simp [same]
      · simp [same]

theorem submitCommand_commandCount :
    (s.submitCommand c).commandCount = s.commandCount + 1 := by
  unfold State.submitCommand
  split <;> rfl

theorem underway_of_submit {n : Nat} {u : Underway}
    (h : (s.submitCommand c).underway n = some u) :
    (n = s.commandCount ∧ s.target c = some u.nsid ∧ u.submitTick = s.getTick ∧
      u.inserted = (s.tobeRecorded s.getTick).isNone ∧ u.accepted = false) ∨
    s.underway n = some u := by
  rw [submitCommand_underway] at h
  split at h
  next new =>
    left
    obtain ⟨nsid, htarget, rfl⟩ := Option.map_eq_some_iff.1 h
    exact ⟨new.1, htarget, rfl, rfl, rfl⟩
  next => exact .inr h

theorem Sound.underway_submit (sound : Sound s) {n : Nat} {u : Underway}
    (h : s.underway n = some u) : (s.submitCommand c).underway n = some u := by
  rw [submitCommand_underway, if_neg, h]
  rintro ⟨rfl, -⟩
  have := sound.commands _ u h
  omega

theorem Sound.submit (sound : Sound s) : Sound (s.submitCommand c) := by
  constructor
  · intro tick entry h
    rw [submitCommand_tobeRecorded] at h
    rw [submitCommand_commandCount]
    split at h
    · cases h
      simp
    · obtain ⟨hinfo, hlt⟩ := sound.entries tick entry h
      exact ⟨hinfo, by omega⟩
  · intro n u h
    rw [submitCommand_commandCount]
    rcases underway_of_submit h with ⟨rfl, -⟩ | h
    · omega
    · have := sound.commands n u h
      omega
  · intro n u h
    rw [submitCommand_tobeRecorded]
    rcases underway_of_submit h with ⟨rfl, -, htick, hinserted, -⟩ | h
    · rw [htick, hinserted]
      cases hentry : s.tobeRecorded s.getTick with
      | none => simp
      | some entry =>
          have hlt := (sound.entries _ entry hentry).2
          simp only [reduceCtorEq, and_false, if_false, Option.isNone_some, Bool.false_eq_true,
            iff_false]
          rintro ⟨⟩
          exact lt_irrefl _ hlt
    · have hlt := sound.commands n u h
      rw [← sound.own n u h]
      split
      next new =>
        rw [new.2]
        simp only [Option.some.injEq, Entry.mk.injEq, true_and, reduceCtorEq, iff_false]
        omega
      next => rfl

theorem Sound.accounted_submit (sound : Sound s) :
    Accounted (s.submitCommand c) ↔ Accounted s ∧ Proper (s, .submit c) := by
  constructor
  · intro after
    refine ⟨⟨fun tick entry h => ?_, fun n u h => ?_⟩, fun htarget hfree => ?_⟩
    · have hentry : (s.submitCommand c).tobeRecorded tick = some entry := by
        rw [submitCommand_tobeRecorded, if_neg (by simp [h]), h]
      obtain ⟨n, u, hu, hinserted, htick⟩ := after.awaited tick entry hentry
      rcases underway_of_submit hu with ⟨-, -, hnow, hfree, -⟩ | hu
      · rw [hinserted, ← hnow, htick, h] at hfree
        cases hfree
      · exact ⟨n, u, hu, hinserted, htick⟩
    · exact after.provided n u (sound.underway_submit h)
    · have hentry : (s.submitCommand c).tobeRecorded s.getTick =
          some ⟨.ofTick s.getTick, s.commandCount⟩ := by
        rw [submitCommand_tobeRecorded, if_pos ⟨rfl, hfree⟩]
      obtain ⟨n, u, hu, hinserted, htick⟩ := after.awaited _ _ hentry
      rcases underway_of_submit hu with ⟨-, hsome, -⟩ | hu
      · rw [htarget] at hsome
        cases hsome
      · have := (sound.own n u hu).2 hinserted
        rw [htick, hfree] at this
        cases this
  · rintro ⟨before, proper⟩
    constructor
    · intro tick entry h
      rw [submitCommand_tobeRecorded] at h
      split at h
      next new =>
        obtain ⟨rfl, hfree⟩ := new
        obtain ⟨nsid, htarget⟩ := Option.ne_none_iff_exists'.1 fun hnone => proper hnone hfree
        refine ⟨s.commandCount, ⟨c, nsid, s.getTick, true, false⟩, ?_, rfl, rfl⟩
        rw [submitCommand_underway, htarget, hfree]
        simp
      next =>
        obtain ⟨n, u, hu, hinserted, htick⟩ := before.awaited tick entry h
        exact ⟨n, u, sound.underway_submit hu, hinserted, htick⟩
    · intro n u h haccepted
      rcases underway_of_submit h with ⟨-, -, -, -, hnew⟩ | h
      · rw [hnew] at haccepted
        cases haccepted
      · exact before.provided n u h haccepted

end Submissions

/-! ## Events -/

section Events

variable {s s' : State} {n : Nat} {u : Underway}

theorem event_of_none (h : s.underway n = none) : step s (.event n) = .ok s := by
  simp [step, h]

theorem event_of_accepted (h : s.underway n = some u) (accepted : u.accepted) :
    step s (.event n) = s.reqRecord n u := by
  simp [step, h, accepted]

theorem event_of_waiting (h : s.underway n = some u) (waiting : u.accepted = false) :
    step s (.event n) = .ok (s.onNamespace n u) := by
  simp [step, h, waiting]

theorem reqRecord_of_some {entry : Entry} (h : s.tobeRecorded u.submitTick = some entry) :
    s.reqRecord n u = .ok { s with
      tobeRecorded := update s.tobeRecorded u.submitTick none
      underway := update s.underway n none } := by
  simp [State.reqRecord, h]

theorem onNamespace_of_accepts (h : s.Accepts u.nsid u.command) :
    s.onNamespace n u =
      { s with underway := update s.underway n (some { u with accepted := true }) } :=
  if_pos h

theorem onNamespace_of_fails (h : ¬s.Accepts u.nsid u.command) :
    s.onNamespace n u = { s with underway := update s.underway n none } :=
  if_neg h

theorem underway_of_gone {m : Nat} {other : Underway}
    (h : update s.underway n none m = some other) : m ≠ n ∧ s.underway m = some other := by
  by_cases same : m = n
  · simp [same] at h
  · exact ⟨same, by simpa [same] using h⟩

theorem Sound.fails (sound : Sound s) : Sound { s with underway := update s.underway n none } := by
  constructor
  · exact sound.entries
  · intro m other h
    exact sound.commands m other (underway_of_gone h).2
  · intro m other h
    exact sound.own m other (underway_of_gone h).2

theorem Sound.accepts (sound : Sound s) (h : s.underway n = some u) :
    Sound { s with underway := update s.underway n (some { u with accepted := true }) } := by
  constructor
  · exact sound.entries
  · intro m other hm
    by_cases same : m = n
    · rw [same]
      exact sound.commands n u h
    · exact sound.commands m other (by simpa [same] using hm)
  · intro m other hm
    by_cases same : m = n
    · subst same
      simp only [update_self, Option.some.injEq] at hm
      subst hm
      exact sound.own m u h
    · exact sound.own m other (by simpa [same] using hm)

theorem Sound.record (sound : Sound s)
    (own : s.tobeRecorded u.submitTick = some ⟨.ofTick u.submitTick, n⟩) :
    Sound { s with
      tobeRecorded := update s.tobeRecorded u.submitTick none
      underway := update s.underway n none } := by
  constructor
  · intro tick entry hentry
    by_cases same : tick = u.submitTick
    · simp [same] at hentry
    · exact sound.entries tick entry (by simpa [same] using hentry)
  · intro m other hm
    exact sound.commands m other (underway_of_gone hm).2
  · intro m other hm
    obtain ⟨hne, hm⟩ := underway_of_gone hm
    have hother := sound.own m other hm
    by_cases same : other.submitTick = u.submitTick
    · rw [← hother, same, own]
      simpa using Ne.symm hne
    · simpa [same] using hother

theorem underway_gone {m : Nat} {other : Underway} (hne : m ≠ n) (h : s.underway m = some other) :
    update s.underway n none m = some other := by
  simpa [hne] using h

theorem Sound.accounted_fails (sound : Sound s) (h : s.underway n = some u)
    (waiting : u.accepted = false) :
    Accounted { s with underway := update s.underway n none } ↔
      Accounted s ∧ u.inserted = false := by
  constructor
  · intro after
    refine ⟨⟨fun tick entry hentry => ?_, fun m other hm haccepted => ?_⟩, ?_⟩
    · obtain ⟨m, other, hm, found⟩ := after.awaited tick entry hentry
      exact ⟨m, other, (underway_of_gone hm).2, found⟩
    · have hne : m ≠ n := by
        rintro rfl
        rw [h, Option.some.injEq] at hm
        rw [← hm, waiting] at haccepted
        cases haccepted
      exact after.provided m other (underway_gone hne hm) haccepted
    · by_contra hinserted
      have own := (sound.own n u h).2 (by simpa using hinserted)
      obtain ⟨m, other, hm, hother, htick⟩ := after.awaited _ _ own
      obtain ⟨hne, hm⟩ := underway_of_gone hm
      have := (sound.own m other hm).2 hother
      rw [htick, own] at this
      simp only [Option.some.injEq, Entry.mk.injEq, true_and] at this
      exact hne this.symm
  · rintro ⟨before, hinserted⟩
    constructor
    · intro tick entry hentry
      obtain ⟨m, other, hm, hother, htick⟩ := before.awaited tick entry hentry
      have hne : m ≠ n := by
        rintro rfl
        rw [h, Option.some.injEq] at hm
        rw [← hm, hinserted] at hother
        cases hother
      exact ⟨m, other, underway_gone hne hm, hother, htick⟩
    · intro m other hm
      exact before.provided m other (underway_of_gone hm).2

theorem Sound.accounted_accepts (h : s.underway n = some u) (waiting : u.accepted = false) :
    Accounted { s with underway := update s.underway n (some { u with accepted := true }) } ↔
      Accounted s ∧ u.inserted := by
  have passed : update s.underway n (some { u with accepted := true }) n =
      some { u with accepted := true } := update_self ..
  constructor
  · intro after
    refine ⟨⟨fun tick entry hentry => ?_, fun m other hm haccepted => ?_⟩,
      after.provided n { u with accepted := true } passed rfl⟩
    · obtain ⟨m, other, hm, hother, htick⟩ := after.awaited tick entry hentry
      by_cases same : m = n
      · subst same
        simp only [update_self, Option.some.injEq] at hm
        subst hm
        exact ⟨m, u, h, hother, htick⟩
      · exact ⟨m, other, by simpa [same] using hm, hother, htick⟩
    · have hne : m ≠ n := by
        rintro rfl
        rw [h, Option.some.injEq] at hm
        rw [← hm, waiting] at haccepted
        cases haccepted
      exact after.provided m other (by simpa [hne] using hm) haccepted
  · rintro ⟨before, hinserted⟩
    constructor
    · intro tick entry hentry
      obtain ⟨m, other, hm, hother, htick⟩ := before.awaited tick entry hentry
      by_cases same : m = n
      · subst same
        rw [h, Option.some.injEq] at hm
        subst hm
        exact ⟨m, _, passed, hother, htick⟩
      · exact ⟨m, other, by simpa [same] using hm, hother, htick⟩
    · intro m other hm haccepted
      by_cases same : m = n
      · subst same
        simp only [update_self, Option.some.injEq] at hm
        subst hm
        exact hinserted
      · exact before.provided m other (by simpa [same] using hm) haccepted

theorem Sound.accounted_record (sound : Sound s) (h : s.underway n = some u)
    (own : s.tobeRecorded u.submitTick = some ⟨.ofTick u.submitTick, n⟩) :
    Accounted { s with
      tobeRecorded := update s.tobeRecorded u.submitTick none
      underway := update s.underway n none } ↔ Accounted s := by
  have hinserted := (sound.own n u h).1 own
  constructor
  · intro after
    constructor
    · intro tick entry hentry
      by_cases same : tick = u.submitTick
      · exact ⟨n, u, h, hinserted, same.symm⟩
      · obtain ⟨m, other, hm, found⟩ := after.awaited tick entry (by simpa [same] using hentry)
        exact ⟨m, other, (underway_of_gone hm).2, found⟩
    · intro m other hm haccepted
      by_cases same : m = n
      · rw [same, h, Option.some.injEq] at hm
        rw [← hm]
        exact hinserted
      · exact after.provided m other (underway_gone same hm) haccepted
  · intro before
    constructor
    · intro tick entry hentry
      by_cases same : tick = u.submitTick
      · simp [same] at hentry
      · obtain ⟨m, other, hm, hother, htick⟩ :=
          before.awaited tick entry (by simpa [same] using hentry)
        have hne : m ≠ n := by
          rintro rfl
          rw [h, Option.some.injEq] at hm
          rw [← hm] at htick
          exact same htick.symm
        exact ⟨m, other, underway_gone hne hm, hother, htick⟩
    · intro m other hm
      exact before.provided m other (underway_of_gone hm).2

end Events

/-! ## Runs -/

section Runs

variable {s s' : State} {a : Action}

theorem Sound.step (sound : Sound s) (finds : Finds (s, a))
    (h : Recording.step s a = .ok s') : Sound s' := by
  cases a with
  | advance ticks | attach nsid attached | format nsid finishedAt =>
      cases h
      exact ⟨sound.entries, sound.commands, sound.own⟩
  | submit c =>
      cases h
      exact sound.submit
  | event n =>
      cases hu : s.underway n with
      | none =>
          rw [event_of_none hu] at h
          cases h
          exact sound
      | some u =>
          cases haccepted : u.accepted with
          | true =>
              have own := finds u hu haccepted
              rw [event_of_accepted hu haccepted, reqRecord_of_some own] at h
              cases h
              exact sound.record own
          | false =>
              rw [event_of_waiting hu haccepted] at h
              cases h
              by_cases accepts : s.Accepts u.nsid u.command
              · rw [onNamespace_of_accepts accepts]
                exact sound.accepts hu
              · rw [onNamespace_of_fails accepts]
                exact sound.fails

theorem Sound.accounted_step (sound : Sound s) (finds : Finds (s, a))
    (h : Recording.step s a = .ok s') : Accounted s' ↔ Accounted s ∧ Proper (s, a) := by
  cases a with
  | advance ticks | attach nsid attached | format nsid finishedAt =>
      cases h
      simp only [Proper, and_true]
      exact ⟨fun after => ⟨after.awaited, after.provided⟩,
        fun before => ⟨before.awaited, before.provided⟩⟩
  | submit c =>
      cases h
      exact sound.accounted_submit
  | event n =>
      cases hu : s.underway n with
      | none =>
          rw [event_of_none hu] at h
          cases h
          simp [Proper, hu]
      | some u =>
          cases haccepted : u.accepted with
          | true =>
              have own := finds u hu haccepted
              rw [event_of_accepted hu haccepted, reqRecord_of_some own] at h
              cases h
              simpa [Proper, hu, haccepted] using sound.accounted_record hu own
          | false =>
              rw [event_of_waiting hu haccepted] at h
              cases h
              by_cases accepts : s.Accepts u.nsid u.command
              · rw [onNamespace_of_accepts accepts, Sound.accounted_accepts hu haccepted]
                simp [Proper, hu, haccepted, accepts]
              · rw [onNamespace_of_fails accepts, sound.accounted_fails hu haccepted]
                simp [Proper, hu, haccepted, accepts]

theorem Sound.finds (sound : Sound s) (accounted : Accounted s) : Finds (s, a) := by
  cases a with
  | event n =>
      intro u hu haccepted
      exact (sound.own n u hu).2 (accounted.provided n u hu haccepted)
  | _ => trivial

theorem step_isOk (finds : Finds (s, a)) : ∃ s', step s a = .ok s' := by
  cases a with
  | event n =>
      cases hu : s.underway n with
      | none => exact ⟨s, event_of_none hu⟩
      | some u =>
          cases haccepted : u.accepted with
          | true =>
              rw [event_of_accepted hu haccepted, reqRecord_of_some (finds u hu haccepted)]
              exact ⟨_, rfl⟩
          | false => exact ⟨_, event_of_waiting hu haccepted⟩
  | _ => exact ⟨_, rfl⟩

def run (s : State) (actions : List Action) : Except Fault State := actions.foldlM step s

/-- Records find their entries, no assertion fails, and whenever all commands are complete
no entry is left. -/
def Settled (s : State) (actions : List Action) : Prop :=
  (∀ v ∈ visits step actions s, Finds v) ∧
    ∀ early, early <+: actions → ∃ t, run s early = .ok t ∧
      ((∀ n, t.underway n = none) → ∀ tick, t.tobeRecorded tick = none)

theorem proper_run {actions : List Action} (sound : Sound s) (accounted : Accounted s)
    (proper : ∀ v ∈ visits step actions s, Proper v) :
    (∀ v ∈ visits step actions s, Finds v) ∧
      ∃ t, run s actions = .ok t ∧ Sound t ∧ Accounted t := by
  refine visits_total ?_ ⟨sound, accounted⟩ proper
  rintro s a ⟨sound, accounted⟩ hproper
  have finds := sound.finds (a := a) accounted
  obtain ⟨s', hstep⟩ := step_isOk finds
  exact ⟨finds, s', hstep, sound.step finds hstep,
    (sound.accounted_step finds hstep).2 ⟨accounted, hproper⟩⟩

/-- Recording goes well when every command that found its tick free gets past the checks and
every other fails, and in a run that comes to rest only then. -/
theorem recording_settled (fresh : Fresh s) (actions : List Action) :
    ((∀ v ∈ visits step actions s, Proper v) → Settled s actions) ∧
      ∀ t, run s actions = .ok t → (∀ n, t.underway n = none) → Settled s actions →
        ∀ v ∈ visits step actions s, Proper v := by
  constructor
  · intro proper
    refine ⟨(proper_run fresh.sound fresh.accounted proper).1, fun early part => ?_⟩
    have members := (visits_early part (f := step) (b := s)).subset
    obtain ⟨-, t, hrun, -, accounted⟩ := proper_run fresh.sound fresh.accounted
      fun v hv => proper v (members hv)
    exact ⟨t, hrun, fun rest => (accounted_iff_of_rest rest).1 accounted⟩
  · rintro t hrun rest ⟨finds, settled⟩
    obtain ⟨t', hrun', empty⟩ := settled actions List.prefix_rfl
    cases hrun.symm.trans hrun'
    have accounted := (accounted_iff_of_rest rest).2 (empty rest)
    exact ((visits_exact (fun _ _ _ sound finds hstep => Sound.step sound finds hstep)
      (fun _ _ _ sound finds hstep => Sound.accounted_step sound finds hstep)
      hrun fresh.sound finds).1 accounted).2

end Runs

def idle : State where
  getTick := 7
  lNamespaces := [1]
  attached := fun nsid => nsid = 1
  formatFinishedAt := fun _ => 0
  commandCount := 0
  tobeRecorded := fun _ => none
  underway := fun _ => none

theorem fresh_idle : Fresh idle := ⟨fun _ => rfl, fun _ => rfl⟩

def readThenFlush : List Action :=
  [.submit ⟨.read, 1, 0⟩, .event 0, .event 0, .submit ⟨.flush, 1, 0⟩, .event 1, .event 1]

def twoReads : List Action :=
  [.submit ⟨.read, 1, 0⟩, .submit ⟨.read, 1, 0⟩, .event 0, .event 1, .event 0, .event 1]

def failedRead : List Action := [.submit ⟨.read, 1, 0xFFFF⟩, .event 0]

theorem recording_settled_readThenFlush : Settled idle readThenFlush := by
  apply (recording_settled fresh_idle readThenFlush).1
  simp [readThenFlush, visits, step, Proper, idle, State.submitCommand, State.insert,
    State.target, State.NSID_ALL, State.onNamespace, State.Accepts, State.reqRecord, Command.nlb]

/-- The second record asserts, and a command that fails leaves its entry. -/
theorem recording_unsettled : ¬Settled idle twoReads ∧ ¬Settled idle failedRead := by
  constructor
  · rintro ⟨-, settled⟩
    obtain ⟨t, hrun, -⟩ := settled twoReads List.prefix_rfl
    have asserts : run idle twoReads = .error (.panic "todo != tobeRecorded.end()") := rfl
    rw [asserts] at hrun
    cases hrun
  · rintro ⟨-, settled⟩
    obtain ⟨t, hrun, empty⟩ := settled failedRead List.prefix_rfl
    cases hrun
    have left := empty (fun n => by cases n <;> rfl) 7
    cases left

end SimpleSSD.HIL.NVMe.Recording
