import Mathlib.Data.List.Chain
import Mathlib.Logic.Relation

/-!
# Invariants of runs

The rules for properties of every state a transition relation can reach, and
of every state a list of actions passes through.
-/

namespace SimpleSSD.Foundation

open Relation

variable {σ α : Type*}

theorem invariant_of_steps {step : σ → σ → Prop} {Inv : σ → Prop}
    (kept : ∀ s s', step s s' → Inv s → Inv s') {s s' : σ}
    (run : ReflTransGen step s s') (start : Inv s) : Inv s' := by
  induction run with
  | refl => exact start
  | tail _ last ih => exact kept _ _ last ih

/-! ## Runs of given actions

An action that is not enabled ends the run. -/

def runActions (step : σ → α → Option σ) (s : σ) : List α → Option σ
  | [] => some s
  | a :: rest => (step s a).bind fun s' => runActions step s' rest

/-- `P` holds in every state the run passes through. -/
def Throughout (step : σ → α → Option σ) (P : σ → Prop) (s : σ) : List α → Prop
  | [] => P s
  | a :: rest => P s ∧ ∀ s', step s a = some s' → Throughout step P s' rest

/-- Every action the run takes meets `ok` in the state it is taken in. -/
def EachAction (step : σ → α → Option σ) (ok : σ → α → Prop) (s : σ) : List α → Prop
  | [] => True
  | a :: rest => ∀ s', step s a = some s' → ok s a ∧ EachAction step ok s' rest

variable {step : σ → α → Option σ} {ok : σ → α → Prop} {Inv P : σ → Prop}

theorem EachAction.cons {s s' : σ} {a : α} {rest : List α} (hstep : step s a = some s')
    (hok : ok s a) (later : EachAction step ok s' rest) : EachAction step ok s (a :: rest) := by
  intro mid hmid
  cases hstep.symm.trans hmid
  exact ⟨hok, later⟩

theorem throughout_of_invariant
    (kept : ∀ s a s', Inv s → ok s a → step s a = some s' → Inv s')
    (holds : ∀ s, Inv s → P s) {s : σ} (start : Inv s) {actions : List α}
    (each : EachAction step ok s actions) : Throughout step P s actions := by
  induction actions generalizing s with
  | nil => exact holds s start
  | cons a rest ih =>
      refine ⟨holds s start, fun s' hstep => ?_⟩
      obtain ⟨hok, hrest⟩ := each s' hstep
      exact ih (kept s a s' start hok hstep) hrest

/-- When an action that breaks the condition breaks the property at once, the
condition on the actions is exact. -/
theorem throughout_iff_eachAction
    (kept : ∀ s a s', Inv s → ok s a → step s a = some s' → Inv s')
    (holds : ∀ s, Inv s → P s)
    (broken : ∀ s a s', Inv s → step s a = some s' → P s' → ok s a)
    {s : σ} (start : Inv s) (actions : List α) :
    Throughout step P s actions ↔ EachAction step ok s actions := by
  refine ⟨fun all => ?_, throughout_of_invariant kept holds start⟩
  induction actions generalizing s with
  | nil => trivial
  | cons a rest ih =>
      intro s' hstep
      have later := all.2 s' hstep
      have good : P s' := by
        cases rest with
        | nil => exact later
        | cons => exact later.1
      have hok := broken s a s' start hstep good
      exact ⟨hok, ih (kept s a s' start hok hstep) later⟩

/-- A condition that is met exactly when an action is good and leads to a good state
is exact over runs. -/
theorem good_iff_eachAction {good : σ → α → Prop}
    (kept : ∀ s a s', Inv s → step s a = some s' → Inv s')
    (exactly : ∀ s a s', Inv s → P s → step s a = some s' → (ok s a ↔ good s a ∧ P s'))
    {s : σ} (start : Inv s) (actions : List α) :
    (EachAction step good s actions ∧ Throughout step P s actions) ↔
      P s ∧ EachAction step ok s actions := by
  induction actions generalizing s with
  | nil => exact and_comm
  | cons a rest ih =>
      constructor
      · rintro ⟨each, holds, later⟩
        refine ⟨holds, fun s' hstep => ?_⟩
        obtain ⟨hgood, hrest⟩ := each s' hstep
        obtain ⟨holds', each'⟩ := (ih (kept s a s' start hstep)).1 ⟨hrest, later s' hstep⟩
        exact ⟨(exactly s a s' start holds hstep).2 ⟨hgood, holds'⟩, each'⟩
      · rintro ⟨holds, each⟩
        have next : ∀ s', step s a = some s' → good s a ∧
            EachAction step good s' rest ∧ Throughout step P s' rest := by
          intro s' hstep
          obtain ⟨hok, hrest⟩ := each s' hstep
          obtain ⟨hgood, holds'⟩ := (exactly s a s' start holds hstep).1 hok
          exact ⟨hgood, (ih (kept s a s' start hstep)).2 ⟨holds', hrest⟩⟩
        exact ⟨fun s' hstep => ⟨(next s' hstep).1, (next s' hstep).2.1⟩, holds,
          fun s' hstep => (next s' hstep).2.2⟩

theorem eachAction_congr {good : σ → α → Prop}
    (kept : ∀ s a s', Inv s → step s a = some s' → Inv s')
    (same : ∀ s a s', Inv s → step s a = some s' → (good s a ↔ ok s a))
    {s : σ} (start : Inv s) (actions : List α) :
    EachAction step good s actions ↔ EachAction step ok s actions := by
  induction actions generalizing s with
  | nil => exact Iff.rfl
  | cons a rest ih =>
      apply forall₂_congr
      intro s' hstep
      rw [same s a s' start hstep, ih (kept s a s' start hstep)]

/-! ## Observations -/

variable {β : Type*}

def observed (step : σ → α → Option σ) (see : σ → α → List β) (s : σ) : List α → List β
  | [] => []
  | a :: rest =>
      match step s a with
      | none => []
      | some s' => see s a ++ observed step see s' rest

theorem observed_cons {see : σ → α → List β} {s s' : σ} {a : α} {rest : List α}
    (hstep : step s a = some s') :
    observed step see s (a :: rest) = see s a ++ observed step see s' rest := by
  simp [observed, hstep]

theorem observed_filter {see : σ → α → List β} (keep : β → Bool) (s : σ) (actions : List α) :
    observed step (fun s a => (see s a).filter keep) s actions =
      (observed step see s actions).filter keep := by
  induction actions generalizing s with
  | nil => rfl
  | cons a rest ih =>
      cases hstep : step s a with
      | none => simp [observed, hstep]
      | some s' => rw [observed_cons hstep, observed_cons hstep, ih, List.filter_append]

theorem eachAction_of_forall {good : α → Prop} {s : σ} {actions : List α}
    (all : ∀ a ∈ actions, good a) : EachAction step (fun _ a => good a) s actions := by
  induction actions generalizing s with
  | nil => trivial
  | cons a rest ih =>
      intro s' _
      exact ⟨all a List.mem_cons_self, ih fun b hmem => all b (List.mem_cons_of_mem _ hmem)⟩

theorem runActions_cons {s t : σ} {a : α} {rest : List α}
    (run : runActions step s (a :: rest) = some t) :
    ∃ s', step s a = some s' ∧ runActions step s' rest = some t :=
  Option.bind_eq_some_iff.1 run

theorem runActions_append {s t : σ} {first later : List α} :
    runActions step s (first ++ later) = some t ↔
      ∃ mid, runActions step s first = some mid ∧ runActions step mid later = some t := by
  induction first generalizing s with
  | nil => simp [runActions]
  | cons a rest ih =>
      constructor
      · intro run
        obtain ⟨s', hstep, run⟩ := runActions_cons run
        obtain ⟨mid, early, late⟩ := ih.1 run
        exact ⟨mid, Option.bind_eq_some_iff.2 ⟨s', hstep, early⟩, late⟩
      · rintro ⟨mid, early, late⟩
        obtain ⟨s', hstep, early⟩ := runActions_cons early
        exact Option.bind_eq_some_iff.2 ⟨s', hstep, ih.2 ⟨mid, early, late⟩⟩

theorem invariant_of_run (kept : ∀ s a s', Inv s → ok s a → step s a = some s' → Inv s')
    {s t : σ} {actions : List α} (run : runActions step s actions = some t) (start : Inv s)
    (each : EachAction step ok s actions) : Inv t := by
  induction actions generalizing s with
  | nil =>
      cases run
      exact start
  | cons a rest ih =>
      obtain ⟨s', hstep, run⟩ := runActions_cons run
      obtain ⟨hok, each⟩ := each s' hstep
      exact ih run (kept s a s' start hok hstep) each

theorem invariant_of_actions (kept : ∀ s a s', Inv s → step s a = some s' → Inv s') {s t : σ}
    {actions : List α} (run : runActions step s actions = some t) (start : Inv s) : Inv t := by
  have all : EachAction step (fun _ _ => True) s actions :=
    eachAction_of_forall fun _ _ => trivial
  exact invariant_of_run (fun s a s' inv _ => kept s a s' inv) run start all

/-- A queue that every step fills at its end and empties at its front gives back what went
into it, in order. -/
theorem queue_of_run (queue : σ → List β) (enter leave : σ → α → List β)
    (kept : ∀ s a s', Inv s → ok s a → step s a = some s' →
      Inv s' ∧ queue s ++ enter s a = leave s a ++ queue s')
    {s t : σ} {actions : List α} (run : runActions step s actions = some t) (start : Inv s)
    (each : EachAction step ok s actions) :
    queue s ++ observed step enter s actions = observed step leave s actions ++ queue t := by
  induction actions generalizing s with
  | nil =>
      cases run
      simp [observed]
  | cons a rest ih =>
      obtain ⟨s', hstep, run⟩ := runActions_cons run
      obtain ⟨hok, each⟩ := each s' hstep
      obtain ⟨start', one⟩ := kept s a s' start hok hstep
      rw [observed_cons hstep, observed_cons hstep, ← List.append_assoc, one,
        List.append_assoc, ih run start' each, List.append_assoc]

/-! ## Histories

A history lists the states a run passes through, each a step from the one before. -/

variable {next : σ → σ → Prop} {pair : σ → σ → Prop}

theorem exists_history {s t : σ} (run : ReflTransGen next s t) :
    ∃ history, (s :: history).IsChain next ∧ (s :: history).getLast? = some t := by
  induction run using ReflTransGen.head_induction_on with
  | refl => exact ⟨[], List.isChain_singleton _, rfl⟩
  | head first _ ih =>
      obtain ⟨history, chain, last⟩ := ih
      refine ⟨_ :: history, List.isChain_cons_cons.2 ⟨first, chain⟩, ?_⟩
      rw [List.getLast?_cons_cons]
      exact last

theorem forall_of_history (kept : ∀ s t, next s t → Inv s → Inv t) {s : σ} {history : List σ}
    (chain : (s :: history).IsChain next) (start : Inv s) : ∀ t ∈ s :: history, Inv t := by
  induction history generalizing s with
  | nil => simpa using start
  | cons t rest ih =>
      obtain ⟨first, later⟩ := List.isChain_cons_cons.1 chain
      exact List.forall_mem_cons.2 ⟨start, ih later (kept s t first start)⟩

/-- When a step from a good state leads to a good one exactly if it meets a condition,
the condition on the steps is exact over histories. -/
theorem history_iff (exactly : ∀ s t, next s t → P s → (P t ↔ pair s t)) {s : σ}
    {history : List σ} (chain : (s :: history).IsChain next) (start : P s) :
    (∀ t ∈ s :: history, P t) ↔ (s :: history).IsChain pair := by
  induction history generalizing s with
  | nil => simpa using start
  | cons t rest ih =>
      obtain ⟨first, later⟩ := List.isChain_cons_cons.1 chain
      rw [List.forall_mem_cons, List.isChain_cons_cons, ← exactly s t first start,
        and_iff_right start]
      constructor
      · intro all
        have good := all t List.mem_cons_self
        exact ⟨good, (ih later good).1 all⟩
      · rintro ⟨good, pairs⟩
        exact (ih later good).2 pairs

end SimpleSSD.Foundation
