import Mathlib.Data.List.Basic

/-!
# Fallible computations

Inversion of binds and folds that return a value or fail, the rules that carry an
invariant through such a fold, the calls a fold makes, computations that return under a
condition, and agreement of two computations.
-/

namespace SimpleSSD.Foundation

universe u

theorem ok_bind {ε : Type*} {α β : Type u} (a : α) (f : α → Except ε β) :
    (Except.ok a >>= f) = f a := rfl

theorem bind_eq_ok {ε : Type*} {α β : Type u} {x : Except ε α} {f : α → Except ε β} {b : β} :
    x >>= f = .ok b ↔ ∃ a, x = .ok a ∧ f a = .ok b := by
  cases x with
  | error e =>
      refine ⟨fun h => ?_, fun ⟨_, h, _⟩ => ?_⟩
      · cases h
      · cases h
  | ok a =>
      refine ⟨fun h => ⟨a, rfl, h⟩, ?_⟩
      rintro ⟨a', ha, h⟩
      cases ha
      exact h

theorem bind_eq_error {ε : Type*} {α β : Type u} {x : Except ε α} {f : α → Except ε β} {e : ε} :
    x >>= f = .error e ↔ x = .error e ∨ ∃ a, x = .ok a ∧ f a = .error e := by
  cases x with
  | error e' =>
      constructor
      · intro h
        cases h
        exact .inl rfl
      · rintro (h | ⟨_, h, _⟩)
        · cases h
          rfl
        · cases h
  | ok a =>
      constructor
      · intro h
        exact .inr ⟨a, rfl, h⟩
      · rintro (h | ⟨_, h, herror⟩)
        · cases h
        · cases h
          exact herror

theorem map_of_bind {ε : Type*} {α β γ : Type u} (g : β → γ) (x : Except ε α)
    (f : α → Except ε β) : (x >>= f).map g = x >>= fun a => (f a).map g := by
  cases x <;> rfl

theorem bind_ne_error {ε : Type*} {α β : Type u} {x : Except ε α} {f : α → Except ε β} {e : ε}
    (first : x ≠ .error e) (later : ∀ a, f a ≠ .error e) : x >>= f ≠ .error e := by
  intro h
  rcases bind_eq_error.1 h with h | ⟨a, -, h⟩
  · exact first h
  · exact later a h

variable {ε α β : Type*}

theorem map_eq_ok {f : α → β} {x : Except ε α} {b : β} :
    x.map f = .ok b ↔ ∃ a, x = .ok a ∧ f a = b := by
  cases x <;> simp [Except.map]

theorem exists_of_isOk {x : Except ε α} (h : x.isOk = true) : ∃ a, x = .ok a := by
  cases x with
  | error e => cases h
  | ok a => exact ⟨a, rfl⟩

theorem foldlM_flatMap {γ : Type*} {f : β → α → Except ε β} {g : γ → List α} {l : List γ} {b : β} :
    (l.flatMap g).foldlM f b = l.foldlM (fun b c => (g c).foldlM f b) b := by
  induction l generalizing b with
  | nil => rfl
  | cons c rest ih =>
      rw [List.flatMap_cons, List.foldlM_append, List.foldlM_cons]
      simp only [ih]

/-- A property of the elements still to come and the value so far. -/
theorem foldlM_invariant {f : β → α → Except ε β} (Inv : List α → β → Prop)
    (step : ∀ a rest b b', Inv (a :: rest) b → f b a = .ok b' → Inv rest b')
    {l : List α} {b b' : β} (run : l.foldlM f b = .ok b') (start : Inv l b) : Inv [] b' := by
  induction l generalizing b with
  | nil =>
      rw [List.foldlM_nil] at run
      cases run
      exact start
  | cons a rest ih =>
      rw [List.foldlM_cons, bind_eq_ok] at run
      obtain ⟨mid, first, later⟩ := run
      exact ih later (step a rest b mid start first)

/-- A property of the value alone. -/
theorem foldlM_invariant_mem {f : β → α → Except ε β} (Inv : β → Prop) {l : List α}
    (step : ∀ a ∈ l, ∀ b b', Inv b → f b a = .ok b' → Inv b')
    {b b' : β} (run : l.foldlM f b = .ok b') (start : Inv b) : Inv b' := by
  refine (foldlM_invariant (fun rest b => (∀ a ∈ rest, a ∈ l) ∧ Inv b) ?_ run
    ⟨fun _ h => h, start⟩).2
  rintro a rest b b' ⟨members, inv⟩ h
  exact ⟨fun c hc => members c (List.mem_cons_of_mem a hc),
    step a (members a List.mem_cons_self) b b' inv h⟩

theorem foldlM_total {f : β → α → Except ε β} (Inv : β → Prop) {l : List α}
    (step : ∀ a ∈ l, ∀ b, Inv b → ∃ b', f b a = .ok b' ∧ Inv b') {b : β} (start : Inv b) :
    ∃ b', l.foldlM f b = .ok b' ∧ Inv b' := by
  induction l generalizing b with
  | nil => exact ⟨b, rfl, start⟩
  | cons a rest ih =>
      obtain ⟨mid, first, inv⟩ := step a List.mem_cons_self b start
      obtain ⟨b', later, inv'⟩ := ih (fun c hc => step c (List.mem_cons_of_mem a hc)) inv
      refine ⟨b', ?_, inv'⟩
      rw [List.foldlM_cons, bind_eq_ok]
      exact ⟨mid, first, later⟩

theorem foldlM_progress {f : β → α → Except ε β} (Inv : List α → β → Prop)
    (step : ∀ a rest b, Inv (a :: rest) b → ∃ b', f b a = .ok b' ∧ Inv rest b')
    {l : List α} {b : β} (start : Inv l b) : ∃ b', l.foldlM f b = .ok b' ∧ Inv [] b' := by
  induction l generalizing b with
  | nil => exact ⟨b, rfl, start⟩
  | cons a rest ih =>
      obtain ⟨mid, first, inv⟩ := step a rest b start
      obtain ⟨b', later, inv'⟩ := ih inv
      refine ⟨b', ?_, inv'⟩
      rw [List.foldlM_cons, bind_eq_ok]
      exact ⟨mid, first, later⟩

/-! ## Calls of a fold -/

/-- The arguments a fold calls its step with, up to the first call that fails. -/
def visits (f : β → α → Except ε β) : List α → β → List (β × α)
  | [], _ => []
  | a :: rest, b =>
      (b, a) :: match f b a with
        | .error _ => []
        | .ok b' => visits f rest b'

theorem visits_invariant {f : β → α → Except ε β} (Inv : List α → β → Prop)
    (step : ∀ a rest b b', Inv (a :: rest) b → f b a = .ok b' → Inv rest b')
    {l : List α} {b : β} (start : Inv l b) :
    ∀ v ∈ visits f l b, ∃ rest, Inv (v.2 :: rest) v.1 := by
  induction l generalizing b with
  | nil => simp [visits]
  | cons a rest ih =>
      intro v hv
      rcases List.mem_cons.1 hv with rfl | hv
      · exact ⟨rest, start⟩
      · cases hstep : f b a with
        | error e => simp [hstep] at hv
        | ok b' =>
            simp only [hstep] at hv
            exact ih (step a rest b b' start hstep) v hv

theorem visits_invariant_mem {f : β → α → Except ε β} (Inv : β → Prop) {l : List α}
    (step : ∀ a ∈ l, ∀ b b', Inv b → f b a = .ok b' → Inv b') {b : β} (start : Inv b) :
    ∀ v ∈ visits f l b, v.2 ∈ l ∧ Inv v.1 := by
  intro v hv
  have inv := visits_invariant (fun rest b => (∀ a ∈ rest, a ∈ l) ∧ Inv b) ?_
    ⟨fun _ h => h, start⟩ v hv
  · obtain ⟨rest, members, inv⟩ := inv
    exact ⟨members v.2 List.mem_cons_self, inv⟩
  · rintro a rest b b' ⟨members, inv⟩ h
    exact ⟨fun c hc => members c (List.mem_cons_of_mem a hc),
      step a (members a List.mem_cons_self) b b' inv h⟩

theorem exists_visit_of_error {f : β → α → Except ε β} {l : List α} {b : β} {e : ε}
    (run : l.foldlM f b = .error e) : ∃ v ∈ visits f l b, f v.1 v.2 = .error e := by
  induction l generalizing b with
  | nil =>
      rw [List.foldlM_nil] at run
      cases run
  | cons a rest ih =>
      rw [List.foldlM_cons, bind_eq_error] at run
      rcases run with first | ⟨mid, first, later⟩
      · exact ⟨(b, a), List.mem_cons_self, first⟩
      · obtain ⟨v, hv, herror⟩ := ih later
        refine ⟨v, ?_, herror⟩
        simp only [visits, first]
        exact List.mem_cons_of_mem _ hv

theorem exists_visit_of_ok {f : β → α → Except ε β} {l : List α} {a : α} {b b' : β}
    (run : l.foldlM f b = .ok b') (ha : a ∈ l) :
    ∃ mid, (mid, a) ∈ visits f l b ∧ ∃ next, f mid a = .ok next := by
  induction l generalizing b with
  | nil => cases ha
  | cons c rest ih =>
      rw [List.foldlM_cons, bind_eq_ok] at run
      obtain ⟨mid, first, later⟩ := run
      simp only [visits, first]
      rcases List.mem_cons.1 ha with rfl | ha
      · exact ⟨b, List.mem_cons_self, mid, first⟩
      · obtain ⟨visited, hvisited, hnext⟩ := ih later ha
        exact ⟨visited, List.mem_cons_of_mem _ hvisited, hnext⟩

/-- Good calls keep a property exactly when they meet a condition. -/
theorem visits_exact {f : β → α → Except ε β} {Inv P : β → Prop} {good ok : β × α → Prop}
    (kept : ∀ b a b', Inv b → good (b, a) → f b a = .ok b' → Inv b')
    (exactly : ∀ b a b', Inv b → good (b, a) → f b a = .ok b' → (P b' ↔ P b ∧ ok (b, a)))
    {l : List α} {b b' : β} (run : l.foldlM f b = .ok b') (start : Inv b)
    (all : ∀ v ∈ visits f l b, good v) : P b' ↔ P b ∧ ∀ v ∈ visits f l b, ok v := by
  induction l generalizing b with
  | nil =>
      cases run
      simp [visits]
  | cons a rest ih =>
      rw [List.foldlM_cons, bind_eq_ok] at run
      obtain ⟨mid, first, later⟩ := run
      simp only [visits, first, List.forall_mem_cons] at all ⊢
      rw [ih later (kept b a mid start all.1 first) all.2,
        exactly b a mid start all.1 first, and_assoc]

/-- Calls that meet a condition are good and return, when one that meets it does so. -/
theorem visits_total {f : β → α → Except ε β} {Inv : β → Prop} {good ok : β × α → Prop}
    (step : ∀ b a, Inv b → ok (b, a) → good (b, a) ∧ ∃ b', f b a = .ok b' ∧ Inv b')
    {l : List α} {b : β} (start : Inv b) (all : ∀ v ∈ visits f l b, ok v) :
    (∀ v ∈ visits f l b, good v) ∧ ∃ b', l.foldlM f b = .ok b' ∧ Inv b' := by
  induction l generalizing b with
  | nil => exact ⟨by simp [visits], b, rfl, start⟩
  | cons a rest ih =>
      obtain ⟨hgood, mid, first, inv⟩ := step b a start (all (b, a) List.mem_cons_self)
      simp only [visits, first, List.forall_mem_cons] at all ⊢
      obtain ⟨hrest, b', later, inv'⟩ := ih inv all.2
      refine ⟨⟨hgood, hrest⟩, b', ?_, inv'⟩
      rw [List.foldlM_cons, bind_eq_ok]
      exact ⟨mid, first, later⟩

theorem visits_append {f : β → α → Except ε β} {first later : List α} {b mid : β}
    (run : first.foldlM f b = .ok mid) :
    visits f (first ++ later) b = visits f first b ++ visits f later mid := by
  induction first generalizing b with
  | nil =>
      cases run
      rfl
  | cons a rest ih =>
      rw [List.foldlM_cons, bind_eq_ok] at run
      obtain ⟨next, step, run⟩ := run
      simp only [List.cons_append, visits, step, ih run]

theorem visits_early {f : β → α → Except ε β} {early l : List α} {b : β}
    (part : early <+: l) : visits f early b <+: visits f l b := by
  induction l generalizing early b with
  | nil => simp [List.prefix_nil.1 part]
  | cons a rest ih =>
      cases early with
      | nil => exact List.nil_prefix
      | cons c early =>
          obtain ⟨rfl, tails⟩ := List.cons_prefix_cons.1 part
          simp only [visits]
          refine List.cons_prefix_cons.2 ⟨rfl, ?_⟩
          cases f b c with
          | error e => exact List.nil_prefix
          | ok mid => exact ih tails

theorem visits_log {γ : Type*} {f : β → α → Except ε β} (log : β → List γ)
    (calls : β × α → List γ)
    (step : ∀ b a b', f b a = .ok b' → log b' = (calls (b, a)).reverse ++ log b)
    {l : List α} {b b' : β} (run : l.foldlM f b = .ok b') :
    log b' = ((visits f l b).flatMap calls).reverse ++ log b := by
  induction l generalizing b with
  | nil =>
      cases run
      rfl
  | cons a rest ih =>
      rw [List.foldlM_cons, bind_eq_ok] at run
      obtain ⟨mid, first, later⟩ := run
      rw [ih later, step b a mid first]
      simp [visits, first]

/-! ## Conditions on calls -/

section Exact

variable {σ γ : Type*} {P : σ → Prop} {good ok : γ → Prop}

/-- Between two states some calls are made.  When `P` holds in the first one, the calls are
all good exactly if they all meet the condition, and then `P` holds in the second. -/
def Exact (P : σ → Prop) (good ok : γ → Prop) (calls : List γ) (s s' : σ) : Prop :=
  P s → ((∀ c ∈ calls, good c) ↔ ∀ c ∈ calls, ok c) ∧ ((∀ c ∈ calls, ok c) → P s')

theorem Exact.nil {s s' : σ} (kept : P s → P s') : Exact P good ok [] s s' :=
  fun h => ⟨by simp, fun _ => kept h⟩

theorem Exact.trans {calls calls' : List γ} {s s' s'' : σ} (h : Exact P good ok calls s s')
    (h' : Exact P good ok calls' s' s'') : Exact P good ok (calls ++ calls') s s'' := by
  intro start
  obtain ⟨first, mid⟩ := h start
  simp only [List.forall_mem_append]
  constructor
  · constructor
    · rintro ⟨early, late⟩
      have early := first.1 early
      exact ⟨early, (h' (mid early)).1.1 late⟩
    · rintro ⟨early, late⟩
      exact ⟨first.2 early, (h' (mid early)).1.2 late⟩
  · rintro ⟨early, late⟩
    exact (h' (mid early)).2 late

theorem Exact.then_nil {calls : List γ} {s s' s'' : σ} (h : Exact P good ok calls s s')
    (kept : P s' → P s'') : Exact P good ok calls s s'' := by
  simpa using h.trans (.nil kept)

theorem Exact.of_kept {calls : List γ} {s s' s'' : σ} (h : Exact P good ok calls s' s'')
    (kept : P s → P s') : Exact P good ok calls s s'' := by
  simpa using (Exact.nil kept).trans h

theorem Exact.foldlM {f : σ → α → Except ε σ} {calls : σ × α → List γ}
    (step : ∀ s a s', f s a = .ok s' → Exact P good ok (calls (s, a)) s s')
    {l : List α} {s s' : σ} (run : l.foldlM f s = .ok s') :
    Exact P good ok ((visits f l s).flatMap calls) s s' := by
  induction l generalizing s with
  | nil =>
      cases run
      exact .nil id
  | cons a rest ih =>
      rw [List.foldlM_cons, bind_eq_ok] at run
      obtain ⟨mid, first, later⟩ := run
      simp only [visits, first, List.flatMap_cons]
      exact (step s a mid first).trans (ih later)

end Exact

/-! ## Computations that return under a condition -/

section Returns

variable {α β : Type u} {good good' : Prop} {Q : α → Prop} {R : β → Prop} {x : Except ε α}
  {f : α → Except ε β}

def Returns (good : Prop) (Q : α → Prop) : Except ε α → Prop
  | .ok a => good ∧ Q a
  | .error _ => ¬ good

theorem Returns.congr {Q' : α → Prop} (h : Returns good Q x) (same : good ↔ good')
    (weaker : ∀ a, Q a → Q' a) : Returns good' Q' x := by
  cases x with
  | ok a => exact ⟨same.1 h.1, weaker a h.2⟩
  | error e => exact fun holds => h (same.2 holds)

theorem Returns.ok (h : Returns good Q x) (holds : good) : ∃ a, x = .ok a ∧ Q a := by
  cases x with
  | ok a => exact ⟨a, rfl, h.2⟩
  | error e => exact absurd holds h

theorem Returns.bind (h : Returns good Q x) (next : good → ∀ a, Q a → Returns good' R (f a)) :
    Returns (good ∧ good') R (x >>= f) := by
  cases x with
  | ok a => exact (next h.1 a h.2).congr (and_iff_right h.1).symm fun _ => id
  | error e => exact fun both => h both.1

theorem Returns.foldlM {f : β → α → Except ε β} {ok : α → Prop}
    (step : ∀ b a, R b → Returns (ok a) R (f b a)) (l : List α) {b : β} (start : R b) :
    Returns (∀ a ∈ l, ok a) R (l.foldlM f b) := by
  induction l generalizing b with
  | nil => exact ⟨by simp, start⟩
  | cons a rest ih =>
      rw [List.foldlM_cons]
      exact ((step b a start).bind fun _ mid held => ih held).congr (by simp) fun _ => id

end Returns

/-! ## Agreement of two computations -/

/-- Both fail alike, or both return and the values are related. -/
def Alike (R : α → β → Prop) : Except ε α → Except ε β → Prop
  | .ok a, .ok b => R a b
  | .error e, .error e' => e = e'
  | _, _ => False

theorem Alike.of_ok {R : α → β → Prop} {x : Except ε α} {b : β} (h : Alike R x (.ok b)) :
    ∃ a, x = .ok a ∧ R a b := by
  cases x with
  | ok a => exact ⟨a, rfl, h⟩
  | error e => exact absurd h id

theorem Alike.of_error {R : α → β → Prop} {x : Except ε α} {e : ε} (h : Alike R x (.error e)) :
    x = .error e := by
  cases x with
  | ok a => exact absurd h id
  | error e' => exact congrArg _ h

end SimpleSSD.Foundation
