import Mathlib.Data.List.Basic

/-!
# Machines that reply

Runs of a machine that answers each command, and when two machines give the same answers.  What
a counting loop makes of its state is shown for one pass.
-/

namespace SimpleSSD.Foundation

variable {σ τ α β : Type*}

def replies (step : σ → α → σ × β) : σ → List α → List β
  | _, [] => []
  | s, a :: rest => (step s a).2 :: replies step (step s a).1 rest

def after (step : σ → α → σ × β) (s : σ) (commands : List α) : σ :=
  commands.foldl (fun s a => (step s a).1) s

variable {step : σ → α → σ × β} {step' : τ → α → τ × β}

/-- Machines that give the same answer to each command, and stay related, give the same answers
to all commands. -/
theorem replies_eq (R : σ → τ → Prop) (ok : α → Prop) (same : ∀ s t a, R s t → ok a →
      (step s a).2 = (step' t a).2 ∧ R (step s a).1 (step' t a).1)
    {s : σ} {t : τ} (related : R s t) {commands : List α} (good : ∀ a ∈ commands, ok a) :
    replies step s commands = replies step' t commands := by
  induction commands generalizing s t with
  | nil => rfl
  | cons a rest ih =>
      obtain ⟨answer, related'⟩ := same s t a related (good a List.mem_cons_self)
      rw [replies, replies, answer, ih related' fun b hb => good b (List.mem_cons_of_mem a hb)]

theorem after_eq {γ : Type*} (part : σ → γ) (kept : ∀ s a, part (step s a).1 = part s) (s : σ)
    (commands : List α) : part (after step s commands) = part s := by
  induction commands generalizing s with
  | nil => rfl
  | cons a rest ih => exact (ih _).trans (kept s a)

theorem loop_invariant {f : σ → Nat → σ} (Inv : Nat → σ → Prop) {s : σ} (n : Nat)
    (start : Inv 0 s) (pass : ∀ i < n, ∀ s, Inv i s → Inv (i + 1) (f s i)) :
    Inv n ((List.range n).foldl f s) := by
  induction n with
  | zero => exact start
  | succ n ih =>
      rw [List.range_succ, List.foldl_append]
      exact pass n (Nat.lt_succ_self n) _ (ih fun i hi => pass i (Nat.lt_succ_of_lt hi))

end SimpleSSD.Foundation
