import Mathlib.Order.Lattice
import SimpleSSD.Foundation.Fallible
import SimpleSSD.Foundation.Word

/-!
# Operations that take time

An operation on a clock and a state may fail; when it returns, the clock must not have
been turned back.  A clock that is a word goes on from zero when a sum leaves the word.
-/

namespace SimpleSSD.Foundation

variable {τ σ ε α : Type*}

def Forward [LE τ] (op : τ → σ → Except ε (τ × σ)) : Prop :=
  ∀ tick s done, op tick s = .ok done → tick ≤ done.1

section Rules

variable [Preorder τ] {op : τ → σ → Except ε (τ × σ)}

theorem Forward.of_le {f : τ → σ → τ × σ} (h : ∀ tick s, tick ≤ (f tick s).1) :
    Forward fun tick s => (.ok (f tick s) : Except ε (τ × σ)) := by
  intro tick s done hdone
  cases hdone
  exact h tick s

theorem Forward.andThen {f : τ × σ → τ × σ} (forward : Forward op)
    (later : ∀ done, done.1 ≤ (f done).1) :
    Forward fun tick s => op tick s >>= fun done => .ok (f done) := by
  intro tick s done hdone
  obtain ⟨mid, hmid, hlast⟩ := bind_eq_ok.1 hdone
  cases hlast
  exact (forward tick s mid hmid).trans (later mid)

theorem foldlM_forward {f : τ × σ → α → Except ε (τ × σ)} {l : List α} {start done : τ × σ}
    (step : ∀ acc a next, f acc a = .ok next → acc.1 ≤ next.1)
    (run : l.foldlM f start = .ok done) : start.1 ≤ done.1 :=
  foldlM_invariant_mem (fun acc => start.1 ≤ acc.1)
    (fun a _ acc next reached h => reached.trans (step acc a next h)) run le_rfl

theorem foldl_bound {β : Type*} (measure : β → τ) {f : β → α → β} {l : List α} {start : β}
    {bound : τ} (step : ∀ acc a, bound ≤ measure acc → bound ≤ measure (f acc a))
    (h : bound ≤ measure start) : bound ≤ measure (l.foldl f start) :=
  List.foldlRecOn (motive := fun acc => bound ≤ measure acc) l f h
    fun acc reached a _ => step acc a reached

end Rules

/-! ## Clocks that are words -/

section Words

variable {call : (Nat → Nat → Nat) → α} {op : (Nat → Nat → Nat) → Nat → σ → Except ε (Nat × σ)}

/-- No sum that the call makes leaves the word: the call is the same, whatever such sums are. -/
def InWord (call : (Nat → Nat → Nat) → α) : Prop :=
  ∀ sum, (∀ a b, a + b < wordSize → sum a b = a + b) → call sum = call add64

theorem InWord.unbounded (h : InWord call) : call (· + ·) = call add64 :=
  h _ fun _ _ _ => rfl

def ForwardInWord (op : (Nat → Nat → Nat) → Nat → σ → Except ε (Nat × σ)) : Prop :=
  ∀ tick s, (InWord fun sum => op sum tick s) →
    ∀ done, op add64 tick s = .ok done → tick ≤ done.1

theorem Forward.inWord (forward : Forward (op (· + ·))) : ForwardInWord op := by
  intro tick s inWord done h
  exact forward tick s done (inWord.unbounded.trans h)

end Words

end SimpleSSD.Foundation
