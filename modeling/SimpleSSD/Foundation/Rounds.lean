import SimpleSSD.Foundation.Transition

/-!
# Rounds

A history is in rounds when it is made of whole rounds and a last one that has begun.
-/

namespace SimpleSSD.Foundation

variable {σ α ε : Type*} {Whole Begun Begun' : List ε → Prop} {events : List ε}

def Rounds (Whole Begun : List ε → Prop) (events : List ε) : Prop :=
  ∃ rounds begun, events = List.flatten rounds ++ begun ∧ (∀ r ∈ rounds, Whole r) ∧ Begun begun

theorem Rounds.more {more : List ε} (go : ∀ begun, Begun begun → Begun' (begun ++ more))
    (rounds : Rounds Whole Begun events) : Rounds Whole Begun' (events ++ more) := by
  obtain ⟨whole, begun, rfl, all, last⟩ := rounds
  exact ⟨whole, begun ++ more, List.append_assoc _ _ _, all, go begun last⟩

theorem Rounds.last {more : List ε} (close : ∀ begun, Begun begun → Whole (begun ++ more))
    (empty : Begun' []) (rounds : Rounds Whole Begun events) :
    Rounds Whole Begun' (events ++ more) := by
  obtain ⟨whole, begun, rfl, all, last⟩ := rounds
  refine ⟨whole ++ [begun ++ more], [], by simp, ?_, empty⟩
  simp only [List.mem_append, List.mem_singleton]
  rintro r (mem | rfl)
  · exact all r mem
  · exact close begun last

/-- When each step goes on with the round or ends it, the history of a run is in rounds. -/
theorem rounds_of_run {step : σ → α → Option σ} {see : σ → α → List ε} {Inv : σ → Prop}
    {Begun : σ → List ε → Prop}
    (kept : ∀ s a s', Inv s → step s a = some s' → Inv s' ∧
      ((∀ begun, Begun s begun → Begun s' (begun ++ see s a)) ∨
        (∀ begun, Begun s begun → Whole (begun ++ see s a)) ∧ Begun s' []))
    {s t : σ} {actions : List α} (run : runActions step s actions = some t) (start : Inv s)
    (empty : Begun s []) : Rounds Whole (Begun t) (observed step see s actions) := by
  have general : ∀ (past : List ε), Rounds Whole (Begun s) past →
      Rounds Whole (Begun t) (past ++ observed step see s actions) := by
    clear empty
    induction actions generalizing s with
    | nil =>
        intro past rounds
        cases run
        simpa [observed] using rounds
    | cons a rest ih =>
        intro past rounds
        obtain ⟨s', taken, run⟩ := runActions_cons run
        obtain ⟨inv, one⟩ := kept s a s' start taken
        rw [observed_cons taken, ← List.append_assoc]
        refine ih run inv _ ?_
        rcases one with go | ⟨close, again⟩
        · exact rounds.more go
        · exact rounds.last close again
  simpa using general [] ⟨[], [], rfl, by simp, empty⟩

end SimpleSSD.Foundation
