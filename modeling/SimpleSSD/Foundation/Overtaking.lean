import Mathlib.Data.List.Nodup
import Mathlib.Data.List.Pairwise

/-!
# Overtaking in a line

Elements arrive at the end of a line and may leave it out of turn.  Whoever leaves
has to be excused against everyone who stands before it; then every two departures
are in the order of arrival or the earlier one was excused against the later.
-/

namespace SimpleSSD.Foundation

variable {α β : Type*}

/-- `x` arrived before `y`. -/
def Before (arrivals : List α) (x y : α) : Prop := [x, y].Sublist arrivals

theorem Before.mem_left {arrivals : List α} {x y : α} (h : Before arrivals x y) :
    x ∈ arrivals := h.subset (by simp)

theorem Before.asymm {arrivals : List α} (nodup : arrivals.Nodup) {x y : α}
    (h : Before arrivals x y) : ¬ Before arrivals y x := by
  induction arrivals with
  | nil => exact absurd h.mem_left List.not_mem_nil
  | cons a arrivals ih =>
      obtain ⟨fresh, rest⟩ := List.nodup_cons.1 nodup
      intro back
      unfold Before at h back
      rw [List.cons_sublist_cons'] at h back
      rcases h with h | ⟨rfl, h⟩
      · rcases back with back | ⟨rfl, back⟩
        · exact ih rest h back
        · exact fresh (h.subset (by simp))
      · rcases back with back | ⟨rfl, back⟩
        · exact fresh (back.subset (by simp))
        · exact fresh (h.subset (by simp))

theorem Before.of_arrive {arrivals : List α} {a x y : α} (fresh : a ∉ arrivals)
    (arrived : y ∈ arrivals) (h : Before (arrivals ++ [a]) x y) : Before arrivals x y := by
  obtain ⟨front, back, split, first, last⟩ := List.sublist_append_iff.1 h
  rcases List.sublist_singleton.1 last with rfl | rfl
  · rw [List.append_nil] at split
    exact (split ▸ first :)
  · have same : y = a := by
      have ends := congrArg List.getLast? split
      simpa using ends
    exact absurd (same ▸ arrived) fresh

/-- The line with what has left it, the latest first; what leaves is recorded with the
circumstances that excuse it. -/
structure InLine (Excused : α × β → α → Prop) (arrivals waiting : List α)
    (departures : List (α × β)) : Prop where
  inOrder : waiting.Sublist arrivals
  departed : ∀ d ∈ departures, d.1 ∈ arrivals
  ahead : ∀ d ∈ departures, ∀ x ∈ waiting, Before arrivals x d.1 → Excused d x
  inTurn : departures.Pairwise fun later earlier =>
    Before arrivals later.1 earlier.1 → Excused earlier later.1

section InLine

variable {Excused : α × β → α → Prop} {arrivals waiting : List α} {departures : List (α × β)}

theorem InLine.nil : InLine Excused [] [] [] :=
  ⟨List.Sublist.refl _, fun _ hmem => absurd hmem List.not_mem_nil,
    fun _ hmem => absurd hmem List.not_mem_nil, .nil⟩

/-- Elements may leave the line without being recorded. -/
theorem InLine.drop {fewer : List α} (inLine : InLine Excused arrivals waiting departures)
    (sub : fewer.Sublist waiting) : InLine Excused arrivals fewer departures :=
  ⟨sub.trans inLine.inOrder, inLine.departed,
    fun d hmem x waits => inLine.ahead d hmem x (sub.subset waits), inLine.inTurn⟩

theorem InLine.arrive {a : α} (inLine : InLine Excused arrivals waiting departures)
    (fresh : a ∉ arrivals) : InLine Excused (arrivals ++ [a]) (waiting ++ [a]) departures := by
  refine ⟨inLine.inOrder.append (List.Sublist.refl _), fun d hmem => ?_,
    fun d hmem x waits before => ?_, ?_⟩
  · exact List.mem_append_left _ (inLine.departed d hmem)
  · have before := before.of_arrive fresh (inLine.departed d hmem)
    rcases List.mem_append.1 waits with old | new
    · exact inLine.ahead d hmem x old before
    · rw [List.mem_singleton.1 new] at before
      exact absurd before.mem_left fresh
  · refine inLine.inTurn.imp_of_mem fun _ hearlier excused before => ?_
    exact excused (before.of_arrive fresh (inLine.departed _ hearlier))

theorem InLine.depart {pre post : List α} {a : α} {b : β} (nodup : arrivals.Nodup)
    (inLine : InLine Excused arrivals (pre ++ a :: post) departures)
    (excused : ∀ x ∈ pre, Excused (a, b) x) :
    InLine Excused arrivals (pre ++ post) ((a, b) :: departures) := by
  have sub : (pre ++ post).Sublist (pre ++ a :: post) :=
    (List.Sublist.refl pre).append (List.sublist_cons_self a post)
  refine ⟨sub.trans inLine.inOrder, fun d hmem => ?_, fun d hmem x waits before => ?_, ?_⟩
  · rcases List.mem_cons.1 hmem with rfl | old
    · exact inLine.inOrder.subset (by simp)
    · exact inLine.departed d old
  · rcases List.mem_cons.1 hmem with rfl | old
    · rcases List.mem_append.1 waits with front | back
      · exact excused x front
      · have after : Before arrivals a x := by
          refine List.Sublist.trans ?_ inLine.inOrder
          refine List.Sublist.trans ?_ (List.sublist_append_right pre (a :: post))
          exact (List.singleton_sublist.2 back).cons_cons a
        exact absurd before (after.asymm nodup)
    · exact inLine.ahead d old x (sub.subset waits) before
  · refine List.pairwise_cons.2 ⟨fun d old => ?_, inLine.inTurn⟩
    exact inLine.ahead d old a (by simp)

end InLine

end SimpleSSD.Foundation
