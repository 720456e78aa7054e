import Mathlib.Data.List.Count
import Mathlib.Data.List.Nodup

/-!
# Round robin

The members stand in a circle.  Each turn looks at them from the successor of
the last one chosen on, passes some and chooses one.  Between two turns of one
member every other that is never passed is chosen once, and once more for each
time the first one is passed.
-/

namespace SimpleSSD.Foundation

variable {α : Type*} [DecidableEq α]

/-- The members from the successor of `last` on; all in order when `last` is no
member. -/
def turnOrder (last : α) (members : List α) : List α :=
  let start := members.idxOf last + 1
  if start < members.length then members.drop start ++ members.take start else members

/-- One turn: the members passed over, and the one chosen. -/
structure Turn (α : Type*) where
  passed : List α
  chosen : α

/-- Turns that follow each other, the first one after `last` was chosen. -/
inductive Turns (members : List α) : α → List (Turn α) → Prop where
  | nil (last : α) : Turns members last []
  | cons {last : α} {turn : Turn α} {later : List (Turn α)} {rest : List α}
      (order : turnOrder last members = turn.passed ++ turn.chosen :: rest)
      (more : Turns members turn.chosen later) : Turns members last (turn :: later)

theorem turnOrder_perm (last : α) (members : List α) :
    (turnOrder last members).Perm members := by
  unfold turnOrder
  simp only
  split
  · exact List.perm_append_comm.trans (List.Perm.of_eq (List.take_append_drop _ _))
  · exact .refl _

theorem Turns.mem {members : List α} {last : α} {turns : List (Turn α)}
    (valid : Turns members last turns) : ∀ turn ∈ turns, turn.chosen ∈ members := by
  induction valid with
  | nil => simp
  | @cons last turn later rest order more ih =>
      intro other hmem
      rcases List.mem_cons.1 hmem with rfl | hmem
      · exact (turnOrder_perm last members).mem_iff.1 (by simp [order])
      · exact ih other hmem

theorem Turns.take {members : List α} {last : α} {early later : List (Turn α)}
    (valid : Turns members last (early ++ later)) : Turns members last early := by
  induction early generalizing last with
  | nil => exact .nil last
  | cons turn early ih =>
      cases valid with
      | cons order more => exact .cons order (ih more)

theorem Turns.after {members : List α} {last : α} {early later : List (Turn α)} {turn : Turn α}
    (valid : Turns members last (early ++ turn :: later)) : Turns members turn.chosen later := by
  induction early generalizing last with
  | nil =>
      cases valid with
      | cons order more => exact more
  | cons first early ih =>
      cases valid with
      | cons order more => exact ih more

theorem turnOrder_append {before after : List α} {last : α}
    (nodup : (before ++ last :: after).Nodup) :
    turnOrder last (before ++ last :: after) = after ++ before ++ [last] := by
  have fresh : last ∉ before := fun h =>
    (List.nodup_append.1 nodup).2.2 last h last List.mem_cons_self rfl
  have start : (before ++ last :: after).idxOf last + 1 = (before ++ [last]).length := by
    simp [List.idxOf_append_of_notMem fresh]
  have split : before ++ last :: after = before ++ [last] ++ after := by simp
  unfold turnOrder
  rw [start, split]
  cases after with
  | nil => simp
  | cons next after =>
      simp only [List.length_append, List.length_cons, List.length_nil]
      rw [if_pos (by omega)]
      have position : before.length + (0 + 1) = (before ++ [last]).length := by simp
      rw [position, List.drop_left, List.take_left, List.append_assoc]

/-- Where the circle is entered does not change the order around it. -/
theorem turnOrder_rotate {members before after : List α} {last next : α}
    (nodup : members.Nodup) (known : last ∈ members)
    (order : turnOrder last members = before ++ next :: after) :
    turnOrder next members = after ++ before ++ [next] := by
  obtain ⟨left, right, rfl⟩ := List.append_of_mem known
  rw [turnOrder_append nodup, List.append_assoc] at order
  have wrapped : ∀ middle, before = right ++ middle →
      left ++ [last] = middle ++ next :: after →
      turnOrder next (left ++ last :: right) = after ++ before ++ [next] := by
    intro middle hbefore hleft
    have circle : left ++ last :: right = middle ++ next :: (after ++ right) := by
      rw [List.append_cons, hleft]
      simp
    rw [circle] at nodup ⊢
    rw [turnOrder_append nodup, hbefore]
    simp
  rcases List.append_eq_append_iff.1 order with
    ⟨middle, hbefore, hleft⟩ | ⟨middle, hright, hafter⟩
  · exact wrapped middle hbefore hleft
  · cases middle with
    | nil => exact wrapped [] (by simpa using hright.symm) (by simpa using hafter.symm)
    | cons head middle =>
        simp only [List.cons_append, List.cons.injEq] at hafter
        obtain ⟨rfl, rfl⟩ := hafter
        have circle : left ++ last :: right = left ++ last :: before ++ next :: middle := by
          simp [hright]
        rw [circle] at nodup ⊢
        rw [turnOrder_append nodup]
        simp

theorem idxOf_insert_le (front back : List α) (new member : α) :
    (front ++ new :: back).idxOf member ≤ (front ++ back).idxOf member + 1 := by
  by_cases ahead : member ∈ front
  · simp [List.idxOf_append_of_mem ahead]
  · rw [List.idxOf_append_of_notMem ahead, List.idxOf_append_of_notMem ahead, List.idxOf_cons]
    cases new == member with
    | true => exact Nat.le_succ_of_le (Nat.le_add_right _ _)
    | false => exact Nat.le_refl _

/-- Members join at the end: in the order of the turns they stand before those that were
chosen first. -/
theorem idxOf_turnOrder_join {members : List α} {last new : α} (member : α)
    (nodup : (members ++ [new]).Nodup) (known : last ∈ members) :
    (turnOrder last (members ++ [new])).idxOf member ≤
      (turnOrder last members).idxOf member + 1 := by
  obtain ⟨left, right, rfl⟩ := List.append_of_mem known
  have joined : left ++ last :: right ++ [new] = left ++ last :: (right ++ [new]) := by simp
  have before := (List.nodup_append.1 nodup).1
  rw [joined] at nodup ⊢
  rw [turnOrder_append nodup, turnOrder_append before]
  simpa using idxOf_insert_le right (left ++ [last]) new member

/-- How often `member` is passed in some turns. -/
def timesPassed (member : α) (turns : List (Turn α)) : Nat :=
  turns.countP fun turn => decide (member ∈ turn.passed)

def timesChosen (member : α) (turns : List (Turn α)) : Nat :=
  (turns.map Turn.chosen).count member

theorem timesPassed_cons (member : α) (turn : Turn α) (turns : List (Turn α)) :
    timesPassed member (turn :: turns) =
      timesPassed member turns + if member ∈ turn.passed then 1 else 0 := by
  simp [timesPassed, List.countP_cons]

theorem timesChosen_cons (member : α) (turn : Turn α) (turns : List (Turn α)) :
    timesChosen member (turn :: turns) =
      timesChosen member turns + if turn.chosen = member then 1 else 0 := by
  simp [timesChosen, List.count_cons]

section Around

variable {members : List α} {first : α} (nodup : members.Nodup) (known : first ∈ members)
include nodup known

theorem turnOrder_ends : ∃ others, turnOrder first members = others ++ [first] := by
  obtain ⟨left, right, rfl⟩ := List.append_of_mem known
  exact ⟨right ++ left, turnOrder_append nodup⟩

omit known in
theorem turnOrder_nodup : (turnOrder first members).Nodup :=
  (turnOrder_perm first members).nodup_iff.2 nodup

theorem first_mem_after {before after : List α} {last : α} (ne : last ≠ first)
    (circle : turnOrder first members = before ++ last :: after) : first ∈ after := by
  obtain ⟨others, ends⟩ := turnOrder_ends nodup known
  rcases after.eq_nil_or_concat with rfl | ⟨inner, final, rfl⟩
  · rw [ends] at circle
    exact absurd (List.append_inj_right' circle rfl) (by simpa using ne.symm)
  · rw [ends, List.concat_eq_append, ← List.cons_append, ← List.append_assoc] at circle
    have same := List.append_inj_right' circle rfl
    simp only [List.cons.injEq, and_true] at same
    simp [same]

theorem nothing_after_first {before after : List α}
    (circle : turnOrder first members = before ++ first :: after) : after = [] := by
  obtain ⟨others, ends⟩ := turnOrder_ends nodup known
  have distinct : (turnOrder first members).Nodup := turnOrder_nodup nodup
  rw [ends] at circle distinct
  have fresh : first ∉ others := fun h =>
    (List.nodup_append.1 distinct).2.2 first h first (by simp) rfl
  exact ((List.append_cons_inj_of_notMem fresh List.not_mem_nil).1 circle).2.2.symm

theorem first_not_mem_before {before after : List α} {last : α} (ne : last ≠ first)
    (circle : turnOrder first members = before ++ last :: after) : first ∉ before := by
  have distinct : (turnOrder first members).Nodup := turnOrder_nodup nodup
  rw [circle] at distinct
  have later := List.mem_cons_of_mem last (first_mem_after nodup known ne circle)
  exact fun h => (List.nodup_append.1 distinct).2.2 first h first later rfl

theorem turn_cases {before after passed rest : List α} {last chosen : α}
    (circle : turnOrder first members = before ++ last :: after)
    (order : turnOrder last members = passed ++ chosen :: rest) :
    (∃ ahead, after = passed ++ chosen :: ahead) ∨
      ∃ wrapped ahead, passed = after ++ wrapped ∧
        turnOrder first members = wrapped ++ chosen :: (ahead ++ after) := by
  rw [turnOrder_rotate nodup known circle, List.append_assoc] at order
  have wraps : ∀ wrapped, passed = after ++ wrapped → before ++ [last] = wrapped ++ chosen :: rest →
      turnOrder first members = wrapped ++ chosen :: (rest ++ after) := by
    intro wrapped _ hbefore
    rw [circle, List.append_cons, hbefore]
    simp
  rcases List.append_eq_append_iff.1 order with
    ⟨wrapped, hpassed, hbefore⟩ | ⟨ahead, hafter, hrest⟩
  · exact .inr ⟨wrapped, rest, hpassed, wraps wrapped hpassed hbefore⟩
  · cases ahead with
    | nil =>
        have hpassed : passed = after ++ [] := by simpa using hafter.symm
        exact .inr ⟨[], rest, hpassed, wraps [] hpassed (by simpa using hrest.symm)⟩
    | cons head ahead =>
        simp only [List.cons_append, List.cons.injEq] at hrest
        exact .inl ⟨ahead, by rw [hafter, hrest.1]⟩

/-- The turns up to the next choice of `first`, seen from a member that stands
before `after` in the circle. -/
theorem Turns.count_from {other : α} (member : other ∈ members) (ne : other ≠ first)
    {closing : Turn α} (closes : closing.chosen = first) {between : List (Turn α)} :
    ∀ {last : α} {before after : List α}, last ≠ first →
      turnOrder first members = before ++ last :: after →
      Turns members last (between ++ [closing]) →
      (∀ turn ∈ between, turn.chosen ≠ first) →
      (∀ turn ∈ between ++ [closing], other ∉ turn.passed) →
      timesChosen other between = after.count other + timesPassed first between := by
  have unique : (turnOrder first members).count other = 1 :=
    List.count_eq_one_of_mem (turnOrder_nodup nodup)
        ((turnOrder_perm first members).mem_iff.2 member)
  have once : (turnOrder first members).count first = 1 :=
    List.count_eq_one_of_mem (turnOrder_nodup nodup)
        ((turnOrder_perm first members).mem_iff.2 known)
  induction between with
  | nil =>
      intro last before after apart circle turns _ fair
      have unseen := fair closing (by simp)
      cases turns with
      | cons order _ =>
      have ahead := first_mem_after nodup known apart circle
      rw [closes] at order
      rcases turn_cases nodup known circle order with ⟨behind, rfl⟩ | ⟨wrapped, behind, _, back⟩
      · have circle : turnOrder first members =
            (before ++ last :: closing.passed) ++ first :: behind := by simpa using circle
        rw [nothing_after_first nodup known circle]
        simp [timesChosen, timesPassed, List.count_eq_zero_of_not_mem unseen, ne.symm]
      · rw [back] at once
        have := List.count_pos_iff.2 ahead
        simp only [List.count_append, List.count_cons_self] at once
        omega
  | cons turn between ih =>
      intro last before after apart circle turns others fair
      have unseen := List.count_eq_zero_of_not_mem (fair turn (by simp))
      have away := others turn (by simp)
      have others : ∀ turn ∈ between, turn.chosen ≠ first := fun t h => others t (by simp [h])
      have fair : ∀ turn ∈ between ++ [closing], other ∉ turn.passed :=
        fun t h => fair t (List.mem_cons_of_mem _ h)
      cases turns with
      | cons order more =>
      have ahead := first_mem_after nodup known apart circle
      rcases turn_cases nodup known circle order with
          ⟨behind, rfl⟩ | ⟨wrapped, behind, hpassed, back⟩
      · have circle : turnOrder first members =
            (before ++ last :: turn.passed) ++ turn.chosen :: behind := by simpa using circle
        have counted := ih away circle more others fair
        have waits : first ∉ turn.passed := fun h =>
          first_not_mem_before nodup known away circle (by simp [h])
        simp only [timesChosen_cons, timesPassed_cons, List.count_append, List.count_cons,
          beq_iff_eq, counted, unseen, if_neg waits]
        omega
      · have counted := ih away back more others fair
        rw [back] at unique
        have skipped : first ∈ turn.passed := by simp [hpassed, ahead]
        rw [hpassed, List.count_append] at unseen
        simp only [List.count_append, List.count_cons, beq_iff_eq] at counted unique
        simp only [timesChosen_cons, timesPassed_cons, if_pos skipped]
        omega

/-- Between two turns of `first` every other member that is never passed is chosen
once more than `first` is passed. -/
theorem Turns.count_between {other : α} (member : other ∈ members) (ne : other ≠ first)
    {between : List (Turn α)} {closing : Turn α} (closes : closing.chosen = first)
    (turns : Turns members first (between ++ [closing]))
    (others : ∀ turn ∈ between, turn.chosen ≠ first)
    (fair : ∀ turn ∈ between ++ [closing], other ∉ turn.passed) :
    timesChosen other between = 1 + timesPassed first between := by
  have unique : (turnOrder first members).count other = 1 :=
    List.count_eq_one_of_mem (turnOrder_nodup nodup)
        ((turnOrder_perm first members).mem_iff.2 member)
  cases between with
  | nil =>
      have unseen := fair closing (by simp)
      cases turns with
      | cons order _ =>
      rw [closes] at order
      rw [order, nothing_after_first nodup known order] at unique
      simp [List.count_eq_zero_of_not_mem unseen, ne.symm] at unique
  | cons turn between =>
      have unseen := List.count_eq_zero_of_not_mem (fair turn (by simp))
      have away := others turn (by simp)
      have others : ∀ turn ∈ between, turn.chosen ≠ first := fun t h => others t (by simp [h])
      have fair : ∀ turn ∈ between ++ [closing], other ∉ turn.passed :=
        fun t h => fair t (List.mem_cons_of_mem _ h)
      cases turns with
      | cons order more =>
      have counted := Turns.count_from nodup known member ne closes away order more others fair
      have waits := first_not_mem_before nodup known away order
      rw [order] at unique
      simp only [List.count_append, List.count_cons, beq_iff_eq] at unique
      simp only [timesChosen_cons, timesPassed_cons, if_neg waits]
      omega

end Around

end SimpleSSD.Foundation
