import Mathlib.Data.Finset.Card
import Mathlib.Data.List.TakeDrop

/-!
# Recency

A log of uses, the newest first, and its keys in the order of their last uses.  The first
keys of that order are what a least-recently-used store of the same size holds.
-/

namespace SimpleSSD.Foundation

variable {κ : Type*} [DecidableEq κ]

def recent : List κ → List κ
  | [] => []
  | k :: log => k :: (recent log).filter (· ≠ k)

def usedSince (k : κ) (log : List κ) : Finset κ := (log.takeWhile (· ≠ k)).toFinset

variable {k : κ} {log : List κ} {n : Nat}

theorem mem_recent : k ∈ recent log ↔ k ∈ log := by
  induction log with
  | nil => rfl
  | cons x log ih =>
      rw [recent, List.mem_cons, List.mem_cons, List.mem_filter, decide_eq_true_iff, ih]
      constructor
      · rintro (same | ⟨later, -⟩)
        · exact .inl same
        · exact .inr later
      · rintro (same | later)
        · exact .inl same
        · by_cases same : k = x
          · exact .inl same
          · exact .inr ⟨later, same⟩

theorem recent_nodup : (recent log).Nodup := by
  induction log with
  | nil => exact List.nodup_nil
  | cons x log ih =>
      refine List.nodup_cons.2 ⟨?_, ih.filter _⟩
      intro h
      exact of_decide_eq_true (List.mem_filter.1 h).2 rfl

theorem mem_take_iff {l : List κ} :
    k ∈ l.take n ↔ k ∈ l ∧ (l.takeWhile (· ≠ k)).length < n := by
  induction l generalizing n with
  | nil => simp
  | cons x l ih =>
      cases n with
      | zero => simp
      | succ n =>
          by_cases same : x = k
          · simp [same]
          · rw [List.take_succ_cons, List.mem_cons, List.mem_cons, ih,
              List.takeWhile_cons_of_pos (by simpa using same), List.length_cons,
              Nat.add_lt_add_iff_right]
            simp [Ne.symm same]

theorem takeWhile_filter_ne {l : List κ} {x : κ} (other : x ≠ k) :
    (l.filter (· ≠ x)).takeWhile (· ≠ k) = (l.takeWhile (· ≠ k)).filter (· ≠ x) := by
  induction l with
  | nil => rfl
  | cons y l ih =>
      by_cases found : y = k
      · subst found
        rw [List.filter_cons_of_pos (by simpa using other.symm),
          List.takeWhile_cons_of_neg (by simp), List.takeWhile_cons_of_neg (by simp),
          List.filter_nil]
      · rw [List.takeWhile_cons_of_pos (by simpa using found)]
        by_cases left_out : y = x
        · rw [List.filter_cons_of_neg (by simpa using left_out),
            List.filter_cons_of_neg (by simpa using left_out), ih]
        · rw [List.filter_cons_of_pos (by simpa using left_out),
            List.filter_cons_of_pos (by simpa using left_out),
            List.takeWhile_cons_of_pos (by simpa using found), ih]

theorem usedSince_recent : usedSince k (recent log) = usedSince k log := by
  induction log with
  | nil => rfl
  | cons x log ih =>
      unfold usedSince at ih ⊢
      rw [recent]
      by_cases same : x = k
      · rw [List.takeWhile_cons_of_neg (by simpa using same),
          List.takeWhile_cons_of_neg (by simpa using same)]
      · rw [List.takeWhile_cons_of_pos (by simpa using same),
          List.takeWhile_cons_of_pos (by simpa using same), takeWhile_filter_ne same,
          List.toFinset_cons, List.toFinset_cons, ← ih]
        ext y
        rw [Finset.mem_insert, Finset.mem_insert, List.mem_toFinset, List.mem_toFinset,
          List.mem_filter, decide_eq_true_iff]
        tauto

/-- A key is among the `n` last used ones when it has been used, and fewer than `n` other
keys since. -/
theorem mem_take_recent :
    k ∈ (recent log).take n ↔ k ∈ log ∧ (usedSince k log).card < n := by
  have nodup : ((recent log).takeWhile (· ≠ k)).Nodup :=
    recent_nodup.sublist (List.takeWhile_sublist _)
  rw [mem_take_iff, mem_recent, ← usedSince_recent, usedSince, List.toFinset_card_of_nodup nodup]

/-! ## One more use -/

theorem take_filter_of_mem {l : List κ} (nodup : l.Nodup) (hmem : k ∈ l.take (n + 1)) :
    (l.filter (· ≠ k)).take n = (l.take (n + 1)).filter (· ≠ k) := by
  induction l generalizing n with
  | nil => simp
  | cons x l ih =>
      obtain ⟨fresh, nodup⟩ := List.nodup_cons.1 nodup
      rw [List.take_succ_cons] at hmem ⊢
      by_cases same : x = k
      · subst same
        have absent : ∀ y ∈ l, decide (y ≠ x) = true := by
          intro y hy
          exact decide_eq_true (ne_of_mem_of_not_mem hy fresh)
        rw [List.filter_cons_of_neg (by simp), List.filter_cons_of_neg (by simp),
          List.filter_eq_self.2 absent,
          List.filter_eq_self.2 (fun y hy => absent y (List.mem_of_mem_take hy))]
      · have later : k ∈ l.take n := by
          rcases List.mem_cons.1 hmem with found | later
          · exact absurd found.symm same
          · exact later
        cases n with
        | zero => simp at later
        | succ n =>
            rw [List.filter_cons_of_pos (by simpa using same),
              List.filter_cons_of_pos (by simpa using same), List.take_succ_cons,
              ih nodup later]

theorem take_filter_of_not_mem {l : List κ} (absent : k ∉ l.take n) :
    (l.filter (· ≠ k)).take n = l.take n := by
  induction l generalizing n with
  | nil => rfl
  | cons x l ih =>
      cases n with
      | zero => rfl
      | succ n =>
          rw [List.take_succ_cons, List.mem_cons, not_or] at absent
          rw [List.filter_cons_of_pos (by simpa using Ne.symm absent.1), List.take_succ_cons,
            List.take_succ_cons, ih absent.2]

theorem take_recent_of_mem (hmem : k ∈ (recent log).take n) :
    (recent (k :: log)).take n = k :: ((recent log).take n).filter (· ≠ k) := by
  cases n with
  | zero => simp at hmem
  | succ n => rw [recent, List.take_succ_cons, take_filter_of_mem recent_nodup hmem]

theorem take_recent_of_room (absent : k ∉ (recent log).take n)
    (room : ((recent log).take n).length < n) :
    (recent (k :: log)).take n = k :: (recent log).take n := by
  have all : (recent log).take n = recent log := by
    rw [List.length_take] at room
    exact List.take_of_length_le (by omega)
  obtain ⟨m, rfl⟩ := Nat.exists_eq_succ_of_ne_zero (Nat.ne_zero_of_lt room)
  rw [all] at absent room ⊢
  rw [recent, List.take_succ_cons, List.filter_eq_self.2,
    List.take_of_length_le (Nat.le_of_lt_succ room)]
  intro y hy
  exact decide_eq_true (ne_of_mem_of_not_mem hy absent)

/-- A key that is not held takes the place of the one that has not been used for the
longest time. -/
theorem take_recent_of_full (absent : k ∉ (recent log).take n) (positive : 0 < n)
    (full : ((recent log).take n).length = n) :
    (recent (k :: log)).take n = k :: ((recent log).take n).dropLast := by
  obtain ⟨m, rfl⟩ := Nat.exists_eq_succ_of_ne_zero positive.ne'
  have shorter : k ∉ (recent log).take m := fun h =>
    absent (List.take_subset_take_left _ (Nat.le_succ m) h)
  rw [recent, List.take_succ_cons, take_filter_of_not_mem shorter]
  congr 1
  rw [List.dropLast_eq_take, full, List.take_take, Nat.min_eq_left (by omega)]
  rfl

end SimpleSSD.Foundation
