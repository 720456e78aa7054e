import Mathlib.Data.List.Range

/-!
# Rings of slots

A ring is written at its tail and read at its head.  Both move to the next slot and
start again behind the last one, so the head meets the tail exactly when the tail is a
slot of the ring.
-/

namespace SimpleSSD.Foundation.Ring

variable {size head tail : Nat}

def next (size slot : Nat) : Nat := if slot + 1 = size then 0 else slot + 1

/-- The slots from the head on that come before the tail. -/
def waiting (size head tail : Nat) : List Nat :=
  if head ≤ tail then List.range' head (tail - head)
  else List.range' head (size - head) ++ List.range tail

theorem next_lt (inside : head < size) : next size head < size := by
  unfold next
  split
  · omega
  · omega

theorem waiting_self (size head : Nat) : waiting size head head = [] := by
  simp [waiting]

theorem waiting_cons (inside : head < size) (reached : tail < size) (apart : head ≠ tail) :
    waiting size head tail = head :: waiting size (next size head) tail := by
  rcases Nat.lt_or_ge head tail with before | behind
  · have same : next size head = head + 1 := if_neg (by omega)
    have more : tail - head = tail - (head + 1) + 1 := by omega
    rw [same, waiting, if_pos before.le, more, List.range'_succ, waiting,
      if_pos (Nat.succ_le_of_lt before)]
  · have after : ¬ head ≤ tail := by omega
    have more : size - head = size - (head + 1) + 1 := by omega
    rw [waiting, if_neg after, more, List.range'_succ, List.cons_append]
    congr 1
    by_cases last : head + 1 = size
    · have wrapped : next size head = 0 := if_pos last
      have none : size - (head + 1) = 0 := by omega
      rw [wrapped, waiting, if_pos (Nat.zero_le _), none, List.range'_zero, List.nil_append,
        Nat.sub_zero, List.range_eq_range']
    · have same : next size head = head + 1 := if_neg last
      have still : ¬ head + 1 ≤ tail := by omega
      rw [same, waiting, if_neg still]

theorem waiting_eq_nil_iff (inside : head < size) : waiting size head tail = [] ↔ head = tail := by
  constructor
  · intro empty
    have length := congrArg List.length empty
    unfold waiting at length
    split at length
    · simp only [List.length_range', List.length_nil] at length
      omega
    · simp only [List.length_append, List.length_range', List.length_nil] at length
      omega
  · rintro rfl
    exact waiting_self size head

theorem length_waiting_lt (inside : head < size) (reached : tail < size) :
    (waiting size head tail).length < size := by
  unfold waiting
  split
  · rw [List.length_range']
    omega
  · rw [List.length_append, List.length_range', List.length_range]
    omega

end SimpleSSD.Foundation.Ring
