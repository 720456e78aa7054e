import Mathlib.Data.List.TakeDrop

/-!
# Blocks

A state carried over the first blocks of a list, a whole block at a time.
-/

namespace SimpleSSD.Foundation

variable {α σ : Type*} (size : Nat) (f : σ → List α → σ)

/-- The state behind the first `n` blocks. -/
def absorb : Nat → σ → List α → σ
  | 0, state, _ => state
  | n + 1, state, l => absorb n (f state (l.take size)) (l.drop size)

variable {size f} {n k : Nat} {state : σ} {l rest : List α}

theorem absorb_add :
    absorb size f (n + k) state l =
        absorb size f k (absorb size f n state l) (l.drop (size * n)) := by
  induction n generalizing state l with
  | zero => simp [absorb]
  | succ n ih =>
      rw [Nat.succ_add, absorb, ih, absorb, List.drop_drop, Nat.mul_succ, Nat.add_comm size]

theorem absorb_append (enough : size * n ≤ l.length) :
    absorb size f n state (l ++ rest) = absorb size f n state l := by
  induction n generalizing state l with
  | zero => rfl
  | succ n ih =>
      rw [Nat.mul_succ] at enough
      rw [absorb, absorb, List.take_append_of_le_length (by omega),
        List.drop_append_of_le_length (by omega), ih]
      rw [List.length_drop]
      omega

/-- More of the list: first what the last block lacks, then its own blocks. -/
theorem absorb_append_block (begun : size * n ≤ l.length)
    (partial_block : l.length ≤ size * n + size) :
    absorb size f (n + (k + 1)) state (l ++ rest) =
      absorb size f k (f (absorb size f n state l)
        (l.drop (size * n) ++ rest.take (size * n + size - l.length)))
        (rest.drop (size * n + size - l.length)) := by
  have length : (l.drop (size * n)).length = l.length - size * n := List.length_drop
  have lacks : size - (l.length - size * n) = size * n + size - l.length := by omega
  have block : (l.drop (size * n) ++ rest).take size =
      l.drop (size * n) ++ rest.take (size * n + size - l.length) := by
    rw [List.take_append, length, lacks, List.take_of_length_le (by omega)]
  have behind : (l.drop (size * n) ++ rest).drop size =
      rest.drop (size * n + size - l.length) := by
    rw [List.drop_append, length, lacks, List.drop_of_length_le (by omega), List.nil_append]
  rw [absorb_add, absorb_append begun, List.drop_append_of_le_length begun, absorb, block, behind]

end SimpleSSD.Foundation
