import Mathlib.Data.Nat.ModEq
import SimpleSSD.Foundation.Ring

/-!
# Laps of a ring

Positions that are counted on and on, seen as the slots of a ring.  A window no longer than the
ring has its slots to itself, and a position shares its slot with the one a lap later, where the
parity of the lap is the other one.
-/

namespace SimpleSSD.Foundation.Ring

variable {size first last n : Nat}

def evenLap (size n : Nat) : Bool := n / size % 2 = 0

theorem next_mod (positive : 0 < size) : next size (n % size) = (n + 1) % size := by
  have inside := Nat.mod_lt n positive
  have same : (n + 1) % size = (n % size + 1) % size := (Nat.mod_add_mod n size 1).symm
  rw [same, next]
  split
  case isTrue full => rw [full, Nat.mod_self]
  case isFalse more => exact (Nat.mod_eq_of_lt (by omega)).symm

theorem evenLap_add (positive : 0 < size) : evenLap size (n + size) = !evenLap size n := by
  rw [evenLap, evenLap, Nat.add_div_right n positive, Bool.eq_not_iff, ne_eq, decide_eq_decide]
  omega

theorem evenLap_succ (positive : 0 < size) : evenLap size (n + 1) =
    if n % size + 1 = size then !evenLap size n else evenLap size n := by
  have parts := Nat.div_add_mod n size
  have inside := Nat.mod_lt n positive
  split
  case isTrue full =>
    have lap : (n + 1) / size = n / size + 1 := by
      rw [Nat.div_eq_iff positive, Nat.add_mul, Nat.mul_comm (n / size)]
      omega
    rw [evenLap, evenLap, lap, Bool.eq_not_iff, ne_eq, decide_eq_decide]
    omega
  case isFalse more =>
    have lap : (n + 1) / size = n / size := by
      rw [Nat.div_eq_iff positive, Nat.mul_comm]
      omega
    rw [evenLap, evenLap, lap]

theorem mod_ne_mod (before : first < last) (close : last < first + size) :
    first % size ≠ last % size := by
  intro same
  have multiple := Nat.dvd_of_mod_eq_zero (Nat.sub_mod_eq_zero_of_mod_eq same.symm)
  have none := Nat.eq_zero_of_dvd_of_lt multiple (by omega)
  omega

theorem slots_between (positive : 0 < size) (ordered : first ≤ last)
    (close : last < first + size) :
    (first % size ≤ last % size → last % size - first % size = last - first) ∧
      (last % size < first % size → size - first % size + last % size = last - first) := by
  have inside := Nat.mod_lt first positive
  have ends : last % size = (first % size + (last - first)) % size := by
    rw [Nat.mod_add_mod, Nat.add_sub_cancel' ordered]
  rcases Nat.lt_or_ge (first % size + (last - first)) size with within | around
  · have ahead := ends.trans (Nat.mod_eq_of_lt within)
    omega
  · have behind : last % size = first % size + (last - first) - size := by
      rw [ends, Nat.mod_eq_sub_mod around, Nat.mod_eq_of_lt (by omega)]
    omega

end SimpleSSD.Foundation.Ring
