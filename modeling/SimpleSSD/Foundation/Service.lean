import Mathlib.Data.List.Basic

/-!
# One server

Jobs are served one after the other.  A job begins when the one before it has finished and it is
ready itself, and takes its length.
-/

namespace SimpleSSD.Foundation

variable {α : Type*} (ready length : α → Nat)

/-- When a job finishes that begins behind `free`. -/
def finishBehind (free : Nat) (a : α) : Nat := max free (ready a) + length a

def finishTimes : Nat → List α → List Nat
  | _, [] => []
  | free, a :: rest =>
      finishBehind ready length free a :: finishTimes (finishBehind ready length free a) rest

def lastFinish (free : Nat) (jobs : List α) : Nat := jobs.foldl (finishBehind ready length) free

variable {ready length} {free k : Nat} {a : α} {jobs later : List α}

@[simp] theorem length_finishTimes : (finishTimes ready length free jobs).length = jobs.length := by
  induction jobs generalizing free with
  | nil => rfl
  | cons a rest ih => rw [finishTimes, List.length_cons, ih, List.length_cons]

theorem lastFinish_append : lastFinish ready length free (jobs ++ [a]) =
    finishBehind ready length (lastFinish ready length free jobs) a := by
  rw [lastFinish, List.foldl_append]
  rfl

theorem finishTimes_append : finishTimes ready length free (jobs ++ later) =
    finishTimes ready length free jobs ++
      finishTimes ready length (lastFinish ready length free jobs) later := by
  induction jobs generalizing free with
  | nil => rfl
  | cons a rest ih =>
      rw [List.cons_append, finishTimes, ih, finishTimes, List.cons_append]
      rfl

theorem finishTimes_getElem? : (finishTimes ready length free (jobs ++ later))[jobs.length]? =
    later.head?.map (finishBehind ready length (lastFinish ready length free jobs)) := by
  have front : (finishTimes ready length free jobs).length ≤ jobs.length :=
    Nat.le_of_eq length_finishTimes
  rw [finishTimes_append, List.getElem?_append_right front, length_finishTimes, Nat.sub_self]
  cases later with
  | nil => rfl
  | cons a rest => rfl

theorem finishTimes_succ {finish : Nat}
    (before : (finishTimes ready length free jobs)[k]? = some finish)
    (stands : jobs[k + 1]? = some a) : (finishTimes ready length free jobs)[k + 1]? =
      some (finishBehind ready length finish a) := by
  induction jobs generalizing free k with
  | nil => cases stands
  | cons b rest ih =>
      cases k with
      | zero =>
          obtain rfl := Option.some.inj before
          cases rest with
          | nil => cases stands
          | cons c rest =>
              obtain rfl := Option.some.inj stands
              rfl
      | succ k => exact ih before stands

end SimpleSSD.Foundation
