import SimpleSSD.Util.Def

/-!
# What the schedulers share

The cyclic scan over the users and the storage below: both schedulers hand
read and write requests to the internal cache layer and take its answer as the
time the request is finished.
-/

namespace SimpleSSD.HIL

/-- The cyclic scan over the users: it starts after `last`, or at the first
user when `last` is absent or stands at the end. -/
def scanOrder (last : UserID) (users : List UserID) : List UserID :=
  let start := users.idxOf last + 1
  if start < users.length then users.drop start ++ users.take start else users

theorem scanOrder_perm (last : UserID) (users : List UserID) :
    (scanOrder last users).Perm users := by
  unfold scanOrder
  simp only
  split
  · exact List.perm_append_comm.trans (List.Perm.of_eq (List.take_append_drop _ _))
  · exact .refl _

structure Completion where
  req : Request
  beginAt : Tick
  finishedAt : Tick
  deriving DecidableEq, Repr

/-- The internal cache layer as the schedulers see it: it answers from the
request, the tick and what it served before, and never with an earlier tick. -/
structure Storage where
  answer : Request → Tick → List Completion → Tick
  later : ∀ req now earlier, now ≤ answer req now earlier

end SimpleSSD.HIL
