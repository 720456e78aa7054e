import SimpleSSD.Foundation.RoundRobin
import SimpleSSD.HIL.NVMe.ExactlyOnce

/-!
# Which user is selected

A staged command waits in the queue of its user.  Each call of `handleRequest` scans the
users in a circle from the successor of the last one selected, so a selection brings every
user that is passed neither for its queue nor for its credit closer to its own turn, and a
user that joins puts it back by one.
-/

namespace SimpleSSD.HIL.NVMe

open SimpleSSD.Foundation

def SQEntryWrapper.user (req : SQEntryWrapper) : UserID := req.entry.reserved2

namespace Controller

def selected (c : Controller) : Action → List SQEntryWrapper
  | .handleRequest _ canServe lbaSize => (c.selectRequest canServe lbaSize).1.toList
  | _ => []

def stagedBy (c : Controller) : Action → List SQEntryWrapper
  | .fetchDone fetch entry =>
      match c.queue? fetch.sqID with
      | none => []
      | some q =>
          if fetch.freed then []
          else [⟨entry, q.id, q.cqID, q.head, fetch.oldhead, fetch.ticket⟩]
  | _ => []

structure NoUsers (c : Controller) : Prop where
  rrUsers : c.rrUsers = []
  lastUid : c.lastUid = 0
  staged : c.lSQByUser.all = []

/-- What the lists of users keep as long as no queue is deleted. -/
structure UsersKnown (c : Controller) : Prop where
  nodup : c.rrUsers.Nodup
  last : c.lastUid ≠ 0 → c.lastUid ∈ c.rrUsers
  staged : ∀ uid, c.lSQByUser.get uid ≠ [] → uid ∈ c.rrUsers
  owner : ∀ uid, ∀ req ∈ c.lSQByUser.get uid, req.user = uid

def Action.Keeps : Action → Prop
  | .deleteSQueue _ => False
  | _ => True

def circle (c : Controller) : List UserID := c.rrUsers.rotate c.startIdx

/-- `canServe` answers true for the first staged command of the user. -/
def Serves (uid : UserID) (c : Controller) : Action → Prop
  | .handleRequest _ canServe lbaSize =>
      ∀ front rest, c.lSQByUser.get uid = front :: rest → canServe uid (needPages lbaSize front)
  | _ => True

variable {p : Arbitration} {c c' : Controller} {a : Action} {uid : UserID}
variable {req : SQEntryWrapper} {canServe : UserID → Nat → Bool} {lbaSize : Nat → Nat}

theorem NoUsers.known (fresh : c.NoUsers) : c.UsersKnown where
  nodup := by
    rw [fresh.rrUsers]
    exact List.nodup_nil
  last := fun apart => absurd fresh.lastUid apart
  staged := by
    intro uid waits
    obtain ⟨req, hmem⟩ := List.exists_mem_of_ne_nil _ waits
    have := QueueMap.mem_all_of_get hmem
    rw [fresh.staged] at this
    cases this
  owner := by
    intro uid req hmem
    have := QueueMap.mem_all_of_get hmem
    rw [fresh.staged] at this
    cases this

theorem circle_eq (c : Controller) : c.circle =
    if c.lastUid ≠ 0 ∧ c.lastUid ∈ c.rrUsers then turnOrder c.lastUid c.rrUsers
    else c.rrUsers := by
  unfold circle startIdx
  split
  next known =>
    have lt := List.idxOf_lt_length_iff.2 known.2
    unfold turnOrder
    dsimp only
    split
    next more =>
      rw [Nat.mod_eq_of_lt more, List.rotate_eq_drop_append_take more.le]
    next last =>
      have all : c.rrUsers.idxOf c.lastUid + 1 = c.rrUsers.length := by omega
      rw [all, Nat.mod_self, List.rotate_zero]
  next => exact List.rotate_zero _

theorem circle_perm (c : Controller) : c.circle.Perm c.rrUsers := List.rotate_perm _ _

/-! ## One selection -/

/-- The scan stops at the first user whose queue is not empty and who may be served; those
it passed have no command or no credit. -/
structure Picks (canServe : UserID → Nat → Bool) (lbaSize : Nat → Nat) (users : List UserID)
    (c : Controller) (uid : UserID) (req : SQEntryWrapper) (c' : Controller) : Prop where
  position : ∃ before after, users = before ++ uid :: after ∧
    ∀ other ∈ before, ∀ front rest, c.lSQByUser.get other = front :: rest →
      ¬ canServe other (needPages lbaSize front)
  front : ∃ rest, c.lSQByUser.get uid = req :: rest
  state : ∃ b, c' = { c with
    bootstrappedUsers := b
    lSQByUser := c.lSQByUser.pop uid
    lastUid := uid }

theorem pickUser_picks {users : List UserID}
    (run : pickUser canServe lbaSize users c = (some req, c')) :
    ∃ uid, Picks canServe lbaSize users c uid req c' := by
  induction users generalizing c with
  | nil => cases run
  | cons other rest ih =>
      unfold pickUser at run
      split at run
      next empty =>
        obtain ⟨uid, picks⟩ := ih run
        obtain ⟨before, after, split, passed⟩ := picks.position
        refine ⟨uid, ⟨other :: before, after, by rw [split]; rfl, ?_⟩, picks.front, picks.state⟩
        intro user hmem front rest hget
        rcases List.mem_cons.1 hmem with rfl | later
        · rw [empty] at hget
          cases hget
        · exact passed user later front rest hget
      next first others hget =>
        dsimp only at run
        split at run
        · cases run
          exact ⟨other, ⟨[], rest, rfl, fun _ hmem => absurd hmem List.not_mem_nil⟩,
            ⟨others, hget⟩, ⟨_, rfl⟩⟩
        next refused =>
          obtain ⟨uid, picks⟩ := ih run
          obtain ⟨before, after, split, passed⟩ := picks.position
          obtain ⟨b, state⟩ := picks.state
          refine ⟨uid, ⟨other :: before, after, by rw [split]; rfl, ?_⟩, picks.front,
            ⟨b, state⟩⟩
          intro user hmem front rest hfront
          rcases List.mem_cons.1 hmem with rfl | later
          · rw [hget] at hfront
            cases hfront
            exact (not_or.1 refused).2
          · exact passed user later front rest hfront

/-- A call selects a command of the admin user when there is one, and else scans the circle. -/
theorem selectRequest_cases (run : c.selectRequest canServe lbaSize = (some req, c')) :
    (∃ rest, c.lSQByUser.get 0 = req :: rest ∧
        c' = { c with lSQByUser := c.lSQByUser.pop 0 }) ∨
      c.lSQByUser.get 0 = [] ∧ ∃ uid, Picks canServe lbaSize c.circle c uid req c' := by
  unfold selectRequest at run
  split at run
  next front rest hget =>
    cases run
    exact .inl ⟨rest, hget, rfl⟩
  next empty => exact .inr ⟨empty, pickUser_picks run⟩

/-! ## What a step does to the users -/

structure SameUsers (c c' : Controller) : Prop where
  users : c'.rrUsers = c.rrUsers
  last : c'.lastUid = c.lastUid
  queues : c'.lSQByUser = c.lSQByUser

theorem SameUsers.refl (c : Controller) : SameUsers c c := ⟨rfl, rfl, rfl⟩

inductive UserStep (c : Controller) (a : Action) (c' : Controller) : Prop where
  | other (staged : c.stagedBy a = []) (selects : c.selected a = []) (same : SameUsers c c')
  | stages (req : SQEntryWrapper) (staged : c.stagedBy a = [req]) (selects : c.selected a = [])
      (queues : c'.lSQByUser = c.lSQByUser.push req.user req) (last : c'.lastUid = c.lastUid)
      (users : req.user ∈ c.rrUsers ∧ c'.rrUsers = c.rrUsers ∨
        req.user ∉ c.rrUsers ∧ c'.rrUsers = c.rrUsers ++ [req.user])
  | admin (req : SQEntryWrapper) (rest : List SQEntryWrapper) (staged : c.stagedBy a = [])
      (selects : c.selected a = [req]) (front : c.lSQByUser.get 0 = req :: rest)
      (queues : c'.lSQByUser = c.lSQByUser.pop 0) (last : c'.lastUid = c.lastUid)
      (users : c'.rrUsers = c.rrUsers)
  | picks (req : SQEntryWrapper) (uid : UserID) (before after : List UserID)
      (rest : List SQEntryWrapper) (staged : c.stagedBy a = []) (selects : c.selected a = [req])
      (noAdmin : c.lSQByUser.get 0 = []) (order : c.circle = before ++ uid :: after)
      (passed : ∀ other ∈ before, Serves other c a → c.lSQByUser.get other = [])
      (front : c.lSQByUser.get uid = req :: rest)
      (queues : c'.lSQByUser = c.lSQByUser.pop uid) (last : c'.lastUid = uid)
      (users : c'.rrUsers = c.rrUsers)

theorem sameUsers_submit (entry : CQEntryWrapper) (c : Controller) :
    SameUsers c (c.submit entry) := by
  unfold submit
  split
  · exact ⟨rfl, rfl, rfl⟩
  · exact ⟨rfl, rfl, rfl⟩
  · exact ⟨rfl, rfl, rfl⟩

theorem sameUsers_abort (sqid cid : Nat) (c : Controller) :
    SameUsers c (c.abort sqid cid).2 := by
  unfold abort
  split
  · exact .refl c
  · split
    · exact ⟨rfl, rfl, rfl⟩
    next req _ _ q _ =>
      have same := sameUsers_submit (.respond req q.head abortRequested)
        { c with aborted := c.aborted ++ [req.ticket] }
      exact ⟨same.users, same.last, same.queues⟩

theorem sameUsers_doorbell (qid tail : Nat) (c : Controller) :
    SameUsers c (c.ringSQTailDoorbell qid tail) := by
  unfold ringSQTailDoorbell
  split
  · exact ⟨rfl, rfl, rfl⟩
  · exact .refl c
  · exact ⟨rfl, rfl, rfl⟩

theorem sameUsers_checkQueue {i : Nat} (run : c.checkQueue i = some c') : SameUsers c c' := by
  unfold checkQueue at run
  split at run
  · cases run
  · split at run
    · cases run
      exact ⟨rfl, rfl, rfl⟩
    · cases run

theorem Checks.sameUsers (run : Checks c c') : SameUsers c c' := by
  induction run with
  | refl => exact .refl c
  | tail _ last ih =>
      obtain ⟨i, one⟩ := last
      have same := sameUsers_checkQueue one
      exact ⟨same.users.trans ih.users, same.last.trans ih.last, same.queues.trans ih.queues⟩

theorem sameUsers_collect {fuel : Nat} (run : c.collectSQueue p fuel = some c') :
    SameUsers c c' := by
  cases admin : c.queue? 0 with
  | some q =>
      apply Checks.sameUsers
      apply collectSQueue_checks _ run
      rw [admin]
      rfl
  | none =>
      unfold collectSQueue at run
      dsimp only at run
      split at run
      · split at run
        · exact (sweepUntilIdle_checks _ _ run).sameUsers
        · rw [admin] at run
          cases run
          exact ⟨rfl, rfl, rfl⟩
      · cases run
        exact .refl c

theorem userStep_doRead (fetch : Fetch) (entry : SQEntry) (c : Controller) :
    UserStep c (.fetchDone fetch entry) (c.doRead fetch entry) := by
  cases object : c.queue? fetch.sqID with
  | none =>
      have fails : c.doRead fetch entry = c.fail .undefined := by simp [doRead, object]
      rw [fails]
      apply UserStep.other
      · simp [stagedBy, object]
      · rfl
      · exact ⟨rfl, rfl, rfl⟩
  | some q =>
      by_cases freed : fetch.freed = true
      · have fails : c.doRead fetch entry = c.fail .undefined := by
          simp [doRead, object, freed]
        rw [fails]
        apply UserStep.other
        · simp [stagedBy, object, freed]
        · rfl
        · exact ⟨rfl, rfl, rfl⟩
      · apply UserStep.stages ⟨entry, q.id, q.cqID, q.head, fetch.oldhead, fetch.ticket⟩
        · simp [stagedBy, object, freed]
        · rfl
        · simp [doRead, object, freed, SQEntryWrapper.user]
        · simp [doRead, object, freed]
        · by_cases known : entry.reserved2 ∈ c.rrUsers
          · left
            simp [doRead, object, freed, SQEntryWrapper.user, known]
          · right
            simp [doRead, object, freed, SQEntryWrapper.user, known]

theorem sameUsers_reschedule (p : Arbitration) (now : Tick) (any : Bool) (c : Controller) :
    SameUsers c (c.reschedule p now any) := by
  unfold reschedule
  dsimp only
  split
  · exact ⟨rfl, rfl, rfl⟩
  · exact ⟨rfl, rfl, rfl⟩

theorem userStep_handleRequest (p : Arbitration) (now : Tick)
    (canServe : UserID → Nat → Bool) (lbaSize : Nat → Nat) (c : Controller) :
    UserStep c (.handleRequest now canServe lbaSize) (c.handleRequest p now canServe lbaSize) := by
  unfold handleRequest
  split
  next req c' run =>
    have same := sameUsers_reschedule p now true (c'.dispatch req)
    have selects : c.selected (.handleRequest now canServe lbaSize) = [req] := by
      simp [selected, run]
    rcases selectRequest_cases run with ⟨rest, front, rfl⟩ | ⟨none, uid, picks⟩
    · exact .admin req rest rfl selects front same.queues same.last same.users
    · obtain ⟨before, after, order, passed⟩ := picks.position
      obtain ⟨rest, front⟩ := picks.front
      obtain ⟨b, rfl⟩ := picks.state
      apply UserStep.picks req uid before after rest rfl selects none order _ front same.queues
        same.last same.users
      intro other hmem serves
      cases waits : c.lSQByUser.get other with
      | nil => rfl
      | cons first others =>
          exact absurd (serves first others waits) (passed other hmem first others waits)
  next c' run =>
    have same := sameUsers_reschedule p now false c'
    have takes := selectRequest_takes canServe lbaSize c
    rw [run] at takes
    obtain ⟨b, rfl⟩ := takes
    apply UserStep.other
    · rfl
    · simp [selected, run]
    · exact ⟨same.users, same.last, same.queues⟩

theorem step_userStep (keeps : a.Keeps) (hstep : step p c a = some c') : UserStep c a c' := by
  obtain ⟨-, hstep⟩ := Option.ite_none_left_eq_some.1 hstep
  cases a with
  | doorbell qid tail =>
      cases hstep
      exact .other rfl rfl (sameUsers_doorbell qid tail c)
  | collect fuel => exact .other rfl rfl (sameUsers_collect hstep)
  | fetchDone fetch entry =>
      obtain ⟨-, same⟩ := Option.ite_none_right_eq_some.1 hstep
      cases same
      exact userStep_doRead fetch entry c
  | queueFunction now =>
      cases hstep
      exact .other rfl rfl ⟨rfl, rfl, rfl⟩
  | handleRequest now canServe lbaSize =>
      cases hstep
      exact userStep_handleRequest p now canServe lbaSize c
  | complete req status =>
      obtain ⟨-, same⟩ := Option.ite_none_right_eq_some.1 hstep
      cases same
      have same := sameUsers_submit (.respond req req.sqHead status)
        { c with executing := c.executing.erase req }
      exact .other rfl rfl ⟨same.users, same.last, same.queues⟩
  | abort sqid cid =>
      cases hstep
      exact .other rfl rfl (sameUsers_abort sqid cid c)
  | deleteSQueue sqid => exact keeps.elim
  | advance tick =>
      obtain ⟨-, same⟩ := Option.ite_none_right_eq_some.1 hstep
      cases same
      exact .other rfl rfl ⟨rfl, rfl, rfl⟩

/-! ## Every step keeps the order -/

theorem UserStep.known (step : UserStep c a c') (known : c.UsersKnown) : c'.UsersKnown := by
  have popped : ∀ {user : UserID}, c'.rrUsers = c.rrUsers →
      c'.lSQByUser = c.lSQByUser.pop user →
      (∀ uid, c'.lSQByUser.get uid ≠ [] → uid ∈ c'.rrUsers) ∧
        ∀ uid, ∀ req ∈ c'.lSQByUser.get uid, req.user = uid := by
    intro user users queues
    have fewer : ∀ uid, ∀ req ∈ c'.lSQByUser.get uid, req ∈ c.lSQByUser.get uid := by
      intro uid req hmem
      rw [queues, QueueMap.get_pop] at hmem
      split at hmem
      next same => exact same ▸ List.mem_of_mem_tail hmem
      next => exact hmem
    constructor
    · intro uid waits
      obtain ⟨req, hmem⟩ := List.exists_mem_of_ne_nil _ waits
      rw [users]
      exact known.staged uid (List.ne_nil_of_mem (fewer uid req hmem))
    · intro uid req hmem
      exact known.owner uid req (fewer uid req hmem)
  cases step with
  | other staged selects same =>
      obtain ⟨users, last, queues⟩ := same
      exact
        { nodup := users ▸ known.nodup
          last := by
            rw [users, last]
            exact known.last
          staged := by
            rw [users, queues]
            exact known.staged
          owner := by
            rw [queues]
            exact known.owner }
  | stages req staged selects queues last users =>
      have more : ∀ user ∈ c.rrUsers, user ∈ c'.rrUsers := by
        intro user hmem
        rcases users with ⟨-, users⟩ | ⟨-, users⟩
        · exact users ▸ hmem
        · rw [users]
          exact List.mem_append_left _ hmem
      constructor
      · rcases users with ⟨-, users⟩ | ⟨absent, users⟩
        · exact users ▸ known.nodup
        · rw [users, ← List.concat_eq_append]
          exact known.nodup.concat absent
      · rw [last]
        exact fun apart => more _ (known.last apart)
      · intro uid waits
        rw [queues, QueueMap.get_push] at waits
        split at waits
        next same =>
          rw [same]
          rcases users with ⟨here, users⟩ | ⟨-, users⟩
          · exact users ▸ here
          · rw [users]
            exact List.mem_append_right _ List.mem_cons_self
        next => exact more uid (known.staged uid waits)
      · intro uid other hmem
        rw [queues, QueueMap.get_push] at hmem
        split at hmem
        next same =>
          rcases List.mem_append.1 hmem with old | new
          · rw [same]
            exact known.owner _ other old
          · rw [List.mem_singleton.1 new, same]
        next => exact known.owner uid other hmem
  | admin req rest staged selects front queues last users =>
      obtain ⟨staged, owner⟩ := popped users queues
      refine ⟨users ▸ known.nodup, ?_, staged, owner⟩
      rw [users, last]
      exact known.last
  | picks req user before after rest staged selects noAdmin order passed front queues last users =>
      obtain ⟨staged, owner⟩ := popped users queues
      refine ⟨users ▸ known.nodup, ?_, staged, owner⟩
      intro _
      rw [users, last, ← c.circle_perm.mem_iff, order]
      exact List.mem_append_right _ List.mem_cons_self

def ofUser (uid : UserID) (reqs : List SQEntryWrapper) : List SQEntryWrapper :=
  reqs.filter fun req => req.user = uid

/-- What is staged for a user goes to the end of its queue, and what is selected of it comes
from the front. -/
theorem UserStep.queue (step : UserStep c a c') (known : c.UsersKnown) (uid : UserID) :
    c.lSQByUser.get uid ++ ofUser uid (c.stagedBy a) =
      ofUser uid (c.selected a) ++ c'.lSQByUser.get uid := by
  have popped : ∀ {user : UserID} {req : SQEntryWrapper} {rest : List SQEntryWrapper},
      c.lSQByUser.get user = req :: rest → c.selected a = [req] → c.stagedBy a = [] →
      c'.lSQByUser = c.lSQByUser.pop user → c.lSQByUser.get uid ++ ofUser uid (c.stagedBy a) =
        ofUser uid (c.selected a) ++ c'.lSQByUser.get uid := by
    intro user req rest front selects staged queues
    have owner : req.user = user := known.owner user req (by simp [front])
    rw [selects, staged, queues, QueueMap.get_pop]
    by_cases same : uid = user
    · subst same
      simp [ofUser, front, owner]
    · have apart : req.user ≠ uid := fun here => same (here.symm.trans owner)
      simp [ofUser, same, apart]
  cases step with
  | other staged selects same =>
      rw [staged, selects, same.queues]
      simp [ofUser]
  | stages req staged selects queues last users =>
      rw [staged, selects, queues, QueueMap.get_push]
      by_cases same : uid = req.user
      · subst same
        simp [ofUser]
      · simp [ofUser, same, Ne.symm same]
  | admin req rest staged selects front queues last users =>
      exact popped front selects staged queues
  | picks req user before after rest staged selects noAdmin order passed front queues last users =>
      exact popped front selects staged queues

/-! ## Every selection brings a waiting user closer -/

def place (c : Controller) (uid : UserID) : Nat := c.circle.idxOf uid

def nonAdmin (reqs : List SQEntryWrapper) : List SQEntryWrapper :=
  reqs.filter fun req => req.user ≠ 0

theorem place_of_eq (users : c'.rrUsers = c.rrUsers) (last : c'.lastUid = c.lastUid)
    (uid : UserID) : c'.place uid = c.place uid := by
  unfold place
  rw [circle_eq, circle_eq, users, last]

theorem UsersKnown.place_join {user : UserID} (known : c.UsersKnown) (absent : user ∉ c.rrUsers)
    (users : c'.rrUsers = c.rrUsers ++ [user]) (last : c'.lastUid = c.lastUid) (uid : UserID) :
    c'.place uid ≤ c.place uid + 1 := by
  have nodup : (c.rrUsers ++ [user]).Nodup := by
    rw [← List.concat_eq_append]
    exact known.nodup.concat absent
  unfold place
  rw [circle_eq, circle_eq, users, last]
  by_cases first : c.lastUid = 0
  · simpa [first] using idxOf_insert_le c.rrUsers [] user uid
  · have hmem := known.last first
    rw [if_pos ⟨first, List.mem_append_left _ hmem⟩, if_pos ⟨first, hmem⟩]
    exact idxOf_turnOrder_join uid nodup hmem

theorem UsersKnown.circle_pick {user : UserID} {before after : List UserID}
    (known : c.UsersKnown) (order : c.circle = before ++ user :: after) (apart : user ≠ 0)
    (users : c'.rrUsers = c.rrUsers) (last : c'.lastUid = user) :
    c'.circle = after ++ before ++ [user] := by
  have hmem : user ∈ c.rrUsers := by
    rw [← c.circle_perm.mem_iff, order]
    exact List.mem_append_right _ List.mem_cons_self
  rw [circle_eq] at order
  rw [circle_eq, users, last, if_pos ⟨apart, hmem⟩]
  split at order
  next hlast => exact turnOrder_rotate known.nodup hlast.2 order
  next =>
    have nodup := known.nodup
    rw [order] at nodup ⊢
    exact turnOrder_append nodup

/-- While a user waits and may be served, each selection of another user's command takes one
from its place, and each new user adds at most one. -/
theorem UserStep.place_le (step : UserStep c a c') (known : c.UsersKnown)
    (waits : c.lSQByUser.get uid ≠ []) (serves : Serves uid c a)
    (unselected : ∀ req ∈ c.selected a, req.user ≠ uid) :
    (nonAdmin (c.selected a)).length + c'.place uid + c.rrUsers.length ≤
      c.place uid + c'.rrUsers.length := by
  cases step with
  | other staged selects same =>
      rw [selects, place_of_eq same.users same.last, same.users]
      simp [nonAdmin]
  | stages req staged selects queues last users =>
      rw [selects]
      rcases users with ⟨-, users⟩ | ⟨absent, users⟩
      · rw [place_of_eq users last, users]
        simp [nonAdmin]
      · have joined := known.place_join absent users last uid
        rw [users, List.length_append, List.length_singleton]
        simp only [nonAdmin, List.filter_nil, List.length_nil]
        omega
  | admin req rest staged selects front queues last users =>
      have owner : req.user = 0 := known.owner 0 req (by simp [front])
      rw [selects, place_of_eq users last, users]
      simp [nonAdmin, owner]
  | picks req user before after rest staged selects noAdmin order passed front queues last users =>
      have owner : req.user = user := known.owner user req (by simp [front])
      have apart : user ≠ 0 := by
        rintro rfl
        rw [noAdmin] at front
        cases front
      have other : user ≠ uid := by
        rw [← owner]
        exact unselected req (by simp [selects])
      have ahead : uid ∉ before := fun hmem => waits (passed uid hmem serves)
      have circle := known.circle_pick order apart users last
      have behind : uid ∈ after := by
        have hmem : uid ∈ c.circle := c.circle_perm.mem_iff.2 (known.staged uid waits)
        rw [order] at hmem
        rcases List.mem_append.1 hmem with early | late
        · exact absurd early ahead
        · exact (List.mem_cons.1 late).resolve_left other.symm
      have now : c.place uid = before.length + (after.idxOf uid + 1) := by
        rw [place, order, List.idxOf_append_of_notMem ahead, List.idxOf_cons_ne _ other]
      have next : c'.place uid = after.idxOf uid := by
        rw [place, circle, List.append_assoc, List.idxOf_append_of_mem behind]
      have one : (nonAdmin (c.selected a)).length = 1 := by
        simp [selects, nonAdmin, owner, apart]
      rw [now, next, one, users]
      omega

/-! ## Runs -/

variable {before window : List Action} {c₀ : Controller}

theorem known_of_run (known : c.UsersKnown) (keeps : ∀ a ∈ window, a.Keeps)
    (run : runActions (step p) c window = some c') : c'.UsersKnown :=
  invariant_of_run (fun _ _ _ known keeps hstep => (step_userStep keeps hstep).known known) run
    known (eachAction_of_forall keeps)

theorem queue_of_actions (known : c.UsersKnown) (keeps : ∀ a ∈ window, a.Keeps)
    (run : runActions (step p) c window = some c') (uid : UserID) :
    c.lSQByUser.get uid ++ ofUser uid (observed (step p) stagedBy c window) =
      ofUser uid (observed (step p) selected c window) ++ c'.lSQByUser.get uid := by
  have order := queue_of_run (fun c => c.lSQByUser.get uid)
    (fun c a => ofUser uid (stagedBy c a)) (fun c a => ofUser uid (selected c a))
    (fun _ _ _ known keeps hstep =>
      ⟨(step_userStep keeps hstep).known known, (step_userStep keeps hstep).queue known uid⟩)
    run known (eachAction_of_forall keeps)
  simp only [ofUser, observed_filter] at order
  exact order

theorem place_of_run (known : c.UsersKnown) (keeps : ∀ a ∈ window, a.Keeps)
    (run : runActions (step p) c window = some c') (waits : c.lSQByUser.get uid ≠ [])
    (serves : EachAction (step p) (Serves uid) c window)
    (unselected : ∀ req ∈ observed (step p) selected c window, req.user ≠ uid) :
    (nonAdmin (observed (step p) selected c window)).length + c'.place uid + c.rrUsers.length ≤
      c.place uid + c'.rrUsers.length := by
  induction window generalizing c with
  | nil =>
      cases run
      simp [observed, nonAdmin]
  | cons a rest ih =>
      obtain ⟨c₁, hstep, run⟩ := runActions_cons run
      obtain ⟨serve, serves⟩ := serves c₁ hstep
      rw [observed_cons hstep] at unselected ⊢
      have userStep := step_userStep (keeps a List.mem_cons_self) hstep
      have here : ∀ req ∈ c.selected a, req.user ≠ uid :=
        fun req hmem => unselected req (List.mem_append_left _ hmem)
      have still : c₁.lSQByUser.get uid ≠ [] := by
        have queue := userStep.queue known uid
        have none : ofUser uid (c.selected a) = [] := by
          rw [ofUser, List.filter_eq_nil_iff]
          intro req hmem
          simpa using here req hmem
        rw [none, List.nil_append] at queue
        rw [← queue]
        exact List.append_ne_nil_of_left_ne_nil waits _
      have first := userStep.place_le known waits serve here
      have later := ih (userStep.known known)
        (fun b hmem => keeps b (List.mem_cons_of_mem _ hmem)) run still serves
        fun req hmem => unselected req (List.mem_append_right _ hmem)
      rw [nonAdmin, List.filter_append, List.length_append]
      simp only [nonAdmin] at first later
      omega

/-- In every run without queue deletion, a user with a staged command that may be served at
every call is selected within as many selections of other than admin commands as there are
users, those that join meanwhile included, and the commands of a user are selected in the
order in which they were staged. -/
theorem users_served (fresh : c₀.NoUsers) (keeps : ∀ a ∈ before ++ window, a.Keeps)
    (run : runActions (step p) c₀ before = some c)
    (run' : runActions (step p) c window = some c') (uid : UserID) :
    (c.lSQByUser.get uid ≠ [] → EachAction (step p) (Serves uid) c window →
      c'.rrUsers.length ≤ (nonAdmin (observed (step p) selected c window)).length →
      ∃ req ∈ observed (step p) selected c window, req.user = uid) ∧
    ofUser uid (observed (step p) stagedBy c₀ (before ++ window)) =
      ofUser uid (observed (step p) selected c₀ (before ++ window)) ++ c'.lSQByUser.get uid := by
  have known₀ := fresh.known
  have known := known_of_run known₀ (fun a hmem => keeps a (List.mem_append_left _ hmem)) run
  constructor
  · intro waits serves enough
    by_contra missed
    push Not at missed
    have moved := place_of_run known (fun a hmem => keeps a (List.mem_append_right _ hmem)) run'
      waits serves missed
    have inside : c.place uid < c.rrUsers.length := by
      rw [← c.circle_perm.length_eq]
      exact List.idxOf_lt_length_iff.2 (c.circle_perm.mem_iff.2 (known.staged uid waits))
    omega
  · have order := queue_of_actions known₀ keeps (runActions_append.2 ⟨c, run, run'⟩) uid
    have empty : c₀.lSQByUser.get uid = [] := by
      by_contra waits
      have := known₀.staged uid waits
      rw [fresh.rrUsers] at this
      cases this
    rw [empty, List.nil_append] at order
    exact order

def otherRead : SQEntry := ⟨8, 1, 1002, 0⟩

def stagingTwo : List Action :=
  [.doorbell 1 1, .doorbell 2 1, .collect 2, .fetchDone ⟨0, 1, 0, false⟩ userRead,
    .fetchDone ⟨1, 2, 0, false⟩ otherRead]

def twoStaged : Controller :=
  (runActions (step plainRoundRobin) threeQueues stagingTwo).getD threeQueues

def callingTwice : List Action :=
  [.handleRequest 0 (fun _ _ => true) (fun _ => 512),
    .handleRequest 1 (fun _ _ => true) (fun _ => 512)]

def bothSelected : Controller :=
  (runActions (step plainRoundRobin) twoStaged callingTwice).getD twoStaged

/-- Users 1001 and 1002 have a command each; two calls select both. -/
theorem users_served_small :
    (∃ req ∈ observed (step plainRoundRobin) selected twoStaged callingTwice, req.user = 1002) ∧
    ofUser 1002 (observed (step plainRoundRobin) stagedBy threeQueues
        (stagingTwo ++ callingTwice)) =
      ofUser 1002 (observed (step plainRoundRobin) selected threeQueues
        (stagingTwo ++ callingTwice)) ++ bothSelected.lSQByUser.get 1002 := by
  have fresh : threeQueues.NoUsers := ⟨rfl, rfl, rfl⟩
  have keeps : ∀ a ∈ stagingTwo ++ callingTwice, a.Keeps := by
    simp [stagingTwo, callingTwice, Action.Keeps]
  have run : runActions (step plainRoundRobin) threeQueues stagingTwo = some twoStaged := rfl
  have run' : runActions (step plainRoundRobin) twoStaged callingTwice = some bothSelected := rfl
  have serves : EachAction (step plainRoundRobin) (Serves 1002) twoStaged callingTwice :=
    fun _ _ => ⟨fun _ _ _ => rfl, fun _ _ => ⟨fun _ _ _ => rfl, trivial⟩⟩
  have served := users_served fresh keeps run run' 1002
  exact ⟨served.1 (by decide) serves (by decide), served.2⟩

end Controller

end SimpleSSD.HIL.NVMe
