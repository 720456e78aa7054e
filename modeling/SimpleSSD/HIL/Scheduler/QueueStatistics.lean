import SimpleSSD.HIL.Scheduler.Gates

/-!
# The reported queue lengths

`getStatValues` reports how many requests wait for credit and how many are ready.  It
pays the requests of each user in thought, first those of the in-storage queue, until
one cannot be paid.
-/

namespace SimpleSSD.HIL.CreditScheduler

open SimpleSSD.Foundation

structure Count where
  creditLeft : Nat
  ready : Nat
  pending : Nat
  deriving DecidableEq, Repr

/-- The first request that cannot be paid, and all behind it, are pending. -/
def consume : List Request → Count → Bool × Count
  | [], c => (true, c)
  | rq :: rest, c =>
      if rq.pages ≤ c.creditLeft then
        consume rest { c with
          ready := c.ready + 1
          creditLeft := sub64 c.creditLeft rq.pages }
      else (false, { c with pending := c.pending + (rq :: rest).length })

/-- The host queue is looked at only after the whole in-storage queue was paid. -/
def countUser (acc : UserAccount) (c : Count) : Count :=
  if acc.queue.isEmpty && acc.queueISC.isEmpty then c
  else
    let gates := consume acc.queueISC { c with creditLeft := acc.credit }
    if gates.1 then (consume acc.queue gates.2).2 else gates.2

def queueCounts (s : CreditScheduler) : Count :=
  s.users.foldl (fun c uid => countUser (s.account uid) c)
    ⟨0, s.adminQueue.length, s.deferredQueue.length + s.deferredISC.length⟩

/-- The values in the order of `getStatList`; `pending` and `ready` stand last. -/
def getStatValues (s : CreditScheduler) : List Nat :=
  let total (field : UserAccount → Nat) := (s.users.map fun uid => field (s.account uid)).sum
  let each (field : UserAccount → Nat) := statUsers.map fun uid =>
    if uid ∈ s.users then field (s.account uid) else 0
  [total (·.totalConsumed)] ++ each (·.totalConsumed) ++
    [total (·.consumedHost), total (·.consumedISC)] ++
    each (·.consumedHost) ++ each (·.consumedISC) ++
    each (fun acc => acc.queue.length + acc.queueISC.length) ++
    [s.queueCounts.pending, s.queueCounts.ready]

def outstanding (s : CreditScheduler) : Nat :=
  s.adminQueue.length +
    (s.users.map fun uid => (s.account uid).queue.length + (s.account uid).queueISC.length).sum +
    s.deferredQueue.length + s.deferredISC.length + s.deferredISCRequests.length

def UserAccount.gatePages (acc : UserAccount) : Nat := (acc.queueISC.map Request.pages).sum

/-- Host requests behind an in-storage queue that the balance does not cover. -/
def UserAccount.hidden (acc : UserAccount) : Nat :=
  if acc.gatePages ≤ acc.credit then 0 else acc.queue.length

theorem card_waiting (s : CreditScheduler) : s.waiting.card = s.outstanding := by
  have users : ∀ uids : List UserID, (uids.map fun uid => (s.account uid).items).sum.card =
      (uids.map fun uid =>
        (s.account uid).queue.length + (s.account uid).queueISC.length).sum := by
    intro uids
    induction uids with
    | nil => rfl
    | cons uid rest ih =>
        have items : (s.account uid).items.card =
            (s.account uid).queue.length + (s.account uid).queueISC.length := by
          simp only [UserAccount.items, Multiset.card_add, Multiset.coe_card, List.length_map]
        simp only [List.map_cons, List.sum_cons, Multiset.card_add, ih, items]
  simp only [waiting, outstanding, Multiset.card_add, Multiset.coe_card, List.length_map, users]

theorem consume_counts (queue : List Request) (c : Count) :
    (consume queue c).2.pending + (consume queue c).2.ready =
      c.pending + c.ready + queue.length := by
  induction queue generalizing c with
  | nil => rfl
  | cons rq rest ih =>
      unfold consume
      split
      · rw [ih]
        simp only [List.length_cons]
        omega
      · simp only [List.length_cons]
        omega

theorem consume_all (queue : List Request) (c : Count) :
    (consume queue c).1 = true ↔ (queue.map Request.pages).sum ≤ c.creditLeft := by
  induction queue generalizing c with
  | nil => simp [consume]
  | cons rq rest ih =>
      unfold consume
      simp only [List.map_cons, List.sum_cons]
      split
      next held =>
        have left := sub64_add_cancel held
        rw [ih]
        simp only
        omega
      next poor =>
        constructor
        · exact fun paid => absurd paid Bool.false_ne_true
        · omega

theorem countUser_counts (acc : UserAccount) (c : Count) :
    (countUser acc c).pending + (countUser acc c).ready + acc.hidden =
      c.pending + c.ready + (acc.queue.length + acc.queueISC.length) := by
  have gates := consume_counts acc.queueISC { c with creditLeft := acc.credit }
  have all := consume_all acc.queueISC { c with creditLeft := acc.credit }
  unfold countUser UserAccount.hidden UserAccount.gatePages
  simp only at gates all ⊢
  split
  next empty =>
    simp only [Bool.and_eq_true, List.isEmpty_iff] at empty
    simp [empty]
  next =>
    split
    next paid =>
      have host := consume_counts acc.queue
        (consume acc.queueISC { c with creditLeft := acc.credit }).2
      rw [if_pos (all.1 paid)]
      omega
    next blocked =>
      rw [if_neg fun covered => blocked (all.2 covered)]
      omega

/-- The reported values miss the hidden host requests and the deferred in-storage
requests, and nothing else. -/
theorem queueCounts_eq (s : CreditScheduler) :
    s.queueCounts.pending + s.queueCounts.ready +
        ((s.users.map fun uid => (s.account uid).hidden).sum + s.deferredISCRequests.length) =
      s.outstanding := by
  have users : ∀ (uids : List UserID) (c : Count),
      (uids.foldl (fun c uid => countUser (s.account uid) c) c).pending +
          (uids.foldl (fun c uid => countUser (s.account uid) c) c).ready +
          (uids.map fun uid => (s.account uid).hidden).sum =
        c.pending + c.ready + (uids.map fun uid =>
          (s.account uid).queue.length + (s.account uid).queueISC.length).sum := by
    intro uids
    induction uids with
    | nil => exact fun c => rfl
    | cons uid rest ih =>
        intro c
        have first := countUser_counts (s.account uid) c
        have later := ih (countUser (s.account uid) c)
        simp only [List.foldl_cons, List.map_cons, List.sum_cons]
        omega
  have all := users s.users
    ⟨0, s.adminQueue.length, s.deferredQueue.length + s.deferredISC.length⟩
  unfold queueCounts outstanding
  simp only at all ⊢
  omega

/-- The two values add up just when no deferred in-storage request waits and no user has
host requests behind an in-storage queue it cannot pay. -/
theorem queueCounts_iff (s : CreditScheduler) :
    s.queueCounts.pending + s.queueCounts.ready = s.outstanding ↔
      s.deferredISCRequests = [] ∧ ∀ uid ∈ s.users,
        (s.account uid).queue = [] ∨ (s.account uid).gatePages ≤ (s.account uid).credit := by
  have law := queueCounts_eq s
  have hidden : (s.users.map fun uid => (s.account uid).hidden).sum = 0 ↔
      ∀ uid ∈ s.users,
        (s.account uid).queue = [] ∨ (s.account uid).gatePages ≤ (s.account uid).credit := by
    rw [List.sum_eq_zero_iff, List.forall_mem_map]
    refine forall₂_congr fun uid _ => ?_
    unfold UserAccount.hidden
    split
    next covered => exact ⟨fun _ => .inr covered, fun _ => rfl⟩
    next short => rw [List.length_eq_zero_iff, or_iff_left short]
  rw [← hidden, ← List.length_eq_zero_iff]
  omega

/-- The last two reported values, compared with what waits in all six containers. -/
theorem getStatValues_complete (s : CreditScheduler) :
    s.getStatValues.drop 15 = [s.queueCounts.pending, s.queueCounts.ready] ∧
      s.waiting.card = s.outstanding ∧
      ((s.getStatValues.drop 15).sum = s.outstanding ↔
        s.deferredISCRequests = [] ∧ ∀ uid ∈ s.users,
          (s.account uid).queue = [] ∨ (s.account uid).gatePages ≤ (s.account uid).credit) := by
  have last : s.getStatValues.drop 15 = [s.queueCounts.pending, s.queueCounts.ready] := rfl
  refine ⟨last, card_waiting s, ?_⟩
  rw [last, List.sum_pair, queueCounts_iff]

def hostRequest (uid : UserID) (length : Nat) : Request :=
  { gateRequest uid length with op := .read }

def oneDeferred : CreditScheduler :=
  (Op.submitISCRequest 0 1 5 (some 7)).run .small .idle (start .small [1] fun _ => .standard)

def oneHidden : CreditScheduler :=
  (Op.submitRequest 0 (hostRequest 1 4096)).run .small .idle
    ((Op.submitRequest 0 (gateRequest 1 4096)).run .small .idle
      (start .small [1] fun _ => .standard))

theorem getStatValues_incomplete :
    (Runs .small false (start .small [1] fun _ => .standard) oneDeferred ∧
        oneDeferred.getStatValues.drop 15 = [0, 0] ∧ oneDeferred.outstanding = 1) ∧
      Runs .small false (start .small [1] fun _ => .standard) oneHidden ∧
        oneHidden.getStatValues.drop 15 = [1, 0] ∧ oneHidden.outstanding = 2 := by
  have quiet := Env.idle_quiet
  refine ⟨⟨?_, by decide +kernel⟩, ?_, by decide +kernel⟩
  · exact .quiet quiet (.refl _) (.submitISCRequest 0 1 5 (some 7)) nofun
  · exact .quiet quiet (.quiet quiet (.refl _) (.submitRequest 0 (gateRequest 1 4096)) nofun)
      (.submitRequest 0 (hostRequest 1 4096)) nofun

end SimpleSSD.HIL.CreditScheduler
