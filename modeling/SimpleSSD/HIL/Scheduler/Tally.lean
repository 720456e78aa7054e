import SimpleSSD.HIL.Scheduler.Move

/-!
# Items waiting and items served

For items of one user, the number that wait and the number that have been served add up
to what has been handed in.  No move but a submission changes the sum, so it also
stands through callbacks that call back into the scheduler.
-/

namespace SimpleSSD.HIL.CreditScheduler

open SimpleSSD.Foundation Relation

def waitingItems (uid : UserID) (s : CreditScheduler) : List Item :=
  s.adminQueue.map Item.request ++ (s.account uid).queue.map Item.request ++
    (s.account uid).queueISC.map Item.request ++ s.deferredQueue.map DeferredRequest.item ++
    s.deferredISC.map Item.custom ++ s.deferredISCRequests.map ISCDeferredRequest.item

/-- Selected items that wait, are held by a running `processISCRequests`, or have been
served. -/
def tally (uid : UserID) (sel : Item → Bool) (hand : List ISCDeferredRequest)
    (s : CreditScheduler) : Nat :=
  (s.waitingItems uid).countP sel + (hand.map ISCDeferredRequest.item).countP sel +
    (served s.trace).countP sel

section Tally

variable {p : Params} {guard : Guard} {uid : UserID} {sel : Item → Bool}
  {hand : List ISCDeferredRequest} {s t : CreditScheduler}

theorem tally_congr (admin : t.adminQueue = s.adminQueue)
    (queue : (t.account uid).queue = (s.account uid).queue)
    (queueISC : (t.account uid).queueISC = (s.account uid).queueISC)
    (deferred : t.deferredQueue = s.deferredQueue) (custom : t.deferredISC = s.deferredISC)
    (requests : t.deferredISCRequests = s.deferredISCRequests)
    (trace : served t.trace = served s.trace) :
    t.tally uid sel hand = s.tally uid sel hand := by
  simp only [tally, waitingItems, admin, queue, queueISC, deferred, custom, requests, trace]

theorem tally_modify (other : UserID) (f : UserAccount → UserAccount)
    (queue : ∀ acc, (f acc).queue = acc.queue)
    (queueISC : ∀ acc, (f acc).queueISC = acc.queueISC) :
    (s.modify other f).tally uid sel hand = s.tally uid sel hand :=
  tally_congr rfl (modify_field s other uid (·.queue) queue)
    (modify_field s other uid (·.queueISC) queueISC) rfl rfl rfl rfl

theorem tally_charge (site : ChargeSite) (cls : ChargeClass) (other : UserID) (pages : Nat) :
    (s.charge site cls other pages).tally uid sel hand = s.tally uid sel hand := by
  rw [← tally_modify (s := s) other (·.pay cls pages) (fun _ => rfl) fun _ => rfl]
  exact tally_congr rfl rfl rfl rfl rfl rfl rfl

theorem tally_emit (event : Event) (plain : event.served = none) :
    (s.emit event).tally uid sel hand = s.tally uid sel hand :=
  tally_congr rfl rfl rfl rfl rfl rfl (served_cons_of_none _ plain)

theorem tally_serve (item : Item) :
    (s.emit (.serve item)).tally uid sel hand =
      s.tally uid sel hand + if sel item then 1 else 0 := by
  simp only [tally, emit_trace, served_serve, List.countP_cons]
  change (s.waitingItems uid).countP sel + _ + _ = _
  omega

theorem tally_activate (getTick : Tick) (other : UserID) :
    (s.activate p getTick other).tally uid sel hand = s.tally uid sel hand := by
  unfold CreditScheduler.activate
  split
  · rfl
  · rw [← tally_modify (s := s) other (UserAccount.activate getTick) (fun _ => rfl) fun _ => rfl]
    simp only
    split
    · rfl
    · exact tally_congr rfl rfl rfl rfl rfl rfl rfl

theorem tally_create (proper : Proper s) (other : UserID) :
    (s.getOrCreateUser p other).tally uid sel hand = s.tally uid sel hand := by
  have queues : ((s.getOrCreateUser p other).account uid).queue = (s.account uid).queue ∧
      ((s.getOrCreateUser p other).account uid).queueISC = (s.account uid).queueISC := by
    rcases getOrCreateUser_account p other uid s with same | ⟨rfl, absent, fresh⟩
    · rw [same]
      exact ⟨rfl, rfl⟩
    · rw [fresh, (proper.known uid absent).1, (proper.known uid absent).2]
      exact ⟨rfl, rfl⟩
  have rest : (s.getOrCreateUser p other).adminQueue = s.adminQueue ∧
      (s.getOrCreateUser p other).deferredQueue = s.deferredQueue ∧
      (s.getOrCreateUser p other).deferredISC = s.deferredISC ∧
      (s.getOrCreateUser p other).deferredISCRequests = s.deferredISCRequests ∧
      (s.getOrCreateUser p other).trace = s.trace := by
    unfold getOrCreateUser
    split <;> exact ⟨rfl, rfl, rfl, rfl, rfl⟩
  obtain ⟨admin, deferred, custom, requests, trace⟩ := rest
  exact tally_congr admin queues.1 queues.2 deferred custom requests (congrArg served trace)

theorem Submission.tally {item : Item} (own : ∀ item, sel item = true → item.uid = uid)
    (entered : Submission item s t) :
    t.tally uid sel hand = s.tally uid sel hand + if sel item then 1 else 0 := by
  cases entered with
  | receive req admin =>
      simp only [CreditScheduler.tally, waitingItems, List.map_append, List.countP_append,
        List.map_cons, List.map_nil, List.countP_cons, List.countP_nil]
      omega
  | enqueue req user known =>
      by_cases mine : uid = req.userID
      · subst mine
        unfold CreditScheduler.enqueue
        simp only [CreditScheduler.tally, waitingItems, modify_account_self]
        split <;>
          simp only [modify_adminQueue, modify_deferredQueue, modify_deferredISC,
            modify_deferredISCRequests, modify_trace, List.map_append, List.countP_append,
            List.map_cons, List.map_nil, List.countP_cons, List.countP_nil] <;>
          omega
      · have other : ¬ sel (.request req) = true := fun chosen => mine (own _ chosen).symm
        have same := modify_account_ne s req.userID uid (CreditScheduler.enqueue req) mine
        rw [if_neg other, Nat.add_zero]
        exact tally_congr rfl (by rw [same]) (by rw [same]) rfl rfl rfl rfl
  | postpone dc =>
      simp only [CreditScheduler.tally, waitingItems, List.map_append, List.countP_append,
        List.map_cons, List.map_nil, List.countP_cons, List.countP_nil]
      omega
  | wait req =>
      simp only [CreditScheduler.tally, waitingItems, List.map_append, List.countP_append,
        List.map_cons, List.map_nil, List.countP_cons, List.countP_nil]
      omega
  | execute other pages ctx known held =>
      rw [tally_serve, tally_charge]

theorem tally_pop (hand : List ISCDeferredRequest) (other : UserID) (front : Request)
    (proper : Proper s)
    (own : ∀ item, sel item = true → item.uid = uid)
    (waits : (∃ rest, (s.account other).queue = front :: rest ∧
        t = s.modify other UserAccount.popQueue) ∨
      ∃ rest, (s.account other).queueISC = front :: rest ∧
        t = s.modify other UserAccount.popQueueISC) :
    t.tally uid sel hand + (if sel (.request front) then 1 else 0) =
      s.tally uid sel hand := by
  have owner : front.userID = other := by
    refine proper.owner other front ?_
    rcases waits with ⟨rest, head, -⟩ | ⟨rest, head, -⟩ <;> simp [head]
  by_cases mine : uid = other
  · subst mine
    rcases waits with ⟨rest, head, rfl⟩ | ⟨rest, head, rfl⟩ <;>
      simp only [tally, waitingItems, modify_account_self, UserAccount.popQueue,
        UserAccount.popQueueISC, modify_adminQueue, modify_deferredQueue, modify_deferredISC,
        modify_deferredISCRequests, modify_trace, head, List.tail_cons, List.map_cons,
        List.countP_append, List.countP_cons] <;>
      omega
  · have skipped : ¬ sel (.request front) = true := fun chosen =>
      mine ((own _ chosen).symm.trans owner)
    rw [if_neg skipped, Nat.add_zero]
    rcases waits with ⟨-, -, rfl⟩ | ⟨-, -, rfl⟩ <;>
      exact tally_congr rfl (by rw [modify_account_ne _ _ _ _ mine])
        (by rw [modify_account_ne _ _ _ _ mine]) rfl rfl rfl rfl

theorem tally_phase : (s.refillPhase p).tally uid sel hand = s.tally uid sel hand := by
  obtain ⟨account, grants⟩ := s.refillGrants_eq p
  obtain ⟨queue, queueISC, -, -⟩ := phase_proper (p := p) s uid
  have rest : (s.refillPhase p).adminQueue = s.adminQueue ∧
      (s.refillPhase p).deferredQueue = s.deferredQueue ∧
      (s.refillPhase p).deferredISC = s.deferredISC ∧
      (s.refillPhase p).deferredISCRequests = s.deferredISCRequests ∧
      served (s.refillPhase p).trace = served s.trace := by
    simp only [refillPhase, grants]
    exact ⟨trivial, trivial, trivial, trivial, rfl⟩
  obtain ⟨admin, deferred, custom, requests, trace⟩ := rest
  exact tally_congr admin queue queueISC deferred custom requests trace

theorem Proper.front_known (proper : Proper s) {other : UserID} {front : Request}
    {rest : List Request} (head : (s.account other).queue = front :: rest) :
    front.userID ∈ s.users := by
  rw [proper.owner other front (by simp [head])]
  by_contra absent
  rw [(proper.known other absent).1] at head
  exact List.cons_ne_nil _ _ head.symm

theorem tally_defer (s : CreditScheduler) (uid : UserID) (sel : Item → Bool)
    (hand : List ISCDeferredRequest)
    (dr : DeferredRequest) :
    { s with deferredQueue := s.deferredQueue ++ [dr] }.tally uid sel hand =
      s.tally uid sel hand + if sel dr.item then 1 else 0 := by
  simp only [tally, waitingItems, List.map_append, List.countP_append, List.map_cons,
    List.map_nil, List.countP_cons, List.countP_nil]
  omega

theorem Work.tally (own : ∀ item, sel item = true → item.uid = uid)
    {before after : List ISCDeferredRequest × CreditScheduler} (proper : Proper before.2)
    (step : Work p guard before after) :
    after.2.tally uid sel after.1 = before.2.tally uid sel before.1 := by
  cases step with
  | create other => exact tally_create proper other
  | activate other getTick known => exact tally_activate getTick other
  | @window hand s now may =>
      have kept : ∀ {α : Type} (field : UserAccount → α),
          (∀ acc, field (UserAccount.resetWindow acc) = field acc) →
            field ((s.iopsWindow p now).account uid) = field (s.account uid) := by
        intro α field same
        unfold iopsWindow
        simp only
        split
        · exact mapUsers_field s uid field same
        · rfl
      refine tally_congr ?_ (kept (·.queue) ?_) (kept (·.queueISC) ?_) ?_ ?_ ?_ ?_
      case refine_2 | refine_3 =>
        intro acc
        unfold UserAccount.resetWindow
        split <;> rfl
      all_goals
        unfold iopsWindow
        simp only
        split <;> rfl
  | check now => exact tally_emit _ rfl
  | phase => exact tally_phase
  | answer req beginAt finishedAt => exact tally_emit _ rfl
  | measure req =>
      exact tally_modify req.userID (UserAccount.measureHost _) (fun _ => rfl) fun _ => rfl
  | mark | fail => exact tally_congr rfl rfl rfl rfl rfl rfl rfl
  | @serveAdmin hand s req rest head =>
      rw [tally_serve]
      simp only [CreditScheduler.tally, waitingItems, head, List.map_cons, List.countP_append,
        List.countP_cons]
      omega
  | @dispatch hand s dr rest head known held =>
      rw [tally_serve, tally_charge]
      simp only [CreditScheduler.tally, waitingItems, head, List.map_cons, List.countP_append,
        List.countP_cons, DeferredRequest.item]
      omega
  | @requeue hand s dr rest head =>
      simp only [CreditScheduler.tally, waitingItems, head, List.map_cons, List.map_append,
        List.map_nil, List.countP_append, List.countP_cons, List.countP_nil]
      omega
  | @resume hand s dc rest head known held =>
      rw [tally_serve, tally_charge]
      simp only [CreditScheduler.tally, waitingItems, head, List.map_cons, List.countP_append,
        List.countP_cons]
      omega
  | @requeueISC hand s dc rest head =>
      simp only [CreditScheduler.tally, waitingItems, head, List.map_cons, List.map_append,
        List.map_nil, List.countP_append, List.countP_cons, List.countP_nil]
      omega
  | @take hand s req rest head =>
      simp only [CreditScheduler.tally, waitingItems, head, List.map_cons, List.map_append,
        List.map_nil, List.countP_append, List.countP_cons, List.countP_nil]
      omega
  | @process hand s req rest head known held =>
      rw [tally_serve, tally_charge]
      simp only [CreditScheduler.tally, waitingItems, head, List.map_cons, List.countP_append,
        List.countP_cons]
      omega
  | @putBack hand s remaining =>
      simp only [CreditScheduler.tally, waitingItems, List.map_append, List.countP_append]
      omega
  | @gate hand s other front rest head known held =>
      have paid : Proper (s.charge .queueISC .isc other front.pages) :=
        proper.act (p := p) (.charge _ _ other front.pages known held)
      have charged : ((s.charge .queueISC .isc other front.pages).account other).queueISC =
          front :: rest := by
        rw [← head]
        exact modify_field s other other (·.queueISC) fun _ => rfl
      have popped := tally_pop hand other front paid own (.inr ⟨rest, charged, rfl⟩)
      rw [tally_charge] at popped
      rw [tally_serve, ← popped]
      exact congrArg (· + _) (tally_congr rfl rfl rfl rfl rfl rfl rfl)
  | @deferISC hand s other front rest now head =>
      have popped := tally_pop hand other front proper own (.inr ⟨rest, head, rfl⟩)
      have deferred := tally_defer (s.modify other UserAccount.popQueueISC) uid sel hand
        ⟨front, front.pages, now⟩
      exact deferred.trans popped
  | @host hand s other front rest head held =>
      have member := proper.front_known head
      rw [getOrCreateUser_of_mem member] at held ⊢
      have paid : Proper (s.charge .hostQueue (.ofOp front.op) front.userID front.pages) :=
        proper.act (p := p) (.charge _ _ front.userID front.pages member held)
      have charged : ((s.charge .hostQueue (.ofOp front.op) front.userID
          front.pages).account other).queue = front :: rest := by
        rw [← head]
        exact modify_field s front.userID other (·.queue) fun _ => rfl
      have popped := tally_pop hand other front paid own (.inl ⟨rest, charged, rfl⟩)
      rw [tally_charge] at popped
      rw [tally_serve, ← popped]
      exact congrArg (· + _) (tally_congr rfl rfl rfl rfl rfl rfl rfl)
  | @deferHost hand s other front rest now head =>
      rw [getOrCreateUser_of_mem (proper.front_known head)]
      have popped := tally_pop hand other front proper own (.inl ⟨rest, head, rfl⟩)
      have deferred := tally_defer (s.modify other UserAccount.popQueue) uid sel hand
        ⟨front, front.pages, now⟩
      exact deferred.trans popped

end Tally

end SimpleSSD.HIL.CreditScheduler
