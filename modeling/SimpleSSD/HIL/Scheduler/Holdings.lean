import Mathlib.Algebra.Order.Group.Multiset
import Mathlib.Tactic.Abel
import SimpleSSD.Foundation.ListSum
import SimpleSSD.HIL.Scheduler.Credit

/-!
# Where submitted items are

Every submitted item waits in one of the six containers of the scheduler, has
been served, or is in the hand of the function that is moving it.  The lemmas
below take an item out of a container, put it into one, or serve it.
-/

namespace SimpleSSD.HIL.CreditScheduler

open SimpleSSD.Foundation

def Item.uid : Item → UserID
  | .request req => req.userID
  | .custom dc => dc.uid
  | .isc uid _ _ => uid

def Item.pages : Item → Nat
  | .request req => req.pages
  | .custom dc => dc.pages
  | .isc _ pages _ => pages

def Item.isAdmin : Item → Bool
  | .request req => req.userID == 0
  | _ => false

def DeferredRequest.item (dr : DeferredRequest) : Item := .request dr.req

def ISCDeferredRequest.item (req : ISCDeferredRequest) : Item :=
  .isc req.uid req.pagesNeeded req.iscContext

namespace Event

def served : Event → Option Item
  | .serve item => some item
  | _ => none

def charged : Event → Option (UserID × Nat)
  | .charge _ uid _ paid _ => some (uid, paid)
  | _ => none

end Event

def served (trace : List Event) : List Item := trace.filterMap Event.served

def charges (trace : List Event) : List (UserID × Nat) := trace.filterMap Event.charged

def consumed (uid : UserID) (trace : List Event) : Nat :=
  ((charges trace).map fun entry => if entry.1 = uid then entry.2 else 0).sum

section Trace

variable (item : Item) (site : ChargeSite) (uid : UserID) (held paid left : Nat)
  {event : Event} (trace : List Event)

@[simp] theorem served_serve : served (.serve item :: trace) = item :: served trace := rfl
@[simp] theorem charges_serve : charges (.serve item :: trace) = charges trace := rfl
@[simp] theorem served_charge :
    served (.charge site uid held paid left :: trace) = served trace := rfl
@[simp] theorem charges_charge :
    charges (.charge site uid held paid left :: trace) = (uid, paid) :: charges trace := rfl

theorem served_cons_of_none (h : event.served = none) :
    served (event :: trace) = served trace := by
  simp [served, h]

theorem charges_cons_of_none (h : event.charged = none) :
    charges (event :: trace) = charges trace := by
  simp [charges, h]

end Trace

def UserAccount.items (acc : UserAccount) : Multiset Item :=
  (acc.queue.map Item.request : Multiset Item) + (acc.queueISC.map Item.request)

def waiting (s : CreditScheduler) : Multiset Item :=
  (s.adminQueue.map Item.request : Multiset Item) +
    (s.users.map fun uid => (s.account uid).items).sum +
    (s.deferredQueue.map DeferredRequest.item) +
    (s.deferredISC.map Item.custom) +
    (s.deferredISCRequests.map ISCDeferredRequest.item)

/-- Every served item has been charged its pages immediately before, except
the requests of user 0; nothing else has been charged. -/
inductive PaidInStep : List Event → Prop
  | nil : PaidInStep []
  | admin {req : Request} {trace : List Event} (uid : req.userID = 0)
      (earlier : PaidInStep trace) : PaidInStep (.serve (.request req) :: trace)
  | paid {site : ChargeSite} {item : Item} {held left : Nat} {trace : List Event}
      (user : item.isAdmin = false) (covered : left + item.pages = held)
      (earlier : PaidInStep trace) :
      PaidInStep (.serve item :: .charge site item.uid held item.pages left :: trace)
  | other {event : Event} {trace : List Event} (served : event.served = none)
      (charged : event.charged = none) (earlier : PaidInStep trace) :
      PaidInStep (event :: trace)

theorem PaidInStep.charges_eq {trace : List Event} (paid : PaidInStep trace) :
    charges trace = ((served trace).filter fun item => !item.isAdmin).map
      fun item => (item.uid, item.pages) := by
  induction paid with
  | nil => rfl
  | admin uid _ ih => simp [Item.isAdmin, uid, ih]
  | paid user _ _ ih => simp [user, ih]
  | other hserved hcharged _ ih =>
      rw [served_cons_of_none _ hserved, charges_cons_of_none _ hcharged, ih]

/-! ## The invariant -/

def UserAccount.holding (acc : UserAccount) : List Request × List Request × Nat :=
  (acc.queue, acc.queueISC, acc.totalConsumed)

/-- `submitted` is what the callers handed in, `hand` what is being moved. -/
structure Conserved (submitted hand : Multiset Item) (s : CreditScheduler) : Prop where
  nodup : s.users.Nodup
  absent : ∀ uid, uid ∉ s.users → (s.account uid).holding = ([], [], 0)
  admin : ∀ req ∈ s.adminQueue, req.userID = 0
  owner : ∀ uid, ∀ req ∈ (s.account uid).queue ++ (s.account uid).queueISC,
    req.userID = uid ∧ uid ≠ 0
  deferred : ∀ dr ∈ s.deferredQueue, dr.pages = dr.req.pages ∧ dr.req.userID ≠ 0
  balance : s.waiting + served s.trace + hand = submitted
  paid : PaidInStep s.trace
  consumed : ∀ uid, (s.account uid).totalConsumed = consumed uid s.trace

structure Holdings where
  users : List UserID
  account : UserID → List Request × List Request × Nat
  adminQueue : List Request
  deferredQueue : List DeferredRequest
  deferredISC : List DeferredCustom
  deferredISCRequests : List ISCDeferredRequest
  trace : List Event

def holdings (s : CreditScheduler) : Holdings where
  users := s.users
  account uid := (s.account uid).holding
  adminQueue := s.adminQueue
  deferredQueue := s.deferredQueue
  deferredISC := s.deferredISC
  deferredISCRequests := s.deferredISCRequests
  trace := s.trace

theorem holdings_modify (s : CreditScheduler) (uid : UserID)
    (f : UserAccount → UserAccount) (h : ∀ acc, (f acc).holding = acc.holding) :
    (s.modify uid f).holdings = s.holdings := by
  simp only [holdings, modify_field _ _ _ UserAccount.holding h]
  rfl

theorem holdings_mapUsers (s : CreditScheduler) (f : UserAccount → UserAccount)
    (h : ∀ acc, (f acc).holding = acc.holding) :
    (s.mapUsers f).holdings = s.holdings := by
  simp only [holdings, mapUsers_field _ _ UserAccount.holding h]
  rfl

section Moves

variable {p : Params} {submitted hand : Multiset Item} {s s' : CreditScheduler}

theorem Conserved.frame (inv : Conserved submitted hand s)
    (h : s'.holdings = s.holdings) : Conserved submitted hand s' := by
  simp only [holdings, Holdings.mk.injEq] at h
  obtain ⟨users, account, admin, deferred, isc, iscRequests, trace⟩ := h
  have same : ∀ uid, (s'.account uid).holding = (s.account uid).holding :=
    fun uid => congrFun account uid
  have fields := same
  simp only [UserAccount.holding, Prod.mk.injEq] at fields
  have items : ∀ uid, (s'.account uid).items = (s.account uid).items := fun uid => by
    simp [UserAccount.items, fields uid]
  refine ⟨users ▸ inv.nodup, fun uid hmem => ?_, admin ▸ inv.admin, fun uid => ?_,
    deferred ▸ inv.deferred, ?_, trace ▸ inv.paid, fun uid => ?_⟩
  · rw [same]
    exact inv.absent uid (users ▸ hmem)
  · rw [(fields uid).1, (fields uid).2.1]
    exact inv.owner uid
  · simp only [waiting, users, items, admin, deferred, isc, iscRequests, trace]
    exact inv.balance
  · rw [(fields uid).2.2, trace]
    exact inv.consumed uid

theorem Conserved.emit (inv : Conserved submitted hand s) (event : Event)
    (hserved : event.served = none) (hcharged : event.charged = none) :
    Conserved submitted hand (s.emit event) where
  nodup := inv.nodup
  absent := inv.absent
  admin := inv.admin
  owner := inv.owner
  deferred := inv.deferred
  balance := by
    rw [emit_trace, served_cons_of_none _ hserved]
    exact inv.balance
  paid := .other hserved hcharged inv.paid
  consumed uid := by
    rw [emit_trace, CreditScheduler.consumed, charges_cons_of_none _ hcharged]
    exact inv.consumed uid

theorem Conserved.getOrCreateUser (inv : Conserved submitted hand s) (uid : UserID) :
    Conserved submitted hand (s.getOrCreateUser p uid) := by
  unfold CreditScheduler.getOrCreateUser
  split
  · exact inv
  · rename_i absent
    have same : ∀ other, (Function.update s.account uid p.newAccount other).holding =
        (s.account other).holding := by
      intro other
      by_cases h : other = uid
      · rw [h, Function.update_self, inv.absent uid absent]
        rfl
      · rw [Function.update_of_ne h]
    refine Conserved.frame (s := { s with users := p.emplaceOrder s.users uid }) ?_ ?_
    · have perm := p.emplaceOrder_perm s.users uid
      have empty : (s.account uid).items = 0 := by
        have := inv.absent uid absent
        simp only [UserAccount.holding, Prod.mk.injEq] at this
        simp [UserAccount.items, this]
      refine ⟨perm.nodup_iff.2 (List.nodup_cons.2 ⟨absent, inv.nodup⟩), fun other hmem => ?_,
        inv.admin, inv.owner, inv.deferred, ?_, inv.paid, inv.consumed⟩
      · exact inv.absent other fun h => hmem (perm.mem_iff.2 (List.mem_cons_of_mem _ h))
      · rw [← inv.balance]
        simp only [waiting, (perm.map fun uid => (s.account uid).items).sum_eq,
          List.map_cons, List.sum_cons, empty, zero_add]
    · simp only [holdings, same]

theorem Conserved.modify {uid : UserID} {f : UserAccount → UserAccount}
    {hand' : Multiset Item} (inv : Conserved submitted hand s) (hmem : uid ∈ s.users)
    (consumed : ∀ acc, (f acc).totalConsumed = acc.totalConsumed)
    (owner : ∀ req ∈ (f (s.account uid)).queue ++ (f (s.account uid)).queueISC,
      req.userID = uid ∧ uid ≠ 0)
    (items : (f (s.account uid)).items + hand' = (s.account uid).items + hand) :
    Conserved submitted hand' (s.modify uid f) := by
  refine ⟨inv.nodup, fun other h => ?_, inv.admin, fun other => ?_, inv.deferred, ?_,
    inv.paid, fun other => ?_⟩
  · rw [modify_account_ne _ _ _ _ (ne_of_mem_of_not_mem hmem h).symm]
    exact inv.absent other h
  · by_cases h : other = uid
    · subst h
      rw [modify_account_self]
      exact owner
    · rw [modify_account_ne _ _ _ _ h]
      exact inv.owner other
  · have update : (fun other => ((s.modify uid f).account other).items) =
        Function.update (fun other => (s.account other).items) uid
          (f (s.account uid)).items := by
      funext other
      by_cases h : other = uid
      · subst h
        simp
      · rw [modify_account_ne _ _ _ _ h, Function.update_of_ne h]
    have total := sum_map_update inv.nodup hmem (fun other => (s.account other).items)
      (f (s.account uid)).items
    rw [← update] at total
    have moved : (s.users.map fun other => ((s.modify uid f).account other).items).sum +
        hand' = (s.users.map fun other => (s.account other).items).sum + hand := by
      refine add_right_cancel (b := (s.account uid).items) ?_
      calc _ = ((s.users.map fun other => ((s.modify uid f).account other).items).sum +
            (s.account uid).items) + hand' := by abel
        _ = (s.users.map fun other => (s.account other).items).sum +
            ((f (s.account uid)).items + hand') := by rw [total]; abel
        _ = _ := by rw [items]; abel
    rw [← inv.balance]
    simp only [waiting, modify_users, modify_adminQueue, modify_deferredQueue,
      modify_deferredISC, modify_deferredISCRequests, modify_trace]
    calc _ = (s.adminQueue.map Item.request : Multiset Item) +
          ((s.users.map fun other => ((s.modify uid f).account other).items).sum + hand') +
          (s.deferredQueue.map DeferredRequest.item) + (s.deferredISC.map Item.custom) +
          (s.deferredISCRequests.map ISCDeferredRequest.item) + served s.trace := by abel
      _ = _ := by rw [moved]; abel
  · rw [modify_field _ _ _ _ consumed]
    exact inv.consumed other

/-! ### Serving -/

theorem Conserved.serveAdmin {req : Request}
    (inv : Conserved submitted ({.request req} + hand) s) (uid : req.userID = 0) :
    Conserved submitted hand (s.emit (.serve (.request req))) where
  nodup := inv.nodup
  absent := inv.absent
  admin := inv.admin
  owner := inv.owner
  deferred := inv.deferred
  balance := by
    rw [← inv.balance, emit_trace, served_serve, ← Multiset.cons_coe,
      ← Multiset.singleton_add]
    change s.waiting + _ + hand = _
    abel
  paid := .admin uid inv.paid
  consumed := inv.consumed

theorem Conserved.servePaid {item : Item} (inv : Conserved submitted ({item} + hand) s)
    (site : ChargeSite) (cls : ChargeClass) (user : item.isAdmin = false)
    (hmem : item.uid ∈ s.users) (held : item.pages ≤ (s.account item.uid).credit) :
    Conserved submitted hand
      ((s.charge site cls item.uid item.pages).emit (.serve item)) := by
  refine ⟨inv.nodup, fun other h => ?_, inv.admin, fun other => ?_, inv.deferred, ?_,
    .paid user (sub64_add_cancel held) inv.paid, fun other => ?_⟩
  · change ((s.modify item.uid (·.pay cls item.pages)).account other).holding = _
    rw [modify_account_ne _ _ _ _ (ne_of_mem_of_not_mem hmem h).symm]
    exact inv.absent other h
  · have queues : ((s.modify item.uid (·.pay cls item.pages)).account other).queue ++
        ((s.modify item.uid (·.pay cls item.pages)).account other).queueISC =
        (s.account other).queue ++ (s.account other).queueISC :=
      modify_field s item.uid other (fun acc => acc.queue ++ acc.queueISC) fun _ => rfl
    change ∀ req ∈ ((s.modify item.uid (·.pay cls item.pages)).account other).queue ++
      ((s.modify item.uid (·.pay cls item.pages)).account other).queueISC, _
    rw [queues]
    exact inv.owner other
  · have items : ∀ other, ((s.modify item.uid (·.pay cls item.pages)).account other).items =
        (s.account other).items := fun other => modify_field _ _ _ (·.items) fun _ => rfl
    have same : (s.modify item.uid (·.pay cls item.pages)).waiting = s.waiting := by
      simp only [waiting, items]
      rfl
    change (s.modify item.uid (·.pay cls item.pages)).waiting +
      (item :: served s.trace : List Item) + hand = submitted
    rw [same, ← inv.balance, ← Multiset.cons_coe, ← Multiset.singleton_add]
    abel
  · change ((s.modify item.uid (·.pay cls item.pages)).account other).totalConsumed =
      (if item.uid = other then item.pages else 0) + CreditScheduler.consumed other s.trace
    rw [← inv.consumed other, modify_account]
    by_cases h : other = item.uid
    · rw [if_pos h, if_pos h.symm, h, add_comm]
      rfl
    · rw [if_neg h, if_neg (Ne.symm h), zero_add]

/-! ### Containers -/

theorem Conserved.takeAdmin {req : Request} {rest : List Request}
    (inv : Conserved submitted hand s) (h : s.adminQueue = req :: rest) :
    Conserved submitted ({.request req} + hand) { s with adminQueue := rest } where
  nodup := inv.nodup
  absent := inv.absent
  admin other hmem := inv.admin other (h ▸ List.mem_cons_of_mem _ hmem)
  owner := inv.owner
  deferred := inv.deferred
  balance := by
    rw [← inv.balance]
    simp only [waiting, h, List.map_cons, ← Multiset.cons_coe, ← Multiset.singleton_add]
    abel
  paid := inv.paid
  consumed := inv.consumed

theorem Conserved.putAdmin {req : Request}
    (inv : Conserved submitted ({.request req} + hand) s) (uid : req.userID = 0) :
    Conserved submitted hand { s with adminQueue := s.adminQueue ++ [req] } where
  nodup := inv.nodup
  absent := inv.absent
  admin other hmem := by
    rcases List.mem_append.1 hmem with hold | hnew
    · exact inv.admin other hold
    · rw [List.mem_singleton.1 hnew, uid]
  owner := inv.owner
  deferred := inv.deferred
  balance := by
    rw [← inv.balance]
    simp only [waiting, List.map_append, ← Multiset.coe_add, List.map_cons, List.map_nil,
      Multiset.coe_singleton]
    abel
  paid := inv.paid
  consumed := inv.consumed

theorem Conserved.takeDeferred {dr : DeferredRequest} {rest : List DeferredRequest}
    (inv : Conserved submitted hand s) (h : s.deferredQueue = dr :: rest) :
    Conserved submitted ({dr.item} + hand) { s with deferredQueue := rest } where
  nodup := inv.nodup
  absent := inv.absent
  admin := inv.admin
  owner := inv.owner
  deferred other hmem := inv.deferred other (h ▸ List.mem_cons_of_mem _ hmem)
  balance := by
    rw [← inv.balance]
    simp only [waiting, h, List.map_cons, ← Multiset.cons_coe, ← Multiset.singleton_add]
    abel
  paid := inv.paid
  consumed := inv.consumed

theorem Conserved.putDeferred {dr : DeferredRequest}
    (inv : Conserved submitted ({dr.item} + hand) s)
    (sound : dr.pages = dr.req.pages ∧ dr.req.userID ≠ 0) :
    Conserved submitted hand { s with deferredQueue := s.deferredQueue ++ [dr] } where
  nodup := inv.nodup
  absent := inv.absent
  admin := inv.admin
  owner := inv.owner
  deferred other hmem := by
    rcases List.mem_append.1 hmem with hold | hnew
    · exact inv.deferred other hold
    · rw [List.mem_singleton.1 hnew]
      exact sound
  balance := by
    rw [← inv.balance]
    simp only [waiting, List.map_append, ← Multiset.coe_add, List.map_cons, List.map_nil,
      Multiset.coe_singleton]
    abel
  paid := inv.paid
  consumed := inv.consumed

theorem Conserved.moveISC {hand' : Multiset Item} (custom : List DeferredCustom)
    (requests : List ISCDeferredRequest) (inv : Conserved submitted hand s)
    (moved : (custom.map Item.custom : Multiset Item) +
        (requests.map ISCDeferredRequest.item) + hand' =
      (s.deferredISC.map Item.custom) +
        (s.deferredISCRequests.map ISCDeferredRequest.item) + hand) :
    Conserved submitted hand' { s with
      deferredISC := custom, deferredISCRequests := requests } where
  nodup := inv.nodup
  absent := inv.absent
  admin := inv.admin
  owner := inv.owner
  deferred := inv.deferred
  balance := by
    rw [← inv.balance]
    simp only [waiting]
    calc _ = (s.adminQueue.map Item.request : Multiset Item) +
          (s.users.map fun uid => (s.account uid).items).sum +
          (s.deferredQueue.map DeferredRequest.item) + served s.trace +
          ((custom.map Item.custom : Multiset Item) +
            (requests.map ISCDeferredRequest.item) + hand') := by abel
      _ = _ := by rw [moved]; abel
  paid := inv.paid
  consumed := inv.consumed

theorem Conserved.takeQueue {uid : UserID} {front : Request} {rest : List Request}
    (inv : Conserved submitted hand s) (hmem : uid ∈ s.users)
    (h : (s.account uid).queue = front :: rest) :
    Conserved submitted ({.request front} + hand)
      (s.modify uid UserAccount.popQueue) := by
  refine inv.modify hmem (fun _ => rfl) (fun req hreq => ?_) ?_
  · refine inv.owner uid req ?_
    simp only [UserAccount.popQueue, h, List.tail_cons] at hreq
    rw [h]
    exact List.mem_cons_of_mem _ hreq
  · simp only [UserAccount.items, UserAccount.popQueue, h, List.tail_cons, List.map_cons,
      ← Multiset.cons_coe, ← Multiset.singleton_add]
    abel

theorem Conserved.takeQueueISC {uid : UserID} {front : Request} {rest : List Request}
    (inv : Conserved submitted hand s) (hmem : uid ∈ s.users)
    (h : (s.account uid).queueISC = front :: rest) :
    Conserved submitted ({.request front} + hand)
      (s.modify uid UserAccount.popQueueISC) := by
  refine inv.modify hmem (fun _ => rfl) (fun req hreq => ?_) ?_
  · refine inv.owner uid req ?_
    simp only [UserAccount.popQueueISC, h, List.tail_cons] at hreq
    rw [h, List.mem_append]
    exact (List.mem_append.1 hreq).imp_right (List.mem_cons_of_mem _)
  · simp only [UserAccount.items, UserAccount.popQueueISC, h, List.tail_cons, List.map_cons,
      ← Multiset.cons_coe, ← Multiset.singleton_add]
    abel

theorem Conserved.putQueue {req : Request}
    (inv : Conserved submitted ({.request req} + hand) s) (hmem : req.userID ∈ s.users)
    (user : req.userID ≠ 0) :
    Conserved submitted hand (s.modify req.userID (enqueue req)) := by
  refine inv.modify hmem (fun acc => ?_) (fun other hother => ?_) ?_
  · unfold enqueue
    split <;> rfl
  · have : other = req ∨ other ∈ (s.account req.userID).queue ++
        (s.account req.userID).queueISC := by
      unfold enqueue at hother
      split at hother <;> simp at hother ⊢ <;> tauto
    rcases this with rfl | hold
    · exact ⟨rfl, user⟩
    · exact inv.owner _ other hold
  · unfold enqueue
    split
    · simp only [UserAccount.items, List.map_cons, ← Multiset.cons_coe,
        ← Multiset.singleton_add]
      abel
    · simp only [UserAccount.items, List.map_append, ← Multiset.coe_add, List.map_cons,
        List.map_nil, Multiset.coe_singleton]
      abel

end Moves

end SimpleSSD.HIL.CreditScheduler
