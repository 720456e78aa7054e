import SimpleSSD.Foundation.ListSum
import SimpleSSD.HIL.Scheduler.Refill

/-!
# What one refill phase grants

The two passes of a phase are given in closed form for each account, and the
phase is shown to hand out no more than its budget.
-/

namespace SimpleSSD.HIL.CreditScheduler

open SimpleSSD.Foundation

namespace UserAccount

variable (acc : UserAccount)

@[simp] theorem age_weight : acc.age.weight = acc.weight := by
  unfold age; split_ifs <;> rfl
@[simp] theorem age_creditCap : acc.age.creditCap = acc.creditCap := by
  unfold age; split_ifs <;> rfl
@[simp] theorem age_credit : acc.age.credit = acc.credit := by
  unfold age; split_ifs <;> rfl
@[simp] theorem age_carry : acc.age.carry = acc.carry := by
  unfold age; split_ifs <;> rfl
@[simp] theorem age_isSLO : acc.age.isSLO = acc.isSLO := by
  unfold age; split_ifs <;> rfl
@[simp] theorem age_isActive : acc.age.isActive = acc.isActive := by
  unfold age; split_ifs <;> rfl

theorem credit_add_headroom (h : acc.credit ≤ acc.creditCap) :
    acc.credit + acc.headroom = acc.creditCap := by
  unfold headroom
  split_ifs <;> omega

end UserAccount

variable (p : Params) (s : CreditScheduler)

theorem mem_activeUsers {slo : Bool} {uid : UserID} :
    uid ∈ activeUsers slo s ↔
      uid ∈ s.users ∧ (s.account uid).isActive ∧ (s.account uid).isSLO = slo := by
  simp [activeUsers]

theorem mem_classUsers {slo : Bool} {uid : UserID} :
    uid ∈ classUsers slo s ↔ uid ∈ s.users ∧ (s.account uid).isSLO = slo := by
  simp [classUsers]

theorem activeWeight_eq (slo : Bool) :
    s.activeWeight slo =
      ((activeUsers slo s).map fun uid => (s.account uid).weight).sum := by
  rw [activeUsers, sum_filter_map]
  simp [activeWeight]

theorem sum_classUsers_eq {M : Type*} [AddMonoid M] (slo : Bool) (f : UserID → M)
    (idle : ∀ uid ∈ classUsers slo s, uid ∉ activeUsers slo s → f uid = 0) :
    ((classUsers slo s).map f).sum = ((activeUsers slo s).map f).sum := by
  rw [classUsers, activeUsers, sum_filter_map, sum_filter_map]
  congr 1
  refine List.map_congr_left fun uid hmem => ?_
  cases hslo : (s.account uid).isSLO == slo
  · simp
  · cases hact : (s.account uid).isActive
    · simpa using idle uid ((mem_classUsers s).2 ⟨hmem, by simpa using hslo⟩)
        (by simp [mem_activeUsers, hact])
    · simp

/-! ## The service-level pass -/

theorem sloGrant_le_demand (uid : UserID) :
    sloGrant p s uid ≤ sloScaled p s uid := min_le_left _ _

theorem totalGranted_le_capacity : totalGranted p s ≤ capacityInt p := by
  have capped : totalGranted p s ≤
      ((activeUsers true s).map (sloScaled p s)).sum :=
    List.sum_le_sum fun uid _ => sloGrant_le_demand p s uid
  refine capped.trans ?_
  by_cases h : totalDemand p s ≤ capacityInt p
  · have : sloScaled p s = sloDemand p s := by
      funext uid
      simp [sloScaled, h]
    rw [this]
    exact h
  · have : sloScaled p s = fun uid =>
        ⌊(sloDemand p s uid : ℚ≥0) * ((capacityInt p : ℚ≥0) / totalDemand p s)⌋₊ := by
      funext uid
      simp [sloScaled, h]
    rw [this]
    exact sum_floor_scaled_le _ _ _

theorem capacityInt_le : (capacityInt p : ℚ≥0) ≤ p.pagesPerPeriod :=
  Nat.floor_le zero_le

/-- What the service-level users are granted and what they leave to the others
fit in the budget. -/
theorem totalGranted_add_spill_le (h : 0 < s.activeWeight true) :
    (totalGranted p s : ℚ≥0) + spillToBE p s ≤ p.pagesPerPeriod := by
  have within := totalGranted_le_capacity p s
  unfold spillToBE
  split_ifs
  · rw [← Nat.cast_add, Nat.add_sub_cancel' within]
    exact capacityInt_le p
  · rw [add_zero]
    exact (Nat.cast_le.2 within).trans (capacityInt_le p)

/-! ## The best-effort pass -/

theorem beAdd_le_floor (spill : ℚ≥0) (uid : UserID) :
    beAdd spill s uid ≤ ⌊beSum spill s uid⌋₊ := by
  unfold beAdd
  split_ifs <;> omega

theorem beAdd_le_headroom (spill : ℚ≥0) (uid : UserID) :
    beAdd spill s uid ≤ (s.account uid).headroom := by
  unfold beAdd
  split_ifs <;> omega

theorem beAdd_add_carry (spill : ℚ≥0) (uid : UserID) :
    (beAdd spill s uid : ℚ≥0) + (beSum spill s uid - beAdd spill s uid) =
      spill * ((s.account uid).weight / s.activeWeight false) +
        (s.account uid).carry :=
  floor_take_add_rest (beAdd_le_floor s spill uid)

theorem sum_shares (spill : ℚ≥0) (h : 0 < s.activeWeight false) :
    ((activeUsers false s).map fun uid =>
      spill * (((s.account uid).weight : ℚ≥0) / s.activeWeight false)).sum = spill := by
  rw [activeWeight_eq] at h ⊢
  exact sum_proportional _ _ _ h

/-! ## Closed forms -/

def phaseGrant (uid : UserID) : Nat :=
  let aged := s.mapUsers UserAccount.age
  if uid ∈ activeUsers true s then
    if 0 < s.activeWeight true then sloGrant p aged uid else 0
  else if uid ∈ activeUsers false s then
    if 0 < spillToBE p aged ∧ 0 < s.activeWeight false then
      beAdd (spillToBE p aged) aged uid
    else 0
  else 0

section Aged

variable (uid : UserID) (slo : Bool)

@[simp] theorem aged_weight : ((s.mapUsers UserAccount.age).account uid).weight =
    (s.account uid).weight :=
  mapUsers_field s uid (·.weight) (fun acc => acc.age_weight)
@[simp] theorem aged_credit : ((s.mapUsers UserAccount.age).account uid).credit =
    (s.account uid).credit :=
  mapUsers_field s uid (·.credit) (fun acc => acc.age_credit)
@[simp] theorem aged_creditCap : ((s.mapUsers UserAccount.age).account uid).creditCap =
    (s.account uid).creditCap :=
  mapUsers_field s uid (·.creditCap) (fun acc => acc.age_creditCap)
@[simp] theorem aged_carry : ((s.mapUsers UserAccount.age).account uid).carry =
    (s.account uid).carry :=
  mapUsers_field s uid (·.carry) (fun acc => acc.age_carry)
@[simp] theorem aged_isSLO : ((s.mapUsers UserAccount.age).account uid).isSLO =
    (s.account uid).isSLO :=
  mapUsers_field s uid (·.isSLO) (fun acc => acc.age_isSLO)
@[simp] theorem aged_isActive : ((s.mapUsers UserAccount.age).account uid).isActive =
    (s.account uid).isActive :=
  mapUsers_field s uid (·.isActive) (fun acc => acc.age_isActive)

@[simp] theorem aged_activeWeight :
    (s.mapUsers UserAccount.age).activeWeight slo = s.activeWeight slo := by
  simp [activeWeight]

@[simp] theorem aged_activeUsers :
    activeUsers slo (s.mapUsers UserAccount.age) = activeUsers slo s := by
  simp [activeUsers]

@[simp] theorem aged_headroom :
    ((s.mapUsers UserAccount.age).account uid).headroom = (s.account uid).headroom := by
  simp [UserAccount.headroom]

end Aged

section AfterSLO

variable (uid : UserID) (slo : Bool)

@[simp] theorem refillSLO_users : (refillSLO p s).users = s.users := by
  unfold refillSLO
  split_ifs <;> rfl

theorem refillSLO_field {α : Type*} (field : UserAccount → α)
    (h : ∀ acc credit carry tick, field { acc with
      credit := credit, carry := carry, lastRefillTick := tick } = field acc) :
    field ((refillSLO p s).account uid) = field (s.account uid) := by
  unfold refillSLO
  split_ifs
  · simp only
    split_ifs
    · exact h _ _ _ _
    · rfl
  · rfl

@[simp] theorem refillSLO_weight :
    ((refillSLO p s).account uid).weight = (s.account uid).weight :=
  refillSLO_field p s uid (·.weight) (fun _ _ _ _ => rfl)
@[simp] theorem refillSLO_isSLO :
    ((refillSLO p s).account uid).isSLO = (s.account uid).isSLO :=
  refillSLO_field p s uid (·.isSLO) (fun _ _ _ _ => rfl)
@[simp] theorem refillSLO_isActive :
    ((refillSLO p s).account uid).isActive = (s.account uid).isActive :=
  refillSLO_field p s uid (·.isActive) (fun _ _ _ _ => rfl)

@[simp] theorem refillSLO_activeWeight :
    (refillSLO p s).activeWeight slo = s.activeWeight slo := by
  simp [activeWeight]

@[simp] theorem refillSLO_activeUsers :
    activeUsers slo (refillSLO p s) = activeUsers slo s := by
  simp [activeUsers]

theorem refillSLO_account_of_not_mem (h : uid ∉ activeUsers true s) :
    (refillSLO p s).account uid = s.account uid := by
  unfold refillSLO
  split_ifs <;> simp [h]

theorem not_mem_activeUsers_true (h : uid ∈ activeUsers false s) :
    uid ∉ activeUsers true s := by
  rw [mem_activeUsers] at h ⊢
  rintro ⟨-, -, hslo⟩
  rw [h.2.2] at hslo
  contradiction

theorem refillSLO_credit :
    ((refillSLO p s).account uid).credit = (s.account uid).credit +
      if uid ∈ activeUsers true s ∧ 0 < s.activeWeight true then sloGrant p s uid
      else 0 := by
  unfold refillSLO
  by_cases hw : 0 < s.activeWeight true <;>
    by_cases hmem : uid ∈ activeUsers true s <;> simp [hw, hmem]

theorem refillSLO_beSum (spill : ℚ≥0) (h : uid ∈ activeUsers false s) :
    beSum spill (refillSLO p s) uid = beSum spill s uid := by
  simp [beSum, refillSLO_account_of_not_mem p s uid (not_mem_activeUsers_true s uid h)]

theorem refillSLO_beAdd (spill : ℚ≥0) (h : uid ∈ activeUsers false s) :
    beAdd spill (refillSLO p s) uid = beAdd spill s uid := by
  simp [beAdd, refillSLO_beSum p s uid spill h,
    refillSLO_account_of_not_mem p s uid (not_mem_activeUsers_true s uid h)]

end AfterSLO

section BestEffortPass

variable (spill : ℚ≥0) (uid : UserID)

@[simp] theorem refillBE_users : (refillBE spill s).users = s.users := by
  unfold refillBE
  split_ifs <;> rfl

theorem refillBE_field {α : Type*} (field : UserAccount → α)
    (h : ∀ acc credit carry tick, field { acc with
      credit := credit, carry := carry, lastRefillTick := tick } = field acc) :
    field ((refillBE spill s).account uid) = field (s.account uid) := by
  unfold refillBE
  split_ifs
  · simp only
    split_ifs
    · exact h _ _ _ _
    · rfl
  · rfl

theorem refillBE_credit :
    ((refillBE spill s).account uid).credit = (s.account uid).credit +
      if uid ∈ activeUsers false s ∧ 0 < spill ∧ 0 < s.activeWeight false then
        beAdd spill s uid
      else 0 := by
  unfold refillBE
  by_cases hg : 0 < spill ∧ 0 < s.activeWeight false <;>
    by_cases hmem : uid ∈ activeUsers false s <;> simp [hg, hmem]

theorem refillBE_carry :
    ((refillBE spill s).account uid).carry =
      if uid ∈ activeUsers false s ∧ 0 < spill ∧ 0 < s.activeWeight false then
        beSum spill s uid - beAdd spill s uid
      else (s.account uid).carry := by
  unfold refillBE
  by_cases hg : 0 < spill ∧ 0 < s.activeWeight false <;>
    by_cases hmem : uid ∈ activeUsers false s <;> simp [hg, hmem]

end BestEffortPass

/-! ## The whole phase -/

section WholePhase

variable (uid : UserID)

@[simp] theorem refillGrants_users : (refillGrants p s).users = s.users := by
  simp [refillGrants]

theorem refillGrants_field {α : Type*} (field : UserAccount → α)
    (hage : ∀ acc, field (UserAccount.age acc) = field acc)
    (h : ∀ acc credit carry tick, field { acc with
      credit := credit, carry := carry, lastRefillTick := tick } = field acc) :
    field ((refillGrants p s).account uid) = field (s.account uid) := by
  unfold refillGrants
  rw [refillBE_field _ _ _ _ h, refillSLO_field _ _ _ _ h, mapUsers_field s uid _ hage]

@[simp] theorem refillGrants_creditCap :
    ((refillGrants p s).account uid).creditCap = (s.account uid).creditCap :=
  refillGrants_field p s uid (·.creditCap) (fun acc => acc.age_creditCap)
    (fun _ _ _ _ => rfl)
@[simp] theorem refillGrants_isSLO :
    ((refillGrants p s).account uid).isSLO = (s.account uid).isSLO :=
  refillGrants_field p s uid (·.isSLO) (fun acc => acc.age_isSLO) (fun _ _ _ _ => rfl)

theorem refillGrants_credit :
    ((refillGrants p s).account uid).credit =
      (s.account uid).credit + phaseGrant p s uid := by
  unfold refillGrants
  simp only [refillBE_credit, refillSLO_credit, refillSLO_activeUsers,
    refillSLO_activeWeight, aged_activeUsers, aged_activeWeight, aged_credit]
  unfold phaseGrant
  by_cases htrue : uid ∈ activeUsers true s
  · have hfalse : uid ∉ activeUsers false s := fun h =>
      not_mem_activeUsers_true s uid h htrue
    simp [htrue, hfalse]
  · by_cases hfalse : uid ∈ activeUsers false s
    · have hadd := refillSLO_beAdd p (s.mapUsers UserAccount.age) uid
        (spillToBE p (s.mapUsers UserAccount.age)) (by simpa using hfalse)
      simp [htrue, hfalse, hadd]
    · simp [htrue, hfalse]

theorem refillGrants_carry_of_not_slo (h : (s.account uid).isSLO = false) :
    (phaseGrant p s uid : ℚ≥0) + ((refillGrants p s).account uid).carry =
      (s.account uid).carry +
        if uid ∈ activeUsers false s ∧ 0 < spillToBE p (s.mapUsers UserAccount.age) ∧
            0 < s.activeWeight false then
          spillToBE p (s.mapUsers UserAccount.age) *
            ((s.account uid).weight / s.activeWeight false)
        else 0 := by
  have htrue : uid ∉ activeUsers true s := by simp [mem_activeUsers, h]
  unfold refillGrants phaseGrant
  simp only [refillBE_carry, refillSLO_activeUsers, refillSLO_activeWeight,
    aged_activeUsers, aged_activeWeight, htrue, if_false]
  by_cases hfalse : uid ∈ activeUsers false s
  · by_cases hg : 0 < spillToBE p (s.mapUsers UserAccount.age) ∧ 0 < s.activeWeight false
    · have hmem : uid ∈ activeUsers false (s.mapUsers UserAccount.age) := by
        simpa using hfalse
      have split := beAdd_add_carry (s.mapUsers UserAccount.age)
        (spillToBE p (s.mapUsers UserAccount.age)) uid
      simp only [aged_weight, aged_activeWeight, aged_carry] at split
      simp only [hfalse, hg, and_self, if_true, refillSLO_beSum p _ uid _ hmem,
        refillSLO_beAdd p _ uid _ hmem]
      rw [split, add_comm]
    · have hmem : uid ∉ activeUsers true (s.mapUsers UserAccount.age) := by
        simpa using htrue
      simp [hfalse, hg, refillSLO_account_of_not_mem p _ uid hmem]
  · have hmem : uid ∉ activeUsers true (s.mapUsers UserAccount.age) := by
      simpa using htrue
    simp [hfalse, refillSLO_account_of_not_mem p _ uid hmem]

theorem phaseGrant_le_headroom :
    phaseGrant p s uid ≤ (s.account uid).headroom := by
  unfold phaseGrant
  simp only
  split_ifs
  · exact (min_le_right _ _).trans_eq (aged_headroom s uid)
  · omega
  · exact (beAdd_le_headroom _ _ _).trans_eq (aged_headroom s uid)
  · omega
  · omega

end WholePhase

theorem grantedBetween_refillGrants (slo : Bool) :
    grantedBetween slo s (refillGrants p s) =
      ((classUsers slo s).map (phaseGrant p s)).sum := by
  unfold grantedBetween
  congr 1
  refine List.map_congr_left fun uid _ => ?_
  rw [refillGrants_credit]
  omega

theorem classUsers_refillGrants (slo : Bool) :
    classUsers slo (refillGrants p s) = classUsers slo s := by
  simp [classUsers]

theorem slo_granted :
    grantedBetween true s (refillGrants p s) =
      if 0 < s.activeWeight true then totalGranted p (s.mapUsers UserAccount.age)
      else 0 := by
  rw [grantedBetween_refillGrants, sum_classUsers_eq]
  · by_cases hw : 0 < s.activeWeight true
    · rw [if_pos hw, totalGranted, aged_activeUsers]
      congr 1
      refine List.map_congr_left fun uid hmem => ?_
      simp [phaseGrant, hmem, hw]
    · rw [if_neg hw]
      refine List.sum_eq_zero fun x hx => ?_
      obtain ⟨uid, hmem, rfl⟩ := List.mem_map.1 hx
      simp [phaseGrant, hmem, hw]
  · intro uid hclass hidle
    have hfalse : uid ∉ activeUsers false s := by
      rw [mem_classUsers] at hclass
      simp [mem_activeUsers, hclass.2]
    simp [phaseGrant, hidle, hfalse]

theorem be_granted_add_carry :
    (grantedBetween false s (refillGrants p s) : ℚ≥0) + (refillGrants p s).beCarry =
      s.beCarry +
        if 0 < spillToBE p (s.mapUsers UserAccount.age) ∧ 0 < s.activeWeight false then
          spillToBE p (s.mapUsers UserAccount.age)
        else 0 := by
  rw [grantedBetween_refillGrants, beCarry, classUsers_refillGrants, Nat.cast_list_sum,
    List.map_map, ← List.sum_map_add]
  have pointwise : ((classUsers false s).map fun uid =>
      ((Nat.cast ∘ phaseGrant p s) uid : ℚ≥0) + ((refillGrants p s).account uid).carry) =
      (classUsers false s).map fun uid => (s.account uid).carry +
        if uid ∈ activeUsers false s ∧ 0 < spillToBE p (s.mapUsers UserAccount.age) ∧
            0 < s.activeWeight false then
          spillToBE p (s.mapUsers UserAccount.age) *
            (((s.account uid).weight : ℚ≥0) / s.activeWeight false)
        else 0 :=
    List.map_congr_left fun uid hmem =>
      refillGrants_carry_of_not_slo p s uid ((mem_classUsers s).1 hmem).2
  rw [pointwise, List.sum_map_add, beCarry]
  congr 1
  rw [sum_classUsers_eq _ _ _ (fun uid _ hidle => by simp [hidle])]
  by_cases hg : 0 < spillToBE p (s.mapUsers UserAccount.age) ∧ 0 < s.activeWeight false
  · rw [if_pos hg]
    refine Eq.trans ?_ (sum_shares s _ hg.2)
    congr 1
    refine List.map_congr_left fun uid hmem => ?_
    rw [if_pos ⟨hmem, hg⟩]
  · rw [if_neg hg]
    refine List.sum_eq_zero fun x hx => ?_
    obtain ⟨uid, -, rfl⟩ := List.mem_map.1 hx
    simp only [hg, and_false, if_false]

/-- One phase hands out at most `pagesPerPeriod`, counting what it adds to the
best-effort carries. -/
theorem phase_within_budget :
    (grantedBetween true s (refillGrants p s) : ℚ≥0) +
        grantedBetween false s (refillGrants p s) + (refillGrants p s).beCarry ≤
      p.pagesPerPeriod + s.beCarry := by
  rw [add_assoc, be_granted_add_carry, slo_granted]
  set spill := spillToBE p (s.mapUsers UserAccount.age) with hspill
  have spilled : (if 0 < spill ∧ 0 < s.activeWeight false then spill else 0) ≤ spill := by
    split_ifs
    · exact le_rfl
    · exact zero_le
  have budget : ((if 0 < s.activeWeight true then
      totalGranted p (s.mapUsers UserAccount.age) else 0 : Nat) : ℚ≥0) + spill ≤
      p.pagesPerPeriod := by
    by_cases hw : 0 < s.activeWeight true
    · rw [if_pos hw]
      exact totalGranted_add_spill_le p _ (by simpa using hw)
    · rw [if_neg hw, Nat.cast_zero, zero_add, hspill, spillToBE, aged_activeWeight,
        if_neg hw]
  calc _ ≤ ((if 0 < s.activeWeight true then
        totalGranted p (s.mapUsers UserAccount.age) else 0 : Nat) : ℚ≥0) +
        (s.beCarry + spill) := by gcongr
    _ = ((if 0 < s.activeWeight true then
        totalGranted p (s.mapUsers UserAccount.age) else 0 : Nat) : ℚ≥0) + spill +
        s.beCarry := by ring
    _ ≤ p.pagesPerPeriod + s.beCarry := by gcongr

end SimpleSSD.HIL.CreditScheduler
