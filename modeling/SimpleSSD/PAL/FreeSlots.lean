import SimpleSSD.Foundation.Spans
import SimpleSSD.Util.Def

/-!
# Free time of a channel or a die

`pal/old/PAL2.cc`.  Free slots are kept in buckets by their length; a slot is a
start tick and its last tick.  From the start point on, all time is free.
-/

namespace SimpleSSD.PAL

open SimpleSSD.Foundation

/-- Start ticks with the last tick of the slot, in ascending order. -/
abbrev Slots := List (Nat × Nat)

abbrev FreeSlots := List (Nat × Slots)

def upperBound {α : Type*} (key : Nat) (entries : List (Nat × α)) : Nat :=
  entries.findIdx fun entry => decide (key < entry.1)

/-- A slot whose start tick is there already is not inserted. -/
def insertSlot (startTick endTick : Nat) : Slots → Slots
  | [] => [(startTick, endTick)]
  | slot :: rest =>
      if startTick < slot.1 then (startTick, endTick) :: slot :: rest
      else if startTick = slot.1 then slot :: rest
      else slot :: insertSlot startTick endTick rest

namespace FreeSlots

/-- The buckets a search for `tickLen` visits: from the last one that is no longer, or
from the first. -/
def searched (tickLen : Nat) (free : FreeSlots) : FreeSlots :=
  free.drop (upperBound tickLen free - 1)

def unsearched (tickLen : Nat) (free : FreeSlots) : FreeSlots :=
  free.take (upperBound tickLen free - 1)

def addFreeSlot (tickLen : Nat) (tickFrom : Nat) (free : FreeSlots) : FreeSlots :=
  if upperBound tickLen free = 0 then free
  else free.modify (upperBound tickLen free - 1) fun bucket =>
    (bucket.1, insertSlot tickFrom (tickFrom + tickLen - 1) bucket.2)

/-- The last slot of a bucket that starts by `tickFrom`, if it has room there. -/
def slotAround (tickLen : Nat) (tickFrom : Nat) (slots : Slots) : Option (Nat × Nat) :=
  (slots.take (upperBound tickFrom slots)).getLast?.filter fun slot =>
    decide (tickLen + tickFrom - 1 ≤ slot.2)

/-- The first slot of a bucket behind `tickFrom` that has room. -/
def slotBehind (tickLen : Nat) (tickFrom : Nat) (slots : Slots) : Option (Nat × Nat) :=
  (slots.drop (upperBound tickFrom slots)).find? fun slot =>
    decide (tickLen + slot.1 - 1 ≤ slot.2)

/-- The start tick of the slot found and whether it lies behind `tickFrom`. -/
def searchBuckets (tickLen : Nat) (tickFrom : Nat) :
    FreeSlots → Option Nat → Option (Nat × Bool)
  | [], minTick => minTick.map fun tick => (tick, true)
  | bucket :: rest, minTick =>
      match slotAround tickLen tickFrom bucket.2 with
      | some slot => some (slot.1, false)
      | none =>
          match slotBehind tickLen tickFrom bucket.2, minTick with
          | none, _ => searchBuckets tickLen tickFrom rest minTick
          | some slot, none => searchBuckets tickLen tickFrom rest (some slot.1)
          | some slot, some tick =>
              searchBuckets tickLen tickFrom rest (some (if slot.1 < tick then slot.1 else tick))

def findFreeTime (tickLen : Nat) (tickFrom : Nat) (free : FreeSlots) : Option (Nat × Bool) :=
  searchBuckets tickLen tickFrom (searched tickLen free) none

/-- Remove the slot that starts at `startTick`, and return its last tick. -/
def takeSlot (startTick : Nat) : FreeSlots → Option (Nat × FreeSlots)
  | [] => none
  | bucket :: rest =>
      match bucket.2.find? fun slot => slot.1 == startTick with
      | some slot =>
          some (slot.2, (bucket.1, bucket.2.eraseP fun slot => slot.1 == startTick) :: rest)
      | none => (takeSlot startTick rest).map fun taken => (taken.1, bucket :: taken.2)

def flushAFreeSlot (currentTick : Nat) (free : FreeSlots) : FreeSlots :=
  free.map fun bucket =>
    (bucket.1, bucket.2.dropWhile fun slot => decide (slot.2 < currentTick))

def slots (free : FreeSlots) : Slots := free.flatMap Prod.snd

/-! ## Slots that are searched -/

variable {free free' : FreeSlots} {tickLen tickLen' : Nat} {tickFrom startTick endTick : Nat}
  {slot other : Nat × Nat} {list : Slots} {bucket : Nat × Slots}

theorem mem_slots : slot ∈ slots free ↔ ∃ bucket ∈ free, slot ∈ bucket.2 := by
  simp [slots]

theorem sublist_slots (h : bucket ∈ free) : bucket.2.Sublist (slots free) :=
  List.sublist_flatten_of_mem (List.mem_map_of_mem h)

theorem slots_append (free free' : FreeSlots) :
    slots (free ++ free') = slots free ++ slots free' := List.flatMap_append

theorem unsearched_append_searched (tickLen : Nat) (free : FreeSlots) :
    unsearched tickLen free ++ searched tickLen free = free := List.take_append_drop ..

theorem mem_of_mem_searched (h : slot ∈ slots (searched tickLen free)) : slot ∈ slots free := by
  obtain ⟨bucket, hbucket, hslot⟩ := mem_slots.1 h
  exact mem_slots.2 ⟨bucket, List.mem_of_mem_drop hbucket, hslot⟩

theorem upperBound_le_upperBound {α : Type*} (entries : List (Nat × α)) (le : tickLen ≤ tickLen') :
    upperBound tickLen entries ≤ upperBound tickLen' entries := by
  refine List.findIdx_le_findIdx fun entry _ h => ?_
  simp only [decide_eq_true_eq] at h ⊢
  omega

theorem mem_searched_of_le (le : tickLen ≤ tickLen') (h : slot ∈ slots (searched tickLen' free)) :
    slot ∈ slots (searched tickLen free) := by
  obtain ⟨bucket, hbucket, hslot⟩ := mem_slots.1 h
  have hle := upperBound_le_upperBound free le
  have hdrop : free.drop (upperBound tickLen' free - 1) =
      (free.drop (upperBound tickLen free - 1)).drop
        (upperBound tickLen' free - 1 - (upperBound tickLen free - 1)) := by
    rw [List.drop_drop]
    congr 1
    omega
  unfold searched at hbucket
  rw [hdrop] at hbucket
  exact mem_slots.2 ⟨bucket, List.mem_of_mem_drop hbucket, hslot⟩

/-! ## Order within the buckets -/

def Sorted (list : Slots) : Prop := list.Pairwise fun slot later => slot.1 < later.1

theorem mem_insertSlot (h : slot ∈ insertSlot startTick endTick list) :
    slot = (startTick, endTick) ∨ slot ∈ list := by
  induction list with
  | nil => exact .inl (List.mem_singleton.1 h)
  | cons first rest ih =>
      unfold insertSlot at h
      split_ifs at h
      · exact List.mem_cons.1 h
      · exact .inr h
      · rcases List.mem_cons.1 h with rfl | hrest
        · exact .inr List.mem_cons_self
        · rcases ih hrest with rfl | hold
          · exact .inl rfl
          · exact .inr (List.mem_cons_of_mem first hold)

theorem Sorted.insertSlot (h : Sorted list) : Sorted (insertSlot startTick endTick list) := by
  induction list with
  | nil => exact List.pairwise_singleton ..
  | cons first rest ih =>
      obtain ⟨hfirst, hrest⟩ := List.pairwise_cons.1 h
      unfold PAL.insertSlot
      split_ifs with hlt heq
      · refine List.pairwise_cons.2 ⟨fun other hother => ?_, h⟩
        rcases List.mem_cons.1 hother with rfl | hother
        · exact hlt
        · exact hlt.trans (hfirst other hother)
      · exact h
      · refine List.pairwise_cons.2 ⟨fun other hother => ?_, ih hrest⟩
        rcases mem_insertSlot hother with rfl | hold
        · exact lt_of_le_of_ne (not_lt.1 hlt) (Ne.symm heq)
        · exact hfirst other hold

theorem insertSlot_subperm :
    List.Subperm (insertSlot startTick endTick list) ((startTick, endTick) :: list) := by
  induction list with
  | nil => exact List.Subperm.refl _
  | cons first rest ih =>
      unfold insertSlot
      split_ifs
      · exact List.Subperm.refl _
      · exact (List.sublist_cons_self _ _).subperm
      · exact ((List.subperm_cons first).2 ih).trans (List.Perm.swap ..).subperm

/-- Each bucket is sorted, and a slot is in the last bucket that is no longer than it. -/
structure Filed (free : FreeSlots) : Prop where
  sorted : ∀ bucket ∈ free, Sorted bucket.2
  placed : ∀ {i : Nat} {bucket}, free[i]? = some bucket → ∀ slot ∈ bucket.2,
    upperBound (slot.2 + 1 - slot.1) free = i + 1

theorem Filed.mem_searched (h : Filed free) (hslot : slot ∈ slots free)
    (room : tickLen + slot.1 ≤ slot.2 + 1) : slot ∈ slots (searched tickLen free) := by
  obtain ⟨bucket, hbucket, hin⟩ := mem_slots.1 hslot
  obtain ⟨i, hi⟩ := List.mem_iff_getElem?.1 hbucket
  have hplace := h.placed hi slot hin
  have hle := upperBound_le_upperBound free
    (show tickLen ≤ slot.2 + 1 - slot.1 by omega)
  refine mem_slots.2 ⟨bucket, List.mem_of_getElem? (i := i - (upperBound tickLen free - 1)) ?_, hin⟩
  rw [searched, List.getElem?_drop, Nat.add_sub_of_le (by omega)]
  exact hi

theorem upperBound_map_fst {α : Type*} (key : Nat) (entries : List (Nat × α)) :
    upperBound key entries = (entries.map Prod.fst).findIdx fun k => decide (key < k) := by
  rw [List.findIdx_map]
  rfl

def Shrinks (free' free : FreeSlots) : Prop :=
  List.Forall₂ (fun bucket' bucket : Nat × Slots =>
    bucket'.1 = bucket.1 ∧ bucket'.2.Sublist bucket.2) free' free

theorem Shrinks.refl (free : FreeSlots) : Shrinks free free :=
  List.forall₂_same.2 fun _ _ => ⟨rfl, List.Sublist.refl _⟩

theorem Shrinks.upperBound_eq (h : Shrinks free' free) (key : Nat) :
    upperBound key free' = upperBound key free := by
  have hkeys : free'.map Prod.fst = free.map Prod.fst := by
    induction h with
    | nil => rfl
    | cons hbucket _ ih => rw [List.map_cons, List.map_cons, hbucket.1, ih]
  rw [upperBound_map_fst, upperBound_map_fst, hkeys]

theorem Shrinks.slots_sublist (h : Shrinks free' free) : (slots free').Sublist (slots free) := by
  induction h with
  | nil => exact .slnil
  | cons hbucket _ ih => exact hbucket.2.append ih

theorem Shrinks.getElem? (h : Shrinks free' free) {i : Nat} (hi : free'[i]? = some bucket) :
    ∃ old, free[i]? = some old ∧ bucket.2.Sublist old.2 := by
  induction h generalizing i with
  | nil => cases hi
  | cons hbucket _ ih =>
      cases i with
      | zero =>
          cases hi
          exact ⟨_, rfl, hbucket.2⟩
      | succ i => exact ih hi

theorem Shrinks.filed (h : Shrinks free' free) (filed : Filed free) : Filed free' where
  sorted := by
    intro bucket hbucket
    obtain ⟨i, hi⟩ := List.mem_iff_getElem?.1 hbucket
    obtain ⟨old, hold, hsub⟩ := h.getElem? hi
    exact (filed.sorted old (List.mem_of_getElem? hold)).sublist hsub
  placed := by
    intro i bucket hi slot hslot
    obtain ⟨old, hold, hsub⟩ := h.getElem? hi
    rw [h.upperBound_eq]
    exact filed.placed hold slot (hsub.subset hslot)

/-! ## Adding and taking slots -/

theorem addFreeSlot_subperm (tickLen tickFrom : Nat) (free : FreeSlots) :
    List.Subperm (slots (addFreeSlot tickLen tickFrom free))
      ((tickFrom, tickFrom + tickLen - 1) :: slots free) := by
  have hmodify : ∀ i, List.Subperm
      (slots (free.modify i fun bucket =>
        (bucket.1, insertSlot tickFrom (tickFrom + tickLen - 1) bucket.2)))
      ((tickFrom, tickFrom + tickLen - 1) :: slots free) := by
    induction free with
    | nil => simp [slots]
    | cons bucket rest ih =>
        intro i
        cases i with
        | zero =>
            rw [List.modify_zero_cons]
            exact (List.subperm_append_right _).2 insertSlot_subperm
        | succ i =>
            rw [List.modify_succ_cons]
            exact ((List.subperm_append_left bucket.2).2 (ih i)).trans List.perm_middle.subperm
  unfold addFreeSlot
  split_ifs
  · exact (List.sublist_cons_self _ _).subperm
  · exact hmodify _

theorem addFreeSlot_getElem? {i : Nat}
    (hi : (addFreeSlot tickLen tickFrom free)[i]? = some bucket) :
    ∃ old, free[i]? = some old ∧ bucket.1 = old.1 ∧ (bucket.2 = old.2 ∨
      upperBound tickLen free = i + 1 ∧
        bucket.2 = insertSlot tickFrom (tickFrom + tickLen - 1) old.2) := by
  unfold addFreeSlot at hi
  split_ifs at hi with hfirst
  · exact ⟨bucket, hi, rfl, .inl rfl⟩
  · rw [List.getElem?_modify] at hi
    cases hold : free[i]? with
    | none => simp [hold] at hi
    | some old =>
        rw [hold] at hi
        by_cases here : upperBound tickLen free - 1 = i
        · simp only [here, if_true, Option.map_eq_map, Option.map_some, Option.some.injEq] at hi
          subst hi
          exact ⟨old, rfl, rfl, .inr ⟨by omega, rfl⟩⟩
        · simp only [here, if_false, Option.map_eq_map, Option.map_some, Option.some.injEq] at hi
          subst hi
          exact ⟨old, rfl, rfl, .inl rfl⟩

theorem upperBound_addFreeSlot (key : Nat) :
    upperBound key (addFreeSlot tickLen tickFrom free) = upperBound key free := by
  have hkeys : (addFreeSlot tickLen tickFrom free).map Prod.fst = free.map Prod.fst := by
    unfold addFreeSlot
    split_ifs
    · rfl
    · apply List.ext_getElem?
      intro i
      rw [List.getElem?_map, List.getElem?_map, List.getElem?_modify]
      cases free[i]? with
      | none => rfl
      | some bucket => split_ifs <;> rfl
  rw [upperBound_map_fst, upperBound_map_fst, hkeys]

theorem Filed.addFreeSlot (h : Filed free) (positive : 1 ≤ tickLen) :
    Filed (addFreeSlot tickLen tickFrom free) := by
  constructor
  · intro bucket hbucket
    obtain ⟨i, hi⟩ := List.mem_iff_getElem?.1 hbucket
    obtain ⟨old, hold, -, hslots⟩ := addFreeSlot_getElem? hi
    have hsorted := h.sorted old (List.mem_of_getElem? hold)
    rcases hslots with hsame | ⟨-, hnew⟩
    · rw [hsame]
      exact hsorted
    · rw [hnew]
      exact hsorted.insertSlot
  · intro i bucket hi slot hslot
    obtain ⟨old, hold, -, hslots⟩ := addFreeSlot_getElem? hi
    rw [upperBound_addFreeSlot]
    rcases hslots with hsame | ⟨hplace, hnew⟩
    · exact h.placed hold slot (hsame ▸ hslot)
    · rcases mem_insertSlot (hnew ▸ hslot) with rfl | hin
      · rw [← hplace]
        congr 1
        simp only
        omega
      · exact h.placed hold slot hin

theorem takeSlot_slots {taken : Nat × FreeSlots}
    (h : takeSlot startTick free = some taken) :
    (slots free).Perm ((startTick, taken.1) :: slots taken.2) ∧ Shrinks taken.2 free := by
  induction free generalizing taken with
  | nil => cases h
  | cons bucket rest ih =>
      unfold takeSlot at h
      split at h
      · rename_i found hfound
        cases h
        have hstart := List.find?_some hfound
        have hperm := perm_cons_eraseP hfound
        have heq : found = (startTick, found.2) := Prod.ext (by simpa using hstart) rfl
        rw [heq] at hperm
        exact ⟨hperm.append_right _, .cons ⟨rfl, List.eraseP_sublist⟩ (Shrinks.refl rest)⟩
      · obtain ⟨later, hlater, rfl⟩ := Option.map_eq_some_iff.1 h
        obtain ⟨hperm, hshrinks⟩ := ih hlater
        exact ⟨(hperm.append_left bucket.2).trans List.perm_middle,
          .cons ⟨rfl, List.Sublist.refl _⟩ hshrinks⟩

theorem takeSlot_searched {endTick : Nat} {rest : FreeSlots} (filed : Filed free)
    (h : takeSlot startTick (searched tickLen free) = some (endTick, rest)) :
    (slots free).Perm ((startTick, endTick) :: slots (unsearched tickLen free ++ rest)) ∧
      Filed (unsearched tickLen free ++ rest) := by
  obtain ⟨hperm, hshrinks⟩ := takeSlot_slots h
  constructor
  · have hall := hperm.append_left (slots (unsearched tickLen free))
    rw [← slots_append, unsearched_append_searched] at hall
    rw [slots_append]
    exact hall.trans List.perm_middle
  · have hboth : Shrinks (unsearched tickLen free ++ rest)
        (unsearched tickLen free ++ searched tickLen free) :=
      List.rel_append (Shrinks.refl _) hshrinks
    rw [unsearched_append_searched] at hboth
    exact hboth.filed filed

theorem takeSlot_of_mem (h : (startTick, endTick) ∈ slots free) :
    ∃ taken, takeSlot startTick free = some taken := by
  induction free with
  | nil => cases h
  | cons bucket rest ih =>
      unfold takeSlot
      cases hfound : bucket.2.find? fun slot => slot.1 == startTick with
      | some found => exact ⟨_, rfl⟩
      | none =>
          have hrest : (startTick, endTick) ∈ slots rest := by
            rcases List.mem_append.1 h with hhere | hrest
            · exact absurd (List.find?_eq_none.1 hfound _ hhere) (by simp)
            · exact hrest
          obtain ⟨taken, htaken⟩ := ih hrest
          exact ⟨_, by rw [htaken]; rfl⟩

theorem flushAFreeSlot_shrinks (currentTick : Nat) (free : FreeSlots) :
    Shrinks (flushAFreeSlot currentTick free) free := by
  induction free with
  | nil => exact .nil
  | cons bucket rest ih => exact .cons ⟨rfl, List.dropWhile_sublist _⟩ ih

/-! ## What a search finds -/

/-- The slot has started by `tickFrom` and has room there. -/
def Around (tickLen : Nat) (tickFrom : Nat) (slot : Nat × Nat) : Prop :=
  slot.1 ≤ tickFrom ∧ tickLen + tickFrom ≤ slot.2 + 1

/-- The slot starts behind `tickFrom` and is long enough. -/
def Behind (tickLen : Nat) (tickFrom : Nat) (slot : Nat × Nat) : Prop :=
  tickFrom < slot.1 ∧ tickLen + slot.1 ≤ slot.2 + 1

theorem started_of_mem_take (h : slot ∈ list.take (upperBound tickFrom list)) :
    slot ∈ list ∧ slot.1 ≤ tickFrom := by
  obtain ⟨i, hi, hslot⟩ := List.mem_take_iff_getElem.1 h
  have hnot := List.not_of_lt_findIdx (lt_of_lt_of_le hi (min_le_left _ _))
  simp only [decide_eq_false_iff_not, not_lt, hslot] at hnot
  exact ⟨List.mem_of_mem_take h, hnot⟩

theorem slotAround_eq_some (h : slotAround tickLen tickFrom list = some slot) :
    slot ∈ list ∧ Around tickLen tickFrom slot := by
  obtain ⟨hlast, hroom⟩ := Option.filter_eq_some_iff.1 h
  obtain ⟨hin, hstarted⟩ := started_of_mem_take (List.mem_of_getLast? hlast)
  have hroom := of_decide_eq_true hroom
  exact ⟨hin, hstarted, by omega⟩

theorem mem_take_upperBound (hsorted : Sorted list) (hslot : slot ∈ list)
    (started : slot.1 ≤ tickFrom) : slot ∈ list.take (upperBound tickFrom list) := by
  obtain ⟨i, hi, rfl⟩ := List.mem_iff_getElem.1 hslot
  refine List.mem_take_iff_getElem.2 ⟨i, lt_min ?_ hi, rfl⟩
  refine List.lt_findIdx_of_not hi fun j hj => ?_
  have hle : list[j].1 ≤ list[i].1 := by
    rcases Nat.lt_or_eq_of_le hj with hlt | rfl
    · exact (List.pairwise_iff_getElem.1 hsorted j i (by omega) hi hlt).le
    · exact le_rfl
  simpa using hle.trans started

theorem slotAround_of_mem (hsorted : Sorted list) (apart : list.Pairwise Clear)
    (whole : ∀ slot ∈ list, slot.1 ≤ slot.2) (positive : 1 ≤ tickLen) (hslot : slot ∈ list)
    (around : Around tickLen tickFrom slot) : slotAround tickLen tickFrom list = some slot := by
  have hmem := mem_take_upperBound hsorted hslot around.1
  cases hlast : (list.take (upperBound tickFrom list)).getLast? with
  | none => exact absurd (List.getLast?_eq_none_iff.1 hlast) (List.ne_nil_of_mem hmem)
  | some last =>
      obtain ⟨hin, hstarted⟩ := started_of_mem_take (List.mem_of_getLast? hlast)
      obtain ⟨-, hroom⟩ := around
      have hsame : slot = last := by
        obtain ⟨init, hinit⟩ := List.getLast?_eq_some_iff.1 hlast
        have hpairs := List.Pairwise.sublist (List.take_sublist (upperBound tickFrom list) list)
            hsorted
        rw [hinit] at hmem hpairs
        rcases List.mem_append.1 hmem with hbefore | hsingle
        · have hlt := (List.pairwise_append.1 hpairs).2.2 slot hbefore last (by simp)
          rcases clear_of_pairwise apart hslot hin with heq | hclear
          · exact heq
          · have hle : last.1 ≤ slot.2 := by omega
            exact (hclear.not_both ⟨hlt.le, hle⟩ ⟨le_rfl, whole last hin⟩).elim
        · exact List.mem_singleton.1 hsingle
      subst hsame
      exact Option.filter_eq_some_iff.2 ⟨hlast, decide_eq_true (by omega)⟩

theorem slotBehind_eq_some (hsorted : Sorted list)
    (h : slotBehind tickLen tickFrom list = some slot) :
    slot ∈ list ∧ Behind tickLen tickFrom slot := by
  have hmem := List.mem_of_find?_eq_some h
  have hroom := List.find?_some h
  simp only [decide_eq_true_eq] at hroom
  refine ⟨List.mem_of_mem_drop hmem, ?_, by omega⟩
  obtain ⟨i, hi, hslot⟩ := List.mem_drop_iff_getElem.1 hmem
  have hlt : upperBound tickFrom list < list.length := by omega
  have hfirst : tickFrom < list[upperBound tickFrom list].1 :=
    of_decide_eq_true (List.findIdx_getElem (w := hlt))
  rcases Nat.eq_zero_or_pos i with rfl | hpos
  · simpa [← hslot] using hfirst
  · have hlater := List.pairwise_iff_getElem.1 hsorted (upperBound tickFrom list)
      (upperBound tickFrom list + i) hlt (by omega) (by omega)
    exact hslot ▸ hfirst.trans hlater

theorem searchBuckets_eq_some {buckets : FreeSlots} {minTick : Option Nat} {conflicts : Bool}
    (hsorted : ∀ bucket ∈ buckets, Sorted bucket.2)
    (hmin : ∀ tick, minTick = some tick →
      ∃ stop, (tick, stop) ∈ slots free ∧ Behind tickLen tickFrom (tick, stop))
    (hsub : ∀ slot ∈ slots buckets, slot ∈ slots free)
    (h : searchBuckets tickLen tickFrom buckets minTick = some (startTick, conflicts)) :
    ∃ stop, (startTick, stop) ∈ slots free ∧
      if conflicts then Behind tickLen tickFrom (startTick, stop)
      else Around tickLen tickFrom (startTick, stop) := by
  induction buckets generalizing minTick with
  | nil =>
      obtain ⟨tick, htick, heq⟩ := Option.map_eq_some_iff.1 h
      cases heq
      simpa using hmin startTick htick
  | cons bucket rest ih =>
      obtain ⟨hbucket, hrest⟩ := List.forall_mem_cons.1 hsorted
      have hhere : ∀ slot ∈ bucket.2, slot ∈ slots free := fun slot hslot =>
        hsub slot (List.mem_append_left _ hslot)
      have hlater : ∀ slot ∈ slots rest, slot ∈ slots free := fun slot hslot =>
        hsub slot (List.mem_append_right _ hslot)
      unfold searchBuckets at h
      cases hfound : slotAround tickLen tickFrom bucket.2 with
      | some slot =>
          rw [hfound] at h
          cases h
          obtain ⟨hslot, around⟩ := slotAround_eq_some hfound
          exact ⟨slot.2, hhere slot hslot, by simpa using around⟩
      | none =>
          rw [hfound] at h
          cases hbehind : slotBehind tickLen tickFrom bucket.2 with
          | none =>
              rw [hbehind] at h
              exact ih hrest hmin hlater h
          | some slot =>
              rw [hbehind] at h
              obtain ⟨hslot, behind⟩ := slotBehind_eq_some hbucket hbehind
              cases minTick with
              | none =>
                  refine ih hrest (fun tick htick => ?_) hlater h
                  cases htick
                  exact ⟨slot.2, hhere slot hslot, behind⟩
              | some least =>
                  refine ih hrest (fun tick htick => ?_) hlater h
                  cases htick
                  split_ifs
                  · exact ⟨slot.2, hhere slot hslot, behind⟩
                  · exact hmin least rfl

theorem findFreeTime_eq_some (filed : Filed free) {conflicts : Bool}
    (h : findFreeTime tickLen tickFrom free = some (startTick, conflicts)) :
    ∃ stop, (startTick, stop) ∈ slots (searched tickLen free) ∧
      if conflicts then Behind tickLen tickFrom (startTick, stop)
      else Around tickLen tickFrom (startTick, stop) :=
  searchBuckets_eq_some (fun bucket hbucket => filed.sorted bucket (List.mem_of_mem_drop hbucket))
    (by simp) (fun _ hslot => hslot) h

theorem findFreeTime_around (filed : Filed free) (apart : (slots free).Pairwise Clear)
    (whole : ∀ slot ∈ slots free, slot.1 ≤ slot.2) (positive : 1 ≤ tickLen)
    (hslot : slot ∈ slots (searched tickLen free)) (around : Around tickLen tickFrom slot) :
    findFreeTime tickLen tickFrom free = some (slot.1, false) := by
  have hall := mem_of_mem_searched hslot
  have hfind : ∀ (buckets : FreeSlots) (minTick : Option Nat),
      (∀ bucket ∈ buckets, bucket ∈ free) → slot ∈ slots buckets →
      searchBuckets tickLen tickFrom buckets minTick = some (slot.1, false) := by
    intro buckets
    induction buckets with
    | nil => simp [slots]
    | cons bucket rest ih =>
        intro minTick hsub hslot
        obtain ⟨hbucket, hrest⟩ := List.forall_mem_cons.1 hsub
        have hhere : ∀ slot ∈ bucket.2, slot ∈ slots free := fun slot hin =>
          mem_slots.2 ⟨bucket, hbucket, hin⟩
        unfold searchBuckets
        cases hfound : slotAround tickLen tickFrom bucket.2 with
        | some found =>
            obtain ⟨hin, around'⟩ := slotAround_eq_some hfound
            obtain ⟨hstart, hstop⟩ := around
            obtain ⟨hstart', hstop'⟩ := around'
            rcases clear_of_pairwise apart hall (hhere found hin) with rfl | hclear
            · rfl
            · have hle : tickFrom ≤ slot.2 := by omega
              have hle' : tickFrom ≤ found.2 := by omega
              exact (hclear.not_both ⟨hstart, hle⟩ ⟨hstart', hle'⟩).elim
        | none =>
            have hlater : slot ∈ slots rest := by
              rcases List.mem_append.1 hslot with hin | hlater
              · have hsome := slotAround_of_mem (filed.sorted bucket hbucket)
                  (apart.sublist (sublist_slots hbucket))
                      (fun slot hin => whole slot (hhere slot hin))
                  positive hin around
                rw [hfound] at hsome
                cases hsome
              · exact hlater
            cases slotBehind tickLen tickFrom bucket.2 with
            | none => exact ih minTick hrest hlater
            | some behind => cases minTick <;> exact ih _ hrest hlater
  exact hfind _ none (fun _ hbucket => List.mem_of_mem_drop hbucket) hslot

end FreeSlots

end SimpleSSD.PAL
