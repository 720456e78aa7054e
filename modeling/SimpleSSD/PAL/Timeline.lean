import Mathlib.Data.List.Dedup
import Mathlib.Data.List.Sort
import SimpleSSD.Foundation.Fallible
import SimpleSSD.PAL.FreeSlots

/-!
# Timeline of a channel or a die

`pal/old/PAL2.cc`.  The free slots together with the start point.  Bookings are
taken out of a free slot, or out of the time behind the start point.
-/

namespace SimpleSSD.PAL

open SimpleSSD.Foundation

structure Timeline where
  free : FreeSlots
  startPoint : Nat

namespace Timeline

def splitSlot (tickLen : Nat) (tickFrom startTick endTick : Nat) (split : Bool)
    (free : FreeSlots) : Except Fault FreeSlots :=
  if startTick < tickFrom then
    let free := free.addFreeSlot (tickFrom - startTick) startTick
    let free := if split then free.addFreeSlot tickLen tickFrom else free
    if tickFrom + tickLen ≤ endTick + 1 then
      .ok (if tickLen + tickFrom - 1 < endTick then
        free.addFreeSlot (endTick - (tickFrom + tickLen - 1)) (tickFrom + tickLen)
      else free)
    else .error (.panic "tmpEndTick - tickFrom + 1 >= tickLen")
  else if startTick = tickFrom then
    if tickFrom + tickLen ≤ endTick + 1 then
      let free := if split then free.addFreeSlot tickLen startTick else free
      .ok (if tickLen + tickFrom - 1 < endTick then
        free.addFreeSlot (endTick - (tickFrom + tickLen - 1)) (startTick + tickLen)
      else free)
    else .error (.panic "tmpEndTick - tickFrom + 1 >= tickLen")
  else .error (.panic "tmpStartTick == tickFrom")

/-- Take `tickLen` ticks at `tickFrom` out of the slot at `startTick`, or out of the
time behind the start point.  With `split` they stay free as a slot of their own. -/
def insertFreeSlot (tickLen : Nat) (tickFrom startTick : Nat) (split : Bool) (t : Timeline) :
    Except Fault Timeline :=
  if startTick = t.startPoint then
    if tickFrom = startTick then
      .ok ⟨if split then t.free.addFreeSlot tickLen t.startPoint else t.free,
        t.startPoint + tickLen⟩
    else if startTick < tickFrom then
      let free := if split then t.free.addFreeSlot tickLen tickFrom else t.free
      .ok ⟨free.addFreeSlot (tickFrom - startTick) startTick, tickFrom + tickLen⟩
    else .error (.panic "tickFrom > startTick")
  else
    match (t.free.searched tickLen).takeSlot startTick with
    | none => .ok t
    | some (endTick, free) => do
        let free ← splitSlot tickLen tickFrom startTick endTick split
          (t.free.unsearched tickLen ++ free)
        .ok ⟨free, t.startPoint⟩

def earliest (tickLen : Nat) (tickFrom : Nat) (t : Timeline) : Nat × Nat :=
  match t.free.findFreeTime tickLen tickFrom with
  | none => (t.startPoint, if tickFrom < t.startPoint then t.startPoint else tickFrom)
  | some (tick, conflicts) => (tick, if conflicts then tick else tickFrom)

def verify (tickLen : Nat) (tickFrom : Nat) (t : Timeline) : Nat :=
  match t.free.findFreeTime tickLen tickFrom with
  | none => t.startPoint
  | some (tick, _) => tick

/-! ## Free time and bookings -/

variable {t t' : Timeline} {booked : Slots} {tickLen tickLen' tickFrom startTick endTick : Nat}
  {slot : Nat × Nat} {free free' : FreeSlots}

/-- Free slots and bookings are clear of each other and end before the start point. -/
structure Kept (booked : Slots) (t : Timeline) : Prop where
  filed : t.free.Filed
  apart : (t.free.slots ++ booked).Pairwise Clear
  whole : ∀ slot ∈ t.free.slots ++ booked, slot.1 ≤ slot.2
  ends : ∀ slot ∈ t.free.slots ++ booked, slot.2 < t.startPoint

theorem Kept.apart_slots (h : Kept booked t) : t.free.slots.Pairwise Clear :=
  (List.pairwise_append.1 h.apart).1

theorem Kept.whole_slots (h : Kept booked t) (hslot : slot ∈ t.free.slots) : slot.1 ≤ slot.2 :=
  h.whole slot (List.mem_append_left _ hslot)

theorem Kept.ends_slots (h : Kept booked t) (hslot : slot ∈ t.free.slots) :
    slot.2 < t.startPoint :=
  h.ends slot (List.mem_append_left _ hslot)

/-- There is room at `tickFrom` in the slot at `startTick`, or all time from there on is free. -/
def Fits (t : Timeline) (tickLen tickFrom startTick : Nat) : Prop :=
  (startTick = t.startPoint ∧ t.startPoint ≤ tickFrom) ∨
    ∃ stop, (startTick, stop) ∈ (t.free.searched tickLen).slots ∧
      FreeSlots.Around tickLen tickFrom (startTick, stop)

theorem Fits.shorter (h : Fits t tickLen tickFrom startTick) (le : tickLen' ≤ tickLen) :
    Fits t tickLen' (tickFrom + (tickLen - tickLen')) startTick := by
  rcases h with ⟨hstart, hle⟩ | ⟨stop, hslot, around⟩
  · exact .inl ⟨hstart, by omega⟩
  · refine .inr ⟨stop, FreeSlots.mem_searched_of_le le hslot, ?_⟩
    unfold FreeSlots.Around at around ⊢
    omega

theorem Fits.start_le (h : Fits t tickLen tickFrom startTick) : startTick ≤ tickFrom := by
  rcases h with ⟨hstart, hle⟩ | ⟨stop, hslot, around⟩
  · exact hstart ▸ hle
  · exact around.1

theorem earliest_fits (h : Kept booked t) (tickLen tickFrom : Nat) :
    Fits t tickLen (t.earliest tickLen tickFrom).2 (t.earliest tickLen tickFrom).1 ∧
      tickFrom ≤ (t.earliest tickLen tickFrom).2 ∧
      (t.earliest tickLen tickFrom).2 ≤ max tickFrom t.startPoint := by
  unfold earliest
  cases hfind : t.free.findFreeTime tickLen tickFrom with
  | none =>
      simp only
      split_ifs with hlt
      · exact ⟨.inl ⟨rfl, le_rfl⟩, hlt.le, le_max_right ..⟩
      · exact ⟨.inl ⟨rfl, not_lt.1 hlt⟩, le_rfl, le_max_left ..⟩
  | some found =>
      obtain ⟨tick, conflicts⟩ := found
      obtain ⟨stop, hslot, hroom⟩ := FreeSlots.findFreeTime_eq_some h.filed hfind
      cases conflicts with
      | false => exact ⟨.inr ⟨stop, hslot, hroom⟩, le_rfl, le_max_left ..⟩
      | true =>
          have hin := FreeSlots.mem_of_mem_searched hslot
          have hends := h.ends_slots hin
          have hwhole := h.whole_slots hin
          obtain ⟨hbehind, hlong⟩ := hroom
          refine ⟨.inr ⟨stop, hslot, le_rfl, hlong⟩, hbehind.le, ?_⟩
          simp only [if_true]
          omega

theorem earliest_moves (tickLen tickFrom : Nat) (t : Timeline) :
    (t.earliest tickLen tickFrom).2 = tickFrom ∨
      (t.earliest tickLen tickFrom).2 = (t.earliest tickLen tickFrom).1 := by
  unfold earliest
  cases t.free.findFreeTime tickLen tickFrom with
  | none =>
      simp only
      split_ifs
      · exact .inr rfl
      · exact .inl rfl
  | some found =>
      obtain ⟨tick, conflicts⟩ := found
      cases conflicts with
      | false => exact .inl rfl
      | true => exact .inr rfl

theorem verify_fits (h : Kept booked t) (le : t.verify tickLen tickFrom ≤ tickFrom) :
    Fits t tickLen tickFrom (t.verify tickLen tickFrom) := by
  unfold verify at le ⊢
  cases hfind : t.free.findFreeTime tickLen tickFrom with
  | none =>
      rw [hfind] at le
      exact .inl ⟨rfl, le⟩
  | some found =>
      obtain ⟨tick, conflicts⟩ := found
      rw [hfind] at le
      obtain ⟨stop, hslot, hroom⟩ := FreeSlots.findFreeTime_eq_some h.filed hfind
      cases conflicts with
      | false => exact .inr ⟨stop, hslot, hroom⟩
      | true => exact absurd hroom.1 (not_lt.2 le)

theorem verify_of_fits (h : Kept booked t) (positive : 1 ≤ tickLen)
    (fits : Fits t tickLen tickFrom startTick) : t.verify tickLen tickFrom = startTick := by
  unfold verify
  rcases fits with ⟨rfl, hle⟩ | ⟨stop, hslot, around⟩
  · cases hfind : t.free.findFreeTime tickLen tickFrom with
    | none => rfl
    | some found =>
        exfalso
        obtain ⟨tick, conflicts⟩ := found
        obtain ⟨stop, hslot, hroom⟩ := FreeSlots.findFreeTime_eq_some h.filed hfind
        have hends := h.ends_slots (FreeSlots.mem_of_mem_searched hslot)
        cases conflicts with
        | false =>
            obtain ⟨-, hlong⟩ := hroom
            simp only at hlong hends
            omega
        | true =>
            obtain ⟨hbehind, hlong⟩ := hroom
            simp only at hbehind hlong hends
            omega
  · rw [FreeSlots.findFreeTime_around h.filed h.apart_slots (fun _ => h.whole_slots) positive
      hslot around]

theorem verify_cases (h : Kept booked t) (tickLen tickFrom : Nat) :
    t.verify tickLen tickFrom = t.startPoint ∨
      ∃ stop, (t.verify tickLen tickFrom, stop) ∈ t.free.slots := by
  unfold verify
  cases hfind : t.free.findFreeTime tickLen tickFrom with
  | none => exact .inl rfl
  | some found =>
      obtain ⟨stop, hslot, -⟩ := FreeSlots.findFreeTime_eq_some h.filed hfind
      exact .inr ⟨stop, FreeSlots.mem_of_mem_searched hslot⟩

theorem verify_le (h : Kept booked t) (tickLen tickFrom : Nat) :
    t.verify tickLen tickFrom ≤ t.startPoint := by
  rcases verify_cases h tickLen tickFrom with hstart | ⟨stop, hslot⟩
  · exact hstart.le
  · exact ((h.whole_slots hslot).trans_lt (h.ends_slots hslot)).le

theorem verify_behind (h : Kept booked t) (positive : 1 ≤ tickLen)
    (hslot : slot ∈ t.free.slots) (started : slot.1 ≤ tickFrom) (contains : tickFrom ≤ slot.2)
    (hnot : ¬ Fits t tickLen tickFrom slot.1) :
    slot.2 + 1 < tickFrom + tickLen ∧ slot.2 < t.verify tickLen tickFrom := by
  constructor
  · by_contra hlong
    have hsearched := h.filed.mem_searched hslot (show tickLen + slot.1 ≤ slot.2 + 1 by omega)
    refine hnot (.inr ⟨slot.2, hsearched, started, ?_⟩)
    simp only
    omega
  · have hends := h.ends_slots hslot
    rcases verify_cases h tickLen tickFrom with hstart | ⟨stop, hnext⟩
    · exact hstart ▸ hends
    · by_contra hle
      have hwhole := h.whole_slots hnext
      simp only at hwhole
      have hbefore : t.verify tickLen tickFrom ≤ tickFrom := by
        rcases clear_of_pairwise h.apart_slots hslot hnext with heq | hclear
        · rw [heq] at started
          exact started
        · rcases hclear with hlt | hlt
          · exact absurd hlt hle
          · simp only at hlt
            omega
      have fits := verify_fits h hbefore
      rcases fits with ⟨hstart, -⟩ | ⟨stop', hfound, hstarted, hroom⟩
      · omega
      · simp only at hstarted hroom
        have hcontains : tickFrom ≤ stop' := by omega
        rcases clear_of_pairwise h.apart_slots hslot (FreeSlots.mem_of_mem_searched hfound)
          with heq | hclear
        · apply hnot
          rw [heq]
          exact .inr ⟨stop', hfound, hstarted, hroom⟩
        · exact hclear.not_both ⟨started, contains⟩ ⟨hstarted, hcontains⟩

/-! ## What is taken out of free time -/

def before (tickFrom startTick : Nat) : Slots :=
  if startTick < tickFrom then [(startTick, tickFrom - 1)] else []

def behind (tickLen tickFrom endTick : Nat) : Slots :=
  if tickFrom + tickLen ≤ endTick then [(tickFrom + tickLen, endTick)] else []

/-- What is booked, unless it stays free as a slot of its own. -/
def taken (split : Bool) (tickLen tickFrom : Nat) : Slots :=
  if split then [] else [(tickFrom, tickFrom + tickLen - 1)]

def partsOf (tickLen tickFrom startTick endTick : Nat) : Slots :=
  behind tickLen tickFrom endTick ++
    (tickFrom, tickFrom + tickLen - 1) :: before tickFrom startTick

theorem partsOf_within (positive : 1 ≤ tickLen) (starts : startTick ≤ tickFrom)
    (room : tickFrom + tickLen ≤ endTick + 1) {part : Nat × Nat}
    (h : part ∈ partsOf tickLen tickFrom startTick endTick) :
    startTick ≤ part.1 ∧ part.1 ≤ part.2 ∧ part.2 ≤ endTick := by
  unfold partsOf behind before at h
  split_ifs at h <;> simp at h <;> rcases h with rfl | h <;> try rcases h with rfl | rfl
  all_goals
    simp only
    omega

theorem partsOf_clear (positive : 1 ≤ tickLen) :
    (partsOf tickLen tickFrom startTick endTick).Pairwise Clear := by
  unfold partsOf behind before Clear
  split_ifs <;> simp <;> omega

theorem addBefore_subperm (free : FreeSlots) (h : startTick < tickFrom) :
    List.Subperm (free.addFreeSlot (tickFrom - startTick) startTick).slots
      (before tickFrom startTick ++ free.slots) := by
  have hsub := FreeSlots.addFreeSlot_subperm (tickFrom - startTick) startTick free
  rw [Nat.add_sub_cancel' h.le] at hsub
  simpa [before, h] using hsub

theorem addTaken (filed : free.Filed) (positive : 1 ≤ tickLen) (tickFrom : Nat) (split : Bool) :
    (if split then free.addFreeSlot tickLen tickFrom else free).Filed ∧
      List.Subperm ((if split then free.addFreeSlot tickLen tickFrom else free).slots ++
        taken split tickLen tickFrom) ((tickFrom, tickFrom + tickLen - 1) :: free.slots) := by
  cases split with
  | true =>
      refine ⟨filed.addFreeSlot positive, ?_⟩
      simpa [taken] using FreeSlots.addFreeSlot_subperm tickLen tickFrom free
  | false =>
      refine ⟨filed, ?_⟩
      exact (List.perm_append_singleton _ _).subperm

theorem addBehind (filed : free.Filed) (positive : 1 ≤ tickLen) (tickFrom endTick : Nat) :
    (if tickLen + tickFrom - 1 < endTick then
        free.addFreeSlot (endTick - (tickFrom + tickLen - 1)) (tickFrom + tickLen)
      else free).Filed ∧
      List.Subperm (if tickLen + tickFrom - 1 < endTick then
          free.addFreeSlot (endTick - (tickFrom + tickLen - 1)) (tickFrom + tickLen)
        else free).slots (behind tickLen tickFrom endTick ++ free.slots) := by
  by_cases h : tickFrom + tickLen ≤ endTick
  · rw [if_pos (by omega), behind, if_pos h]
    refine ⟨filed.addFreeSlot (by omega), ?_⟩
    have hsub := FreeSlots.addFreeSlot_subperm (endTick - (tickFrom + tickLen - 1))
      (tickFrom + tickLen) free
    rwa [show tickFrom + tickLen + (endTick - (tickFrom + tickLen - 1)) - 1 = endTick by omega]
      at hsub
  · rw [if_neg (by omega), behind, if_neg h]
    exact ⟨filed, List.Subperm.refl _⟩

theorem splitSlot_eq_ok (filed : free.Filed) (positive : 1 ≤ tickLen)
    (starts : startTick ≤ tickFrom) (room : tickFrom + tickLen ≤ endTick + 1) (split : Bool) :
    ∃ free', splitSlot tickLen tickFrom startTick endTick split free = .ok free' ∧
      free'.Filed ∧ List.Subperm (free'.slots ++ taken split tickLen tickFrom)
        (partsOf tickLen tickFrom startTick endTick ++ free.slots) := by
  have finish : ∀ {middle last : FreeSlots}, List.Subperm middle.slots
      (before tickFrom startTick ++ free.slots) →
      ∀ {cut : FreeSlots}, List.Subperm (cut.slots ++ taken split tickLen tickFrom)
        ((tickFrom, tickFrom + tickLen - 1) :: middle.slots) →
      List.Subperm last.slots (behind tickLen tickFrom endTick ++ cut.slots) →
      List.Subperm (last.slots ++ taken split tickLen tickFrom)
        (partsOf tickLen tickFrom startTick endTick ++ free.slots) := by
    intro middle last hmiddle cut hcut hlast
    have hend := (List.subperm_append_right (taken split tickLen tickFrom)).2 hlast
    rw [List.append_assoc] at hend
    refine (hend.trans ((List.subperm_append_left _).2 hcut)).trans ?_
    rw [partsOf, List.append_assoc, List.cons_append]
    exact (List.subperm_append_left _).2 ((List.subperm_cons _).2 hmiddle)
  unfold splitSlot
  by_cases hlt : startTick < tickFrom
  · rw [if_pos hlt, if_pos room]
    have hmiddle : (free.addFreeSlot (tickFrom - startTick) startTick).Filed :=
      filed.addFreeSlot (by omega)
    obtain ⟨hfiled, hcut⟩ := addTaken hmiddle positive tickFrom split
    obtain ⟨hfiled', hlast⟩ := addBehind hfiled positive tickFrom endTick
    exact ⟨_, rfl, hfiled', finish (addBefore_subperm free hlt) hcut hlast⟩
  · obtain rfl : startTick = tickFrom := by omega
    rw [if_neg hlt, if_pos rfl, if_pos room]
    obtain ⟨hfiled, hcut⟩ := addTaken filed positive startTick split
    obtain ⟨hfiled', hlast⟩ := addBehind hfiled positive startTick endTick
    refine ⟨_, rfl, hfiled', finish ?_ hcut hlast⟩
    rw [before, if_neg hlt]
    exact List.Subperm.refl _

theorem kept_of_parts {startPoint : Nat} {slot : Nat × Nat} {parts rest : Slots}
    (filed : free.Filed) (apart : (slot :: rest).Pairwise Clear)
    (spans : ∀ other ∈ slot :: rest, other.1 ≤ other.2 ∧ other.2 < startPoint)
    (within : ∀ part ∈ parts, slot.1 ≤ part.1 ∧ part.1 ≤ part.2 ∧ part.2 ≤ slot.2)
    (clear : parts.Pairwise Clear) (sub : List.Subperm (free.slots ++ booked) (parts ++ rest)) :
    Kept booked ⟨free, startPoint⟩ := by
  have hspans : ∀ other ∈ free.slots ++ booked, other.1 ≤ other.2 ∧ other.2 < startPoint := by
    intro other hother
    rcases List.mem_append.1 (sub.subset hother) with hpart | hrest
    · obtain ⟨-, hwhole, hlast⟩ := within other hpart
      exact ⟨hwhole, hlast.trans_lt (spans slot List.mem_cons_self).2⟩
    · exact spans other (List.mem_cons_of_mem _ hrest)
  have hparts := pairwise_clear_parts apart
    (fun part hpart => ⟨(within part hpart).1, (within part hpart).2.2⟩) clear
  exact ⟨filed, pairwise_clear_of_subperm sub hparts, fun other h => (hspans other h).1,
    fun other h => (hspans other h).2⟩

theorem Kept.with_rest (kept : Kept booked t) (hle : t.startPoint ≤ tickFrom)
    (positive : 1 ≤ tickLen) :
    ((t.startPoint, tickFrom + tickLen - 1) :: (t.free.slots ++ booked)).Pairwise Clear ∧
      ∀ other ∈ (t.startPoint, tickFrom + tickLen - 1) :: (t.free.slots ++ booked),
        other.1 ≤ other.2 ∧ other.2 < tickFrom + tickLen := by
  constructor
  · exact List.pairwise_cons.2 ⟨fun other hother => .inr (kept.ends other hother), kept.apart⟩
  · intro other hother
    rcases List.mem_cons.1 hother with rfl | hother
    · simp only
      omega
    · have hends := kept.ends other hother
      exact ⟨kept.whole other hother, by omega⟩

theorem insertFreeSlot_startPoint (kept : Kept booked t) (positive : 1 ≤ tickLen)
    (hle : t.startPoint ≤ tickFrom) (split : Bool) :
    ∃ t', t.insertFreeSlot tickLen tickFrom t.startPoint split = .ok t' ∧
      Kept (taken split tickLen tickFrom ++ booked) t' := by
  obtain ⟨hapart, hspans⟩ := kept.with_rest hle positive
  obtain ⟨hfiled, hcut⟩ := addTaken kept.filed positive tickFrom split
  have hwithin : ∀ part ∈ partsOf tickLen tickFrom t.startPoint (tickFrom + tickLen - 1),
      t.startPoint ≤ part.1 ∧ part.1 ≤ part.2 ∧ part.2 ≤ tickFrom + tickLen - 1 :=
    fun part hpart => partsOf_within positive hle (by omega) hpart
  have hparts : partsOf tickLen tickFrom t.startPoint (tickFrom + tickLen - 1) =
      (tickFrom, tickFrom + tickLen - 1) :: before tickFrom t.startPoint := by
    rw [partsOf, behind, if_neg (by omega), List.nil_append]
  have hbooked := (List.subperm_append_right booked).2 hcut
  rw [List.append_assoc, List.cons_append] at hbooked
  unfold insertFreeSlot
  rw [if_pos rfl]
  by_cases hsame : tickFrom = t.startPoint
  · rw [if_pos hsame, ← hsame]
    refine ⟨_, rfl, kept_of_parts hfiled hapart hspans hwithin (partsOf_clear positive) ?_⟩
    have hnone : before tickFrom t.startPoint = [] := if_neg (by omega)
    rw [hparts, hnone]
    exact hbooked
  · rw [if_neg hsame, if_pos (by omega)]
    refine ⟨_, rfl, kept_of_parts (hfiled.addFreeSlot (by omega)) hapart hspans hwithin
      (partsOf_clear positive) ?_⟩
    have hmiddle := (List.subperm_append_right (taken split tickLen tickFrom ++ booked)).2
      (addBefore_subperm (if split then t.free.addFreeSlot tickLen tickFrom else t.free)
        (show t.startPoint < tickFrom by omega))
    rw [List.append_assoc] at hmiddle
    refine (hmiddle.trans ((List.subperm_append_left _).2 hbooked)).trans ?_
    rw [hparts]
    exact List.perm_middle.subperm

theorem insertFreeSlot_eq_ok (kept : Kept booked t) (positive : 1 ≤ tickLen)
    (fits : Fits t tickLen tickFrom startTick) (split : Bool) :
    ∃ t', t.insertFreeSlot tickLen tickFrom startTick split = .ok t' ∧
      Kept (taken split tickLen tickFrom ++ booked) t' := by
  rcases fits with ⟨rfl, hle⟩ | ⟨stop, hslot, hstarted, hroom⟩
  · exact insertFreeSlot_startPoint kept positive hle split
  · simp only at hstarted hroom
    have hin := FreeSlots.mem_of_mem_searched hslot
    have hends := kept.ends_slots hin
    have hwhole := kept.whole_slots hin
    simp only at hends hwhole
    obtain ⟨⟨endTick, rest⟩, htake⟩ := FreeSlots.takeSlot_of_mem hslot
    obtain ⟨hslots, hfiled⟩ := FreeSlots.takeSlot_searched kept.filed htake
    have hend : endTick = stop := by
      have hother : (startTick, endTick) ∈ t.free.slots := hslots.symm.subset List.mem_cons_self
      rcases clear_of_pairwise kept.apart_slots hin hother with heq | hclear
      · cases heq
        rfl
      · exact (hclear.not_both ⟨le_rfl, hwhole⟩ ⟨le_rfl, kept.whole_slots hother⟩).elim
    subst hend
    obtain ⟨free', hsplit, hfiled', hsub⟩ := splitSlot_eq_ok hfiled positive hstarted
      (show tickFrom + tickLen ≤ endTick + 1 by omega) split
    refine ⟨⟨free', t.startPoint⟩, ?_, ?_⟩
    · unfold insertFreeSlot
      rw [if_neg (by omega), htake]
      simp only
      rw [hsplit]
      rfl
    · have hbooked := hslots.append_right booked
      refine kept_of_parts hfiled'
        (pairwise_clear_of_subperm hbooked.symm.subperm kept.apart)
        (fun other hother => ?_)
            (fun part hpart => partsOf_within positive hstarted (by omega) hpart)
        (partsOf_clear positive) ?_
      · have hold := hbooked.symm.subset hother
        exact ⟨kept.whole other hold, kept.ends other hold⟩
      · have hall := (List.subperm_append_right booked).2 hsub
        rwa [List.append_assoc, List.append_assoc] at hall

def flushFreeSlots (currentTick : Nat) (t : Timeline) : Timeline :=
  { t with free := t.free.flushAFreeSlot currentTick }

theorem Kept.flushFreeSlots (kept : Kept booked t) (currentTick : Nat) :
    Kept booked (t.flushFreeSlots currentTick) := by
  have hshrinks := FreeSlots.flushAFreeSlot_shrinks currentTick t.free
  have hsub : ((t.free.flushAFreeSlot currentTick).slots ++ booked).Sublist
      (t.free.slots ++ booked) := hshrinks.slots_sublist.append_right booked
  exact ⟨hshrinks.filed kept.filed, kept.apart.sublist hsub,
    fun slot h => kept.whole slot (hsub.subset h), fun slot h => kept.ends slot (hsub.subset h)⟩

/-- No slots yet, and all time free.  A length given twice has one bucket. -/
def empty (buckets : List Nat) : Timeline :=
  ⟨(buckets.insertionSort (· ≤ ·)).dedup.map fun tickLen => (tickLen, []), 0⟩

theorem kept_empty (buckets : List Nat) : Kept [] (empty buckets) := by
  have hnone : (empty buckets).free.slots = [] := by
    simp [empty, FreeSlots.slots, List.flatMap_map]
  constructor
  · constructor
    · intro bucket hbucket
      obtain ⟨tickLen, -, rfl⟩ := List.mem_map.1 hbucket
      exact List.Pairwise.nil
    · intro i bucket hi slot hslot
      have hin := FreeSlots.mem_slots.2 ⟨bucket, List.mem_of_getElem? hi, hslot⟩
      rw [hnone] at hin
      cases hin
  all_goals simp [hnone]

end Timeline

end SimpleSSD.PAL
