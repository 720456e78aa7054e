import Mathlib.Order.BooleanAlgebra.Set
import Mathlib.Logic.Function.Basic

/-!
# Remapped storage

Logical locations are kept at places; a place knows the location it is kept for
and holds data.  During an update some locations are detached: their old place
is no longer theirs, and they have no new one yet.
-/

namespace SimpleSSD.Foundation

variable {L P D : Type*}

@[ext]
structure Remap (L P D : Type*) where
  place : L → Option P
  owner : P → Option L
  data : P → D
  /-- what was last stored in a location -/
  latest : L → Option D

namespace Remap

/-- Outside the detached locations forward and reverse mapping agree, a location
reads what was last stored in it, and what was stored has a place. -/
structure Consistent (m : Remap L P D) (detached : Set L) : Prop where
  owned : ∀ l p, l ∉ detached → m.place l = some p → m.owner p = some l
  placed : ∀ l p, m.owner p = some l → m.place l = some p ∧ l ∉ detached
  current : ∀ l p, l ∉ detached → m.place l = some p → m.latest l = some (m.data p)
  kept : ∀ l, l ∉ detached → m.latest l ≠ none → m.place l ≠ none

variable [DecidableEq L] [DecidableEq P]

def disown (p : P) (m : Remap L P D) : Remap L P D :=
  { m with owner := Function.update m.owner p none }

def assign (l : L) (p : P) (d : D) (m : Remap L P D) : Remap L P D :=
  { m with
    place := Function.update m.place l (some p)
    owner := Function.update m.owner p (some l)
    data := Function.update m.data p d }

def forget (dropped : L → Bool) (m : Remap L P D) : Remap L P D :=
  { m with
    place := fun l => if dropped l then none else m.place l
    latest := fun l => if dropped l then none else m.latest l }

variable {m : Remap L P D} {S T : Set L} {l l' : L} {p q : P} {d : D}

namespace Consistent

omit [DecidableEq L] [DecidableEq P] in
theorem place_injective (h : m.Consistent S) (hl : l ∉ S) (hl' : l' ∉ S)
    (hp : m.place l = some p) (hp' : m.place l' = some p) : l = l' :=
  Option.some.inj ((h.owned l p hl hp).symm.trans (h.owned l' p hl' hp'))

omit [DecidableEq L] [DecidableEq P] in
/-- Locations without a place may count as detached. -/
theorem detach (h : m.Consistent S) (hST : S ⊆ T)
    (same : ∀ l, l ∈ T → m.place l ≠ none → l ∈ S) : m.Consistent T where
  owned l p hl hp := h.owned l p (fun hS => hl (hST hS)) hp
  placed l p hp := by
    obtain ⟨hplace, hS⟩ := h.placed l p hp
    exact ⟨hplace, fun hT => hS (same l hT (by simp [hplace]))⟩
  current l p hl hp := h.current l p (fun hS => hl (hST hS)) hp
  kept l hl := h.kept l (fun hS => hl (hST hS))

omit [DecidableEq L] [DecidableEq P] in
theorem congr_latest (h : m.Consistent S) {latest : L → Option D}
    (same : ∀ l, l ∉ S → latest l = m.latest l) :
    Consistent { m with latest := latest } S where
  owned := h.owned
  placed := h.placed
  current l p hl hp := (same l hl).trans (h.current l p hl hp)
  kept l hl hlatest := h.kept l hl (same l hl ▸ hlatest)

omit [DecidableEq L] [DecidableEq P] in
theorem congr_data (h : m.Consistent S) {data : P → D}
    (same : ∀ p, m.owner p ≠ none → data p = m.data p) :
    Consistent { m with data := data } S where
  owned := h.owned
  placed := h.placed
  current l p hl hp := by
    have howner := h.owned l p hl hp
    change m.latest l = some (data p)
    rw [same p (by simp [howner])]
    exact h.current l p hl hp
  kept := h.kept

omit [DecidableEq L] in
theorem disown (h : m.Consistent S) (hp : m.owner p = some l) :
    (m.disown p).Consistent (insert l S) where
  owned l' q hl' hq := by
    have hne : q ≠ p := by
      rintro rfl
      have howner := h.owned l' q (fun hS => hl' (Set.mem_insert_of_mem l hS)) hq
      exact hl' (Option.some.inj (howner.symm.trans hp) ▸ Set.mem_insert l' S)
    change Function.update m.owner p none q = some l'
    rw [Function.update_of_ne hne]
    exact h.owned l' q (fun hS => hl' (Set.mem_insert_of_mem l hS)) hq
  placed l' q hq := by
    change Function.update m.owner p none q = some l' at hq
    have hne : q ≠ p := by
      rintro rfl
      simp at hq
    rw [Function.update_of_ne hne] at hq
    obtain ⟨hplace, hS⟩ := h.placed l' q hq
    refine ⟨hplace, fun hmem => ?_⟩
    rcases Set.mem_insert_iff.1 hmem with rfl | hmem
    · have hplace' := (h.placed l' p hp).1
      exact hne (Option.some.inj (hplace.symm.trans hplace'))
    · exact hS hmem
  current l' q hl' hq :=
    h.current l' q (fun hS => hl' (Set.mem_insert_of_mem l hS)) hq
  kept l' hl' := h.kept l' fun hS => hl' (Set.mem_insert_of_mem l hS)

/-- A detached location gets a free place and the data last stored in it. -/
theorem assign (h : m.Consistent S) (hl : l ∈ S) (hp : m.owner p = none)
    (hd : m.latest l = some d) : (m.assign l p d).Consistent (S \ {l}) where
  owned l' q hl' hq := by
    change Function.update m.place l (some p) l' = some q at hq
    change Function.update m.owner p (some l) q = some l'
    by_cases heq : l' = l
    · subst heq
      rw [Function.update_self, Option.some.injEq] at hq
      rw [hq, Function.update_self]
    · rw [Function.update_of_ne heq] at hq
      have howner := h.owned l' q (fun hS => hl' ⟨hS, heq⟩) hq
      have hne : q ≠ p := by
        rintro rfl
        simp [hp] at howner
      rwa [Function.update_of_ne hne]
  placed l' q hq := by
    change Function.update m.owner p (some l) q = some l' at hq
    change Function.update m.place l (some p) l' = some q ∧ _
    by_cases heq : q = p
    · subst heq
      rw [Function.update_self, Option.some.injEq] at hq
      subst hq
      exact ⟨Function.update_self .., fun hS => hS.2 rfl⟩
    · rw [Function.update_of_ne heq] at hq
      obtain ⟨hplace, hS⟩ := h.placed l' q hq
      have hne : l' ≠ l := by
        rintro rfl
        exact hS hl
      exact ⟨by rwa [Function.update_of_ne hne], fun hmem => hS hmem.1⟩
  current l' q hl' hq := by
    change Function.update m.place l (some p) l' = some q at hq
    change m.latest l' = some (Function.update m.data p d q)
    by_cases heq : l' = l
    · subst heq
      rw [Function.update_self, Option.some.injEq] at hq
      rw [hq, Function.update_self, hd]
    · rw [Function.update_of_ne heq] at hq
      have hS : l' ∉ S := fun hS => hl' ⟨hS, heq⟩
      have howner := h.owned l' q hS hq
      have hne : q ≠ p := by
        rintro rfl
        simp [hp] at howner
      rw [Function.update_of_ne hne]
      exact h.current l' q hS hq
  kept l' hl' hlatest := by
    change Function.update m.place l (some p) l' ≠ none
    by_cases heq : l' = l
    · subst heq
      rw [Function.update_self]
      exact Option.some_ne_none p
    · rw [Function.update_of_ne heq]
      exact h.kept l' (fun hS => hl' ⟨hS, heq⟩) hlatest

omit [DecidableEq L] [DecidableEq P] in
theorem forget (h : m.Consistent S) {dropped : L → Bool}
    (covered : ∀ l, l ∈ S → dropped l = true)
    (same : ∀ l, dropped l = true → m.place l ≠ none → l ∈ S) :
    (m.forget dropped).Consistent ∅ where
  owned l p _ hp := by
    change (if dropped l then none else m.place l) = some p at hp
    split_ifs at hp with hdrop
    exact h.owned l p (fun hS => hdrop (covered l hS)) hp
  placed l p hp := by
    obtain ⟨hplace, hS⟩ := h.placed l p hp
    have hdrop : dropped l ≠ true := fun hdrop => hS (same l hdrop (by simp [hplace]))
    refine ⟨?_, Set.notMem_empty l⟩
    change (if dropped l then none else m.place l) = some p
    rwa [if_neg hdrop]
  current l p _ hp := by
    change (if dropped l then none else m.place l) = some p at hp
    change (if dropped l then none else m.latest l) = some (m.data p)
    split_ifs at hp with hdrop
    rw [if_neg hdrop]
    exact h.current l p (fun hS => hdrop (covered l hS)) hp
  kept l _ := by
    change (if dropped l then none else m.latest l) ≠ none →
      (if dropped l then none else m.place l) ≠ none
    split_ifs with hdrop
    · exact fun hnone => absurd rfl hnone
    · exact h.kept l fun hS => hdrop (covered l hS)

end Consistent

end Remap

end SimpleSSD.Foundation
