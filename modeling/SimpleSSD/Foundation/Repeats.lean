import Mathlib.Data.List.Destutter

/-!
# Lists without repeats

A loop that takes one element after the other into a list, except for those that repeat the last
one it has taken.
-/

namespace SimpleSSD.Foundation

variable {α β : Type*}

def keep (repeats : α → α → Bool) (list : List α) (a : α) : List α :=
  if list.getLast?.any (repeats · a) then list else list ++ [a]

variable {repeats : α → α → Bool}

theorem foldl_keep_from (list : List α) (last : α) (l : List α) :
    l.foldl (keep repeats) (list ++ [last]) =
      list ++ l.destutter' (fun a b => repeats a b = false) last := by
  induction l generalizing list last with
  | nil => rfl
  | cons a rest ih =>
      cases same : repeats last a with
      | true =>
          have dropped : keep repeats (list ++ [last]) a = list ++ [last] := by simp [keep, same]
          rw [List.foldl_cons, dropped, ih, List.destutter'_cons_neg _ (by simp [same])]
      | false =>
          have taken : keep repeats (list ++ [last]) a = list ++ [last] ++ [a] := by
            simp [keep, same]
          rw [List.foldl_cons, taken, ih, List.destutter'_cons_pos _ (by simp [same]),
            List.append_assoc, List.singleton_append]

theorem foldl_keep (l : List α) :
    l.foldl (keep repeats) [] = l.destutter (fun a b => repeats a b = false) := by
  cases l with
  | nil => rfl
  | cons a rest => exact foldl_keep_from [] a rest

theorem foldl_keep_filterMap {f : β → Option α} (l : List β) (list : List α) :
    l.foldl (fun list b => match f b with
      | none => list
      | some a => keep repeats list a) list = (l.filterMap f).foldl (keep repeats) list := by
  induction l generalizing list with
  | nil => rfl
  | cons b rest ih =>
      cases h : f b <;> simp [h, ih]

theorem foldl_keep_pairs {γ : Type*} {f : γ → α × β} (l : List γ) (pairs : List (α × β)) :
    l.foldl (fun (list, others) c =>
      let (a, b) := f c
      if list.getLast?.any (repeats · a) then (list, others) else (list ++ [a], others ++ [b]))
        (pairs.map Prod.fst, pairs.map Prod.snd) =
      (((l.map f).foldl (keep fun p q => repeats p.1 q.1) pairs).map Prod.fst,
        ((l.map f).foldl (keep fun p q => repeats p.1 q.1) pairs).map Prod.snd) := by
  induction l generalizing pairs with
  | nil => rfl
  | cons c rest ih =>
      have last : (pairs.map Prod.fst).getLast?.any (repeats · (f c).1) =
          pairs.getLast?.any fun p => repeats p.1 (f c).1 := by
        rw [List.getLast?_map]
        cases pairs.getLast? <;> rfl
      rw [List.foldl_cons, List.map_cons, List.foldl_cons, ← ih]
      congr 1
      dsimp only
      rw [last, keep]
      split <;> simp

end SimpleSSD.Foundation
