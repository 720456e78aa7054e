import Mathlib.Data.Nat.Notation
import Mathlib.Tactic.SplitIfs

/-!
# Overlays

Blocks of one size that lie over an array.  Where no block lies, the array shows.
-/

namespace SimpleSSD.Foundation

variable {α : Type*}

/-- The array with other elements from `start` on. -/
def fill (array : Nat → α) (start : Nat) {len : Nat} (elements : Fin len → α) : Nat → α := fun i =>
  if h : start ≤ i ∧ i < start + len then elements ⟨i - start, by omega⟩ else array i

def slice (array : Nat → α) (start len : Nat) : Fin len → α := fun k => array (start + k)

section Fill

variable {array : Nat → α} {start len n size : Nat}

theorem fill_of_mem {elements : Fin len → α} {i : Nat} (h : start ≤ i ∧ i < start + len) :
    fill array start elements i = elements ⟨i - start, by omega⟩ := dif_pos h

theorem fill_of_not_mem {elements : Fin len → α} {i : Nat} (h : ¬(start ≤ i ∧ i < start + len)) :
    fill array start elements i = array i := dif_neg h

theorem fill_slice_self (array : Nat → α) (start len : Nat) :
    fill array start (slice array start len) = array := by
  funext i
  by_cases h : start ≤ i ∧ i < start + len
  · rw [fill_of_mem h, slice, Nat.add_sub_cancel' h.1]
  · rw [fill_of_not_mem h]

theorem fill_empty (none : len = 0) (elements : Fin len → α) : fill array start elements = array :=
  funext fun _ => fill_of_not_mem (by omega)

theorem fill_succ (array source : Nat → α) (start from' n size : Nat) :
    fill (fill array start (slice source from' (n * size))) (start + n * size)
        (slice source (from' + n * size) size) =
      fill array start (slice source from' ((n + 1) * size)) := by
  funext i
  have total : (n + 1) * size = n * size + size := Nat.succ_mul n size
  by_cases last : start + n * size ≤ i ∧ i < start + n * size + size
  · rw [fill_of_mem last, fill_of_mem (by omega), slice, slice]
    congr 1
    dsimp only
    omega
  · rw [fill_of_not_mem last]
    by_cases before : start ≤ i ∧ i < start + n * size
    · rw [fill_of_mem before, fill_of_mem (by omega), slice, slice]
    · rw [fill_of_not_mem before, fill_of_not_mem (by omega)]

end Fill

abbrev Overlay (α : Type*) (size : Nat) := Nat → Option (Fin size → α)

def Overlay.lay {size : Nat} (table : Overlay α size) (n : Nat) (elements : Fin size → α) :
    Overlay α size := fun m => if m = n then some elements else table m

def Overlay.lift {size : Nat} (table : Overlay α size) (n : Nat) : Overlay α size :=
  fun m => if m = n then none else table m

def Overlay.block {size : Nat} (table : Overlay α size) (base : Nat → α) (n : Nat) :
    Fin size → α :=
  (table n).getD (slice base (n * size) size)

structure Overlay.Shows {size : Nat} (table : Overlay α size) (base array : Nat → α) : Prop where
  block : ∀ n, slice array (n * size) size = table.block base n

namespace Overlay

variable {size n : Nat} {table : Overlay α size} {base array : Nat → α}

theorem shows_empty (base : Nat → α) : Shows (fun _ => none : Overlay α size) base base :=
  ⟨fun _ => rfl⟩

theorem slice_fill (array : Nat → α) (elements : Fin size → α) (m n : Nat) :
    slice (fill array (n * size) elements) (m * size) size =
      if m = n then elements else slice array (m * size) size := by
  funext k
  have hk := k.isLt
  rw [slice]
  split_ifs with same
  · subst same
    rw [fill_of_mem (by omega)]
    congr 1
    exact Fin.ext (Nat.add_sub_cancel_left _ _)
  · rw [fill_of_not_mem, slice]
    rintro ⟨low, high⟩
    rcases Nat.lt_or_gt_of_ne same with before | behind
    · have le := Nat.mul_le_mul_right size (Nat.succ_le_of_lt before)
      rw [Nat.succ_mul] at le
      omega
    · have le := Nat.mul_le_mul_right size (Nat.succ_le_of_lt behind)
      rw [Nat.succ_mul] at le
      omega

/-- A block laid over the array, in place of the one that lies there. -/
theorem Shows.lay (h : table.Shows base array) (n : Nat) (elements : Fin size → α) :
    (table.lay n elements).Shows base (fill array (n * size) elements) := by
  refine ⟨fun m => ?_⟩
  rw [slice_fill]
  unfold Overlay.block Overlay.lay
  split_ifs with same
  · rfl
  · exact h.block m

/-- The array shows again where a block is taken away. -/
theorem Shows.lift (h : table.Shows base array) (n : Nat) :
    (table.lift n).Shows base (fill array (n * size) (slice base (n * size) size)) := by
  refine ⟨fun m => ?_⟩
  rw [slice_fill]
  unfold Overlay.block Overlay.lift
  split_ifs with same
  · rw [same]
    rfl
  · exact h.block m

end Overlay

end SimpleSSD.Foundation
