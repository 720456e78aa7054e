import Mathlib.Logic.Function.Basic
import SimpleSSD.Util.Def

/-!
# Physical blocks

`ftl/common/block.cc`.  A page of a block is divided into I/O units, each with a
valid bit, an erased bit and the logical page it was written for.
-/

namespace SimpleSSD.FTL

structure Block where
  idx : Nat
  pageCount : Nat
  ioUnitInPage : Nat
  nextWritePageIndex : Nat → Nat
  validBits : Nat → Nat → Bool
  erasedBits : Nat → Nat → Bool
  lpns : Nat → Nat → Nat
  lastAccessed : Tick
  eraseCount : Nat

def update₂ {α : Type*} (f : Nat → Nat → α) (page unit : Nat) (value : α) :
    Nat → Nat → α :=
  Function.update f page (Function.update (f page) unit value)

theorem update₂_apply {α : Type*} (f : Nat → Nat → α) (page unit : Nat) (value : α)
    (p u : Nat) :
    update₂ f page unit value p u = if p = page ∧ u = unit then value else f p u := by
  unfold update₂
  by_cases hp : p = page
  · subst hp
    by_cases hu : u = unit <;> simp [hu]
  · simp [hp]

namespace Block

def erase (blk : Block) : Block :=
  { blk with
    validBits := fun _ _ => false
    erasedBits := fun page unit =>
      decide (page < blk.pageCount) && decide (unit < blk.ioUnitInPage)
    nextWritePageIndex := fun _ => 0
    eraseCount := blk.eraseCount + 1 }

def new (idx pageCount ioUnitInPage : Nat) : Block :=
  { (erase
      { idx := idx
        pageCount := pageCount
        ioUnitInPage := ioUnitInPage
        nextWritePageIndex := fun _ => 0
        validBits := fun _ _ => false
        erasedBits := fun _ _ => false
        lpns := fun _ _ => 0
        lastAccessed := 0
        eraseCount := 0 }) with
    eraseCount := 0 }

def getValidPageCount (blk : Block) : Nat :=
  (List.range blk.pageCount).countP fun page =>
    (List.range blk.ioUnitInPage).any (blk.validBits page)

def getValidPageCountRaw (blk : Block) : Nat :=
  ((List.range blk.pageCount).map fun page =>
    (List.range blk.ioUnitInPage).countP (blk.validBits page)).sum

def getDirtyPageCount (blk : Block) : Nat :=
  (List.range blk.pageCount).countP fun page =>
    (List.range blk.ioUnitInPage).any fun unit =>
      !(blk.validBits page unit || blk.erasedBits page unit)

def getNextWritePageIndex (blk : Block) : Nat :=
  ((List.range blk.ioUnitInPage).map blk.nextWritePageIndex).foldr max 0

/-- The units of a page that are live; a block of one unit a page reports every
page as live. -/
def getPageInfo (blk : Block) (page : Nat) : Nat → Bool :=
  if blk.ioUnitInPage = 1 then fun unit => unit == 0 else blk.validBits page

def read (blk : Block) (page unit : Nat) (tick : Tick) : Except Fault Block :=
  if blk.ioUnitInPage ≤ unit then .error (.panic "I/O map size mismatch")
  else if blk.pageCount ≤ page then .error .outOfRange
  else if blk.validBits page unit then .ok { blk with lastAccessed := tick }
  else .ok blk

def write (blk : Block) (page lpn unit : Nat) (tick : Tick) : Except Fault Block :=
  if blk.ioUnitInPage ≤ unit then .error (.panic "I/O map size mismatch")
  else if blk.pageCount ≤ page then .error .outOfRange
  else if blk.erasedBits page unit then
    if page < blk.nextWritePageIndex unit then
      .error (.panic "Write to block should sequential")
    else
      .ok { blk with
        lastAccessed := tick
        erasedBits := update₂ blk.erasedBits page unit false
        validBits := update₂ blk.validBits page unit true
        lpns := update₂ blk.lpns page unit lpn
        nextWritePageIndex := Function.update blk.nextWritePageIndex unit (page + 1) }
  else .error (.panic "Write to non erased page")

def invalidate (blk : Block) (page unit : Nat) : Except Fault Block :=
  if blk.pageCount ≤ page then .error .outOfRange
  else .ok { blk with validBits := update₂ blk.validBits page unit false }

/-! ## Specifications -/

/-- Bits stand within the block, and no unit is both valid and erased. -/
structure Sound (pages units : Nat) (blk : Block) : Prop where
  pageCount : blk.pageCount = pages
  ioUnitInPage : blk.ioUnitInPage = units
  inRange : ∀ page unit, blk.validBits page unit = true ∨ blk.erasedBits page unit = true →
    page < pages ∧ unit < units
  exclusive : ∀ page unit, blk.erasedBits page unit = true → blk.validBits page unit = false

variable {blk blk' : Block} {pages units page unit lpn : Nat} {tick : Tick}

theorem write_eq_ok (h : blk.write page lpn unit tick = .ok blk') :
    unit < blk.ioUnitInPage ∧ page < blk.pageCount ∧ blk.erasedBits page unit = true ∧
      blk.nextWritePageIndex unit ≤ page ∧
      blk' = { blk with
        lastAccessed := tick
        erasedBits := update₂ blk.erasedBits page unit false
        validBits := update₂ blk.validBits page unit true
        lpns := update₂ blk.lpns page unit lpn
        nextWritePageIndex := Function.update blk.nextWritePageIndex unit (page + 1) } := by
  unfold write at h
  split_ifs at h with hunit hpage herased hnext
  exact ⟨not_le.1 hunit, not_le.1 hpage, herased, not_lt.1 hnext, (Except.ok.inj h).symm⟩

theorem invalidate_eq_ok (h : blk.invalidate page unit = .ok blk') :
    page < blk.pageCount ∧
      blk' = { blk with validBits := update₂ blk.validBits page unit false } := by
  unfold invalidate at h
  split_ifs at h with hpage
  exact ⟨not_le.1 hpage, (Except.ok.inj h).symm⟩

theorem read_eq_ok (h : blk.read page unit tick = .ok blk') :
    ∃ accessed, blk' = { blk with lastAccessed := accessed } := by
  unfold read at h
  split_ifs at h
  · exact ⟨tick, (Except.ok.inj h).symm⟩
  · exact ⟨blk.lastAccessed, (Except.ok.inj h).symm⟩

theorem Sound.write (sound : Sound pages units blk)
    (h : blk.write page lpn unit tick = .ok blk') : Sound pages units blk' := by
  obtain ⟨-, -, herased, -, rfl⟩ := write_eq_ok h
  refine ⟨sound.pageCount, sound.ioUnitInPage, fun p u => ?_, fun p u => ?_⟩
  · simp only [update₂_apply]
    split
    · rename_i heq
      rw [heq.1, heq.2]
      exact fun _ => sound.inRange page unit (.inr herased)
    · exact sound.inRange p u
  · simp only [update₂_apply]
    split
    · exact fun h => absurd h Bool.false_ne_true
    · exact sound.exclusive p u

theorem Sound.invalidate (sound : Sound pages units blk)
    (h : blk.invalidate page unit = .ok blk') : Sound pages units blk' := by
  obtain ⟨-, rfl⟩ := invalidate_eq_ok h
  refine ⟨sound.pageCount, sound.ioUnitInPage, fun p u => ?_, fun p u herased => ?_⟩
  · simp only [update₂_apply]
    split
    · rintro (hvalid | herased)
      · contradiction
      · exact sound.inRange p u (.inr herased)
    · exact sound.inRange p u
  · simp only [update₂_apply]
    split
    · rfl
    · exact sound.exclusive p u herased

theorem Sound.erase (sound : Sound pages units blk) : Sound pages units blk.erase := by
  refine ⟨sound.pageCount, sound.ioUnitInPage, fun p u => ?_, fun _ _ _ => rfl⟩
  simp [Block.erase, sound.pageCount, sound.ioUnitInPage]

theorem new_sound (idx : Nat) : Sound pages units (new idx pages units) := by
  refine ⟨rfl, rfl, fun p u => ?_, fun _ _ _ => rfl⟩
  simp [new, Block.erase]

theorem Sound.not_valid (sound : Sound pages units blk) (h : blk.getValidPageCount = 0) :
    blk.validBits page unit = false := by
  cases hvalid : blk.validBits page unit with
  | false => rfl
  | true =>
      obtain ⟨hpage, hunit⟩ := sound.inRange page unit (.inl hvalid)
      unfold getValidPageCount at h
      rw [List.countP_eq_zero] at h
      refine absurd ?_ (h page (List.mem_range.2 (sound.pageCount ▸ hpage)))
      exact List.any_eq_true.2
        ⟨unit, List.mem_range.2 (sound.ioUnitInPage ▸ hunit), hvalid⟩

end Block

end SimpleSSD.FTL
