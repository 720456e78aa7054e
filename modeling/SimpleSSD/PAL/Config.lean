import Mathlib.Algebra.BigOperators.Group.List.Basic
import Mathlib.Algebra.BigOperators.Ring.List
import Mathlib.Algebra.Order.Ring.Nat
import Mathlib.Data.List.Nodup
import SimpleSSD.Util.Def

/-!
# NAND geometry

`pal/config.cc` and the constructor in `pal/pal.cc`: the order in which blocks are laid
out over the dimensions, and which dimensions a superblock spans.
-/

namespace SimpleSSD.PAL

inductive AddrIndex where
  | channel
  | package
  | die
  | plane
  deriving DecidableEq, Repr

namespace AddrIndex

def all : List AddrIndex := [.channel, .package, .die, .plane]

theorem mem_all (idx : AddrIndex) : idx ∈ all := by
  cases idx <;> simp [all]

def ofChar : Char → Option AddrIndex
  | 'C' | 'c' => some .channel
  | 'W' | 'w' => some .package
  | 'D' | 'd' => some .die
  | 'P' | 'p' => some .plane
  | _ => none

end AddrIndex

structure CPDPBP where
  channel : Nat
  package : Nat
  die : Nat
  plane : Nat
  block : Nat
  page : Nat
  deriving DecidableEq, Repr

def CPDPBP.get (addr : CPDPBP) : AddrIndex → Nat
  | .channel => addr.channel
  | .package => addr.package
  | .die => addr.die
  | .plane => addr.plane

structure Config where
  channel : Nat
  package : Nat
  die : Nat
  plane : Nat
  block : Nat
  page : Nat
  pageSize : Nat
  useMultiPlaneOperation : Bool
  superblock : AddrIndex → Bool
  pageAllocation : List AddrIndex

namespace Config

/-- The letters up to the fourth dimension, and whether one was given twice. -/
def parsePageAllocation : List Char → List AddrIndex → Bool → List AddrIndex × Bool
  | [], found, fail => (found, fail)
  | letter :: rest, found, fail =>
      match AddrIndex.ofChar letter with
      | none => parsePageAllocation rest found fail
      | some idx =>
          if (found ++ [idx]).length = 4 then (found ++ [idx], fail || decide (idx ∈ found))
          else parsePageAllocation rest (found ++ [idx]) (fail || decide (idx ∈ found))

def movePlane (allocation : List AddrIndex) : List AddrIndex :=
  if .plane ∈ allocation then .plane :: allocation.erase .plane else allocation

/-- The dimensions of the superblock setting; one that is empty leaves none. -/
def parseSuperblock (setting : List Char) (idx : AddrIndex) : Bool :=
  decide (some idx ∈ setting.map AddrIndex.ofChar)

def update (cfg : Config) (allocation superblock : List Char) : Except Fault Config :=
  let (found, fail) := parsePageAllocation allocation [] false
  let fail := fail || decide (∃ idx ∈ AddrIndex.all, idx ∉ found)
  let found := if cfg.useMultiPlaneOperation then movePlane found else found
  if fail then .error (.panic "Invalid page allocation string")
  else .ok { cfg with
    pageAllocation := found
    superblock := fun idx =>
      parseSuperblock superblock idx || cfg.useMultiPlaneOperation && decide (idx = .plane) }

def size (cfg : Config) : AddrIndex → Nat
  | .channel => cfg.channel
  | .package => cfg.package
  | .die => cfg.die
  | .plane => cfg.plane

def mul32 (a b : Nat) : Nat := a * b % 2 ^ 32

def includes (cfg : Config) (idx : AddrIndex) : Bool :=
  cfg.superblock idx || cfg.useMultiPlaneOperation && decide (idx = .plane)

/-- Multiply by the sizes of some dimensions, one after the other. -/
def scale (cfg : Config) (p : AddrIndex → Bool) (n : Nat) : Nat :=
  AddrIndex.all.foldl (fun n idx => if p idx then mul32 n (cfg.size idx) else n) n

def superPageSize (cfg : Config) : Nat := cfg.scale cfg.includes cfg.pageSize

def superBlock (cfg : Config) : Nat := cfg.scale (fun idx => !cfg.includes idx) cfg.block

def pageInSuperPage (cfg : Config) : Nat :=
  let pages := cfg.superPageSize / cfg.pageSize
  if cfg.useMultiPlaneOperation then pages / cfg.plane else pages

/-- What the constructors have made sure of, for a geometry in which no size is zero. -/
structure Valid (cfg : Config) : Prop where
  perm : cfg.pageAllocation.Perm AddrIndex.all
  plane : cfg.useMultiPlaneOperation = true → cfg.superblock .plane = true
  sizes : ∀ idx, 0 < cfg.size idx
  pageSize : 0 < cfg.pageSize

theorem parsePageAllocation_eq (letters : List Char) {found : List AddrIndex}
    (few : found.length < 4) :
    parsePageAllocation letters found (!decide found.Nodup) =
      ((found ++ letters.filterMap AddrIndex.ofChar).take 4,
        !decide ((found ++ letters.filterMap AddrIndex.ofChar).take 4).Nodup) := by
  induction letters generalizing found with
  | nil =>
      rw [List.filterMap_nil, List.append_nil, List.take_of_length_le few.le]
      rfl
  | cons letter rest ih =>
      rw [parsePageAllocation, List.filterMap_cons]
      cases AddrIndex.ofChar letter with
      | none => exact ih few
      | some idx =>
          have twice : (!decide found.Nodup || decide (idx ∈ found)) =
              !decide (found ++ [idx]).Nodup := by
            have both : (found ++ [idx]).Nodup ↔ found.Nodup ∧ idx ∉ found := by
              rw [← List.concat_eq_append, List.nodup_concat, and_comm]
            simp only [both]
            by_cases nodup : found.Nodup <;> simp [nodup]
          have more : found ++ idx :: rest.filterMap AddrIndex.ofChar =
              found ++ [idx] ++ rest.filterMap AddrIndex.ofChar := by simp
          simp only [twice, more]
          by_cases full : (found ++ [idx]).length = 4
          · rw [if_pos full, List.take_left' full]
          · rw [if_neg full]
            refine ih ?_
            rw [List.length_append, List.length_singleton] at full ⊢
            omega

theorem movePlane_perm (allocation : List AddrIndex) : (movePlane allocation).Perm allocation := by
  unfold movePlane
  split_ifs with h
  · exact (List.perm_cons_erase h).symm
  · exact List.Perm.refl _

/-- A configuration is accepted exactly if the first four dimensions that its letters name are the
four there are, and then blocks are laid out over them. -/
theorem update_accepts (cfg cfg' : Config) (allocation superblock : List Char) :
    let found := (allocation.filterMap AddrIndex.ofChar).take 4
    (cfg.update allocation superblock = .ok cfg' ↔
      found.Perm AddrIndex.all ∧ cfg' = { cfg with
        pageAllocation := if cfg.useMultiPlaneOperation then movePlane found else found
        superblock := fun idx =>
          parseSuperblock superblock idx || cfg.useMultiPlaneOperation && decide (idx = .plane) }) ∧
      (cfg.update allocation superblock = .ok cfg' → (∀ idx, 0 < cfg.size idx) →
        0 < cfg.pageSize → cfg'.Valid) := by
  intro found
  have whole : cfg.update allocation superblock = .ok cfg' ↔
      found.Perm AddrIndex.all ∧ cfg' = { cfg with
        pageAllocation := if cfg.useMultiPlaneOperation then movePlane found else found
        superblock := fun idx =>
          parseSuperblock superblock idx ||
            cfg.useMultiPlaneOperation && decide (idx = .plane) } := by
    have parsed : parsePageAllocation allocation [] false = (found, !decide found.Nodup) :=
      parsePageAllocation_eq allocation (Nat.succ_pos 3)
    have perm : found.Perm AddrIndex.all ↔ found.Nodup ∧ ∀ idx ∈ AddrIndex.all, idx ∈ found := by
      refine ⟨fun perm => ⟨perm.nodup_iff.2 (by decide), fun idx => perm.mem_iff.2⟩, ?_⟩
      rintro ⟨nodup, every⟩
      exact (List.perm_ext_iff_of_nodup nodup (by decide)).2 fun idx =>
        ⟨fun _ => AddrIndex.mem_all idx, every idx⟩
    have fail : (!decide found.Nodup || decide (∃ idx ∈ AddrIndex.all, idx ∉ found)) =
        !decide (found.Perm AddrIndex.all) := by
      rw [Bool.eq_iff_iff]
      simp [perm]
    rw [update, parsed]
    dsimp only
    rw [fail]
    by_cases accepted : found.Perm AddrIndex.all
    · rw [decide_eq_true accepted, Bool.not_true, if_neg Bool.false_ne_true, Except.ok.injEq,
        and_iff_right accepted]
      exact eq_comm
    · simp [accepted]
  refine ⟨whole, fun accepted sizes pageSize => ?_⟩
  obtain ⟨perm, rfl⟩ := whole.1 accepted
  refine ⟨?_, fun multi => ?_, sizes, pageSize⟩
  · dsimp only
    split_ifs
    · exact (movePlane_perm _).trans perm
    · exact perm
  · dsimp only at multi ⊢
    simp [multi]

/-! ## Sizes that fit -/

def product (cfg : Config) (p : AddrIndex → Bool) : Nat :=
  ((AddrIndex.all.filter p).map cfg.size).prod

/-- The size of a superpage and the number of superblocks stay within 32 bits. -/
structure Fits (cfg : Config) : Prop where
  superPage : cfg.pageSize * cfg.product cfg.includes < 2 ^ 32
  superBlocks : cfg.block * cfg.product (fun idx => !cfg.includes idx) < 2 ^ 32

theorem product_pos {cfg : Config} (sizes : ∀ idx, 0 < cfg.size idx) (dims : List AddrIndex) :
    0 < (dims.map cfg.size).prod :=
  Nat.pos_of_ne_zero <| List.prod_ne_zero fun h => by
    obtain ⟨idx, -, hzero⟩ := List.mem_map.1 h
    exact (sizes idx).ne' hzero

theorem scale_eq {cfg : Config} (sizes : ∀ idx, 0 < cfg.size idx) {p : AddrIndex → Bool} {n : Nat}
    (h : n * cfg.product p < 2 ^ 32) : cfg.scale p n = n * cfg.product p := by
  unfold scale product at *
  generalize AddrIndex.all = dims at h
  induction dims generalizing n with
  | nil => simp
  | cons idx rest ih =>
      rw [List.foldl_cons]
      cases hp : p idx with
      | false =>
          rw [List.filter_cons_of_neg (by simp [hp])] at h ⊢
          exact ih h
      | true =>
          rw [List.filter_cons_of_pos hp, List.map_cons, List.prod_cons, ← Nat.mul_assoc] at h ⊢
          have hlt : n * cfg.size idx < 2 ^ 32 :=
            (Nat.le_mul_of_pos_right _ (product_pos sizes _)).trans_lt h
          have hmul : mul32 n (cfg.size idx) = n * cfg.size idx := Nat.mod_eq_of_lt hlt
          rw [if_pos rfl, hmul]
          exact ih h

theorem superBlock_eq {cfg : Config} (valid : cfg.Valid) (fits : cfg.Fits) :
    cfg.superBlock = cfg.block * cfg.product (fun idx => !cfg.includes idx) :=
  scale_eq valid.sizes fits.superBlocks

theorem pageInSuperPage_eq {cfg : Config} (valid : cfg.Valid) (fits : cfg.Fits) :
    cfg.pageInSuperPage = cfg.product fun idx =>
      cfg.superblock idx && !(cfg.useMultiPlaneOperation && decide (idx = .plane)) := by
  have hpages : cfg.superPageSize / cfg.pageSize = cfg.product cfg.includes := by
    rw [superPageSize, scale_eq valid.sizes fits.superPage,
      Nat.mul_div_cancel_left _ valid.pageSize]
  unfold pageInSuperPage
  simp only [hpages]
  cases hmulti : cfg.useMultiPlaneOperation with
  | false =>
      rw [if_neg (by simp)]
      congr 1
      funext idx
      simp [includes, hmulti]
  | true =>
      have hlast : cfg.product cfg.includes = cfg.product (fun idx =>
          cfg.superblock idx && !(true && decide (idx = .plane))) * cfg.plane := by
        cases hc : cfg.superblock .channel <;> cases hw : cfg.superblock .package <;>
          cases hd : cfg.superblock .die <;>
          simp [product, includes, AddrIndex.all, hmulti, hc, hw, hd, size, Nat.mul_assoc]
      rw [if_pos rfl, hlast]
      exact Nat.mul_div_cancel _ (valid.sizes .plane)

end Config

end SimpleSSD.PAL
