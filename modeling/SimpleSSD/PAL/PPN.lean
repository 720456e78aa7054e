import Mathlib.Algebra.Order.BigOperators.GroupWithZero.List
import SimpleSSD.Foundation.Digits
import SimpleSSD.PAL.Address

/-!
# Physical page numbers

`PAL2::PPNdisassemble` and `PAL2::AssemblePPN`.  A physical page number is a positional
number over the sizes in the order of `AddrRemap`; products have 32 bits.
-/

namespace SimpleSSD.PAL

open SimpleSSD.Foundation Config PALOLD

namespace PAL2

variable (cfg : Config)

/-- `OriginalSizes`, by `ADDR_CHANNEL` to `ADDR_PAGE`, and the remaining bits. -/
def originalSizes : List Nat :=
  [cfg.channel, cfg.package, cfg.die, if cfg.useMultiPlaneOperation then 1 else cfg.plane,
    cfg.block, cfg.page, 0]

def addrRemap : List Nat := [5, 4, 3, 2, 1, 0]

def rearrangedSizes : List Nat :=
  addrRemap.map (fun i => (originalSizes cfg).getD i 0) ++ [(originalSizes cfg).getD 6 0]

def idx (addr : CPDPBP) : List Nat :=
  [addr.channel, addr.package, addr.die, addr.plane, addr.block, addr.page]

def ofIdx (idx : List Nat) : CPDPBP where
  channel := idx.getD 0 0
  package := idx.getD 1 0
  die := idx.getD 2 0
  plane := idx.getD 3 0
  block := idx.getD 4 0
  page := idx.getD 5 0

/-- Divide by the size of what is below a dimension; coordinates have 32 bits. -/
def takeDigit (dim size : Nat) (acc : List Nat × Nat) : Except Fault (List Nat × Nat) :=
  if size = 0 then .error .undefined
  else .ok (acc.1.set dim (acc.2 / size % 2 ^ 32), acc.2 % size)

def PPNdisassemble (pPPN : Nat) : Except Fault CPDPBP :=
  let AS := fun i => addrRemap.getD i 0
  let RS := fun i => (rearrangedSizes cfg).getD i 0
  if RS 6 = 0 then do
    let acc ← takeDigit (AS 0)
      (mul32 (mul32 (mul32 (mul32 (RS 5) (RS 4)) (RS 3)) (RS 2)) (RS 1))
      (List.replicate 6 0, pPPN)
    let acc ← takeDigit (AS 1) (mul32 (mul32 (mul32 (RS 5) (RS 4)) (RS 3)) (RS 2)) acc
    let acc ← takeDigit (AS 2) (mul32 (mul32 (RS 5) (RS 4)) (RS 3)) acc
    let acc ← takeDigit (AS 3) (mul32 (RS 5) (RS 4)) acc
    let acc ← takeDigit (AS 4) (RS 5) acc
    .ok (ofIdx (acc.1.set (AS 5) (acc.2 % 2 ^ 32)))
  else
    -- reads `AddrRemap[6]`, behind the end of the array
    .error .undefined

def AssemblePPN (addr : CPDPBP) : Nat :=
  let AS := fun i => addrRemap.getD i 0
  let RS := fun i => (rearrangedSizes cfg).getD i 0
  let IDX := fun i => (idx addr).getD i 0
  let AddrPPN := IDX (AS 5)
  let AddrPPN := add64 AddrPPN (mul32 (IDX (AS 4)) (RS 5))
  let AddrPPN := add64 AddrPPN (mul32 (IDX (AS 3)) (mul32 (RS 5) (RS 4)))
  let AddrPPN := add64 AddrPPN (mul32 (IDX (AS 2)) (mul32 (mul32 (RS 5) (RS 4)) (RS 3)))
  let AddrPPN := add64 AddrPPN
    (mul32 (IDX (AS 1)) (mul32 (mul32 (mul32 (RS 5) (RS 4)) (RS 3)) (RS 2)))
  add64 AddrPPN
    (mul32 (IDX (AS 0)) (mul32 (mul32 (mul32 (mul32 (RS 5) (RS 4)) (RS 3)) (RS 2)) (RS 1)))

def sizes : List Nat := (rearrangedSizes cfg).take 6

def totalPages : Nat := (sizes cfg).prod

def digits (addr : CPDPBP) : List Nat := addrRemap.map fun i => (idx addr).getD i 0

variable {cfg} {addr : CPDPBP} {n : Nat}

theorem inRange_iff : InRange cfg addr ↔ List.Forall₂ (· < ·) (digits addr) (sizes cfg) := by
  constructor
  · rintro ⟨channel, package, die, plane, block, page⟩
    exact .cons page (.cons block (.cons plane (.cons die (.cons package (.cons channel .nil)))))
  · rintro (_ | ⟨page, _ | ⟨block, _ | ⟨plane, _ | ⟨die, _ | ⟨package, _ | ⟨channel, -⟩⟩⟩⟩⟩⟩)
    exact ⟨channel, package, die, plane, block, page⟩

theorem digits_injective {addr other : CPDPBP} (same : digits addr = digits other) :
    addr = other := by
  obtain ⟨channel, package, die, plane, block, page⟩ := addr
  obtain ⟨channel', package', die', plane', block', page'⟩ := other
  simp only [digits, addrRemap, idx, List.map_cons, List.map_nil, List.getD_cons_succ,
    List.getD_cons_zero, List.cons.injEq, and_true] at same
  obtain ⟨rfl, rfl, rfl, rfl, rfl, rfl⟩ := same
  rfl

theorem mul32_of_lt {a b : Nat} (h : a * b < 2 ^ 32) : mul32 a b = a * b := Nat.mod_eq_of_lt h

structure Products (C W D P B : Nat) : Prop where
  block : mul32 (mul32 (mul32 (mul32 C W) D) P) B = [B, P, D, W, C].prod
  plane : mul32 (mul32 (mul32 C W) D) P = [P, D, W, C].prod
  die : mul32 (mul32 C W) D = [D, W, C].prod
  package : mul32 C W = [W, C].prod
  positive : ∀ size ∈ [B, P, D, W, C], 0 < size

theorem products_of_fits {G C W D P B : Nat} (fits : [G, B, P, D, W, C].prod < 2 ^ 32)
    (some : 0 < [G, B, P, D, W, C].prod) : Products C W D P B := by
  simp only [List.prod_cons, List.prod_nil, Nat.mul_one, Nat.pos_iff_ne_zero,
    mul_ne_zero_iff] at some fits
  simp only [← Nat.pos_iff_ne_zero] at some
  obtain ⟨page, block, plane, die, package, channel⟩ := some
  have behindPage := (Nat.le_mul_of_pos_left (B * (P * (D * (W * C)))) page).trans_lt fits
  have behindBlock := (Nat.le_mul_of_pos_left (P * (D * (W * C))) block).trans_lt behindPage
  have behindPlane := (Nat.le_mul_of_pos_left (D * (W * C)) plane).trans_lt behindBlock
  have behindDie := (Nat.le_mul_of_pos_left (W * C) die).trans_lt behindPlane
  have packages : mul32 C W = W * C := by
    rw [mul32_of_lt (Nat.mul_comm W C ▸ behindDie), Nat.mul_comm]
  have dies : mul32 (mul32 C W) D = D * (W * C) := by
    rw [packages, mul32_of_lt (Nat.mul_comm D _ ▸ behindPlane), Nat.mul_comm]
  have planes : mul32 (mul32 (mul32 C W) D) P = P * (D * (W * C)) := by
    rw [dies, mul32_of_lt (Nat.mul_comm P _ ▸ behindBlock), Nat.mul_comm]
  have blocks : mul32 (mul32 (mul32 (mul32 C W) D) P) B = B * (P * (D * (W * C))) := by
    rw [planes, mul32_of_lt (Nat.mul_comm B _ ▸ behindPage), Nat.mul_comm]
  refine ⟨?_, ?_, ?_, ?_, ?_⟩
  · simpa using blocks
  · simpa using planes
  · simpa using dies
  · simpa using packages
  · simp [block, plane, die, package, channel]

theorem takeDigit_eq {dim size rest : Nat} {coords : List Nat} (pos : 0 < size)
    (fits : rest < 2 ^ 32) :
    takeDigit dim size (coords, rest) = .ok (coords.set dim (rest / size), rest % size) := by
  unfold takeDigit
  rw [if_neg (Nat.ne_of_gt pos), Nat.mod_eq_of_lt ((Nat.div_le_self rest size).trans_lt fits)]

theorem products (fits : totalPages cfg < 2 ^ 32) (some : 0 < totalPages cfg) :
    Products cfg.channel cfg.package cfg.die
      (if cfg.useMultiPlaneOperation then 1 else cfg.plane) cfg.block :=
  products_of_fits (G := cfg.page) fits some

theorem disassemble_eq (fits : totalPages cfg < 2 ^ 32) (less : n < totalPages cfg) :
    ∃ addr, PPNdisassemble cfg n = .ok addr ∧ digits addr = Digits.split (sizes cfg) n := by
  have sizes_eq : sizes cfg = [cfg.page, cfg.block,
      if cfg.useMultiPlaneOperation then 1 else cfg.plane, cfg.die, cfg.package, cfg.channel] := rfl
  obtain ⟨block, plane, die, package, positive⟩ := products fits (Nat.zero_lt_of_lt less)
  unfold PPNdisassemble
  simp only [addrRemap, rearrangedSizes, originalSizes, List.map_cons, List.map_nil,
    List.cons_append, List.nil_append, List.getD_cons_succ, List.getD_cons_zero, if_true]
  rw [block, plane, die, package, sizes_eq]
  generalize (if cfg.useMultiPlaneOperation = true then 1 else cfg.plane) = planes at *
  -- what stands behind each digit is not zero
  have behindBlock := (List.forall_mem_cons.1 positive).2
  have behindPlane := (List.forall_mem_cons.1 behindBlock).2
  have behindDie := (List.forall_mem_cons.1 behindPlane).2
  have channel : 0 < cfg.channel := behindDie cfg.channel (by simp)
  have dies : 0 < [cfg.package, cfg.channel].prod := List.prod_pos behindDie
  have onDie : 0 < [cfg.die, cfg.package, cfg.channel].prod := List.prod_pos behindPlane
  have onPlane : 0 < [planes, cfg.die, cfg.package, cfg.channel].prod := List.prod_pos behindBlock
  have onBlock : 0 < [cfg.block, planes, cfg.die, cfg.package, cfg.channel].prod :=
    List.prod_pos positive
  have small : n < 2 ^ 32 := less.trans fits
  have remains : ∀ m size, m < 2 ^ 32 → m % size < 2 ^ 32 := fun m size bound =>
    (Nat.mod_le m size).trans_lt bound
  have small₁ := remains n [cfg.block, planes, cfg.die, cfg.package, cfg.channel].prod small
  have small₂ := remains _ [planes, cfg.die, cfg.package, cfg.channel].prod small₁
  have small₃ := remains _ [cfg.die, cfg.package, cfg.channel].prod small₂
  have small₄ := remains _ [cfg.package, cfg.channel].prod small₃
  refine ⟨_, bind_eq_ok.2 ⟨_, takeDigit_eq onBlock small,
    bind_eq_ok.2 ⟨_, takeDigit_eq onPlane small₁, bind_eq_ok.2 ⟨_, takeDigit_eq onDie small₂,
    bind_eq_ok.2 ⟨_, takeDigit_eq dies small₃, bind_eq_ok.2 ⟨_, takeDigit_eq channel small₄,
      rfl⟩⟩⟩⟩⟩, ?_⟩
  have last := Nat.mod_eq_of_lt (remains _ cfg.channel small₄)
  simp only [last]
  simp only [digits, addrRemap, idx, ofIdx, Digits.split, List.prod_nil, Nat.div_one,
    List.prod_singleton]
  rfl

theorem assemble_eq (fits : totalPages cfg < 2 ^ 32) (inRange : InRange cfg addr) :
    AssemblePPN cfg addr = Digits.value (sizes cfg) (digits addr) := by
  have less : Digits.value (sizes cfg) (digits addr) < totalPages cfg :=
    Digits.value_lt (inRange_iff.1 inRange)
  obtain ⟨block, plane, die, package, -⟩ := products fits (Nat.zero_lt_of_lt less)
  have small := less.trans fits
  simp only [sizes, digits, addrRemap, rearrangedSizes, originalSizes, idx, List.map_cons,
    List.map_nil, List.cons_append, List.nil_append, List.getD_cons_succ, List.getD_cons_zero,
    List.take_succ_cons, List.take_zero, Digits.value, List.prod_nil, List.prod_singleton,
    Nat.mul_one, Nat.add_zero] at small ⊢
  unfold AssemblePPN
  simp only [addrRemap, rearrangedSizes, originalSizes, idx, List.map_cons, List.map_nil,
    List.cons_append, List.nil_append, List.getD_cons_succ, List.getD_cons_zero]
  rw [block, plane, die, package]
  -- every product, and every sum of them, is part of the number
  rw [mul32_of_lt (by omega), mul32_of_lt (by omega), mul32_of_lt (by omega),
    mul32_of_lt (by omega), mul32_of_lt (by omega)]
  unfold add64 wordSize
  omega

/-- A page number gives back the address it was assembled from, and an address the page
number it was taken from. -/
theorem ppn_round_trip (cfg : Config) (fits : totalPages cfg < 2 ^ 32) :
    (∀ addr, InRange cfg addr → PPNdisassemble cfg (AssemblePPN cfg addr) = .ok addr) ∧
      ∀ n < totalPages cfg, ∃ addr, PPNdisassemble cfg n = .ok addr ∧ InRange cfg addr ∧
        AssemblePPN cfg addr = n := by
  constructor
  · intro addr inRange
    have within := inRange_iff.1 inRange
    have less : AssemblePPN cfg addr < totalPages cfg := by
      rw [assemble_eq fits inRange]
      exact Digits.value_lt within
    obtain ⟨back, disassembled, same⟩ := disassemble_eq fits less
    rw [assemble_eq fits inRange, Digits.split_value within] at same
    rw [disassembled, digits_injective same]
  · intro n less
    obtain ⟨addr, disassembled, same⟩ := disassemble_eq fits less
    have inRange : InRange cfg addr := inRange_iff.2 (same ▸ Digits.split_lt less)
    refine ⟨addr, disassembled, inRange, ?_⟩
    rw [assemble_eq fits inRange, same, Digits.value_split less]

theorem ppn_round_trip_default : PPNdisassemble defaultConfig
    (AssemblePPN defaultConfig ⟨1, 0, 1, 0, 3, 2⟩) = .ok ⟨1, 0, 1, 0, 3, 2⟩ :=
  (ppn_round_trip defaultConfig (by decide)).1 _ ⟨by decide, by decide, by decide, by decide,
    by decide, by decide⟩

end PAL2

end SimpleSSD.PAL
