import SimpleSSD.Foundation.Units
import SimpleSSD.HIL.NVMe.Conversion

/-!
# What a read is charged for

`FTL::read` of `isc/sims/ftl.cc`.  The bytes that in-storage code reads from the image are made
blocks, and the blocks pages, on which the simulated accesses and the credit depend.
-/

namespace SimpleSSD.ISC.FTL

open SimpleSSD.Foundation SimpleSSD.HIL.NVMe SimpleSSD.HIL.NVMe.Subsystem

def blocks (lbaSize : Nat) (ofs sz : UInt64) : Blocks :=
  ⟨ofs.toNat / lbaSize, sub64 (add64 sz.toNat lbaSize) 1 / lbaSize⟩

/-- The request that is charged.  `setImage` has been given the block size of the namespace. -/
def chargedRequest (d : Device) (info : Information) (ofs sz : UInt64) (hReq : HIL.Request) :
    Except Fault HIL.Request :=
  convertUnit d info (blocks info.lbaSize ofs sz) hReq

/-- Each byte is on a page of the range.  The pages of the device are numbered in 64 bits. -/
def OnPages (d : Device) (info : Information) (ofs sz : UInt64) (range : LPNRange) : Prop :=
  ∀ x, ofs.toNat ≤ x → x < ofs.toNat + sz.toNat → ∃ i < range.nlp,
    add64 range.slpn i = add64 (x / d.logicalPageSize) info.range.slpn

structure Charged (d : Device) (info : Information) (ofs sz : UInt64) (b : Blocks)
    (range : LPNRange) : Prop where
  covered : Covers info.lbaSize b.slba b.nlb ofs.toNat sz.toNat
  /-- No block lies apart from the bytes. -/
  met : ∀ n, b.slba ≤ n → n < b.slba + b.nlb →
    ∃ x, ofs.toNat ≤ x ∧ x < ofs.toNat + sz.toNat ∧ x / info.lbaSize = n
  onPages : OnPages d info ofs sz range
  /-- No page lies apart from the blocks. -/
  pagesMet : ∀ i < range.nlp, ∃ x, b.slba ≤ x / info.lbaSize ∧
    x / info.lbaSize < b.slba + b.nlb ∧
      add64 range.slpn i = add64 (x / d.logicalPageSize) info.range.slpn

structure Roundable (d : Device) (info : Information) (ofs sz : UInt64) : Prop where
  blocks : sz.toNat + info.lbaSize ≤ wordSize
  pages : info.lbaSize ≤ d.logicalPageSize → sz.toNat ⌈/⌉ info.lbaSize +
    ofs.toNat / info.lbaSize % (d.logicalPageSize / info.lbaSize) +
      d.logicalPageSize / info.lbaSize ≤ wordSize

/-- The bytes in front of `ofs` in its block leave room for all of the bytes in the blocks. -/
def Reaches (lbaSize : Nat) (ofs sz : UInt64) : Prop :=
  ofs.toNat % lbaSize + sz.toNat ≤ sz.toNat ⌈/⌉ lbaSize * lbaSize

instance (lbaSize : Nat) (ofs sz : UInt64) : Decidable (Reaches lbaSize ofs sz) :=
  inferInstanceAs (Decidable (_ ≤ _))

def ReachesOnPages (d : Device) (info : Information) (ofs sz : UInt64) : Prop :=
  if info.lbaSize ≤ d.logicalPageSize then
    ofs.toNat % d.logicalPageSize + sz.toNat ≤
      (sz.toNat ⌈/⌉ info.lbaSize +
        ofs.toNat / info.lbaSize % (d.logicalPageSize / info.lbaSize)) ⌈/⌉
          (d.logicalPageSize / info.lbaSize) * d.logicalPageSize
  else Reaches info.lbaSize ofs sz

section Blocks

variable {lbaSize : Nat} {ofs sz : UInt64}

theorem blocks_eq (pos : 0 < lbaSize) (roundable : sz.toNat + lbaSize ≤ wordSize) :
    blocks lbaSize ofs sz = ⟨ofs.toNat / lbaSize, sz.toNat ⌈/⌉ lbaSize⟩ := by
  rw [blocks, sub64_add64_one (by omega) roundable, Nat.ceilDiv_eq_add_pred_div]

theorem blocks_overflow (small : lbaSize ≤ wordSize) (overflow : wordSize < sz.toNat + lbaSize) :
    (blocks lbaSize ofs sz).nlb = 0 := by
  have word : sz.toNat < wordSize := sz.toNat_lt
  have wrapped : add64 sz.toNat lbaSize = sz.toNat + lbaSize - wordSize := by
    rw [add64, Nat.mod_eq_sub_mod overflow.le, Nat.mod_eq_of_lt (by omega)]
  rw [blocks, wrapped, sub64_of_le (by omega)]
  exact Nat.div_eq_of_lt (by omega)

end Blocks

/-! ## The conversion -/

section Conversion

variable {d : Device} {info : Information} {ratio : Nat} {ofs sz : UInt64} {range : LPNRange}

theorem onPages_iff {first : Nat} (start : range.slpn = add64 first info.range.slpn)
    (early : first ≤ ofs.toNat / d.logicalPageSize) (word : range.nlp ≤ wordSize)
    (near : (ofs.toNat + sz.toNat - 1) / d.logicalPageSize - first < wordSize) :
    OnPages d info ofs sz range ↔
      Covers d.logicalPageSize first range.nlp ofs.toNat sz.toNat := by
  refine forall₃_congr fun x low high => ?_
  have from' : first ≤ x / d.logicalPageSize := early.trans (Nat.div_le_div_right low)
  have last : x / d.logicalPageSize ≤ (ofs.toNat + sz.toNat - 1) / d.logicalPageSize :=
    Nat.div_le_div_right (by omega)
  rw [start, numbered_iff from' (by omega) word, and_iff_right from']

theorem not_onPages (start : range.slpn = add64 (ofs.toNat / d.logicalPageSize) info.range.slpn)
    (few : range.nlp ≤ 1) (long : d.logicalPageSize < sz.toNat) :
    ¬ OnPages d info ofs sz range := by
  intro onPages
  have behind := onPages (ofs.toNat + d.logicalPageSize) (by omega) (by omega)
  rw [start, Nat.add_div_right _ d.logicalPageSize_pos,
    numbered_iff (Nat.le_succ _) (by rw [Nat.succ_sub le_rfl, Nat.sub_self]; decide)
      (few.trans (by decide))] at behind
  omega

end Conversion

/-! ## Blocks that are parts of a page -/

section Parts

variable {d : Device} {info : Information} {ratio nlb off : Nat} {ofs sz : UInt64}
  {range : LPNRange}

theorem pagesOf_eq (pos : 0 < ratio) (fits : nlb + off + ratio ≤ wordSize) :
    sub64 (add64 (add64 nlb off) ratio) 1 / ratio = (nlb + off) ⌈/⌉ ratio := by
  have inner : add64 nlb off = nlb + off := add64_of_lt (by omega)
  rw [inner, sub64_add64_one (by omega) fits, Nat.ceilDiv_eq_add_pred_div]

theorem pagesOf_overflow (in_page : off < ratio) (small : ratio < 2 ^ 32) (word : nlb < wordSize)
    (overflow : wordSize < nlb + off + ratio) :
    sub64 (add64 (add64 nlb off) ratio) 1 / ratio ≤ 1 := by
  have size : wordSize = 2 ^ 64 := rfl
  rw [← Nat.lt_succ_iff, Nat.div_lt_iff_lt_mul (by omega)]
  rcases Nat.lt_or_ge (nlb + off) wordSize with inside | outside
  · have inner : add64 nlb off = nlb + off := add64_of_lt inside
    have wrapped : add64 (nlb + off) ratio = nlb + off + ratio - wordSize := by
      rw [add64, Nat.mod_eq_sub_mod overflow.le, Nat.mod_eq_of_lt (by omega)]
    rw [inner, wrapped, sub64_of_le (by omega)]
    omega
  · have wrapped : add64 nlb off = nlb + off - wordSize := by
      rw [add64, Nat.mod_eq_sub_mod outside, Nat.mod_eq_of_lt (by omega)]
    rw [wrapped, add64_of_lt (by omega), sub64_of_le (by omega)]
    omega

section Sized

variable (pos : 0 < ratio) (lba_pos : 0 < info.lbaSize)
  (page : d.logicalPageSize = ratio * info.lbaSize) (word : d.logicalPageSize < 2 ^ 32)
  (positive : 0 < sz.toNat)
  (converted : range = ⟨add64 ((blocks info.lbaSize ofs sz).slba / ratio) info.range.slpn,
    sub64 (add64 (add64 (blocks info.lbaSize ofs sz).nlb
      ((blocks info.lbaSize ofs sz).slba % ratio)) ratio) 1 / ratio⟩)

include pos lba_pos page positive converted

theorem pagesMet_parts (roundable : Roundable d info ofs sz) {i : Nat} (hi : i < range.nlp) :
    ∃ x, (blocks info.lbaSize ofs sz).slba ≤ x / info.lbaSize ∧
      x / info.lbaSize < (blocks info.lbaSize ofs sz).slba + (blocks info.lbaSize ofs sz).nlb ∧
        add64 range.slpn i = add64 (x / d.logicalPageSize) info.range.slpn := by
  have page_pos := d.logicalPageSize_pos
  have lba_le : info.lbaSize ≤ d.logicalPageSize := page ▸ Nat.le_mul_of_pos_left _ pos
  have rounding := roundable.pages lba_le
  rw [page, Nat.mul_div_cancel _ lba_pos] at rounding
  rw [blocks_eq lba_pos roundable.blocks] at converted ⊢
  dsimp only at converted ⊢
  rw [pagesOf_eq pos rounding] at converted
  subst converted
  have inside := lt_of_lt_ceilDiv pos hi
  have split := Nat.div_add_mod' (ofs.toNat / info.lbaSize) ratio
  have off := Nat.mod_lt (ofs.toNat / info.lbaSize) pos
  rcases Nat.eq_zero_or_pos i with rfl | behind
  · have some : 0 < sz.toNat ⌈/⌉ info.lbaSize := ceilDiv_pos lba_pos positive
    refine ⟨ofs.toNat / info.lbaSize * info.lbaSize, ?_, ?_, ?_⟩
    · rw [Nat.mul_div_cancel _ lba_pos]
    · rw [Nat.mul_div_cancel _ lba_pos]
      omega
    · rw [page, Nat.mul_div_mul_right _ _ lba_pos, add64_add64, Nat.add_zero]
  · have blocks : (ofs.toNat / info.lbaSize / ratio + i) * d.logicalPageSize / info.lbaSize =
        ofs.toNat / info.lbaSize / ratio * ratio + i * ratio := by
      rw [page, ← Nat.mul_assoc, Nat.mul_div_cancel _ lba_pos, Nat.add_mul]
    have more : ratio ≤ i * ratio := Nat.le_mul_of_pos_left _ behind
    refine ⟨(ofs.toNat / info.lbaSize / ratio + i) * d.logicalPageSize, ?_, ?_, ?_⟩
    · rw [blocks]
      omega
    · rw [blocks]
      omega
    · rw [Nat.mul_div_cancel _ page_pos, add64_add64]

include word

theorem onPages_parts : OnPages d info ofs sz range ↔
    Roundable d info ofs sz ∧ ReachesOnPages d info ofs sz := by
  have size : wordSize = 2 ^ 64 := rfl
  have szWord := sz.toNat_lt
  have page_pos := d.logicalPageSize_pos
  have ratio_le : ratio ≤ d.logicalPageSize := page ▸ Nat.le_mul_of_pos_right _ lba_pos
  have lba_le : info.lbaSize ≤ d.logicalPageSize := page ▸ Nat.le_mul_of_pos_left _ pos
  have quotient : d.logicalPageSize / info.lbaSize = ratio := by
    rw [page, Nat.mul_div_cancel _ lba_pos]
  have in_page : ofs.toNat / info.lbaSize % ratio < ratio := Nat.mod_lt _ pos
  have first : ofs.toNat / info.lbaSize / ratio = ofs.toNat / d.logicalPageSize := by
    rw [page, Nat.div_div_eq_div_mul, Nat.mul_comm]
  have start : range.slpn = add64 (ofs.toNat / d.logicalPageSize) info.range.slpn := by
    rw [converted, ← first]
    rfl
  rcases Nat.lt_or_ge wordSize (sz.toNat + info.lbaSize) with overflow | fits
  · have none : (blocks info.lbaSize ofs sz).nlb = 0 := blocks_overflow (by omega) overflow
    have few : range.nlp ≤ 1 := by
      rw [converted, none, pagesOf_eq pos (by unfold blocks; dsimp only; omega)]
      rw [Nat.zero_add, ceilDiv_le_iff_le_mul pos, Nat.mul_one]
      exact in_page.le
    refine iff_of_false (not_onPages start few (by omega)) fun h => ?_
    exact absurd h.1.blocks (not_le.2 overflow)
  · rw [blocks_eq lba_pos fits] at converted
    dsimp only at converted
    have count : sz.toNat ⌈/⌉ info.lbaSize ≤ sz.toNat := by
      rw [ceilDiv_le_iff_le_mul lba_pos]
      exact Nat.le_mul_of_pos_left _ lba_pos
    by_cases rounding : sz.toNat ⌈/⌉ info.lbaSize + ofs.toNat / info.lbaSize % ratio + ratio ≤
      wordSize
    · have near := div_sub_div_le page_pos ofs.toNat (sz.toNat - 1)
      have nlp : range.nlp = (sz.toNat ⌈/⌉ info.lbaSize +
          ofs.toNat / info.lbaSize % ratio) ⌈/⌉ ratio := by
        rw [converted, pagesOf_eq pos rounding]
      have word : range.nlp ≤ wordSize := by
        rw [nlp, ceilDiv_le_iff_le_mul pos]
        exact le_trans (by omega) (Nat.le_mul_of_pos_left _ pos)
      have roundable : Roundable d info ofs sz := ⟨fits, fun _ => by rwa [quotient]⟩
      rw [← Nat.add_sub_assoc (show 1 ≤ sz.toNat from positive)] at near
      rw [onPages_iff start le_rfl word (by omega), covers_div_iff page_pos positive, nlp,
        and_iff_right roundable, ReachesOnPages, if_pos lba_le, quotient]
    · have few : range.nlp ≤ 1 := by
        rw [converted]
        exact pagesOf_overflow in_page (by omega) (by omega) (not_le.1 rounding)
      refine iff_of_false (not_onPages start few (by omega)) fun h => ?_
      have rounds := h.1.pages lba_le
      rw [quotient] at rounds
      exact rounding rounds

end Sized

end Parts

/-! ## Blocks of several pages -/

section Several

variable {d : Device} {info : Information} {ratio : Nat} {ofs sz : UInt64} {range : LPNRange}
  (several : 1 < ratio) (lba : info.lbaSize = ratio * d.logicalPageSize)
  (word : info.lbaSize < 2 ^ 32) (positive : 0 < sz.toNat)
  (converted : range = ⟨add64 (mul64 (blocks info.lbaSize ofs sz).slba ratio) info.range.slpn,
    mul64 (blocks info.lbaSize ofs sz).nlb ratio⟩)

include several lba

theorem range_several (ofs : UInt64) (roundable : sz.toNat + info.lbaSize ≤ wordSize) :
    mul64 (ofs.toNat / info.lbaSize) ratio = ofs.toNat / info.lbaSize * ratio ∧
      mul64 (sz.toNat ⌈/⌉ info.lbaSize) ratio = sz.toNat ⌈/⌉ info.lbaSize * ratio := by
  have page_pos := d.logicalPageSize_pos
  have lba_pos : 0 < info.lbaSize := lba ▸ Nat.mul_pos (by omega) page_pos
  have ratio_le : ratio ≤ info.lbaSize := lba ▸ Nat.le_mul_of_pos_right _ page_pos
  have ofsWord : ofs.toNat < wordSize := ofs.toNat_lt
  have floor := Nat.div_mul_le_self ofs.toNat info.lbaSize
  have floor' := Nat.div_mul_le_self (sz.toNat + info.lbaSize - 1) info.lbaSize
  have first := Nat.mul_le_mul_left (ofs.toNat / info.lbaSize) ratio_le
  have count := Nat.mul_le_mul_left (sz.toNat ⌈/⌉ info.lbaSize) ratio_le
  rw [← Nat.ceilDiv_eq_add_pred_div] at floor'
  exact ⟨Nat.mod_eq_of_lt (by omega), Nat.mod_eq_of_lt (by omega)⟩

include converted

theorem pagesMet_several (roundable : Roundable d info ofs sz) {i : Nat} (hi : i < range.nlp) :
    ∃ x, (blocks info.lbaSize ofs sz).slba ≤ x / info.lbaSize ∧
      x / info.lbaSize < (blocks info.lbaSize ofs sz).slba + (blocks info.lbaSize ofs sz).nlb ∧
        add64 range.slpn i = add64 (x / d.logicalPageSize) info.range.slpn := by
  have page_pos := d.logicalPageSize_pos
  have lba_pos : 0 < info.lbaSize := lba ▸ Nat.mul_pos (by omega) page_pos
  obtain ⟨first, count⟩ := range_several several lba ofs roundable.blocks
  rw [blocks_eq lba_pos roundable.blocks] at converted ⊢
  dsimp only at converted ⊢
  rw [first, count] at converted
  subst converted
  dsimp only at hi ⊢
  have block : (ofs.toNat / info.lbaSize * ratio + i) * d.logicalPageSize / info.lbaSize =
      ofs.toNat / info.lbaSize + i / ratio := by
    nth_rewrite 2 [lba]
    rw [Nat.mul_div_mul_right _ _ page_pos, Nat.add_comm, Nat.add_mul_div_right _ _ (by omega),
      Nat.add_comm]
  have inside : i / ratio < sz.toNat ⌈/⌉ info.lbaSize := by
    rwa [Nat.div_lt_iff_lt_mul (by omega)]
  refine ⟨(ofs.toNat / info.lbaSize * ratio + i) * d.logicalPageSize, ?_, ?_, ?_⟩
  · rw [block]
    exact Nat.le_add_right _ _
  · rw [block]
    exact Nat.add_lt_add_left inside _
  · rw [Nat.mul_div_cancel _ page_pos, add64_add64]

include word positive

theorem onPages_several : OnPages d info ofs sz range ↔
    Roundable d info ofs sz ∧ ReachesOnPages d info ofs sz := by
  have size : wordSize = 2 ^ 64 := rfl
  have page_pos := d.logicalPageSize_pos
  have lba_pos : 0 < info.lbaSize := lba ▸ Nat.mul_pos (by omega) page_pos
  have larger : ¬ info.lbaSize ≤ d.logicalPageSize := by
    rw [lba, not_le]
    exact (Nat.lt_mul_iff_one_lt_left page_pos).2 several
  rcases Nat.lt_or_ge wordSize (sz.toNat + info.lbaSize) with overflow | fits
  · refine iff_of_false (fun onPages => ?_) fun h => absurd h.1.blocks (not_le.2 overflow)
    obtain ⟨i, hi, -⟩ := onPages ofs.toNat le_rfl (by omega)
    have nlp : range.nlp = 0 := by
      rw [converted, blocks_overflow (by omega) overflow]
      exact congrArg (· % wordSize) (Nat.zero_mul ratio)
    omega
  · obtain ⟨first, count⟩ := range_several several lba ofs fits
    rw [blocks_eq lba_pos fits] at converted
    dsimp only at converted
    rw [first, count] at converted
    subst converted
    have split := Nat.div_add_mod' ofs.toNat info.lbaSize
    have floor := Nat.lt_div_mul_add lba_pos (a := ofs.toNat)
    have bytes : ∀ n, n * ratio * d.logicalPageSize = n * info.lbaSize := by
      intro n
      rw [lba, Nat.mul_assoc]
    have early : ofs.toNat / info.lbaSize * ratio ≤ ofs.toNat / d.logicalPageSize := by
      rw [Nat.le_div_iff_mul_le page_pos, bytes]
      omega
    have near : (ofs.toNat + sz.toNat - 1) / d.logicalPageSize -
        ofs.toNat / info.lbaSize * ratio < wordSize := by
      have last : (ofs.toNat + sz.toNat - 1) / d.logicalPageSize <
          ofs.toNat / info.lbaSize * ratio + wordSize := by
        have more := Nat.le_mul_of_pos_right wordSize page_pos
        rw [Nat.div_lt_iff_lt_mul page_pos, Nat.add_mul, bytes]
        omega
      omega
    have roundable : Roundable d info ofs sz := ⟨fits, fun le => absurd le larger⟩
    have nlpWord : sz.toNat ⌈/⌉ info.lbaSize * ratio ≤ wordSize :=
      count ▸ (Nat.mod_lt _ (by decide)).le
    rw [onPages_iff rfl early nlpWord near, covers_iff page_pos positive early, Nat.add_mul, bytes,
      bytes, and_iff_right roundable, ReachesOnPages, if_neg larger, Reaches]
    omega

end Several

/-! ## Every read -/

section Reads

variable {d : Device} {info : Information} {ofs sz : UInt64}

theorem covers_blocks_iff (pos : 0 < info.lbaSize) (small : info.lbaSize ≤ wordSize)
    (positive : 0 < sz.toNat) :
    Covers info.lbaSize (blocks info.lbaSize ofs sz).slba (blocks info.lbaSize ofs sz).nlb
        ofs.toNat sz.toNat ↔
      sz.toNat + info.lbaSize ≤ wordSize ∧ Reaches info.lbaSize ofs sz := by
  rcases Nat.lt_or_ge wordSize (sz.toNat + info.lbaSize) with overflow | fits
  · refine iff_of_false (fun covers => ?_) fun h => absurd h.1 (not_le.2 overflow)
    have first := covers ofs.toNat le_rfl (by omega)
    rw [blocks_overflow small overflow] at first
    omega
  · rw [blocks_eq pos fits, and_iff_right fits]
    exact covers_div_iff pos positive

theorem met_blocks (pos : 0 < info.lbaSize) (small : info.lbaSize ≤ wordSize)
    (positive : 0 < sz.toNat) {n : Nat} (low : (blocks info.lbaSize ofs sz).slba ≤ n)
    (high : n < (blocks info.lbaSize ofs sz).slba + (blocks info.lbaSize ofs sz).nlb) :
    ∃ x, ofs.toNat ≤ x ∧ x < ofs.toNat + sz.toNat ∧ x / info.lbaSize = n := by
  rcases Nat.lt_or_ge wordSize (sz.toNat + info.lbaSize) with overflow | fits
  · rw [blocks_overflow small overflow] at high
    omega
  · rw [blocks_eq pos fits] at low high
    exact meets pos positive (fun _ h => lt_of_lt_ceilDiv pos h) low high

theorem reachesOnPages_parts {ratio : Nat} (pos : 0 < ratio) (lba_pos : 0 < info.lbaSize)
    (page : d.logicalPageSize = ratio * info.lbaSize) (reaches : Reaches info.lbaSize ofs sz) :
    ReachesOnPages d info ofs sz := by
  have lba_le : info.lbaSize ≤ d.logicalPageSize := page ▸ Nat.le_mul_of_pos_left _ pos
  have split : ofs.toNat % d.logicalPageSize =
      ofs.toNat % info.lbaSize + ofs.toNat / info.lbaSize % ratio * info.lbaSize := by
    rw [page, Nat.mul_comm, Nat.mod_mul, Nat.mul_comm info.lbaSize (_ % _)]
  have rounded := (ceilDiv_le_iff_le_mul (b := sz.toNat ⌈/⌉ info.lbaSize +
    ofs.toNat / info.lbaSize % ratio) pos).1 le_rfl
  have bytes := Nat.mul_le_mul_right info.lbaSize rounded
  rw [Nat.add_mul, Nat.mul_comm ratio, Nat.mul_assoc, ← page] at bytes
  unfold Reaches at reaches
  rw [ReachesOnPages, if_pos lba_le, page, Nat.mul_div_cancel _ lba_pos, ← page, split]
  omega

theorem charged_iff {range : LPNRange} (lba_pos : 0 < info.lbaSize)
    (small : info.lbaSize ≤ wordSize) (positive : 0 < sz.toNat)
    (onPages : OnPages d info ofs sz range ↔
      Roundable d info ofs sz ∧ ReachesOnPages d info ofs sz)
    (reachesOn : Reaches info.lbaSize ofs sz → ReachesOnPages d info ofs sz)
    (pagesMet : Roundable d info ofs sz → ∀ i < range.nlp,
      ∃ x, (blocks info.lbaSize ofs sz).slba ≤ x / info.lbaSize ∧
        x / info.lbaSize < (blocks info.lbaSize ofs sz).slba + (blocks info.lbaSize ofs sz).nlb ∧
          add64 range.slpn i = add64 (x / d.logicalPageSize) info.range.slpn) :
    Charged d info ofs sz (blocks info.lbaSize ofs sz) range ↔
      Roundable d info ofs sz ∧ Reaches info.lbaSize ofs sz := by
  constructor
  · intro charged
    exact ⟨(onPages.1 charged.onPages).1,
      ((covers_blocks_iff lba_pos small positive).1 charged.covered).2⟩
  · rintro ⟨roundable, reaches⟩
    exact ⟨(covers_blocks_iff lba_pos small positive).2 ⟨roundable.blocks, reaches⟩,
      fun _ => met_blocks lba_pos small positive,
      onPages.2 ⟨roundable, reachesOn reaches⟩, pagesMet roundable⟩

/-- A read is charged for the blocks it touches, and their pages, just when the bytes do not
reach behind the block that is the last one when they begin at the start of a block.  The pages
alone hold all of the bytes when these do not reach behind the last page. -/
theorem read_charged_iff {p q : Nat} (page : d.logicalPageSize = 2 ^ p) (page_lt : p < 32)
    (lba : info.lbaSize = 2 ^ q) (lba_lt : q < 32) (positive : 0 < sz) (hReq : HIL.Request) :
    ∃ req', chargedRequest d info ofs sz hReq = .ok req' ∧
      (Charged d info ofs sz (blocks info.lbaSize ofs sz) req'.range ↔
        Roundable d info ofs sz ∧ Reaches info.lbaSize ofs sz) ∧
      (OnPages d info ofs sz req'.range ↔
        Roundable d info ofs sz ∧ ReachesOnPages d info ofs sz) := by
  have positive : 0 < sz.toNat := positive
  have lba_pos : 0 < info.lbaSize := lba ▸ Nat.two_pow_pos q
  have pageWord : d.logicalPageSize < 2 ^ 32 := page ▸ Nat.pow_lt_pow_right (by decide) page_lt
  have lbaWord : info.lbaSize < 2 ^ 32 := lba ▸ Nat.pow_lt_pow_right (by decide) lba_lt
  have small : info.lbaSize ≤ wordSize := lbaWord.le.trans (by decide)
  rcases Nat.lt_or_ge p q with larger | smaller
  · have several : 1 < 2 ^ (q - p) := Nat.one_lt_two_pow (by omega)
    have ratio : info.lbaSize = 2 ^ (q - p) * d.logicalPageSize := by
      rw [lba, page, ← Nat.pow_add, Nat.sub_add_cancel larger.le]
    have run := convertUnit_several (blocks info.lbaSize ofs sz) hReq
      several (Nat.pow_lt_pow_right (by decide) (by omega)) ratio
    have onPages : OnPages d info ofs sz _ ↔ _ :=
      onPages_several several ratio lbaWord positive rfl
    have whole : ¬ info.lbaSize ≤ d.logicalPageSize := by
      rw [lba, page, not_le]
      exact Nat.pow_lt_pow_right (by decide) larger
    have reachesOn : Reaches info.lbaSize ofs sz → ReachesOnPages d info ofs sz := by
      intro reaches
      rwa [ReachesOnPages, if_neg whole]
    exact ⟨_, run, charged_iff lba_pos small positive onPages reachesOn fun roundable i hi =>
      pagesMet_several several ratio rfl roundable hi, onPages⟩
  · have pos : 0 < 2 ^ (p - q) := Nat.two_pow_pos _
    have ratio : d.logicalPageSize = 2 ^ (p - q) * info.lbaSize := by
      rw [lba, page, ← Nat.pow_add, Nat.sub_add_cancel smaller]
    have run := convertUnit_parts (blocks info.lbaSize ofs sz) hReq
      pos (Nat.pow_lt_pow_right (by decide) (by omega)) lba_pos ratio
    have onPages : OnPages d info ofs sz _ ↔ _ :=
      onPages_parts pos lba_pos ratio pageWord positive rfl
    have reachesOn : Reaches info.lbaSize ofs sz → ReachesOnPages d info ofs sz :=
      reachesOnPages_parts pos lba_pos ratio
    exact ⟨_, run, charged_iff lba_pos small positive onPages reachesOn fun roundable i hi =>
      pagesMet_parts pos lba_pos ratio positive rfl roundable hi, onPages⟩

end Reads

/-- The last byte of a page and the first of the next are charged for one block. -/
theorem not_charged_acrossPages :
    ∃ req', chargedRequest smallDevice (hostInformation 64) 4095 2 (.ofPages .read 0 1) =
        .ok req' ∧
      ¬ Charged smallDevice (hostInformation 64) 4095 2
        (blocks (hostInformation 64).lbaSize 4095 2) req'.range ∧
      ¬ OnPages smallDevice (hostInformation 64) 4095 2 req'.range := by
  have onPages : ¬ OnPages smallDevice (hostInformation 64) 4095 2 ⟨0, 1⟩ := by
    intro onPages
    obtain ⟨i, hi, same⟩ := onPages 4096 (by decide) (by decide)
    obtain rfl : i = 0 := Nat.lt_one_iff.1 hi
    exact absurd same (by decide)
  exact ⟨_, rfl, fun charged => onPages charged.onPages, onPages⟩

/-- Two bytes in one block. -/
theorem read_charged_iff_inBlock :
    ∃ req', chargedRequest smallDevice (hostInformation 64) 510 2 (.ofPages .read 0 1) =
        .ok req' ∧
      Charged smallDevice (hostInformation 64) 510 2
        (blocks (hostInformation 64).lbaSize 510 2) req'.range := by
  obtain ⟨req', run, charged, -⟩ := @read_charged_iff smallDevice (hostInformation 64) 510 2 12 9
    rfl (by decide) rfl (by decide) (by decide) (.ofPages .read 0 1)
  exact ⟨req', run, charged.2 ⟨⟨by decide, fun _ => by decide⟩, by decide⟩⟩

end SimpleSSD.ISC.FTL
