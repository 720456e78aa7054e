import SimpleSSD.HIL.NVMe.Isolation
import SimpleSSD.ICL.Requests

/-!
# From blocks to the accesses of the cache

`convertUnit` makes a request of pages out of a run of blocks, and the loop of the internal
cache layer makes accesses out of the request.  Together they reach the bytes of the blocks.
-/

namespace SimpleSSD.HIL.NVMe.Subsystem

open SimpleSSD.Foundation SimpleSSD.ICL

/-- No value of the conversion leaves 64 bits: the bytes of the blocks, the sum that is
rounded up, and the numbers of the pages. -/
structure Fits (d : Device) (info : Information) (b : Blocks) : Prop where
  bytes : (b.slba + b.nlb) * info.lbaSize < wordSize
  rounding : b.nlb + b.slba % (d.logicalPageSize / info.lbaSize) +
    d.logicalPageSize / info.lbaSize ≤ wordSize
  pages : info.range.slpn +
    ((b.slba + b.nlb) * info.lbaSize + d.logicalPageSize - 1) / d.logicalPageSize ≤ wordSize

variable {d : Device} {info : Information} {b : Blocks} {ratio : Nat}

theorem roundUp_bounds {blocks : Nat} (pos : 0 < ratio) (positive : 0 < blocks) :
    ∃ n, (blocks + ratio - 1) / ratio = n + 1 ∧ n * ratio < blocks ∧ blocks ≤ (n + 1) * ratio := by
  have first : 1 ≤ (blocks + ratio - 1) / ratio := by
    rw [Nat.le_div_iff_mul_le pos]
    omega
  obtain ⟨n, hn⟩ := Nat.exists_eq_add_of_le' first
  have lower := Nat.div_mul_le_self (blocks + ratio - 1) ratio
  have upper := Nat.lt_div_mul_add pos (a := blocks + ratio - 1)
  rw [hn, Nat.succ_mul] at lower upper
  refine ⟨n, hn, by omega, ?_⟩
  rw [Nat.succ_mul]
  omega

theorem numbers_of_fits (fits : Fits d info b) {first n : Nat}
    (last : (first + n) * d.logicalPageSize < (b.slba + b.nlb) * info.lbaSize) :
    info.range.slpn + first + (n + 1) ≤ wordSize := by
  have pos := d.logicalPageSize_pos
  have bound : first + n + 1 ≤
      ((b.slba + b.nlb) * info.lbaSize + d.logicalPageSize - 1) / d.logicalPageSize := by
    rw [Nat.le_div_iff_mul_le pos, Nat.succ_mul]
    omega
  have numbers := fits.pages
  omega

theorem sub64_add64_one {x y : Nat} (pos : 0 < x + y) (le : x + y ≤ wordSize) :
    sub64 (add64 x y) 1 = x + y - 1 := by
  rcases Nat.eq_or_lt_of_le le with full | lt
  · rw [add64, full, Nat.mod_self]
    decide
  · rw [add64_of_lt lt, sub64_of_le pos]

theorem convertUnit_parts (b : Blocks) (req : Request) (pos : 0 < ratio) (small : ratio < 2 ^ 32)
    (lba_pos : 0 < info.lbaSize) (page : d.logicalPageSize = ratio * info.lbaSize) :
    convertUnit d info b req = .ok { req with
      range := ⟨add64 (b.slba / ratio) info.range.slpn,
        sub64 (add64 (add64 b.nlb (b.slba % ratio)) ratio) 1 / ratio⟩
      offset := mul64 (b.slba % ratio) info.lbaSize
      length := mul64 b.nlb info.lbaSize } := by
  have quotient : d.logicalPageSize / info.lbaSize = ratio := by
    rw [page, Nat.mul_div_cancel _ lba_pos]
  unfold convertUnit
  rw [if_neg lba_pos.ne', quotient, Nat.mod_eq_of_lt small]
  dsimp only
  rw [if_neg pos.ne']

theorem convertUnit_several (b : Blocks) (req : Request) (several : 1 < ratio)
    (small : ratio < 2 ^ 32) (lba : info.lbaSize = ratio * d.logicalPageSize) :
    convertUnit d info b req = .ok { req with
      range := ⟨add64 (mul64 b.slba ratio) info.range.slpn, mul64 b.nlb ratio⟩
      offset := 0
      length := mul64 b.nlb info.lbaSize } := by
  have page_pos := d.logicalPageSize_pos
  have lba_pos : 0 < info.lbaSize := lba ▸ Nat.mul_pos (Nat.zero_lt_of_lt several) page_pos
  have quotient : d.logicalPageSize / info.lbaSize = 0 := by
    apply Nat.div_eq_of_lt
    rw [lba]
    exact (Nat.lt_mul_iff_one_lt_left page_pos).2 several
  have quotient' : info.lbaSize / d.logicalPageSize = ratio := by
    rw [lba, Nat.mul_div_cancel _ page_pos]
  unfold convertUnit
  rw [if_neg lba_pos.ne', quotient, quotient', Nat.mod_eq_of_lt small]
  dsimp only
  rw [if_pos (Nat.zero_mod _)]

theorem blocks_tiled (ratio : Nat) (pos : 0 < ratio) (small : ratio < 2 ^ 32)
    (lba_pos : 0 < info.lbaSize)
    (page : d.logicalPageSize = ratio * info.lbaSize) (positive : 0 < b.nlb) (fits : Fits d info b)
    (req : Request) :
    ∃ req', convertUnit d info b req = .ok req' ∧
      Tiled d.logicalPageSize info.range.slpn (b.slba * info.lbaSize)
        ((b.slba + b.nlb) * info.lbaSize) req'.range.slpn req'.range.nlp
        (pageRequests d.logicalPageSize req') := by
  have off : b.slba % ratio < ratio := Nat.mod_lt _ pos
  have quotient : d.logicalPageSize / info.lbaSize = ratio := by
    rw [page, Nat.mul_div_cancel _ lba_pos]
  have bytes := fits.bytes
  have rounding := fits.rounding
  rw [quotient] at rounding
  have offPositive : 0 < b.nlb + b.slba % ratio := by omega
  obtain ⟨n, rounded, more, enough⟩ := roundUp_bounds pos offPositive
  -- the same bounds in bytes
  have split : b.slba * info.lbaSize =
      b.slba / ratio * d.logicalPageSize + b.slba % ratio * info.lbaSize := by
    rw [page, ← Nat.mul_assoc, ← Nat.add_mul, Nat.div_add_mod']
  have total : (b.slba + b.nlb) * info.lbaSize = b.slba / ratio * d.logicalPageSize +
      (b.slba % ratio * info.lbaSize + b.nlb * info.lbaSize) := by
    rw [Nat.add_mul, split, Nat.add_assoc]
  have in_page : b.slba % ratio * info.lbaSize < d.logicalPageSize := by
    rw [page]
    exact Nat.mul_lt_mul_of_pos_right off lba_pos
  have moreBytes : n * d.logicalPageSize <
      b.slba % ratio * info.lbaSize + b.nlb * info.lbaSize := by
    rw [page, ← Nat.mul_assoc, ← Nat.add_mul, Nat.add_comm (b.slba % ratio)]
    exact Nat.mul_lt_mul_of_pos_right more lba_pos
  have enoughBytes : b.slba % ratio * info.lbaSize + b.nlb * info.lbaSize ≤
      (n + 1) * d.logicalPageSize := by
    rw [page, ← Nat.mul_assoc, ← Nat.add_mul, Nat.add_comm (b.slba % ratio)]
    exact Nat.mul_le_mul_right _ enough
  have numbers : info.range.slpn + b.slba / ratio + (n + 1) ≤ wordSize := by
    apply numbers_of_fits fits
    rw [total, Nat.add_mul]
    omega
  have first_lt : info.range.slpn + b.slba / ratio < wordSize := by omega
  have length_lt : b.nlb * info.lbaSize < wordSize := by omega
  have offset_lt : b.slba % ratio * info.lbaSize < wordSize := by omega
  have nlp : sub64 (add64 (add64 b.nlb (b.slba % ratio)) ratio) 1 / ratio = n + 1 := by
    have inner : add64 b.nlb (b.slba % ratio) = b.nlb + b.slba % ratio :=
      add64_of_lt (by omega)
    rw [inner, sub64_add64_one (by omega) rounding, rounded]
  have run : convertUnit d info b req = .ok { req with
      range := ⟨info.range.slpn + b.slba / ratio, n + 1⟩
      offset := b.slba % ratio * info.lbaSize
      length := b.nlb * info.lbaSize } := by
    rw [Nat.add_comm info.range.slpn] at first_lt ⊢
    rw [convertUnit_parts b req pos small lba_pos page, nlp, add64_of_lt first_lt, mul64, mul64,
      Nat.mod_eq_of_lt length_lt, Nat.mod_eq_of_lt offset_lt]
  have tiled := requests_tiled in_page (Nat.le_add_right info.range.slpn (b.slba / ratio))
    numbers moreBytes enoughBytes (Nat.mul_pos positive lba_pos)
  rw [Nat.add_sub_cancel_left, ← split, ← Nat.add_mul] at tiled
  exact ⟨_, run, tiled⟩

theorem pages_tiled (ratio : Nat) (several : 1 < ratio) (small : ratio < 2 ^ 32)
    (lba : info.lbaSize = ratio * d.logicalPageSize) (positive : 0 < b.nlb)
    (fits : Fits d info b) (req : Request) :
    ∃ req', convertUnit d info b req = .ok req' ∧
      Tiled d.logicalPageSize info.range.slpn (b.slba * info.lbaSize)
        ((b.slba + b.nlb) * info.lbaSize) req'.range.slpn req'.range.nlp
        (pageRequests d.logicalPageSize req') := by
  have page_pos := d.logicalPageSize_pos
  have lba_pos : 0 < info.lbaSize := by
    rw [lba]
    exact Nat.mul_pos (by omega) page_pos
  have bytes := fits.bytes
  obtain ⟨n, hn⟩ := Nat.exists_eq_succ_of_ne_zero
    (Nat.mul_pos positive (by omega : 0 < ratio)).ne'
  have first : b.slba * info.lbaSize = b.slba * ratio * d.logicalPageSize := by
    rw [lba, Nat.mul_assoc]
  have length : b.nlb * info.lbaSize = (n + 1) * d.logicalPageSize := by
    rw [lba, ← Nat.mul_assoc, hn]
  have total : (b.slba + b.nlb) * info.lbaSize =
      (b.slba * ratio + n) * d.logicalPageSize + d.logicalPageSize := by
    rw [Nat.add_mul, first, length, Nat.succ_mul, Nat.add_mul, Nat.add_assoc]
  have numbers : info.range.slpn + b.slba * ratio + (n + 1) ≤ wordSize := by
    apply numbers_of_fits fits
    omega
  have first_lt : info.range.slpn + b.slba * ratio < wordSize := by omega
  have slba_lt : b.slba * ratio < wordSize := by omega
  have length_lt : b.nlb * info.lbaSize < wordSize := by
    rw [Nat.add_mul] at bytes
    omega
  have pages_lt : n.succ < wordSize := by
    rw [length] at length_lt
    exact (Nat.le_mul_of_pos_right _ page_pos).trans_lt length_lt
  have run : convertUnit d info b req = .ok { req with
      range := ⟨info.range.slpn + b.slba * ratio, n + 1⟩
      offset := 0
      length := b.nlb * info.lbaSize } := by
    rw [Nat.add_comm info.range.slpn] at first_lt ⊢
    rw [convertUnit_several b req several small lba, mul64, mul64, mul64,
      Nat.mod_eq_of_lt slba_lt, hn, Nat.mod_eq_of_lt pages_lt, Nat.mod_eq_of_lt length_lt,
      add64_of_lt first_lt]
  have tiled := requests_tiled page_pos (Nat.le_add_right info.range.slpn (b.slba * ratio))
    numbers (by rw [length, Nat.succ_mul]; omega) (by rw [length]; omega)
    (Nat.mul_pos positive lba_pos)
  rw [Nat.add_sub_cancel_left, Nat.add_zero, ← first, ← Nat.add_mul] at tiled
  exact ⟨_, run, tiled⟩

/-- Whatever block and page size, `convertUnit` and the loop of the internal cache layer
make one access for each page, and the accesses are the bytes of the blocks. -/
theorem convertUnit_tiled {p q : Nat} (page : d.logicalPageSize = 2 ^ p) (page_lt : p < 32)
    (lba : info.lbaSize = 2 ^ q) (lba_lt : q < 32) (positive : 0 < b.nlb) (fits : Fits d info b)
    (req : Request) :
    ∃ req', convertUnit d info b req = .ok req' ∧
      Tiled d.logicalPageSize info.range.slpn (b.slba * info.lbaSize)
        ((b.slba + b.nlb) * info.lbaSize) req'.range.slpn req'.range.nlp
        (pageRequests d.logicalPageSize req') := by
  rcases Nat.lt_or_ge p q with larger | smaller
  · apply pages_tiled (2 ^ (q - p))
    · exact Nat.one_lt_two_pow (by omega)
    · exact Nat.pow_lt_pow_right (by decide) (by omega)
    · rw [lba, page, ← Nat.pow_add]
      congr 1
      omega
    · exact positive
    · exact fits
  · apply blocks_tiled (2 ^ (p - q))
    · exact Nat.two_pow_pos _
    · exact Nat.pow_lt_pow_right (by decide) (by omega)
    · rw [lba]
      exact Nat.two_pow_pos q
    · rw [lba, page, ← Nat.pow_add]
      congr 1
      omega
    · exact positive
    · exact fits

/-- Twelve blocks of 512 bytes from block 5 on, on pages of 4096 bytes. -/
theorem convertUnit_tiled_small :
    ∃ req', convertUnit smallDevice { hostInformation 64 with range := ⟨100, 8⟩ } ⟨5, 12⟩
        (.ofPages .read 0 1) = .ok req' ∧
      Tiled 4096 100 2560 8704 req'.range.slpn req'.range.nlp (pageRequests 4096 req') :=
  convertUnit_tiled (d := smallDevice) (b := ⟨5, 12⟩) (p := 12) (q := 9) rfl (by decide) rfl
    (by decide) (by decide) ⟨by decide, by decide, by decide⟩ _

end SimpleSSD.HIL.NVMe.Subsystem
