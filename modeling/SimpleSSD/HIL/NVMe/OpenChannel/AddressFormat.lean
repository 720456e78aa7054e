import SimpleSSD.Foundation.Repeats
import SimpleSSD.HIL.NVMe.OpenChannel.Address

/-!
# What addresses of open-channel drives stand for

The fields of an address come back out of it, addresses put together by the lengths that the drive
reports are those of the drive, and each names one descriptor and one page of the flash.
-/

namespace SimpleSSD.HIL.NVMe

open Foundation PAL

/-- A drive of whole pages, with numbers that stay in their words. -/
structure Drive where
  cfg : PAL.Config
  channel : 0 < cfg.channel
  package : 0 < cfg.package
  die : 0 < cfg.die
  plane : 0 < cfg.plane
  block : 0 < cfg.block
  page : 0 < cfg.page
  pageSize : 0 < cfg.pageSize
  whole : lbaSize ∣ cfg.pageSize
  chunks : cfg.channel * (cfg.package * cfg.die) * (cfg.block * cfg.plane) < 2 ^ 32
  bytes : cfg.page * (cfg.pageSize * cfg.plane) < 2 ^ 32

namespace Drive

variable (d : Drive)

abbrev geometry : Geometry := Geometry.of d.cfg

def planes : Nat := if d.cfg.useMultiPlaneOperation then d.cfg.plane else 1

def chunkPlanes : Nat := if d.cfg.useMultiPlaneOperation then 1 else d.cfg.plane

theorem planes_pos : 0 < d.planes := by
  have := d.plane
  unfold planes
  split <;> omega

theorem chunkPlanes_pos : 0 < d.chunkPlanes := by
  have := d.plane
  unfold chunkPlanes
  split <;> omega

theorem superPageSize_eq : superPageSize d.cfg = d.cfg.pageSize * d.planes := by
  have small : d.cfg.pageSize * d.cfg.plane < 2 ^ 32 :=
    (Nat.le_mul_of_pos_left _ d.page).trans_lt d.bytes
  unfold superPageSize planes
  split
  · exact Nat.mod_eq_of_lt small
  · exact (Nat.mul_one _).symm

theorem superPageSize_pos : 0 < superPageSize d.cfg := by
  rw [superPageSize_eq]
  exact Nat.mul_pos d.pageSize d.planes_pos

theorem writeSize_mul : d.geometry.writeSize * lbaSize = superPageSize d.cfg := by
  refine Nat.div_mul_cancel ?_
  rw [superPageSize_eq]
  exact d.whole.mul_right _

theorem writeSize_pos : 0 < d.geometry.writeSize := by
  refine Nat.pos_of_ne_zero fun none => ?_
  have size := d.writeSize_mul
  rw [none, Nat.zero_mul] at size
  exact d.superPageSize_pos.ne size

theorem page_bytes : d.cfg.page * superPageSize d.cfg < 2 ^ 32 := by
  rw [superPageSize_eq]
  refine (Nat.mul_le_mul_left _ (Nat.mul_le_mul_left _ ?_)).trans_lt d.bytes
  have := d.plane
  unfold planes
  split <;> omega

theorem chunkSize_eq :
    d.geometry.chunkSize = d.cfg.page * d.geometry.writeSize := by
  have whole : d.cfg.page * superPageSize d.cfg =
      d.cfg.page * d.geometry.writeSize * lbaSize := by
    rw [Nat.mul_assoc, d.writeSize_mul]
  change d.cfg.page * superPageSize d.cfg % 2 ^ 32 / lbaSize = _
  rw [Nat.mod_eq_of_lt d.page_bytes, whole, Nat.mul_div_cancel _ (by decide : 0 < lbaSize)]

theorem total_lt : d.cfg.channel * (d.cfg.package * d.cfg.die) * (d.cfg.block * d.chunkPlanes) <
    2 ^ 32 := by
  refine (Nat.mul_le_mul_left _ (Nat.mul_le_mul_left _ ?_)).trans_lt d.chunks
  have := d.plane
  unfold chunkPlanes
  split <;> omega

theorem chunk_pos : 0 < d.cfg.block * d.chunkPlanes := Nat.mul_pos d.block d.chunkPlanes_pos

theorem parallelUnit_eq : d.geometry.parallelUnit = d.cfg.package * d.cfg.die := by
  refine Nat.mod_eq_of_lt (Nat.lt_of_le_of_lt ?_ d.total_lt)
  rw [Nat.mul_assoc]
  exact (Nat.le_mul_of_pos_right _ d.chunk_pos).trans (Nat.le_mul_of_pos_left _ d.channel)

theorem chunk_eq : d.geometry.chunk = d.cfg.block * d.chunkPlanes := by
  refine Nat.mod_eq_of_lt (Nat.lt_of_le_of_lt ?_ d.total_lt)
  exact Nat.le_mul_of_pos_left _ (Nat.mul_pos d.channel (Nat.mul_pos d.package d.die))

theorem sizes_lt : d.geometry.group * d.geometry.parallelUnit *
    d.geometry.chunk < 2 ^ 32 := by
  rw [d.parallelUnit_eq, d.chunk_eq]
  exact d.total_lt

theorem group_lt : d.geometry.group < 2 ^ 32 := by
  have units : 0 < d.cfg.package * d.cfg.die := Nat.mul_pos d.package d.die
  refine Nat.lt_of_le_of_lt ?_ d.total_lt
  rw [Nat.mul_assoc]
  exact Nat.le_mul_of_pos_right _ (Nat.mul_pos units d.chunk_pos)

theorem parallelUnit_lt : d.geometry.parallelUnit < 2 ^ 32 := Nat.mod_lt _ (by decide)

theorem chunk_lt : d.geometry.chunk < 2 ^ 32 := Nat.mod_lt _ (by decide)

theorem chunkSize_lt : d.geometry.chunkSize < 2 ^ 32 :=
  (Nat.div_le_self _ _).trans_lt (Nat.mod_lt _ (by decide))

theorem clog_le {val : Nat} (word : val < 2 ^ 32) : Nat.clog 2 val ≤ 32 :=
  Nat.clog_le_of_le_pow word.le

end Drive

theorem Mask.cut_fieldMask {word shift width : Nat} (narrow : width ≤ 32) :
    Mask.cut word (fieldMask shift width) shift = (word &&& fieldMask shift width) >>> shift := by
  rw [Mask.cut, and_fieldMask_shiftRight]
  refine Nat.mod_eq_of_lt ((Nat.mod_lt _ (Nat.two_pow_pos width)).trans_le ?_)
  exact Nat.pow_le_pow_right (by decide) narrow

theorem lt_two_pow_clog {n size : Nat} (small : n < size) : n < 2 ^ Nat.clog 2 size :=
  small.trans_le (Nat.le_pow_clog (by decide) _)

theorem two_pow_clog_le {n : Nat} (pos : 0 < n) : 2 ^ Nat.clog 2 n ≤ 2 * n := by
  rcases Nat.eq_or_lt_of_le (Nat.succ_le_of_lt pos) with one | more
  · rw [← one]
    decide
  · have less := Nat.pow_pred_clog_lt_self (by decide : 1 < 2) more
    have step := Nat.clog_pos (by decide : 1 < 2) more
    rw [← Nat.succ_pred_eq_of_pos step, Nat.pow_succ]
    omega

theorem two_pow_sum_clog_le {sizes : List Nat} (pos : ∀ size ∈ sizes, 0 < size) :
    2 ^ (sizes.map (Nat.clog 2)).sum ≤ 2 ^ sizes.length * sizes.prod := by
  induction sizes with
  | nil => exact le_rfl
  | cons size rest ih =>
      obtain ⟨first, later⟩ := List.forall_mem_cons.1 pos
      rw [List.map_cons, List.sum_cons, Nat.pow_add, List.length_cons, List.prod_cons]
      calc 2 ^ Nat.clog 2 size * 2 ^ (rest.map (Nat.clog 2)).sum
          ≤ 2 * size * (2 ^ rest.length * rest.prod) :=
            Nat.mul_le_mul (two_pow_clog_le first) (ih later)
        _ = 2 ^ (rest.length + 1) * (size * rest.prod) := by ring

theorem shiftLeft_and_clog {n size shift : Nat} (small : n < size) :
    n <<< shift &&& fieldMask shift (Nat.clog 2 size) = n <<< shift := by
  rw [shiftLeft_and_fieldMask, Nat.mod_eq_of_lt (lt_two_pow_clog small)]

/-! ## Version 2.0 -/

namespace OpenChannelSSD20

variable (d : Drive)

def widths : List Nat :=
  [Nat.clog 2 d.geometry.chunkSize, Nat.clog 2 d.geometry.chunk,
    Nat.clog 2 d.geometry.parallelUnit, Nat.clog 2 d.geometry.group]

def fields (a : ChunkAddress) : List Nat := [a.l, a.c, a.p, a.g]

structure Holds (a : ChunkAddress) : Prop where
  g : a.g < d.geometry.group
  p : a.p < d.geometry.parallelUnit
  c : a.c < d.geometry.chunk
  l : a.l < d.geometry.chunkSize

abbrev descriptorOf (a : ChunkAddress) : Nat := getChunkDescriptor d.geometry a.g a.p a.c

variable {d} {a b : ChunkAddress}

theorem Holds.fits (ha : Holds d a) :
    List.Forall₂ (fun width value => value < 2 ^ width) (widths d) (fields a) := by
  exact .cons (lt_two_pow_clog ha.l) (.cons (lt_two_pow_clog ha.c)
    (.cons (lt_two_pow_clog ha.p) (.cons (lt_two_pow_clog ha.g) .nil)))

theorem ppaMask_eq (fits : (widths d).sum ≤ 32) :
    let s := Nat.clog 2 d.geometry.chunkSize
    let c := Nat.clog 2 d.geometry.chunk
    let p := Nat.clog 2 d.geometry.parallelUnit
    let g := Nat.clog 2 d.geometry.group
    ppaMask d.cfg =
      { padding := 0, channelMask := fieldMask (s + c + p) g, channelShift := s + c + p
        wayMask := fieldMask (s + c) p, wayShift := s + c
        dieMask := 0, dieShift := 0, planeMask := 0, planeShift := 0
        blockMask := fieldMask s c, blockShift := s, pageMask := 0, pageShift := 0
        sectorMask := fieldMask 0 s } := by
  intro s c p g
  have sum : s + (c + (p + g)) ≤ 32 := by simpa [widths] using fits
  simp only [ppaMask]
  rw [generateMask_eq d.chunkSize_lt (by omega), Nat.zero_add,
    generateMask_eq d.chunk_lt (by omega), generateMask_eq d.parallelUnit_lt (by omega),
    generateMask_eq d.group_lt (by omega)]

theorem makeLBA_eq (fits : (widths d).sum ≤ 32) (a : ChunkAddress) :
    makeLBA (ppaMask d.cfg) a = packFields 0 (widths d) (fields a) := by
  have sum := fits
  simp only [widths, List.sum_cons, List.sum_nil] at sum
  rw [makeLBA, ppaMask_eq fits]
  simp only [widths, fields, packFields, Nat.zero_add, Nat.shiftLeft_zero, Nat.or_zero]
  rw [mod_two_pow_and_fieldMask (by omega), mod_two_pow_and_fieldMask (by omega),
    mod_two_pow_and_fieldMask (by omega), Nat.or_assoc, Nat.or_assoc]

theorem parseLBA_eq (fits : (widths d).sum ≤ 32) (lba : Nat) :
    fields (parseLBA (ppaMask d.cfg) lba) = unpackFields 0 (widths d) lba := by
  have sector : (lba &&& fieldMask 0 (Nat.clog 2 d.geometry.chunkSize)) % 2 ^ 32 =
      lba &&& fieldMask 0 (Nat.clog 2 d.geometry.chunkSize) := by
    have cut := @Mask.cut_fieldMask lba 0 _ (Drive.clog_le d.chunkSize_lt)
    simpa [Mask.cut] using cut
  rw [fields, parseLBA, ppaMask_eq fits]
  simp only [widths, unpackFields, Nat.zero_add, Nat.shiftRight_zero, sector,
    Mask.cut_fieldMask (Drive.clog_le d.chunk_lt),
    Mask.cut_fieldMask (Drive.clog_le d.parallelUnit_lt),
    Mask.cut_fieldMask (Drive.clog_le d.group_lt)]

theorem fields_injective : Function.Injective fields := by
  rintro ⟨g, p, c, l⟩ ⟨g', p', c', l'⟩ same
  simp only [fields, List.cons.injEq] at same
  simp [same]

theorem parseLBA_makeLBA (fits : (widths d).sum ≤ 32) (ha : Holds d a) :
    parseLBA (ppaMask d.cfg) (makeLBA (ppaMask d.cfg) a) = a := by
  refine fields_injective ?_
  rw [parseLBA_eq fits, makeLBA_eq fits, unpackFields_packFields ha.fits]

/-! ### The chunk log -/

theorem mem_chunks (structure' : Geometry) (g p c : Nat) : (g, p, c) ∈ chunks structure' ↔
    g < structure'.group ∧ p < structure'.parallelUnit ∧ c < structure'.chunk := by
  simp [chunks]

theorem getChunkDescriptor_eq (ha : Holds d a) :
    descriptorOf d a = Digits.value
      [d.geometry.group, d.geometry.parallelUnit, d.geometry.chunk]
      [a.g, a.p, a.c] := by
  have below := Digits.value_lt (.cons ha.g (.cons ha.p (.cons ha.c .nil)))
  simp only [List.prod_cons, List.prod_nil, Nat.mul_one, ← Nat.mul_assoc] at below
  have word := below.trans d.sizes_lt
  simp only [Digits.value, List.prod_cons, List.prod_nil, Nat.mul_one, Nat.add_zero,
    ← Nat.mul_assoc] at word ⊢
  rw [descriptorOf, getChunkDescriptor, Nat.mod_eq_of_lt (by omega)]
  omega

theorem getChunkDescriptor_injective (ha : Holds d a) (hb : Holds d b)
    (same : descriptorOf d a = descriptorOf d b) :
    a.g = b.g ∧ a.p = b.p ∧ a.c = b.c := by
  rw [getChunkDescriptor_eq ha, getChunkDescriptor_eq hb] at same
  have digits := congrArg (Digits.split [d.geometry.group,
    d.geometry.parallelUnit, d.geometry.chunk]) same
  rw [Digits.split_value (.cons ha.g (.cons ha.p (.cons ha.c .nil))),
    Digits.split_value (.cons hb.g (.cons hb.p (.cons hb.c .nil)))] at digits
  simpa using digits

theorem getChunkDescriptor_lt (ha : Holds d a) :
    descriptorOf d a < (initDescriptors d.cfg).length := by
  have below := Digits.value_lt (.cons ha.g (.cons ha.p (.cons ha.c .nil)))
  simp only [List.prod_cons, List.prod_nil, Nat.mul_one, ← Nat.mul_assoc] at below
  rw [getChunkDescriptor_eq ha, initDescriptors, length_foldl_set, List.length_replicate,
    descriptorLength, Nat.mod_eq_of_lt d.sizes_lt]
  exact below

theorem exists_chunk {i : Nat} (inside : i < (initDescriptors d.cfg).length) :
    ∃ a, Holds d a ∧ i = descriptorOf d a := by
  have less : i < [d.geometry.group, d.geometry.parallelUnit,
      d.geometry.chunk].prod := by
    rw [initDescriptors, length_foldl_set, List.length_replicate, descriptorLength,
      Nat.mod_eq_of_lt d.sizes_lt] at inside
    simpa [Nat.mul_assoc] using inside
  have value := Digits.value_split less
  have digits := Digits.split_lt less
  simp only [Digits.split, List.forall₂_cons, List.forall₂_nil_left_iff, and_true] at digits value
  obtain ⟨hg, hp, hc⟩ := digits
  have whole : 0 < d.geometry.chunkSize := by
    rw [d.chunkSize_eq]
    exact Nat.mul_pos d.page d.writeSize_pos
  have holds : Holds d ⟨_, _, _, 0⟩ := ⟨hg, hp, hc, whole⟩
  exact ⟨_, holds, value.symm.trans (getChunkDescriptor_eq holds).symm⟩

theorem initDescriptors_getElem (ha : Holds d a) :
    (initDescriptors d.cfg)[descriptorOf d a]? =
      some ⟨some .free, 0x01, makeLBA (ppaMask d.cfg) { a with l := 0 },
        d.geometry.chunkSize, 0⟩ := by
  have start : ∀ {g p c}, (g, p, c) ∈ chunks d.geometry → Holds d ⟨g, p, c, 0⟩ := by
    intro g p c mem
    obtain ⟨hg, hp, hc⟩ := (mem_chunks _ g p c).1 mem
    exact ⟨hg, hp, hc, (Nat.zero_le a.l).trans_lt ha.l⟩
  refine getElem?_foldl_set
    (fun x : Nat × Nat × Nat => getChunkDescriptor d.geometry x.1 x.2.1 x.2.2)
    (fun x : Nat × Nat × Nat => (⟨some .free, 0x01, makeLBA (ppaMask d.cfg) ⟨x.1, x.2.1, x.2.2, 0⟩,
      d.geometry.chunkSize, 0⟩ : ChunkDescriptor)) ?_
    ((mem_chunks _ a.g a.p a.c).2 ⟨ha.g, ha.p, ha.c⟩) ?_
  · rintro ⟨g, p, c⟩ hx ⟨g', p', c'⟩ hy same
    obtain ⟨rfl, rfl, rfl⟩ := getChunkDescriptor_injective (start hx) (start hy) same
    rfl
  · have room := getChunkDescriptor_lt ha
    rwa [initDescriptors, length_foldl_set] at room

theorem makeLBA_sector (fits : (widths d).sum ≤ 32) (ha : Holds d a) :
    ∃ n, makeLBA (ppaMask d.cfg) a = 2 ^ Nat.clog 2 d.geometry.chunkSize * n + a.l ∧
      makeLBA (ppaMask d.cfg) { a with l := 0 } =
        2 ^ Nat.clog 2 d.geometry.chunkSize * n := by
  have small := lt_two_pow_clog ha.l
  rw [makeLBA_eq fits, makeLBA_eq fits]
  exact ⟨_, packFields_cons small, packFields_cons (Nat.two_pow_pos _)⟩

theorem covers_iff (fits : (widths d).sum ≤ 32) (ha : Holds d a) (hb : Holds d b) :
    (makeLBA (ppaMask d.cfg) { b with l := 0 } ≤ makeLBA (ppaMask d.cfg) a ∧
      makeLBA (ppaMask d.cfg) a <
        makeLBA (ppaMask d.cfg) { b with l := 0 } + d.geometry.chunkSize) ↔
      a.g = b.g ∧ a.p = b.p ∧ a.c = b.c := by
  obtain ⟨m, sector, start⟩ := makeLBA_sector fits ha
  obtain ⟨n, -, start'⟩ := makeLBA_sector fits hb
  have below : d.geometry.chunkSize ≤ 2 ^ Nat.clog 2 d.geometry.chunkSize :=
    Nat.le_pow_clog (by decide) _
  have zero : ∀ {x}, Holds d x → Holds d { x with l := 0 } := fun h =>
    ⟨h.g, h.p, h.c, (Nat.zero_le _).trans_lt h.l⟩
  constructor
  · rintro ⟨least, less⟩
    rw [sector, start'] at least less
    have same : m = n := by
      set unit := 2 ^ Nat.clog 2 d.geometry.chunkSize
      have low := ha.l
      refine Nat.le_antisymm ?_ ?_
      · by_contra above
        have step : unit * (n + 1) ≤ unit * m := Nat.mul_le_mul_left _ (by omega)
        rw [Nat.mul_succ] at step
        omega
      · by_contra above
        have step : unit * (m + 1) ≤ unit * n := Nat.mul_le_mul_left _ (by omega)
        rw [Nat.mul_succ] at step
        omega
    have equal : makeLBA (ppaMask d.cfg) { a with l := 0 } =
        makeLBA (ppaMask d.cfg) { b with l := 0 } := by rw [start, start', same]
    have back := congrArg (parseLBA (ppaMask d.cfg)) equal
    rw [parseLBA_makeLBA fits (zero ha), parseLBA_makeLBA fits (zero hb)] at back
    simpa using back
  · rintro ⟨hg, hp, hc⟩
    have equal : ({ b with l := 0 } : ChunkAddress) = { a with l := 0 } := by simp [hg, hp, hc]
    rw [equal, sector, start]
    have := ha.l
    omega

/-! ### Pages -/

structure InFlash (d : Drive) (addr : CPDPBP) : Prop where
  channel : addr.channel < d.cfg.channel
  package : addr.package < d.cfg.package
  die : addr.die < d.cfg.die
  plane : addr.plane < d.chunkPlanes
  block : addr.block < d.cfg.block
  page : addr.page < d.cfg.page

def pageOf (cfg : PAL.Config) (a : ChunkAddress) : CPDPBP where
  channel := a.g
  package := a.p / cfg.die
  die := a.p % cfg.die
  plane := if cfg.useMultiPlaneOperation then 0 else a.c % cfg.plane
  block := if cfg.useMultiPlaneOperation then a.c else a.c / cfg.plane
  page := a.l / (Geometry.of cfg).writeSize

theorem convert_makeLBA (fits : (widths d).sum ≤ 32) (ha : Holds d a) :
    convert d.cfg (makeLBA (ppaMask d.cfg) a) = (pageOf d.cfg a,
      ⟨descriptorOf d a,
        a.l / d.geometry.writeSize⟩) := by
  rw [convert, parseLBA_makeLBA fits ha]
  rfl

theorem pageOf_inFlash (ha : Holds d a) : InFlash d (pageOf d.cfg a) := by
  have units : a.p < d.cfg.die * d.cfg.package := by
    rw [Nat.mul_comm, ← d.parallelUnit_eq]
    exact ha.p
  have chunks := d.chunk_eq ▸ ha.c
  have sectors : a.l < d.geometry.writeSize * d.cfg.page := by
    rw [Nat.mul_comm, ← d.chunkSize_eq]
    exact ha.l
  constructor
  case channel => exact ha.g
  case package => exact Nat.div_lt_of_lt_mul units
  case die => exact Nat.mod_lt _ d.die
  case plane =>
    unfold pageOf Drive.chunkPlanes
    dsimp only
    split
    · exact Nat.one_pos
    · exact Nat.mod_lt _ d.plane
  case block =>
    unfold pageOf
    unfold Drive.chunkPlanes at chunks
    dsimp only
    split at chunks
    next multi => simpa [multi] using chunks
    next single => simpa [single] using Nat.div_lt_of_lt_mul (Nat.mul_comm _ _ ▸ chunks)
  case page => exact Nat.div_lt_of_lt_mul sectors

/-- Sectors share a page exactly if they are in the same write unit of the same chunk. -/
theorem pageOf_eq_iff : pageOf d.cfg a = pageOf d.cfg b ↔
    a.g = b.g ∧ a.p = b.p ∧ a.c = b.c ∧
      a.l / d.geometry.writeSize = b.l / d.geometry.writeSize := by
  have recombine : ∀ {m n k : Nat}, m / k = n / k → m % k = n % k → m = n := by
    intro m n k quotient remainder
    rw [← Nat.div_add_mod m k, quotient, remainder, Nat.div_add_mod]
  constructor
  · intro same
    simp only [pageOf, CPDPBP.mk.injEq] at same
    obtain ⟨hg, hpackage, hdie, hplane, hblock, hpage⟩ := same
    refine ⟨hg, recombine hpackage hdie, ?_, hpage⟩
    split at hblock
    next multi => exact hblock
    next single =>
      rw [if_neg single, if_neg single] at hplane
      exact recombine hblock hplane
  · rintro ⟨hg, hp, hc, hpage⟩
    simp [pageOf, hg, hp, hc, hpage]

/-! ### Addresses of the host -/

def hostLBA (page : GeometryPage) (a : ChunkAddress) : Nat :=
  a.l ||| a.c <<< page.sectorBits ||| a.p <<< (page.sectorBits + page.chunkBits) |||
    a.g <<< (page.sectorBits + page.chunkBits + page.parallelUnitBits)

theorem hostLBA_eq (fits : (widths d).sum ≤ 32) (ha : Holds d a) :
    hostLBA (geometry d.cfg) a = makeLBA (ppaMask d.cfg) a := by
  have sum := fits
  simp only [widths, List.sum_cons, List.sum_nil] at sum
  rw [makeLBA_eq fits, hostLBA, geometry, ppaMask_eq fits]
  simp only [widths, fields, packFields, Nat.zero_add, Nat.or_zero, shiftLeft_and_clog ha.l,
    shiftLeft_and_clog ha.c, shiftLeft_and_clog ha.p, shiftLeft_and_clog ha.g]
  rw [popcount64_fieldMask (by omega), popcount64_fieldMask (by omega),
    popcount64_fieldMask (by omega), Nat.shiftLeft_zero, Nat.or_assoc, Nat.or_assoc]

/-- An address that the host puts together by the lengths of the geometry page has its fields in
the drive, it belongs to the one descriptor of the chunk log whose sectors reach to it, and to a
page of the flash that it shares with no sectors but those of its write unit. -/
theorem addresses_agree (fits : (widths d).sum ≤ 32) (ha : Holds d a) :
    let lba := hostLBA (geometry d.cfg) a
    parseLBA (ppaMask d.cfg) lba = a ∧
      (∀ i desc, (initDescriptors d.cfg)[i]? = some desc →
        (desc.slba ≤ lba ∧ lba < desc.slba + desc.nlb ↔ i = (convert d.cfg lba).2.pDesc)) ∧
      (convert d.cfg lba).2.pDesc < (initDescriptors d.cfg).length ∧
      InFlash d (convert d.cfg lba).1 ∧
      ∀ b, Holds d b → ((convert d.cfg (hostLBA (geometry d.cfg) b)).1 = (convert d.cfg lba).1 ↔
        b.g = a.g ∧ b.p = a.p ∧ b.c = a.c ∧
          b.l / d.geometry.writeSize = a.l / d.geometry.writeSize) := by
  intro lba
  have same : lba = makeLBA (ppaMask d.cfg) a := hostLBA_eq fits ha
  rw [same, convert_makeLBA fits ha]
  refine ⟨parseLBA_makeLBA fits ha, fun i desc stands => ?_, getChunkDescriptor_lt ha,
    pageOf_inFlash ha, fun b hb => ?_⟩
  · obtain ⟨b, hb, rfl⟩ := exists_chunk (List.getElem?_eq_some_iff.1 stands).1
    rw [initDescriptors_getElem hb, Option.some.injEq] at stands
    subst stands
    rw [covers_iff fits ha hb]
    constructor
    · rintro ⟨hg, hp, hc⟩
      rw [descriptorOf, ← hg, ← hp, ← hc]
    · intro place
      exact getChunkDescriptor_injective ha hb place.symm
  · rw [hostLBA_eq fits hb, convert_makeLBA fits hb]
    exact pageOf_eq_iff

/-- Two groups of six chunks on two planes, with four pages of two sectors each. -/
def twoGroups : Drive where
  cfg := ⟨2, 1, 1, 2, 3, 4, 8192, false, fun _ => false, []⟩
  channel := by decide
  package := by decide
  die := by decide
  plane := by decide
  block := by decide
  page := by decide
  pageSize := by decide
  whole := by decide
  chunks := by decide
  bytes := by decide

theorem addresses_agree_last_sector :
    hostLBA (geometry twoGroups.cfg) ⟨1, 0, 5, 7⟩ = 0b1101111 ∧
      parseLBA (ppaMask twoGroups.cfg) 0b1101111 = ⟨1, 0, 5, 7⟩ ∧
      (convert twoGroups.cfg 0b1101111).1 = ⟨1, 0, 0, 1, 2, 3⟩ ∧
      ∀ i desc, (initDescriptors twoGroups.cfg)[i]? = some desc →
        (desc.slba ≤ 0b1101111 ∧ 0b1101111 < desc.slba + desc.nlb ↔ i = 11) := by
  have word : hostLBA (geometry twoGroups.cfg) ⟨1, 0, 5, 7⟩ = 0b1101111 := by decide +kernel
  have entry : (convert twoGroups.cfg 0b1101111).2.pDesc = 11 := by decide +kernel
  have agree := addresses_agree (d := twoGroups) (a := ⟨1, 0, 5, 7⟩) (by decide +kernel)
    ⟨by decide, by decide, by decide, by decide⟩
  rw [word] at agree
  refine ⟨word, agree.1, by decide +kernel, fun i desc stands => ?_⟩
  rw [agree.2.1 i desc stands, entry]

end OpenChannelSSD20

/-! ## Version 1.2 -/

namespace OpenChannelSSD12

open OpenChannelSSD20 (Holds pageOf pageOf_inFlash)

variable (d : Drive)

def widths : List Nat :=
  [Nat.clog 2 d.geometry.writeSize, Nat.clog 2 d.cfg.page,
    Nat.clog 2 d.geometry.chunk, Nat.clog 2 d.geometry.parallelUnit,
    Nat.clog 2 d.geometry.group]

def fields (a : ChunkAddress) : List Nat :=
  [a.l % d.geometry.writeSize, a.l / d.geometry.writeSize, a.c, a.p, a.g]

variable {d} {a : ChunkAddress}

theorem writeSize_lt : d.geometry.writeSize < 2 ^ 32 := by
  refine (Nat.div_le_self _ _).trans_lt ((Nat.le_mul_of_pos_left _ d.page).trans_lt d.page_bytes)

theorem page_lt : d.cfg.page < 2 ^ 32 :=
  (Nat.le_mul_of_pos_right _ d.superPageSize_pos).trans_lt d.page_bytes

theorem pages_lt (ha : Holds d a) : a.l / d.geometry.writeSize < d.cfg.page :=
  (pageOf_inFlash ha).page

theorem fits_fields (ha : Holds d a) :
    List.Forall₂ (fun width value => value < 2 ^ width) (widths d) (fields d a) := by
  exact .cons (lt_two_pow_clog (Nat.mod_lt _ d.writeSize_pos)) (.cons
    (lt_two_pow_clog (pages_lt ha)) (.cons (lt_two_pow_clog ha.c) (.cons (lt_two_pow_clog ha.p)
      (.cons (lt_two_pow_clog ha.g) .nil))))

/-- A block takes less than 2^32 bytes, and there are less than 2^32 chunks. -/
theorem widths_fit (d : Drive) : (widths d).sum ≤ 64 := by
  have sectors : d.geometry.writeSize * d.cfg.page ≤ 2 ^ 20 := by
    have bytes := d.page_bytes
    rw [← d.writeSize_mul, ← Nat.mul_assoc, Nat.mul_comm d.cfg.page] at bytes
    exact (Nat.lt_of_mul_lt_mul_right (a := lbaSize) bytes).le
  have units : d.geometry.chunk * (d.geometry.parallelUnit * d.geometry.group) ≤ 2 ^ 32 := by
    rw [Nat.mul_comm, Nat.mul_comm d.geometry.parallelUnit]
    exact d.sizes_lt.le
  have pos : ∀ size ∈ [d.geometry.writeSize, d.cfg.page, d.geometry.chunk,
      d.geometry.parallelUnit, d.geometry.group], 0 < size := by
    have chunk : 0 < d.geometry.chunk := d.chunk_eq ▸ d.chunk_pos
    have unit : 0 < d.geometry.parallelUnit :=
      d.parallelUnit_eq ▸ Nat.mul_pos d.package d.die
    simpa using ⟨d.writeSize_pos, d.page, chunk, unit, d.channel⟩
  refine (Nat.pow_le_pow_iff_right (by decide : 1 < 2)).1 ((two_pow_sum_clog_le pos).trans ?_)
  rw [List.prod_cons, List.prod_cons, List.prod_cons, List.prod_cons, List.prod_singleton,
    ← Nat.mul_assoc d.geometry.writeSize]
  calc 2 ^ 5 * (d.geometry.writeSize * d.cfg.page *
        (d.geometry.chunk * (d.geometry.parallelUnit * d.geometry.group)))
      ≤ 2 ^ 5 * (2 ^ 20 * 2 ^ 32) := Nat.mul_le_mul_left _ (Nat.mul_le_mul sectors units)
    _ ≤ 2 ^ 64 := by decide

theorem ppaMask_eq :
    let s := Nat.clog 2 d.geometry.writeSize
    let pg := Nat.clog 2 d.cfg.page
    let c := Nat.clog 2 d.geometry.chunk
    let p := Nat.clog 2 d.geometry.parallelUnit
    let g := Nat.clog 2 d.geometry.group
    ppaMask d.cfg =
      { padding := 2 ^ 64 - 1 - fieldMask 0 (widths d).sum
        channelMask := fieldMask (s + pg + c + p) g, channelShift := s + pg + c + p
        wayMask := fieldMask (s + pg + c) p, wayShift := s + pg + c
        dieMask := 0, dieShift := s + pg + c, planeMask := 0, planeShift := s + pg + c
        blockMask := fieldMask (s + pg) c, blockShift := s + pg
        pageMask := fieldMask s pg, pageShift := s
        sectorMask := fieldMask 0 s } := by
  intro s pg c p g
  have fits := widths_fit d
  have sum : (widths d).sum = s + (pg + (c + (p + g))) := by simp [widths, s, pg, c, p, g]
  have joined : fieldMask 0 s ^^^ fieldMask s pg ^^^ fieldMask (s + pg) c ^^^ 0 ^^^ 0 ^^^
      fieldMask (s + pg + c) p ^^^ fieldMask (s + pg + c + p) g = fieldMask 0 (widths d).sum := by
    have join := fun first second => fieldMask_xor 0 first second
    simp only [Nat.zero_add] at join
    rw [Nat.xor_zero, Nat.xor_zero, join, join, join, join, sum]
    simp only [Nat.add_assoc]
  have page : generateMask (superPageSize d.cfg / lbaSize) 0 = (fieldMask 0 s, 0 + s) :=
    generateMask_eq writeSize_lt (by rw [Nat.zero_add]; exact (by omega : s ≤ 64))
  simp only [ppaMask, page, Nat.zero_add]
  rw [generateMask_eq page_lt (by omega), generateMask_eq d.chunk_lt (by omega),
    generateMask_eq d.parallelUnit_lt (by omega), generateMask_eq d.group_lt (by omega)]
  simp only [← joined]
  rfl

theorem padding_iff {bits ppa : Nat} (within : bits ≤ 64) (word : ppa < 2 ^ 64) :
    ppa &&& (2 ^ 64 - 1 - fieldMask 0 bits) = 0 ↔ ppa < 2 ^ bits := by
  have padding : 2 ^ 64 - 1 - fieldMask 0 bits = fieldMask bits (64 - bits) := by
    have power : 2 ^ bits * 2 ^ (64 - bits) = 2 ^ 64 := by
      rw [← Nat.pow_add, Nat.add_sub_cancel' within]
    have least := Nat.one_le_two_pow (n := bits)
    simp only [fieldMask, Nat.shiftLeft_eq, Nat.sub_mul, Nat.pow_zero, Nat.mul_one]
    rw [Nat.mul_comm (2 ^ (64 - bits)), power]
    omega
  rw [padding]
  constructor
  · intro clear
    refine Nat.lt_pow_two_of_testBit _ fun i above => ?_
    have bit := congrArg (Nat.testBit · i) clear
    simp only [Nat.testBit_and, testBit_fieldMask, Nat.zero_testBit] at bit
    rcases Nat.lt_or_ge i 64 with inside | beyond
    · have used : bits ≤ i ∧ i < bits + (64 - bits) := by omega
      simpa [used] using bit
    · exact Nat.testBit_lt_two_pow (word.trans_le (Nat.pow_le_pow_right (by decide) beyond))
  · intro small
    refine Nat.eq_of_testBit_eq fun i => ?_
    simp only [Nat.testBit_and, testBit_fieldMask, Nat.zero_testBit]
    rcases Nat.lt_or_ge i bits with inside | beyond
    · have unused : ¬ bits ≤ i := Nat.not_le.2 inside
      simp [unused]
    · rw [Nat.testBit_lt_two_pow (small.trans_le (Nat.pow_le_pow_right (by decide) beyond)),
        Bool.false_and]

def hostPPA (format : PPAFormat) (writeSize : Nat) (a : ChunkAddress) : Nat :=
  (a.l % writeSize) <<< format.sector.1 ||| (a.l / writeSize) <<< format.page.1 |||
    a.c <<< format.block.1 ||| a.p <<< format.lun.1 ||| a.g <<< format.channel.1

theorem hostPPA_eq (ha : Holds d a) :
    hostPPA (deviceIdentification (ppaMask d.cfg)) d.geometry.writeSize a =
      packFields 0 (widths d) (fields d a) := by
  have sum := widths_fit d
  simp only [widths, List.sum_cons, List.sum_nil] at sum
  set before := Nat.clog 2 d.geometry.writeSize + Nat.clog 2 d.cfg.page +
    Nat.clog 2 d.geometry.chunk with hbefore
  -- a drive with one unit reports an offset that its only unit does not use
  have lun : a.p <<< ((ffsl (fieldMask before (Nat.clog 2 d.geometry.parallelUnit)) + 255)
      % 2 ^ 8) = a.p <<< before := by
    rcases Nat.eq_zero_or_pos (Nat.clog 2 d.geometry.parallelUnit) with none | some'
    · have only : a.p = 0 := by
        have small := lt_two_pow_clog ha.p
        rw [none] at small
        omega
      simp [only]
    · rw [ffsl_fieldMask some' (by omega)]
      congr 1
      omega
  rw [hostPPA, deviceIdentification, ppaMask_eq]
  simp only [widths, fields, packFields, Nat.zero_add, Nat.or_zero, shiftLeft_and_clog ha.c,
    shiftLeft_and_clog ha.p, shiftLeft_and_clog ha.g,
    shiftLeft_and_clog (Nat.mod_lt a.l d.writeSize_pos), shiftLeft_and_clog (pages_lt ha),
    ← hbefore, lun]
  have byte : ∀ {n}, n ≤ 64 → n % 2 ^ 8 = n := fun h => Nat.mod_eq_of_lt (by omega)
  rw [byte (by omega), byte (by omega), byte (by omega), Nat.or_assoc, Nat.or_assoc,
    Nat.or_assoc]

theorem parsePPA_eq {ppa : Nat} (word : ppa < 2 ^ 64) :
    parsePPA (ppaMask d.cfg) ppa =
      if ppa < 2 ^ (widths d).sum then
        some ⟨(unpackFields 0 (widths d) ppa)[4]!, (unpackFields 0 (widths d) ppa)[3]!, 0, 0,
          (unpackFields 0 (widths d) ppa)[2]!, (unpackFields 0 (widths d) ppa)[1]!⟩
      else none := by
  have clear := padding_iff (widths_fit d) word
  rw [parsePPA, ppaMask_eq]
  simp only [clear]
  split
  next small =>
    simp only [widths, unpackFields, Nat.zero_add, Mask.cut_fieldMask (Drive.clog_le d.chunk_lt),
      Mask.cut_fieldMask (Drive.clog_le d.parallelUnit_lt),
      Mask.cut_fieldMask (Drive.clog_le d.group_lt), Mask.cut_fieldMask (Drive.clog_le page_lt)]
    simp [Mask.cut]
  next => rfl

theorem packFields_lt (ha : Holds d a) :
    packFields 0 (widths d) (fields d a) < 2 ^ (widths d).sum := by
  have back := packFields_unpackFields 0 (widths d) (packFields 0 (widths d) (fields d a))
  rw [unpackFields_packFields (fits_fields ha)] at back
  rw [back]
  exact Nat.and_le_right.trans_lt (by simpa using fieldMask_lt 0 (widths d).sum)

/-- The drive sends the sectors of an address to the page that it stands for in version 2.0. -/
theorem convertUnit_hostPPA (ha : Holds d a) :
    (parsePPA (ppaMask d.cfg) (hostPPA (deviceIdentification (ppaMask d.cfg))
      d.geometry.writeSize a)).map (convertUnit d.cfg) = some (pageOf d.cfg a) := by
  have small := packFields_lt ha
  have word := small.trans_le (Nat.pow_le_pow_right (by decide) (widths_fit d))
  rw [hostPPA_eq ha, parsePPA_eq word, if_pos small,
    unpackFields_packFields (fits_fields ha), Option.map_some, Option.some.injEq]
  simp only [fields, convertUnit, pageOf]
  cases d.cfg.useMultiPlaneOperation <;> simp

theorem mergeList_eq (lbaList : List Nat) (block : Bool) :
    mergeList d.cfg lbaList block =
      (lbaList.filterMap fun lba =>
        (parsePPA (ppaMask d.cfg) lba).map (convertUnit d.cfg)).destutter
        (fun back temp => repeats block back temp = false) := by
  rw [← foldl_keep, ← foldl_keep_filterMap, mergeList]
  congr 1
  funext list lba
  cases parsePPA (ppaMask d.cfg) lba <;> rfl

/-- Addresses that the host puts together by the reported format are accepted and go to their
pages, one after the other without repeats; any other word is accepted exactly if it has no bits
behind the fields. -/
theorem physical_addresses_agree (d : Drive) :
    (∀ (list : List ChunkAddress) (block : Bool), (∀ a ∈ list, Holds d a) →
      mergeList d.cfg (list.map (hostPPA (deviceIdentification (ppaMask d.cfg))
        d.geometry.writeSize)) block =
          (list.map (pageOf d.cfg)).destutter (fun back temp => repeats block back temp = false)) ∧
      ∀ ppa < 2 ^ 64, (parsePPA (ppaMask d.cfg) ppa).isSome = true ↔ ppa < 2 ^ (widths d).sum := by
  constructor
  · intro list block holds
    rw [mergeList_eq, List.filterMap_map]
    congr 1
    induction list with
    | nil => rfl
    | cons a rest ih =>
        obtain ⟨ha, later⟩ := List.forall_mem_cons.1 holds
        rw [List.filterMap_cons_some (b := pageOf d.cfg a), ih later, List.map_cons]
        exact convertUnit_hostPPA ha
  · intro ppa word
    rw [parsePPA_eq word]
    split <;> simp [*]

theorem physical_addresses_agree_one_page :
    mergeList OpenChannelSSD20.twoGroups.cfg ([⟨1, 0, 5, 6⟩, ⟨1, 0, 5, 7⟩, ⟨0, 0, 2, 1⟩].map
      (hostPPA (deviceIdentification (ppaMask OpenChannelSSD20.twoGroups.cfg)) 2)) false =
        [⟨1, 0, 0, 1, 2, 3⟩, ⟨0, 0, 0, 0, 1, 0⟩] := by
  have merged := (physical_addresses_agree OpenChannelSSD20.twoGroups).1
    [⟨1, 0, 5, 6⟩, ⟨1, 0, 5, 7⟩, ⟨0, 0, 2, 1⟩] false (by
      simp only [List.mem_cons, List.not_mem_nil, or_false]
      rintro a (rfl | rfl | rfl) <;> exact ⟨by decide, by decide, by decide, by decide⟩)
  have unit : (Geometry.of OpenChannelSSD20.twoGroups.cfg).writeSize = 2 := by decide
  rw [unit] at merged
  rw [merged]
  decide +kernel

end OpenChannelSSD12

end SimpleSSD.HIL.NVMe
