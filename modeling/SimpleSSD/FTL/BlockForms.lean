import SimpleSSD.FTL.Sequential
import SimpleSSD.Util.Bitset

/-!
# The two forms of a block

`ftl/common/block.cc`.  A block of one I/O unit a page keeps two bit sets and a flat array
of logical pages; the general form keeps vectors of bit sets and a row of logical pages for
each page.  Both are the table of `FTL/Block`, up to `getPageInfo`.
-/

namespace SimpleSSD.FTL

open SimpleSSD.Foundation

/-- The branches taken when `ioUnitInPage` is one. -/
structure SingleBlock where
  idx : Nat
  pageCount : Nat
  pNextWritePageIndex : Nat
  pValidBits : Bitset
  pErasedBits : Bitset
  pLPNs : List Nat
  lastAccessed : Tick
  eraseCount : Nat

structure UnitBlock where
  idx : Nat
  pageCount : Nat
  ioUnitInPage : Nat
  pNextWritePageIndex : List Nat
  validBits : List Bitset
  erasedBits : List Bitset
  ppLPNs : List (List Nat)
  lastAccessed : Tick
  eraseCount : Nat

namespace SingleBlock

def erase (blk : SingleBlock) : Except Fault SingleBlock := do
  let erasedBits ← blk.pErasedBits.setAll
  .ok { blk with
    pValidBits := blk.pValidBits.resetAll
    pErasedBits := erasedBits
    pNextWritePageIndex := 0
    eraseCount := blk.eraseCount + 1 }

def allocate (idx pageCount : Nat) : SingleBlock where
  idx := idx
  pageCount := pageCount
  pNextWritePageIndex := 0
  pValidBits := .new pageCount
  pErasedBits := .new pageCount
  pLPNs := List.replicate pageCount 0
  lastAccessed := 0
  eraseCount := 0

def new (idx pageCount : Nat) : Except Fault SingleBlock := do
  let blk ← (allocate idx pageCount).erase
  .ok { blk with eraseCount := 0 }

def getValidPageCount (blk : SingleBlock) : Nat := blk.pValidBits.count

def getValidPageCountRaw (blk : SingleBlock) : Nat := blk.pValidBits.count

def getDirtyPageCount (blk : SingleBlock) : Except Fault Nat := do
  let used ← blk.pValidBits.or blk.pErasedBits
  let dirty ← used.flip
  .ok dirty.count

def getNextWritePageIndex (blk : SingleBlock) : Nat := max 0 blk.pNextWritePageIndex

def getPageInfo (blk : SingleBlock) (page : Nat) (map : Bitset) :
    Except Fault (Bool × List Nat × Bitset) :=
  if map.dataSize = 1 then do
    let map ← map.setAll
    match blk.pLPNs[page]? with
    | none => .error .undefined
    | some lpn => .ok (map.any, [lpn], map)
  else .error (.panic "I/O map size mismatch")

def read (blk : SingleBlock) (page : Nat) (tick : Tick) : Except Fault (Bool × SingleBlock) := do
  let read ← blk.pValidBits.test page
  .ok (read, if read then { blk with lastAccessed := tick } else blk)

def write (blk : SingleBlock) (page lpn : Nat) (tick : Tick) : Except Fault SingleBlock := do
  let write ← blk.pErasedBits.test page
  if write then
    if page < blk.pNextWritePageIndex then
      .error (.panic "Write to block should sequential")
    else do
      let erasedBits ← blk.pErasedBits.reset page
      let validBits ← blk.pValidBits.set page
      if page < blk.pLPNs.length then
        .ok { blk with
          lastAccessed := tick
          pErasedBits := erasedBits
          pValidBits := validBits
          pLPNs := blk.pLPNs.set page lpn
          pNextWritePageIndex := page + 1 }
      else .error .undefined
  else .error (.panic "Write to non erased page")

def invalidate (blk : SingleBlock) (page : Nat) : Except Fault SingleBlock := do
  let validBits ← blk.pValidBits.reset page
  .ok { blk with pValidBits := validBits }

end SingleBlock

def at? {α : Type} (xs : List α) (i : Nat) : Except Fault α :=
  match xs[i]? with
  | none => .error .outOfRange
  | some x => .ok x

namespace UnitBlock

def erase (blk : UnitBlock) : Except Fault UnitBlock := do
  let erasedBits ← blk.erasedBits.mapM Bitset.setAll
  .ok { blk with
    validBits := blk.validBits.map Bitset.resetAll
    erasedBits := erasedBits
    pNextWritePageIndex := List.replicate blk.ioUnitInPage 0
    eraseCount := blk.eraseCount + 1 }

def allocate (idx pageCount ioUnitInPage : Nat) : UnitBlock where
  idx := idx
  pageCount := pageCount
  ioUnitInPage := ioUnitInPage
  pNextWritePageIndex := List.replicate ioUnitInPage 0
  validBits := List.replicate pageCount (.new ioUnitInPage)
  erasedBits := List.replicate pageCount (.new ioUnitInPage)
  ppLPNs := List.replicate pageCount (List.replicate ioUnitInPage 0)
  lastAccessed := 0
  eraseCount := 0

def new (idx pageCount ioUnitInPage : Nat) : Except Fault UnitBlock := do
  let blk ← (allocate idx pageCount ioUnitInPage).erase
  .ok { blk with eraseCount := 0 }

def getValidPageCount (blk : UnitBlock) : Nat := blk.validBits.countP Bitset.any

def getValidPageCountRaw (blk : UnitBlock) : Nat := (blk.validBits.map Bitset.count).sum

def isDirty (blk : UnitBlock) (page : Nat) : Except Fault Bool := do
  let valid ← at? blk.validBits page
  let erased ← at? blk.erasedBits page
  let used ← valid.or erased
  let dirty ← used.flip
  .ok dirty.any

def getDirtyPageCount (blk : UnitBlock) : Except Fault Nat :=
  (List.range blk.pageCount).foldlM (fun count page => do
    let dirty ← blk.isDirty page
    .ok (if dirty then count + 1 else count)) 0

def getNextWritePageIndex (blk : UnitBlock) : Nat := blk.pNextWritePageIndex.foldr max 0

def getPageInfo (blk : UnitBlock) (page : Nat) (map : Bitset) :
    Except Fault (Bool × List Nat × Bitset) :=
  if map.dataSize = blk.ioUnitInPage then do
    let map ← at? blk.validBits page
    match blk.ppLPNs[page]? with
    | none => .error .undefined
    | some lpns => .ok (map.any, lpns, map)
  else .error (.panic "I/O map size mismatch")

def read (blk : UnitBlock) (page unit : Nat) (tick : Tick) :
    Except Fault (Bool × UnitBlock) :=
  if unit < blk.ioUnitInPage then do
    let bits ← at? blk.validBits page
    let read ← bits.test unit
    .ok (read, if read then { blk with lastAccessed := tick } else blk)
  else .error (.panic "I/O map size mismatch")

def write (blk : UnitBlock) (page lpn unit : Nat) (tick : Tick) : Except Fault UnitBlock :=
  if unit < blk.ioUnitInPage then do
    let erased ← at? blk.erasedBits page
    let write ← erased.test unit
    if write then
      if page < blk.pNextWritePageIndex.getD unit 0 then
        .error (.panic "Write to block should sequential")
      else do
        let erased ← erased.reset unit
        let valid ← at? blk.validBits page
        let valid ← valid.set unit
        .ok { blk with
          lastAccessed := tick
          erasedBits := blk.erasedBits.set page erased
          validBits := blk.validBits.set page valid
          ppLPNs := blk.ppLPNs.modify page (·.set unit lpn)
          pNextWritePageIndex := blk.pNextWritePageIndex.set unit (page + 1) }
    else .error (.panic "Write to non erased page")
  else .error (.panic "I/O map size mismatch")

def invalidate (blk : UnitBlock) (page unit : Nat) : Except Fault UnitBlock := do
  let valid ← at? blk.validBits page
  let valid ← valid.reset unit
  .ok { blk with validBits := blk.validBits.set page valid }

end UnitBlock

/-! ## The forms as tables -/

/-- Page by page, the sets of a form hold the bits of a table. -/
structure Bits (sets : List Bitset) (pages units : Nat) (f : Nat → Nat → Bool) : Prop where
  length : sets.length = pages
  holds : ∀ (page : Nat) (h : page < sets.length), sets[page].Holds units (f page)

variable {sets : List Bitset} {pages units page unit lpn : Nat} {tick : Tick}
  {f : Nat → Nat → Bool}

theorem Bits.at? (h : Bits sets pages units f) (hpage : page < pages) :
    ∃ b, at? sets page = .ok b ∧ b.Holds units (f page) := by
  have hlt : page < sets.length := h.length ▸ hpage
  exact ⟨sets[page], by simp [FTL.at?, hlt], h.holds page hlt⟩

theorem Bits.at?_beyond (h : Bits sets pages units f) (hpage : pages ≤ page) :
    FTL.at? sets page = .error .outOfRange := by
  simp [FTL.at?, h.length, hpage]

theorem Bits.set {b : Bitset} {value : Bool} (h : Bits sets pages units f)
    (hb : b.Holds units (Function.update (f page) unit value)) :
    Bits (sets.set page b) pages units (update₂ f page unit value) := by
  refine ⟨by simpa using h.length, fun p hp => ?_⟩
  rw [List.getElem_set]
  unfold update₂
  split
  · rename_i heq
    subst heq
    simpa using hb
  · rename_i hne
    rw [Function.update_of_ne (Ne.symm hne)]
    exact h.holds p (by simpa using hp)

theorem Bits.map_eq {β : Type} {g : Bitset → β} {k : (Nat → Bool) → β}
    (h : Bits sets pages units f) (hg : ∀ b row, b.Holds units row → g b = k row) :
    sets.map g = (List.range pages).map fun page => k (f page) := by
  apply List.ext_getElem (by simp [h.length])
  intro page hpage _
  have hlt : page < sets.length := by simpa using hpage
  simp [hg _ _ (h.holds page hlt)]

theorem Bits.mapM_setAll (h : Bits sets pages units f) (hunits : 0 < units) :
    ∃ sets', sets.mapM Bitset.setAll = .ok sets' ∧ Bits sets' pages units fun _ _ => true := by
  induction sets generalizing pages f with
  | nil => exact ⟨[], rfl, by simpa using h.length, by simp⟩
  | cons b rest ih =>
      have tail : Bits rest rest.length units fun page => f (page + 1) :=
        ⟨rfl, fun page hpage => h.holds (page + 1) (by simpa using hpage)⟩
      obtain ⟨b', hb, holds⟩ := (h.holds 0 (by simp)).setAll hunits
      obtain ⟨rest', hrest, bits⟩ := ih tail
      refine ⟨b' :: rest', ?_, ?_, ?_⟩
      · have hb : b.setAll = .ok b' := hb
        rw [List.mapM_cons, hb, hrest]
        rfl
      · have hlen := h.length
        simp only [List.length_cons] at hlen ⊢
        rw [bits.length, hlen]
      · intro page hpage
        cases page with
        | zero => exact holds
        | succ page => exact bits.holds page (by simpa using hpage)

structure Rows (rows : UnitBlock) (blk : Block) : Prop where
  idx : rows.idx = blk.idx
  pageCount : rows.pageCount = blk.pageCount
  ioUnitInPage : rows.ioUnitInPage = blk.ioUnitInPage
  next : rows.pNextWritePageIndex =
    (List.range blk.ioUnitInPage).map blk.nextWritePageIndex
  valid : Bits rows.validBits blk.pageCount blk.ioUnitInPage blk.validBits
  erased : Bits rows.erasedBits blk.pageCount blk.ioUnitInPage blk.erasedBits
  lpns : rows.ppLPNs = (List.range blk.pageCount).map fun page =>
    (List.range blk.ioUnitInPage).map (blk.lpns page)
  lastAccessed : rows.lastAccessed = blk.lastAccessed
  eraseCount : rows.eraseCount = blk.eraseCount

structure Flat (flat : SingleBlock) (blk : Block) : Prop where
  idx : flat.idx = blk.idx
  pageCount : flat.pageCount = blk.pageCount
  ioUnitInPage : blk.ioUnitInPage = 1
  next : flat.pNextWritePageIndex = blk.nextWritePageIndex 0
  valid : flat.pValidBits.Holds blk.pageCount fun page => blk.validBits page 0
  erased : flat.pErasedBits.Holds blk.pageCount fun page => blk.erasedBits page 0
  lpns : flat.pLPNs = (List.range blk.pageCount).map fun page => blk.lpns page 0
  lastAccessed : flat.lastAccessed = blk.lastAccessed
  eraseCount : flat.eraseCount = blk.eraseCount

variable {rows : UnitBlock} {flat : SingleBlock} {blk : Block}

theorem set_map_range {α : Type} (g : Nat → α) (n i : Nat) (a : α) :
    ((List.range n).map g).set i a = (List.range n).map (Function.update g i a) := by
  apply List.ext_getElem (by simp)
  intro k hk hk'
  rw [List.getElem_set]
  by_cases heq : i = k
  · simp [heq]
  · simp [heq, Function.update_of_ne (Ne.symm heq)]

theorem modify_map_range {α : Type} (g : Nat → α) (n i : Nat) (change : α → α) :
    ((List.range n).map g).modify i change =
      (List.range n).map (Function.update g i (change (g i))) := by
  apply List.ext_getElem (by simp)
  intro k hk hk'
  rw [List.getElem_modify]
  by_cases heq : i = k
  · simp [heq]
  · simp [heq, Function.update_of_ne (Ne.symm heq)]

theorem Rows.write (h : Rows rows blk) :
    Alike Rows (rows.write page lpn unit tick) (blk.write page lpn unit tick) := by
  unfold UnitBlock.write Block.write
  rw [h.ioUnitInPage]
  rcases lt_or_ge unit blk.ioUnitInPage with hunit | hunit
  · rw [if_pos hunit, if_neg (Nat.not_le.2 hunit)]
    rcases lt_or_ge page blk.pageCount with hpage | hpage
    · rw [if_neg (Nat.not_le.2 hpage)]
      obtain ⟨erased, herased, holds⟩ := h.erased.at? hpage
      obtain ⟨valid, hvalid, holds'⟩ := h.valid.at? hpage
      obtain ⟨erased', hreset, bits⟩ := holds.reset hunit
      obtain ⟨valid', hset, bits'⟩ := holds'.set hunit
      have hnext : rows.pNextWritePageIndex.getD unit 0 = blk.nextWritePageIndex unit := by
        simp [h.next, List.getD_eq_getElem?_getD, hunit]
      simp only [herased, hvalid, hreset, hset, holds.test hunit, hnext, bind, Except.bind]
      cases blk.erasedBits page unit with
      | false => rfl
      | true =>
          by_cases hbehind : page < blk.nextWritePageIndex unit
          · simp only [hbehind, if_true]
            rfl
          · simp only [hbehind, if_true, if_false]
            refine ⟨h.idx, h.pageCount, rfl, ?_, h.valid.set bits', h.erased.set bits, ?_, rfl,
              h.eraseCount⟩
            · simp only [h.next, set_map_range]
            · simp only [h.lpns, modify_map_range, update₂]
              apply List.map_congr_left
              intro p _
              by_cases heq : p = page
              · simp [heq, set_map_range]
              · simp [heq]
    · rw [if_pos hpage, h.erased.at?_beyond hpage]
      rfl
  · rw [if_neg (Nat.not_lt.2 hunit), if_pos hunit]
    rfl

theorem Rows.invalidate (h : Rows rows blk) (hunit : unit < blk.ioUnitInPage) :
    Alike Rows (rows.invalidate page unit) (blk.invalidate page unit) := by
  unfold UnitBlock.invalidate Block.invalidate
  rcases lt_or_ge page blk.pageCount with hpage | hpage
  · obtain ⟨valid, hvalid, holds⟩ := h.valid.at? hpage
    obtain ⟨valid', hreset, bits⟩ := holds.reset hunit
    rw [if_neg (Nat.not_le.2 hpage)]
    simp only [hvalid, hreset, bind, Except.bind]
    exact ⟨h.idx, h.pageCount, h.ioUnitInPage, h.next, h.valid.set bits, h.erased, h.lpns,
      h.lastAccessed, h.eraseCount⟩
  · rw [if_pos hpage, h.valid.at?_beyond hpage]
    rfl

theorem Rows.erase (h : Rows rows blk) (hunits : 0 < blk.ioUnitInPage) :
    ∃ rows', rows.erase = .ok rows' ∧ Rows rows' blk.erase := by
  obtain ⟨erased, herased, bits⟩ := h.erased.mapM_setAll hunits
  simp only [UnitBlock.erase, herased, bind, Except.bind]
  refine ⟨_, rfl, h.idx, h.pageCount, h.ioUnitInPage, ?_, ?_, ?_, h.lpns, h.lastAccessed, ?_⟩
  · simp [Block.erase, h.ioUnitInPage, List.map_const']
  · refine ⟨by simp [h.valid.length, Block.erase], fun page hpage => ?_⟩
    have hlt : page < rows.validBits.length := by simpa using hpage
    simpa [Block.erase] using (h.valid.holds page hlt).resetAll
  · refine ⟨bits.length, fun page hpage => (bits.holds page hpage).congr fun unit hunit => ?_⟩
    have hlt : page < blk.pageCount := bits.length ▸ hpage
    simp [Block.erase, hlt, hunit]
  · simp [Block.erase, h.eraseCount]

theorem replicate_bits (pages units : Nat) :
    Bits (List.replicate pages (.new units)) pages units fun _ _ => false :=
  ⟨by simp, fun page hpage => by simpa using Bitset.new_holds units⟩

def Block.allocate (idx pageCount ioUnitInPage : Nat) : Block where
  idx := idx
  pageCount := pageCount
  ioUnitInPage := ioUnitInPage
  nextWritePageIndex := fun _ => 0
  validBits := fun _ _ => false
  erasedBits := fun _ _ => false
  lpns := fun _ _ => 0
  lastAccessed := 0
  eraseCount := 0

theorem new_rows (idx : Nat) (hunits : 0 < units) :
    ∃ rows, UnitBlock.new idx pages units = .ok rows ∧ Rows rows (.new idx pages units) := by
  have start : Rows (.allocate idx pages units) (.allocate idx pages units) :=
    ⟨rfl, rfl, rfl, by simp [UnitBlock.allocate, Block.allocate, List.map_const'],
      replicate_bits pages units, replicate_bits pages units,
      by simp [UnitBlock.allocate, Block.allocate, List.map_const'], rfl, rfl⟩
  obtain ⟨rows, hrows, table⟩ := start.erase hunits
  refine ⟨_, by rw [UnitBlock.new, hrows]; rfl, ?_⟩
  exact ⟨table.idx, table.pageCount, table.ioUnitInPage, table.next, table.valid,
    table.erased, table.lpns, table.lastAccessed, rfl⟩

/-! ### One unit a page -/

theorem update_row (g : Nat → Nat → Bool) (page : Nat) (value : Bool) :
    (fun p => update₂ g page 0 value p 0) =
      Function.update (fun p => g p 0) page value := by
  funext p
  by_cases heq : p = page
  · simp [update₂, heq]
  · simp [update₂, heq]

theorem Flat.write (h : Flat flat blk) (hpage : page < blk.pageCount) :
    Alike Flat (flat.write page lpn tick) (blk.write page lpn 0 tick) := by
  have hunit : ¬blk.ioUnitInPage ≤ 0 := by simp [h.ioUnitInPage]
  obtain ⟨erased, hreset, bits⟩ := h.erased.reset hpage
  obtain ⟨valid, hset, bits'⟩ := h.valid.set hpage
  have hlen : page < flat.pLPNs.length := by simpa [h.lpns] using hpage
  unfold SingleBlock.write Block.write
  simp only [h.erased.test hpage, hreset, hset, hunit, hlen, h.next, Nat.not_le.2 hpage,
    if_true, if_false, bind, Except.bind]
  cases blk.erasedBits page 0 with
  | false => rfl
  | true =>
      by_cases hbehind : page < blk.nextWritePageIndex 0
      · simp only [hbehind, if_true]
        rfl
      · simp only [hbehind, if_true, if_false]
        refine ⟨h.idx, h.pageCount, h.ioUnitInPage, by simp, ?_, ?_, ?_, rfl, h.eraseCount⟩
        · simpa only [update_row] using bits'
        · simpa only [update_row] using bits
        · simp only [h.lpns, set_map_range]
          apply List.map_congr_left
          intro p _
          by_cases heq : p = page
          · simp [update₂, heq]
          · simp [update₂, heq]

theorem Flat.invalidate (h : Flat flat blk) (hpage : page < blk.pageCount) :
    Alike Flat (flat.invalidate page) (blk.invalidate page 0) := by
  obtain ⟨valid, hreset, bits⟩ := h.valid.reset hpage
  unfold SingleBlock.invalidate Block.invalidate
  simp only [hreset, Nat.not_le.2 hpage, if_false, bind, Except.bind]
  refine ⟨h.idx, h.pageCount, h.ioUnitInPage, h.next, ?_, h.erased, h.lpns, h.lastAccessed,
    h.eraseCount⟩
  simpa only [update_row] using bits

theorem Flat.erase (h : Flat flat blk) (hpages : 0 < blk.pageCount) :
    ∃ flat', flat.erase = .ok flat' ∧ Flat flat' blk.erase := by
  obtain ⟨erased, herased, bits⟩ := h.erased.setAll hpages
  simp only [SingleBlock.erase, herased, bind, Except.bind]
  refine ⟨_, rfl, h.idx, h.pageCount, h.ioUnitInPage, rfl, h.valid.resetAll, ?_, h.lpns,
    h.lastAccessed, ?_⟩
  · refine bits.congr fun page hpage => ?_
    simp [Block.erase, hpage, h.ioUnitInPage]
  · simp [Block.erase, h.eraseCount]

theorem new_flat (idx : Nat) (hpages : 0 < pages) :
    ∃ flat, SingleBlock.new idx pages = .ok flat ∧ Flat flat (.new idx pages 1) := by
  have start : Flat (.allocate idx pages) (.allocate idx pages 1) :=
    ⟨rfl, rfl, rfl, rfl, Bitset.new_holds pages, Bitset.new_holds pages,
      by simp [SingleBlock.allocate, Block.allocate, List.map_const'], rfl, rfl⟩
  obtain ⟨flat, hflat, table⟩ := start.erase hpages
  refine ⟨_, by rw [SingleBlock.new, hflat]; rfl, ?_⟩
  exact ⟨table.idx, table.pageCount, table.ioUnitInPage, table.next, table.valid,
    table.erased, table.lpns, table.lastAccessed, rfl⟩

/-! ### What the forms report -/

theorem Rows.getValidPageCount (h : Rows rows blk) :
    rows.getValidPageCount = blk.getValidPageCount := by
  have any := h.valid.map_eq (g := Bitset.any) (k := (List.range blk.ioUnitInPage).any)
    fun b row holds => holds.any
  have count := congrArg (List.countP id) any
  simpa [List.countP_map, UnitBlock.getValidPageCount, Block.getValidPageCount,
    Function.comp_def] using count

theorem Rows.getValidPageCountRaw (h : Rows rows blk) :
    rows.getValidPageCountRaw = blk.getValidPageCountRaw := by
  have count := h.valid.map_eq (g := Bitset.count)
    (k := fun row => (List.range blk.ioUnitInPage).countP row) fun b row holds => holds.count
  rw [UnitBlock.getValidPageCountRaw, Block.getValidPageCountRaw, count]

theorem Rows.isDirty (h : Rows rows blk) (hunits : 0 < blk.ioUnitInPage)
    (hpage : page < blk.pageCount) :
    rows.isDirty page = .ok ((List.range blk.ioUnitInPage).any fun unit =>
      !(blk.validBits page unit || blk.erasedBits page unit)) := by
  obtain ⟨valid, hvalid, holds⟩ := h.valid.at? hpage
  obtain ⟨erased, herased, holds'⟩ := h.erased.at? hpage
  obtain ⟨used, hused, both⟩ := holds.or holds'
  obtain ⟨dirty, hdirty, bits⟩ := both.flip hunits
  simp only [UnitBlock.isDirty, hvalid, herased, hused, hdirty, bind, Except.bind, bits.any]

theorem foldlM_count {g : Nat → Except Fault Bool} {p : Nat → Bool} {l : List Nat}
    (hg : ∀ i ∈ l, g i = .ok (p i)) (start : Nat) :
    l.foldlM (fun count i => do
      let b ← g i
      .ok (if b then count + 1 else count)) start = .ok (start + l.countP p) := by
  induction l generalizing start with
  | nil => rfl
  | cons i rest ih =>
      have first : (do
          let b ← g i
          .ok (if b then start + 1 else start)) =
            (.ok (if p i then start + 1 else start) : Except Fault Nat) := by
        rw [hg i List.mem_cons_self]
        rfl
      have later := ih (fun j hj => hg j (List.mem_cons_of_mem i hj))
      rw [List.foldlM_cons, first]
      refine (later _).trans ?_
      cases hp : p i <;> (simp [hp]; try omega)

theorem Rows.getDirtyPageCount (h : Rows rows blk) (hunits : 0 < blk.ioUnitInPage) :
    rows.getDirtyPageCount = .ok blk.getDirtyPageCount := by
  rw [UnitBlock.getDirtyPageCount, h.pageCount,
    foldlM_count fun page hpage => h.isDirty hunits (List.mem_range.1 hpage), Nat.zero_add]
  rfl

theorem Rows.getNextWritePageIndex (h : Rows rows blk) :
    rows.getNextWritePageIndex = blk.getNextWritePageIndex := by
  rw [UnitBlock.getNextWritePageIndex, h.next, Block.getNextWritePageIndex]

theorem Flat.getValidPageCount (h : Flat flat blk) :
    flat.getValidPageCount = blk.getValidPageCount := by
  rw [SingleBlock.getValidPageCount, h.valid.count, Block.getValidPageCount, h.ioUnitInPage]
  simp [List.range_one]

theorem Flat.getValidPageCountRaw (h : Flat flat blk) :
    flat.getValidPageCountRaw = blk.getValidPageCountRaw := by
  have single := List.countP_flatMap (p := fun page => blk.validBits page 0)
    (l := List.range blk.pageCount) (f := fun page => [page])
  rw [SingleBlock.getValidPageCountRaw, h.valid.count, Block.getValidPageCountRaw,
    h.ioUnitInPage]
  simpa [List.range_one, List.countP_cons, Function.comp_def] using single

theorem Flat.getDirtyPageCount (h : Flat flat blk) (hpages : 0 < blk.pageCount) :
    flat.getDirtyPageCount = .ok blk.getDirtyPageCount := by
  obtain ⟨used, hused, both⟩ := h.valid.or h.erased
  obtain ⟨dirty, hdirty, bits⟩ := both.flip hpages
  simp only [SingleBlock.getDirtyPageCount, hused, hdirty, bind, Except.bind, bits.count,
    Block.getDirtyPageCount, h.ioUnitInPage]
  simp [List.range_one]

theorem Flat.getNextWritePageIndex (h : Flat flat blk) :
    flat.getNextWritePageIndex = blk.getNextWritePageIndex := by
  simp [SingleBlock.getNextWritePageIndex, h.next, Block.getNextWritePageIndex,
    h.ioUnitInPage, List.range_one]

end SimpleSSD.FTL
