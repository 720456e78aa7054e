import SimpleSSD.FTL.BlockForms

/-!
# When the two forms of a block agree

Calls of `write`, `invalidate` and `erase` on a block of one I/O unit a page, carried out
in either form, and what the form reports of a page afterwards.
-/

namespace SimpleSSD.FTL

open SimpleSSD.Foundation

inductive BlockCall where
  | write (page lpn : Nat) (tick : Tick)
  | invalidate (page : Nat)
  | erase

/-- The results of the functions that look at a block, of `getPageInfo` and `read` at one
page. -/
structure Report where
  live : Bool
  lpns : List Nat
  map : Bitset
  validPageCount : Nat
  validPageCountRaw : Nat
  dirtyPageCount : Nat
  nextWritePageIndex : Nat
  read : Bool
  lastAccessed : Tick
  deriving DecidableEq

def SingleBlock.perform (blk : SingleBlock) : BlockCall → Except Fault SingleBlock
  | .write page lpn tick => blk.write page lpn tick
  | .invalidate page => blk.invalidate page
  | .erase => blk.erase

def UnitBlock.perform (blk : UnitBlock) : BlockCall → Except Fault UnitBlock
  | .write page lpn tick => blk.write page lpn 0 tick
  | .invalidate page => blk.invalidate page 0
  | .erase => blk.erase

def Block.perform (blk : Block) : BlockCall → Except Fault Block
  | .write page lpn tick => blk.write page lpn 0 tick
  | .invalidate page => blk.invalidate page 0
  | .erase => .ok blk.erase

def SingleBlock.report (blk : SingleBlock) (page : Nat) (tick : Tick) :
    Except Fault Report := do
  let (live, lpns, map) ← blk.getPageInfo page (.new 1)
  let dirty ← blk.getDirtyPageCount
  let (read, after) ← blk.read page tick
  .ok ⟨live, lpns, map, blk.getValidPageCount, blk.getValidPageCountRaw, dirty,
    blk.getNextWritePageIndex, read, after.lastAccessed⟩

def UnitBlock.report (blk : UnitBlock) (page : Nat) (tick : Tick) : Except Fault Report := do
  let (live, lpns, map) ← blk.getPageInfo page (.new 1)
  let dirty ← blk.getDirtyPageCount
  let (read, after) ← blk.read page 0 tick
  .ok ⟨live, lpns, map, blk.getValidPageCount, blk.getValidPageCountRaw, dirty,
    blk.getNextWritePageIndex, read, after.lastAccessed⟩

def SingleBlock.run (blk : SingleBlock) (calls : List BlockCall) (page : Nat) (tick : Tick) :
    Except Fault Report := do
  let blk ← calls.foldlM SingleBlock.perform blk
  blk.report page tick

def UnitBlock.run (blk : UnitBlock) (calls : List BlockCall) (page : Nat) (tick : Tick) :
    Except Fault Report := do
  let blk ← calls.foldlM UnitBlock.perform blk
  blk.report page tick

def singleReport (idx pageCount : Nat) (calls : List BlockCall) (page : Nat) (tick : Tick) :
    Except Fault Report := do
  let blk ← SingleBlock.new idx pageCount
  blk.run calls page tick

/-- What a new block of the general form with one unit reports after some calls. -/
def unitReport (idx pageCount : Nat) (calls : List BlockCall) (page : Nat) (tick : Tick) :
    Except Fault Report := do
  let blk ← UnitBlock.new idx pageCount 1
  blk.run calls page tick

/-! ## The calls -/

namespace BlockCall

def InRange (pages : Nat) : BlockCall → Prop
  | .write page _ _ => page < pages
  | .invalidate page => page < pages
  | .erase => True

/-- A write must not go back behind the next page to be written. -/
def InOrder (next : Nat) : BlockCall → Prop
  | .write page _ _ => next ≤ page
  | .invalidate _ => True
  | .erase => True

def advance (next : Nat) : BlockCall → Nat
  | .write page _ _ => page + 1
  | .invalidate _ => next
  | .erase => 0

def keepsLive (page : Nat) (live : Bool) : BlockCall → Bool
  | .write p _ _ => if page = p then true else live
  | .invalidate p => if page = p then false else live
  | .erase => false

/-- Every call that is reached names a page of the block; the first write out of order is
the last call that is. -/
def Within (pages : Nat) : Nat → List BlockCall → Prop
  | _, [] => True
  | next, call :: rest =>
      call.InRange pages ∧ (call.InOrder next → Within pages (call.advance next) rest)

def Ordered : Nat → List BlockCall → Prop
  | _, [] => True
  | next, call :: rest => call.InOrder next ∧ Ordered (call.advance next) rest

def liveAfter (page : Nat) (live : Bool) (calls : List BlockCall) : Bool :=
  calls.foldl (keepsLive page) live

end BlockCall

variable {flat : SingleBlock} {rows : UnitBlock} {blk : Block} {call : BlockCall}
  {calls : List BlockCall} {page : Nat} {tick : Tick}

theorem Flat.perform (h : Flat flat blk) (hpages : 0 < blk.pageCount)
    (inRange : call.InRange blk.pageCount) :
    Alike Flat (flat.perform call) (blk.perform call) := by
  cases call with
  | write p lpn t => exact h.write inRange
  | invalidate p => exact h.invalidate inRange
  | erase =>
      obtain ⟨flat', herase, h'⟩ := h.erase hpages
      simp only [SingleBlock.perform, herase]
      exact h'

theorem Rows.perform (h : Rows rows blk) (hunits : 0 < blk.ioUnitInPage) (call : BlockCall) :
    Alike Rows (rows.perform call) (blk.perform call) := by
  cases call with
  | write p lpn t => exact h.write
  | invalidate p => exact h.invalidate hunits
  | erase =>
      obtain ⟨rows', herase, h'⟩ := h.erase hunits
      simp only [UnitBlock.perform, herase]
      exact h'

theorem Block.perform_beyond (hunits : 0 < blk.ioUnitInPage)
    (beyond : ¬call.InRange blk.pageCount) : blk.perform call = .error .outOfRange := by
  cases call with
  | write p lpn t =>
      have hpage : blk.pageCount ≤ p := Nat.not_lt.1 beyond
      simp [Block.perform, Block.write, hpage, Nat.not_le.2 hunits]
  | invalidate p =>
      have hpage : blk.pageCount ≤ p := Nat.not_lt.1 beyond
      simp [Block.perform, Block.invalidate, hpage]
  | erase => exact absurd trivial beyond

theorem Block.Sequential.perform (h : blk.Sequential) (hunits : blk.ioUnitInPage = 1)
    (inRange : call.InRange blk.pageCount) (inOrder : call.InOrder (blk.nextWritePageIndex 0)) :
    ∃ blk', blk.perform call = .ok blk' ∧ blk'.Sequential ∧ blk'.ioUnitInPage = 1 ∧
      blk'.pageCount = blk.pageCount ∧
      blk'.nextWritePageIndex 0 = call.advance (blk.nextWritePageIndex 0) ∧
      ∀ page, blk'.validBits page 0 = call.keepsLive page (blk.validBits page 0) := by
  cases call with
  | write p lpn t =>
      have hpage : ¬blk.pageCount ≤ p := Nat.not_le.2 inRange
      have hbehind : ¬p < blk.nextWritePageIndex 0 := Nat.not_lt.2 inOrder
      have erased := h.erased p 0 inRange (by simp [hunits]) inOrder
      have hwrite : ∃ blk', blk.write p lpn 0 t = .ok blk' := by
        simp [Block.write, hunits, hpage, hbehind, erased]
      obtain ⟨blk', hwrite⟩ := hwrite
      refine ⟨blk', hwrite, h.write hwrite, ?_⟩
      obtain ⟨-, -, -, -, rfl⟩ := Block.write_eq_ok hwrite
      simp [hunits, BlockCall.advance, BlockCall.keepsLive, update₂_apply]
  | invalidate p =>
      have hpage : ¬blk.pageCount ≤ p := Nat.not_le.2 inRange
      have hinv : ∃ blk', blk.invalidate p 0 = .ok blk' := by
        simp [Block.invalidate, hpage]
      obtain ⟨blk', hinv⟩ := hinv
      refine ⟨blk', hinv, h.invalidate hinv, ?_⟩
      obtain ⟨-, rfl⟩ := Block.invalidate_eq_ok hinv
      simp [hunits, BlockCall.advance, BlockCall.keepsLive, update₂_apply]
  | erase =>
      refine ⟨blk.erase, rfl, Block.erase_sequential blk, hunits, rfl, rfl, fun page => rfl⟩

theorem Block.perform_disordered (disorder : ¬call.InOrder (blk.nextWritePageIndex 0)) :
    ∀ blk', blk.perform call ≠ .ok blk' := by
  intro blk' hperform
  cases call with
  | write p lpn t =>
      obtain ⟨-, -, -, hbehind, -⟩ := Block.write_eq_ok hperform
      exact disorder hbehind
  | invalidate p => exact disorder trivial
  | erase => exact disorder trivial

/-! ## The reports -/

/-- What either form reports, but for what `getPageInfo` says is live. -/
def Block.reported (blk : Block) (page : Nat) (tick : Tick) (live : Bool) (map : Bitset) :
    Report where
  live := live
  lpns := [blk.lpns page 0]
  map := map
  validPageCount := blk.getValidPageCount
  validPageCountRaw := blk.getValidPageCountRaw
  dirtyPageCount := blk.getDirtyPageCount
  nextWritePageIndex := blk.getNextWritePageIndex
  read := blk.validBits page 0
  lastAccessed := if blk.validBits page 0 then tick else blk.lastAccessed

theorem Flat.report (h : Flat flat blk) (hpage : page < blk.pageCount) (tick : Tick) :
    ∃ map : Bitset, map.Holds 1 (fun _ => true) ∧
      flat.report page tick = .ok (blk.reported page tick true map) := by
  obtain ⟨map, hmap, holds⟩ := (Bitset.new_holds 1).setAll Nat.one_pos
  have hpages : 0 < blk.pageCount := Nat.zero_lt_of_lt hpage
  have hlpn : flat.pLPNs[page]? = some (blk.lpns page 0) := by simp [h.lpns, hpage]
  have info : flat.getPageInfo page (.new 1) = .ok (true, [blk.lpns page 0], map) := by
    simp only [SingleBlock.getPageInfo, hmap, hlpn, holds.any, bind, Except.bind]
    simp [Bitset.new, List.range_one]
  refine ⟨map, holds, ?_⟩
  simp only [SingleBlock.report, info, h.getDirtyPageCount hpages, SingleBlock.read,
    h.valid.test hpage, bind, Except.bind, h.getValidPageCount, h.getValidPageCountRaw,
    h.getNextWritePageIndex, Block.reported]
  split <;> simp [h.lastAccessed]

theorem Rows.report (h : Rows rows blk) (hunits : blk.ioUnitInPage = 1)
    (hpage : page < blk.pageCount) (tick : Tick) :
    ∃ map : Bitset, map.Holds 1 (blk.validBits page) ∧
      rows.report page tick =
        .ok (blk.reported page tick (blk.validBits page 0) map) := by
  obtain ⟨map, hmap, holds⟩ := h.valid.at? hpage
  rw [hunits] at holds
  have hlpns : rows.ppLPNs[page]? = some [blk.lpns page 0] := by
    simp [h.lpns, hpage, hunits, List.range_one]
  have info : rows.getPageInfo page (.new 1) =
      .ok (blk.validBits page 0, [blk.lpns page 0], map) := by
    simp [UnitBlock.getPageInfo, Bitset.new, h.ioUnitInPage, hunits, hmap, hlpns, holds.any,
      List.range_one, bind, Except.bind]
  refine ⟨map, holds, ?_⟩
  simp only [UnitBlock.report, info, h.getDirtyPageCount (hunits ▸ Nat.one_pos),
    UnitBlock.read, h.ioUnitInPage, hunits, Nat.one_pos, if_true, hmap,
    holds.test Nat.one_pos, bind, Except.bind, h.getValidPageCount, h.getValidPageCountRaw,
    h.getNextWritePageIndex, Block.reported]
  split <;> simp [h.lastAccessed]

theorem reports_agree_iff (hflat : Flat flat blk) (hrows : Rows rows blk)
    (hpage : page < blk.pageCount) :
    flat.report page tick = rows.report page tick ↔ blk.validBits page 0 = true := by
  obtain ⟨map, all, hf⟩ := hflat.report hpage tick
  obtain ⟨map', bits, hr⟩ := hrows.report hflat.ioUnitInPage hpage tick
  rw [hf, hr]
  constructor
  · intro heq
    simpa [Block.reported] using (congrArg Report.live (Except.ok.inj heq)).symm
  · intro hvalid
    have same : map = map' := by
      refine all.unique (bits.congr fun i hi => ?_)
      rw [Nat.lt_one_iff.1 hi, hvalid]
    rw [same, hvalid]

/-! ### Accesses without a bounds check -/

theorem test_ne_outOfRange (b : Bitset) (idx : Nat) : b.test idx ≠ .error .outOfRange := by
  unfold Bitset.test
  split <;> simp

theorem modify_ne_outOfRange (b : Bitset) (idx : Nat) (change : BitVec 8 → BitVec 8) :
    b.modify idx change ≠ .error .outOfRange := by
  unfold Bitset.modify
  split <;> simp

theorem setAll_ne_outOfRange (b : Bitset) : b.setAll ≠ .error .outOfRange := by
  unfold Bitset.setAll
  split <;> simp

theorem SingleBlock.perform_ne_outOfRange (flat : SingleBlock) (call : BlockCall) :
    flat.perform call ≠ .error .outOfRange := by
  cases call with
  | write p lpn t =>
      apply bind_ne_error (test_ne_outOfRange _ _)
      intro erased
      split
      · split
        · simp
        · apply bind_ne_error (modify_ne_outOfRange _ _ _)
          intro erased
          apply bind_ne_error (modify_ne_outOfRange _ _ _)
          intro valid
          split <;> simp
      · simp
  | invalidate p => exact bind_ne_error (modify_ne_outOfRange _ _ _) fun valid => by simp
  | erase => exact bind_ne_error (setAll_ne_outOfRange _) fun erased => by simp

theorem SingleBlock.report_ne_outOfRange (flat : SingleBlock) (page : Nat) (tick : Tick) :
    flat.report page tick ≠ .error .outOfRange := by
  have info : ∀ map : Bitset, flat.getPageInfo page map ≠ .error .outOfRange := by
    intro map
    unfold SingleBlock.getPageInfo
    split
    · apply bind_ne_error (setAll_ne_outOfRange _)
      intro map
      split <;> simp
    · simp
  have dirty : flat.getDirtyPageCount ≠ .error .outOfRange := by
    apply bind_ne_error
    · unfold Bitset.or Bitset.combine
      split <;> simp
    · intro used
      apply bind_ne_error
      · unfold Bitset.flip
        split <;> simp
      · simp
  have read : flat.read page tick ≠ .error .outOfRange :=
    bind_ne_error (test_ne_outOfRange _ _) fun read => by simp
  apply bind_ne_error (info _)
  intro found
  apply bind_ne_error dirty
  intro count
  exact bind_ne_error read fun after => by simp

theorem SingleBlock.run_ne_outOfRange (flat : SingleBlock) (calls : List BlockCall)
    (page : Nat) (tick : Tick) : flat.run calls page tick ≠ .error .outOfRange := by
  intro h
  rcases bind_eq_error.1 h with h | ⟨flat', -, h⟩
  · obtain ⟨v, -, h⟩ := exists_visit_of_error h
    exact v.1.perform_ne_outOfRange v.2 h
  · exact flat'.report_ne_outOfRange page tick h

theorem SingleBlock.run_cons (flat : SingleBlock) (call : BlockCall) (rest : List BlockCall)
    (page : Nat) (tick : Tick) :
    flat.run (call :: rest) page tick =
      flat.perform call >>= fun flat' => flat'.run rest page tick := by
  simp only [SingleBlock.run, List.foldlM_cons]
  cases flat.perform call <;> rfl

theorem UnitBlock.run_cons (rows : UnitBlock) (call : BlockCall) (rest : List BlockCall)
    (page : Nat) (tick : Tick) :
    rows.run (call :: rest) page tick =
      rows.perform call >>= fun rows' => rows'.run rest page tick := by
  simp only [UnitBlock.run, List.foldlM_cons]
  cases rows.perform call <;> rfl

theorem SingleBlock.run_of_error {e : Fault} (h : flat.perform call = .error e)
    (rest : List BlockCall) : flat.run (call :: rest) page tick = .error e := by
  rw [SingleBlock.run_cons, h]
  rfl

theorem UnitBlock.run_of_error {e : Fault} (h : rows.perform call = .error e)
    (rest : List BlockCall) : rows.run (call :: rest) page tick = .error e := by
  rw [UnitBlock.run_cons, h]
  rfl

/-! ## Agreement -/

open BlockCall

theorem Rows.report_beyond (h : Rows rows blk) (hunits : blk.ioUnitInPage = 1)
    (hpage : blk.pageCount ≤ page) : rows.report page tick = .error .outOfRange := by
  simp [UnitBlock.report, UnitBlock.getPageInfo, Bitset.new, h.ioUnitInPage, hunits,
    h.valid.at?_beyond hpage, bind, Except.bind]

theorem Rows.run_empty (h : Rows rows blk) (hunits : blk.ioUnitInPage = 1)
    (hempty : blk.pageCount = 0) : rows.run calls page tick = .error .outOfRange := by
  induction calls generalizing rows blk with
  | nil => exact h.report_beyond hunits (hempty ▸ Nat.zero_le page)
  | cons call rest ih =>
      have table := h.perform (hunits ▸ Nat.one_pos) call
      by_cases inRange : call.InRange blk.pageCount
      · cases call with
        | write p lpn t => exact absurd (hempty ▸ inRange) (Nat.not_lt_zero p)
        | invalidate p => exact absurd (hempty ▸ inRange) (Nat.not_lt_zero p)
        | erase =>
            obtain ⟨rows', hperform, table'⟩ := table.of_ok
            rw [UnitBlock.run_cons, hperform]
            exact ih table' hunits hempty
      · rw [Block.perform_beyond (hunits ▸ Nat.one_pos) inRange] at table
        exact UnitBlock.run_of_error table.of_error rest

/-- By induction on the calls, with both forms standing for the same table: a call out of
range fails differently, a call out of order alike, and a call that is carried out leaves
both forms standing for one table again. -/
theorem runs_agree_iff (hflat : Flat flat blk) (hrows : Rows rows blk) (seq : blk.Sequential)
    (hpages : 0 < blk.pageCount) (calls : List BlockCall) (page : Nat) (tick : Tick) :
    flat.run calls page tick = rows.run calls page tick ↔
      Within blk.pageCount (blk.nextWritePageIndex 0) calls ∧
        (Ordered (blk.nextWritePageIndex 0) calls →
          page < blk.pageCount ∧ liveAfter page (blk.validBits page 0) calls = true) := by
  induction calls generalizing flat rows blk with
  | nil =>
      have hf : flat.run [] page tick = flat.report page tick := rfl
      have hr : rows.run [] page tick = rows.report page tick := rfl
      simp only [hf, hr, Within, Ordered, liveAfter, List.foldl_nil, true_and, true_imp_iff]
      rcases lt_or_ge page blk.pageCount with hpage | hpage
      · simp [reports_agree_iff hflat hrows hpage, hpage]
      · rw [hrows.report_beyond hflat.ioUnitInPage hpage]
        have differ := flat.report_ne_outOfRange page tick
        simp [differ, Nat.not_lt.2 hpage]
  | cons call rest ih =>
      have hunits := hflat.ioUnitInPage
      have hr := hrows.perform (hunits ▸ Nat.one_pos) call
      by_cases inRange : call.InRange blk.pageCount
      · have hf := hflat.perform hpages inRange
        by_cases inOrder : call.InOrder (blk.nextWritePageIndex 0)
        · obtain ⟨blk', hperform, seq', hunits', hcount, hnext, hlive⟩ :=
            seq.perform hunits inRange inOrder
          rw [hperform] at hf hr
          obtain ⟨flat', hflat', table⟩ := hf.of_ok
          obtain ⟨rows', hrows', table'⟩ := hr.of_ok
          have same := ih table table' seq' (hcount ▸ hpages)
          rw [hcount, hnext, hlive] at same
          rw [SingleBlock.run_cons, UnitBlock.run_cons, hflat', hrows']
          simpa [bind, Except.bind, Within, Ordered, liveAfter, inRange, inOrder] using same
        · have stuck := Block.perform_disordered inOrder
          cases hperform : blk.perform call with
          | ok blk' => exact absurd hperform (stuck blk')
          | error e =>
              rw [hperform] at hf hr
              rw [SingleBlock.run_of_error hf.of_error, UnitBlock.run_of_error hr.of_error]
              simp [Within, Ordered, inRange, inOrder]
      · have beyond := Block.perform_beyond (hunits ▸ Nat.one_pos) inRange
        rw [beyond] at hr
        rw [UnitBlock.run_of_error hr.of_error]
        have differ := flat.run_ne_outOfRange (call :: rest) page tick
        simp [differ, Within, inRange]

/-- A block of one unit reports what the general form does exactly if it has pages, no call
that is reached leaves them, and the page asked about is live. -/
theorem forms_agree_iff (idx pageCount : Nat) (calls : List BlockCall) (page : Nat)
    (tick : Tick) :
    singleReport idx pageCount calls page tick = unitReport idx pageCount calls page tick ↔
      0 < pageCount ∧ Within pageCount 0 calls ∧
        (Ordered 0 calls → page < pageCount ∧ liveAfter page false calls = true) := by
  rcases Nat.eq_zero_or_pos pageCount with rfl | hpages
  · have single : singleReport idx 0 calls page tick = .error .undefined := rfl
    obtain ⟨rows, hrows, table⟩ := new_rows idx Nat.one_pos
    have empty : unitReport idx 0 calls page tick = .error .outOfRange := by
      rw [unitReport, hrows]
      exact table.run_empty rfl rfl
    simp [single, empty]
  · obtain ⟨flat, hflat, table⟩ := new_flat idx hpages
    obtain ⟨rows, hrows, table'⟩ := new_rows idx Nat.one_pos
    have same := runs_agree_iff table table' (Block.new_sequential idx) hpages calls page tick
    rw [singleReport, unitReport, hflat, hrows]
    simpa [bind, Except.bind, hpages, Block.new, Block.erase] using same

/-- A page that was invalidated is still reported as live. -/
theorem forms_differ :
    (singleReport 0 4 [.write 0 7 1, .invalidate 0] 0 2).map Report.live = .ok true ∧
      (unitReport 0 4 [.write 0 7 1, .invalidate 0] 0 2).map Report.live = .ok false ∧
      singleReport 0 4 [.write 0 7 1, .invalidate 0] 0 2 ≠
        unitReport 0 4 [.write 0 7 1, .invalidate 0] 0 2 := by
  decide

end SimpleSSD.FTL
