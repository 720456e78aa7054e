import SimpleSSD.FTL.Sequential

/-!
# The calls for blocks

The calls of `Block::write` and the blocks that reach `eraseInternal`, followed
through the loops of the page mapping.  A collection leaves nothing valid in the
blocks it reclaims.
-/

namespace SimpleSSD.FTL.PageMapping

open SimpleSSD.Foundation

variable (cfg : Config)

/-! ## Calls -/

/-- A call of `Block::write`: the block before it, the page and the unit. -/
structure BlockWrite where
  blk : Block
  page : Nat
  unit : Nat

def BlockWrite.Disciplined (call : BlockWrite) : Prop :=
  call.page < cfg.param.pagesInBlock ∧ call.blk.erasedBits call.page call.unit = true ∧
    call.page = call.blk.nextWritePageIndex call.unit

def unitWrites (req : Request cfg) (block : Nat) (call : (Tick × PageMapping) × Nat) :
    List BlockWrite :=
  if req.selects call.2 then
    match call.1.2.blocks block, call.1.2.table req.lpn with
    | some blk, some _ => [⟨blk, blk.nextWritePageIndex call.2, call.2⟩]
    | _, _ => []
  else []

def relocationWrites (block page dst : Nat) (bit : Nat → Bool) (lpns : Nat → Nat)
    (call : Collection × Nat) : List BlockWrite :=
  if bit call.2 then
    match call.1.mapping.blocks block with
    | none => []
    | some blk =>
        match blk.invalidate page call.2 with
        | .error _ => []
        | .ok blk =>
            match call.1.mapping.table (lpns call.2) with
            | none => []
            | some _ =>
                match (call.1.mapping.setBlock block blk).blocks dst with
                | none => []
                | some free => [⟨free, free.nextWritePageIndex call.2, call.2⟩]
  else []

def pageWrites (block : Nat) (call : Collection × Nat) : List BlockWrite :=
  match call.1.mapping.blocks block with
  | none => []
  | some blk =>
      let info := blk.getPageInfo call.2
      if (List.range cfg.param.ioUnitInPage).any info then
        let bit := liveUnits cfg info
        let iomap := (List.range cfg.param.ioUnitInPage).map bit
        match getLastFreeBlock cfg iomap call.1.mapping with
        | .error _ => []
        | .ok (dst, s) =>
            (visits (relocateUnit cfg block call.2 dst bit (blk.lpns call.2))
              (List.range cfg.bitsetSize)
              { call.1 with
                mapping := s
                reads := call.1.reads ++ [⟨block, call.2, iomap⟩] }).flatMap
              (relocationWrites block call.2 dst bit (blk.lpns call.2))
      else []

def blockWrites (call : Collection × Nat) : List BlockWrite :=
  match call.1.mapping.blocks call.2 with
  | none => []
  | some _ =>
      (visits (relocatePage cfg call.2) (List.range cfg.param.pagesInBlock) call.1).flatMap
        (pageWrites cfg call.2)

def collectionWrites (blocksToReclaim : List Nat) (tick : Tick) (s : PageMapping) :
    List BlockWrite :=
  (visits (collectBlock cfg) blocksToReclaim ⟨s, tick, [], []⟩).flatMap (blockWrites cfg)

def eraseStep (beginAt : Tick) (acc : Tick × PageMapping) (block : Nat) :
    Except Fault (Tick × PageMapping) := do
  let done ← eraseInternal cfg
    ⟨block, 0, List.replicate cfg.param.ioUnitInPage true⟩ beginAt acc.2
  .ok (max acc.1 done.1, done.2)

def carryOut (tick : Tick) (w : Collection) : Tick × Tick × PageMapping :=
  let reads := issueAll cfg w.tick (w.reads.map .palRead) tick w.mapping
  let writes := issueAll cfg reads.1 (w.writes.map fun copy => .palWrite copy.req) tick
    { reads.2 with contents := flush cfg reads.2.contents w.writes }
  (reads.1, writes)

/-- The calls of `eraseInternal`: the state before and the index of the block. -/
def eraseCalls (blocksToReclaim : List Nat) (tick : Tick) (s : PageMapping) :
    List ((Tick × PageMapping) × Nat) :=
  match blocksToReclaim.foldlM (collectBlock cfg) ⟨s, tick, [], []⟩ with
  | .error _ => []
  | .ok w =>
      visits (eraseStep cfg (carryOut cfg tick w).1) blocksToReclaim
        (tick, (carryOut cfg tick w).2.2)

def erasedBlocks (blocksToReclaim : List Nat) (tick : Tick) (s : PageMapping) : List Block :=
  (eraseCalls cfg blocksToReclaim tick s).flatMap fun call => (call.1.2.blocks call.2).toList

theorem doGarbageCollection_eq {blocksToReclaim : List Nat} (tick : Tick) (s : PageMapping)
    (h : blocksToReclaim ≠ []) :
    doGarbageCollection cfg blocksToReclaim tick s = (do
      let w ← blocksToReclaim.foldlM (collectBlock cfg) ⟨s, tick, [], []⟩
      let erases ← blocksToReclaim.foldlM (eraseStep cfg (carryOut cfg tick w).1)
        (tick, (carryOut cfg tick w).2.2)
      .ok (cfg.timing.applyLatency .doGarbageCollection (max (carryOut cfg tick w).2.1 erases.1),
        erases.2)) := by
  unfold doGarbageCollection
  rw [if_neg h]
  rfl

theorem doGarbageCollection_eq_ok {blocksToReclaim : List Nat} {tick tick' : Tick}
    {s s' : PageMapping} (h : doGarbageCollection cfg blocksToReclaim tick s = .ok (tick', s')) :
    (blocksToReclaim = [] ∧ s' = s) ∨
    ∃ w erases, blocksToReclaim.foldlM (collectBlock cfg) ⟨s, tick, [], []⟩ = .ok w ∧
      blocksToReclaim.foldlM (eraseStep cfg (carryOut cfg tick w).1)
        (tick, (carryOut cfg tick w).2.2) = .ok erases ∧ s' = erases.2 := by
  by_cases hempty : blocksToReclaim = []
  · unfold doGarbageCollection at h
    rw [if_pos hempty] at h
    cases h
    exact .inl ⟨hempty, rfl⟩
  · rw [doGarbageCollection_eq cfg tick s hempty] at h
    obtain ⟨w, hcollect, h⟩ := bind_eq_ok.1 h
    obtain ⟨erases, herases, hdone⟩ := bind_eq_ok.1 h
    cases hdone
    exact .inr ⟨w, erases, hcollect, herases, rfl⟩

def collections (choices : Choices) (req : Request cfg) (tick : Tick) (sendToPAL : Bool)
    (s : PageMapping) : List (List Nat × Tick × PageMapping) :=
  match beginWrite cfg req tick sendToPAL s with
  | .error _ => []
  | .ok start =>
      match (List.range cfg.bitsetSize).foldlM (writeStep cfg req sendToPAL start)
        (tick, recorded cfg req start.2.2) with
      | .error _ => []
      | .ok done =>
          if cfg.belowThreshold done.2.nFreeBlocks && sendToPAL then
            match selectVictimBlock cfg choices
              (cfg.timing.applyLatency .writeInternal done.1) done.2 with
            | .error _ => []
            | .ok selected => [selected]
          else []

def hostWrites (req : Request cfg) (tick : Tick) (sendToPAL : Bool) (s : PageMapping) :
    List BlockWrite :=
  match beginWrite cfg req tick sendToPAL s with
  | .error _ => []
  | .ok start =>
      (visits (writeStep cfg req sendToPAL start) (List.range cfg.bitsetSize)
        (tick, recorded cfg req start.2.2)).flatMap (unitWrites cfg req start.1)

def internalWrites (choices : Choices) (req : Request cfg) (tick : Tick) (sendToPAL : Bool)
    (s : PageMapping) : List BlockWrite :=
  hostWrites cfg req tick sendToPAL s ++
    (collections cfg choices req tick sendToPAL s).flatMap fun gc =>
      collectionWrites cfg gc.1 gc.2.1 gc.2.2

def internalErases (choices : Choices) (req : Request cfg) (tick : Tick) (sendToPAL : Bool)
    (s : PageMapping) : List Block :=
  (collections cfg choices req tick sendToPAL s).flatMap fun gc =>
    erasedBlocks cfg gc.1 gc.2.1 gc.2.2

variable {cfg} {s s' s₀ : PageMapping} {list reclaimed rest : List Nat} {w w' : Collection}
  {block dst page idx b : Nat} {bit : Nat → Bool} {lpns : Nat → Nat} {tick tick' : Tick}
  {req : Request cfg}

/-! ## Validity while blocks are collected -/

/-- No unit that `p` selects is valid in the block. -/
def Drained (b : Nat) (p : Nat → Nat → Prop) (s : PageMapping) : Prop :=
  ∀ blk, s.blocks b = some blk → ∀ page unit, p page unit → blk.validBits page unit = false

def Fades (reclaimed : List Nat) (s s' : PageMapping) : Prop :=
  ∀ b ∈ reclaimed, ∀ blk', s'.blocks b = some blk' → ∃ blk, s.blocks b = some blk ∧
    ∀ page unit, blk'.validBits page unit = true → blk.validBits page unit = true

theorem Fades.refl (s : PageMapping) : Fades reclaimed s s :=
  fun _ _ blk (hblk : s.blocks _ = some blk) => ⟨blk, hblk, fun _ _ h => h⟩

theorem Fades.trans {s₁ s₂ s₃ : PageMapping} (h : Fades reclaimed s₁ s₂)
    (h' : Fades reclaimed s₂ s₃) : Fades reclaimed s₁ s₃ := by
  intro b hb blk₃ hblk₃
  obtain ⟨blk₂, hblk₂, hvalid'⟩ := h' b hb blk₃ hblk₃
  obtain ⟨blk₁, hblk₁, hvalid⟩ := h b hb blk₂ hblk₂
  exact ⟨blk₁, hblk₁, fun page unit h => hvalid page unit (hvalid' page unit h)⟩

theorem Drained.fades {p : Nat → Nat → Prop} (h : Drained b p s) (hb : b ∈ reclaimed)
    (hfades : Fades reclaimed s s') : Drained b p s' := by
  intro blk' hblk' page unit hp
  obtain ⟨blk, hblk, hvalid⟩ := hfades b hb blk' hblk'
  have hnot := h blk hblk page unit hp
  cases heq : blk'.validBits page unit with
  | false => rfl
  | true => exact absurd (hvalid page unit heq) (by simp [hnot])

theorem Opened.fades (h : Opened cfg s dst s') (hfull : ∀ b ∈ reclaimed, Full cfg s b) :
    Fades reclaimed s s' := by
  intro b hb blk' hblk'
  obtain ⟨blk, hblk, -⟩ := hfull b hb
  cases Option.some.inj ((h.blocks b blk hblk).symm.trans hblk')
  exact ⟨_, hblk, fun _ _ h => h⟩

theorem relocateUnit_fades (hdst : dst ∉ reclaimed) (hblock : block ∈ reclaimed)
    (run : relocateUnit cfg block page dst bit lpns w idx = .ok w') :
    Fades reclaimed w.mapping w'.mapping ∧
      (bit idx = true → Drained block (fun p u => p = page ∧ u = idx) w'.mapping) := by
  by_cases hbit : bit idx = true
  · obtain ⟨blk, blk', entries, free, free', hblk, hinv, -, -, -, rfl⟩ :=
      relocateUnit_eq_ok hbit run
    obtain ⟨-, rfl⟩ := Block.invalidate_eq_ok hinv
    have hne : block ≠ dst := fun heq => hdst (heq ▸ hblock)
    constructor
    · intro b hb other hother
      have hb_ne : b ≠ dst := fun heq => hdst (heq ▸ hb)
      by_cases heq : b = block
      · subst heq
        simp only [setBlock, setEntry, access, Function.update_of_ne hb_ne,
          Function.update_self, Option.some.injEq] at hother
        subst hother
        refine ⟨blk, hblk, fun p u hvalid => ?_⟩
        simp only [update₂_apply] at hvalid
        split_ifs at hvalid
        exact hvalid
      · simp only [setBlock, setEntry, access, Function.update_of_ne hb_ne,
          Function.update_of_ne heq] at hother
        exact ⟨other, hother, fun _ _ h => h⟩
    · rintro - other hother p u ⟨rfl, rfl⟩
      simp only [setBlock, setEntry, access, Function.update_of_ne hne, Function.update_self,
        Option.some.injEq] at hother
      subst hother
      simp [update₂_apply]
  · cases relocateUnit_unselected hbit run
    exact ⟨.refl _, fun h => absurd h hbit⟩

theorem Sequential.relocateUnit (h : Sequential w.mapping)
    (run : relocateUnit cfg block page dst bit lpns w idx = .ok w') : Sequential w'.mapping := by
  by_cases hbit : bit idx = true
  · obtain ⟨blk, blk', entries, free, free', hblk, hinv, -, hfree, hwrite, rfl⟩ :=
      relocateUnit_eq_ok hbit run
    have hinvalid : Sequential (w.mapping.setBlock block blk') :=
      h.setBlock ((h.inUse block blk hblk).invalidate hinv)
    have hwritten : free'.Sequential := (hinvalid.inUse dst free hfree).write hwrite
    exact (hinvalid.setBlock hwritten).congr rfl rfl
  · cases relocateUnit_unselected hbit run
    exact h

theorem Ready.relocateUnit (h : Ready cfg dst (idx :: rest) w.mapping) (hnotin : idx ∉ rest)
    (run : relocateUnit cfg block page dst bit lpns w idx = .ok w') :
    Ready cfg dst rest w'.mapping := by
  by_cases hbit : bit idx = true
  · obtain ⟨blk, blk', entries, free, free', hblk, hinv, -, hfree, hwrite, rfl⟩ :=
      relocateUnit_eq_ok hbit run
    exact ((h.invalidate hblk hinv).write hfree hnotin hwrite).congr rfl
  · cases relocateUnit_unselected hbit run
    exact h.tail

/-! ## The loops of a collection -/

/-- Between two units of a page: `start` is the state when its block is open. -/
structure RelocatingPage (cfg : Config) (reclaimed : List Nat) (s₀ start : PageMapping)
    (block page dst : Nat) (bit : Nat → Bool) (lpns : Nat → Nat) (rest : List Nat)
    (w : Collection) : Prop where
  bound : ∀ idx ∈ rest, idx < cfg.bitsetSize
  nodup : rest.Nodup
  collecting : Collecting cfg reclaimed s₀ w
  awaits : Awaits bit lpns block page rest w.mapping
  sequential : Sequential w.mapping
  ready : 0 < cfg.param.pagesInBlock → Ready cfg dst rest w.mapping
  fades : Fades reclaimed start w.mapping
  drained : ∀ idx < cfg.bitsetSize, idx ∉ rest → bit idx = true →
    Drained block (fun p u => p = page ∧ u = idx) w.mapping

theorem RelocatingPage.step {start : PageMapping}
    (h : RelocatingPage cfg reclaimed s₀ start block page dst bit lpns (idx :: rest) w)
    (hblock : block ∈ reclaimed) (hdst : dst ∉ reclaimed)
    (run : relocateUnit cfg block page dst bit lpns w idx = .ok w') :
    RelocatingPage cfg reclaimed s₀ start block page dst bit lpns rest w' := by
  obtain ⟨hnotin, hnodup⟩ := List.nodup_cons.1 h.nodup
  obtain ⟨hcollecting, hawaits⟩ := h.collecting.relocateUnit hblock hdst
    (h.bound idx List.mem_cons_self) hnotin h.awaits run
  obtain ⟨hfades, hdrained⟩ := relocateUnit_fades hdst hblock run
  exact
    { bound := fun i hi => h.bound i (List.mem_cons_of_mem idx hi)
      nodup := hnodup
      collecting := hcollecting
      awaits := hawaits
      sequential := h.sequential.relocateUnit run
      ready := fun hpages => (h.ready hpages).relocateUnit hnotin run
      fades := h.fades.trans hfades
      drained := by
        intro i hi hrest hbit
        by_cases heq : i = idx
        · exact heq ▸ hdrained (heq ▸ hbit)
        · exact (h.drained i hi (by simp [heq, hrest]) hbit).fades hblock hfades }

theorem liveUnits_eq_false {info : Nat → Bool} (hidx : idx < cfg.bitsetSize)
    (hunits : 0 < cfg.param.ioUnitInPage) (h : liveUnits cfg info idx = false) :
    info idx = false := by
  have hlt := lt_of_lt_of_le hidx (bitsetSize_le hunits)
  unfold liveUnits at h
  split_ifs at h
  · exact h
  · simp [hlt] at h

/-- Between two pages or two blocks: nothing that `p` selects is valid any more. -/
structure Reclaiming (cfg : Config) (reclaimed : List Nat) (s₀ : PageMapping)
    (p : Nat → Nat → Prop) (w : Collection) : Prop where
  collecting : Collecting cfg reclaimed s₀ w
  sequential : Sequential w.mapping
  drained : ∀ b ∈ reclaimed, Drained b (fun page _ => p b page) w.mapping

theorem Reclaiming.mono {p q : Nat → Nat → Prop} (h : Reclaiming cfg reclaimed s₀ p w)
    (hpq : ∀ b ∈ reclaimed, ∀ page, q b page → p b page) :
    Reclaiming cfg reclaimed s₀ q w :=
  ⟨h.collecting, h.sequential, fun b hb blk hblk page unit hq =>
    h.drained b hb blk hblk page unit (hpq b hb page hq)⟩

theorem Reclaiming.relocating {p : Nat → Nat → Prop} (h : Reclaiming cfg reclaimed s₀ p w)
    (hunits : 2 ≤ cfg.param.ioUnitInPage) {blk : Block}
    (hblk : w.mapping.blocks block = some blk)
    (hany : (List.range cfg.param.ioUnitInPage).any (blk.getPageInfo page) = true)
    {iomap : List Bool} {opened : PageMapping}
    (hopen : getLastFreeBlock cfg iomap w.mapping = .ok (dst, opened))
    (reads : List PALRequest) :
    dst ∉ reclaimed ∧ RelocatingPage cfg reclaimed s₀ w.mapping block page dst
      (liveUnits cfg (blk.getPageInfo page)) (blk.lpns page) (List.range cfg.bitsetSize)
      { w with mapping := opened, reads := reads } := by
  obtain ⟨hdst, hcollecting, hawaits⟩ := h.collecting.openBlock hunits hblk hany hopen reads
  exact ⟨hdst,
    { bound := fun idx => List.mem_range.1
      nodup := List.nodup_range
      collecting := hcollecting
      awaits := hawaits
      sequential := h.sequential.getLastFreeBlock hopen
      ready := fun hpages =>
        getLastFreeBlock_ready h.sequential h.collecting.intact hpages (by omega) hopen
      fades := (getLastFreeBlock_opened hopen).fades h.collecting.full
      drained := fun idx hidx hnot => absurd (List.mem_range.2 hidx) hnot }⟩

theorem RelocatingPage.page_drained {blk : Block}
    (h : RelocatingPage cfg reclaimed s₀ s block page dst (liveUnits cfg (blk.validBits page))
      lpns [] w) (hblock : block ∈ reclaimed) (hunits : 0 < cfg.param.ioUnitInPage)
    (hblk : s.blocks block = some blk) : Drained block (fun q _ => q = page) w.mapping := by
  intro other hother q u hq
  subst hq
  cases hvalid : other.validBits q u with
  | false => rfl
  | true =>
      have hlt := h.collecting.intact.valid_lt hother hvalid
      cases hbit : liveUnits cfg (blk.validBits q) u with
      | true =>
          have hnot := h.drained u hlt (by simp) hbit other hother q u ⟨rfl, rfl⟩
          exact hvalid.symm.trans hnot
      | false =>
          obtain ⟨old, hold, hwas⟩ := h.fades block hblock other hother
          cases Option.some.inj (hblk.symm.trans hold)
          have hdead := liveUnits_eq_false hlt hunits hbit
          exact (hwas q u hvalid).symm.trans hdead

theorem Reclaiming.relocatePage {p : Nat → Nat → Prop} (h : Reclaiming cfg reclaimed s₀ p w)
    (hblock : block ∈ reclaimed) (hunits : 2 ≤ cfg.param.ioUnitInPage)
    (run : relocatePage cfg block w page = .ok w') :
    Reclaiming cfg reclaimed s₀ (fun b q => p b q ∨ b = block ∧ q = page) w' := by
  have hcollected := h.collecting.relocatePage hblock hunits run
  have hafter : Sequential w'.mapping ∧ Fades reclaimed w.mapping w'.mapping ∧
      Drained block (fun q _ => q = page) w'.mapping := by
    unfold PageMapping.relocatePage at run
    split at run
    · cases run
    · rename_i blk hblk
      have hinfo := h.collecting.intact.getPageInfo_eq hunits hblk page
      dsimp only at run
      split_ifs at run with hany
      · obtain ⟨⟨dst, opened⟩, hopen, run⟩ := bind_eq_ok.1 run
        dsimp only at run
        obtain ⟨hdst, hstart⟩ := h.relocating hunits hblk hany hopen
          (w.reads ++ [⟨block, page, (List.range cfg.param.ioUnitInPage).map
            (liveUnits cfg (blk.getPageInfo page))⟩])
        have hdone := foldlM_invariant (RelocatingPage cfg reclaimed s₀ w.mapping block page dst
          _ _) (fun idx rest w₁ w₂ hinv hstep => hinv.step hblock hdst hstep) run hstart
        rw [hinfo] at hdone
        exact ⟨hdone.sequential, hdone.fades, hdone.page_drained hblock (by omega) hblk⟩
      · cases run
        refine ⟨h.sequential, .refl _, fun other hother q u hq => ?_⟩
        cases Option.some.inj (hblk.symm.trans hother)
        subst hq
        cases hvalid : blk.validBits q u with
        | false => rfl
        | true =>
            obtain ⟨-, -, hsound⟩ := h.collecting.intact.inUse block blk hblk
            refine absurd (List.any_eq_true.2 ⟨u, ?_, ?_⟩) hany
            · exact List.mem_range.2 (hsound.inRange q u (.inl hvalid)).2
            · rw [hinfo]
              exact hvalid
  obtain ⟨hsequential, hfades, hpage⟩ := hafter
  refine ⟨hcollected, hsequential, fun b hb blk hblk q u hq => ?_⟩
  rcases hq with hold | ⟨rfl, rfl⟩
  · exact (h.drained b hb).fades hb hfades blk hblk q u hold
  · exact hpage blk hblk q u rfl

def CollectingBlock (cfg : Config) (reclaimed : List Nat) (s₀ : PageMapping)
    (done : Nat → Prop) (block : Nat) (rest : List Nat) (w : Collection) : Prop :=
  Reclaiming cfg reclaimed s₀
    (fun b q => done b ∨ b = block ∧ q < cfg.param.pagesInBlock ∧ q ∉ rest) w

theorem CollectingBlock.step {done : Nat → Prop}
    (h : CollectingBlock cfg reclaimed s₀ done block (page :: rest) w)
    (hblock : block ∈ reclaimed) (hunits : 2 ≤ cfg.param.ioUnitInPage)
    (run : PageMapping.relocatePage cfg block w page = .ok w') :
    CollectingBlock cfg reclaimed s₀ done block rest w' := by
  refine (Reclaiming.relocatePage h hblock hunits run).mono fun b _ q hq => ?_
  rcases hq with hdone | ⟨rfl, hlt, hnotin⟩
  · exact .inl (.inl hdone)
  · by_cases heq : q = page
    · exact .inr ⟨rfl, heq⟩
    · exact .inl (.inr ⟨rfl, hlt, by simp [heq, hnotin]⟩)

theorem Reclaiming.collectingBlock {done : Nat → Prop}
    (h : Reclaiming cfg reclaimed s₀ (fun b _ => done b) w) :
    CollectingBlock cfg reclaimed s₀ done block (List.range cfg.param.pagesInBlock) w := by
  refine h.mono fun b _ q hq => ?_
  rcases hq with hdone | ⟨-, hlt, hnotin⟩
  · exact hdone
  · exact absurd (List.mem_range.2 hlt) hnotin

theorem Reclaiming.collectBlock {done : Nat → Prop}
    (h : Reclaiming cfg reclaimed s₀ (fun b _ => done b) w)
    (hblock : block ∈ reclaimed) (hunits : 2 ≤ cfg.param.ioUnitInPage)
    (run : collectBlock cfg w block = .ok w') :
    Reclaiming cfg reclaimed s₀ (fun b _ => done b ∨ b = block) w' := by
  unfold PageMapping.collectBlock at run
  split at run
  · cases run
  · have hdone := foldlM_invariant (CollectingBlock cfg reclaimed s₀ done block)
      (fun page rest w₁ w₂ hinv hstep => hinv.step hblock hunits hstep) run h.collectingBlock
    refine ⟨hdone.collecting, hdone.sequential, fun b hb blk hblk q u hq => ?_⟩
    rcases hq with hd | rfl
    · exact hdone.drained b hb blk hblk q u (.inl hd)
    · obtain ⟨-, -, hsound⟩ := hdone.collecting.intact.inUse b blk hblk
      cases hvalid : blk.validBits q u with
      | false => rfl
      | true =>
          have hlt := (hsound.inRange q u (.inl hvalid)).1
          exact hvalid.symm.trans
            (hdone.drained b hb blk hblk q u (.inr ⟨rfl, hlt, List.not_mem_nil⟩))

/-- Between two victims, those that are not among the rest have nothing valid. -/
def CollectingVictims (cfg : Config) (reclaimed : List Nat) (s₀ : PageMapping)
    (rest : List Nat) (w : Collection) : Prop :=
  (∀ b ∈ rest, b ∈ reclaimed) ∧ Reclaiming cfg reclaimed s₀ (fun b _ => b ∉ rest) w

theorem CollectingVictims.step
    (h : CollectingVictims cfg reclaimed s₀ (block :: rest) w)
    (hunits : 2 ≤ cfg.param.ioUnitInPage) (run : collectBlock cfg w block = .ok w') :
    CollectingVictims cfg reclaimed s₀ rest w' := by
  obtain ⟨hrest, hreclaiming⟩ := h
  refine ⟨fun b hb => hrest b (List.mem_cons_of_mem block hb), ?_⟩
  refine (hreclaiming.collectBlock (hrest block List.mem_cons_self) hunits run).mono
    fun b _ _ hnotin => ?_
  by_cases heq : b = block
  · exact .inr heq
  · exact .inl (by simp [heq, hnotin])

theorem CollectingVictims.start (tick : Tick) (h : Intact cfg s.contents ∅ s)
    (hsequential : Sequential s)
    (hfull : ∀ b ∈ list, Full cfg s b) :
    CollectingVictims cfg list s list ⟨s, tick, [], []⟩ := by
  refine ⟨fun b hb => hb, ⟨h, rfl, rfl, hfull, fun _ hcopy => ?_⟩, hsequential,
    fun b hb blk hblk page unit hnot => absurd hb hnot⟩
  cases hcopy

end SimpleSSD.FTL.PageMapping
