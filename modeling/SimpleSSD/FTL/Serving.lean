import SimpleSSD.FTL.Supply
import SimpleSSD.FTL.Trimming

/-!
# Requests that are served

In a state with its invariants every read returns, and so does every write whose page the
supply covers and whose collection, if it starts one, does.
-/

namespace SimpleSSD.FTL.PageMapping

open SimpleSSD.Foundation Supply

variable {cfg : Config} {s s' s'' : PageMapping} {list : List Nat} {rest : List Nat}
  {b block page idx lpn unit : Nat} {blk blk' : Block} {tick tick' : Tick}
  {req : Request cfg} {choices : Choices} {entries : Nat → Nat × Nat}
  {contents : Nat → Nat → Nat → Option Nat} {detached : Set (Nat × Nat)} {q : Supply}

/-- What every state of a run has: the blocks are written in order, those that are not open
are full or free, and the mapping is consistent. -/
structure Orderly (cfg : Config) (s : PageMapping) : Prop where
  disciplined : Disciplined cfg s
  stocking : Stocking cfg cfg.param.pageCountToMaxPerf s

def SlotsInUse (s : PageMapping) : Prop :=
  (∀ b ∈ s.lastFreeBlock, s.blocks b ≠ none) ∧ s.lastFreeBlock.Nodup

theorem Orderly.openSlots (h : Orderly cfg s) (hslots : SlotsInUse s) :
    OpenSlots s.lastFreeBlock s :=
  ⟨hslots.1, hslots.2, h.stocking.1.shelf.indexed, h.stocking.1.shelf.free,
    h.stocking.1.shelf.freeDistinct⟩

theorem construct_orderly (h : construct cfg = .ok s) : Orderly cfg s :=
  ⟨construct_disciplined h, construct_stocking h⟩

theorem Orderly.apply {call : Call cfg} (h : Orderly cfg s) (hunits : 2 ≤ cfg.param.ioUnitInPage)
    (run : call.apply s = .ok s') : Orderly cfg s' :=
  ⟨h.disciplined.apply hunits run, h.stocking.apply run⟩

/-! ## Reads -/

theorem Intact.live_leads (h : Intact cfg contents detached s)
    (hentries : s.table lpn = some entries) (hidx : idx < cfg.bitsetSize)
    (hlive : cfg.live (entries idx) = true)
    (hnot : (lpn, idx) ∉ detached) : Leads s (entries idx) := by
  have howner := h.consistent.owned _ _ hnot (place_eq_some hentries hidx hlive)
  obtain ⟨blk, hblk, hvalid, -⟩ := owner_inv howner
  obtain ⟨-, -, hsound⟩ := h.inUse _ blk hblk
  exact ⟨blk, hblk, hsound.pageCount ▸ (hsound.inRange _ _ (.inl hvalid)).1⟩

theorem Intact.readUnit_total {acc : Tick × PageMapping} (req : Request cfg)
    (h : Intact cfg acc.2.contents ∅ acc.2)
    (hentries : acc.2.table lpn = some entries) (hidx : idx < cfg.bitsetSize)
    (hunits : 0 < cfg.param.ioUnitInPage) :
    ∃ acc', readUnit cfg req entries tick acc idx = .ok acc' := by
  unfold readUnit
  by_cases hsel : (req.selects idx && cfg.live (entries idx)) = true
  · rw [if_pos hsel]
    rw [Bool.and_eq_true] at hsel
    obtain ⟨blk, hblk, hpage⟩ := h.live_leads hentries hidx hsel.2 (Set.notMem_empty _)
    obtain ⟨-, -, hsound⟩ := h.inUse _ blk hblk
    have hunit : idx < blk.ioUnitInPage :=
      hsound.ioUnitInPage ▸ lt_of_lt_of_le hidx (bitsetSize_le hunits)
    have hread : ∃ blk', blk.read (entries idx).2 idx tick = .ok blk' := by
      unfold Block.read
      rw [if_neg (not_le.2 hunit), if_neg (not_le.2 hpage)]
      split <;> exact ⟨_, rfl⟩
    obtain ⟨blk', hread⟩ := hread
    rw [hblk]
    simp only [hread, bind, Except.bind]
    exact ⟨_, rfl⟩
  · rw [if_neg hsel]
    exact ⟨_, rfl⟩

theorem Intact.readUnit {acc acc' : Tick × PageMapping} (h : Intact cfg acc.2.contents ∅ acc.2)
    (run : readUnit cfg req entries tick acc idx = .ok acc') :
    Intact cfg acc'.2.contents ∅ acc'.2 ∧ acc'.2.table = acc.2.table := by
  rcases readUnit_eq_ok run with ⟨-, rfl⟩ | ⟨blk, blk', -, hblk, hread, _, rfl, rfl⟩
  · exact ⟨h, rfl⟩
  · exact ⟨(h.readBlock hblk hread).congr rfl rfl rfl rfl, rfl⟩

theorem Disciplined.read_total (h : Disciplined cfg s) (hunits : 0 < cfg.param.ioUnitInPage)
    (req : Request cfg) (tick : Tick) : ∃ done, read cfg req tick s = .ok done := by
  have hinternal : ∃ done, readInternal cfg req tick s = .ok done := by
    unfold readInternal
    split
    · exact ⟨_, rfl⟩
    · rename_i entries hentries
      have hloop : ∀ a, ∃ done, (List.range cfg.bitsetSize).foldlM
          (readUnit cfg req entries (access cfg a tick s).1) (tick, (access cfg a tick s).2) =
            .ok done := by
        intro a
        have hlooked : Intact cfg (access cfg a tick s).2.contents ∅ (access cfg a tick s).2 :=
          h.intact.congr rfl rfl rfl rfl
        obtain ⟨done, hloop, -⟩ := foldlM_total
          (f := readUnit cfg req entries (access cfg a tick s).1)
          (fun acc : Tick × PageMapping => Intact cfg acc.2.contents ∅ acc.2 ∧
            acc.2.table req.lpn = some entries)
          (fun idx hidx acc hinv => by
            obtain ⟨acc', hstep⟩ := hinv.1.readUnit_total req hinv.2
              (List.mem_range.1 hidx) hunits
            obtain ⟨hintact, htable⟩ := hinv.1.readUnit hstep
            exact ⟨acc', hstep, hintact, htable ▸ hinv.2⟩)
          (b := (tick, (access cfg a tick s).2)) ⟨hlooked, hentries⟩
        exact ⟨done, hloop⟩
      obtain ⟨done, hloop⟩ := hloop
        (.dramRead (if cfg.bRandomTweak then 8 * req.ioFlag.count true else 8))
      exact ⟨_, bind_eq_ok.2 ⟨done, hloop, rfl⟩⟩
  unfold PageMapping.read
  split_ifs
  · obtain ⟨done, hdone⟩ := hinternal
    exact ⟨_, bind_eq_ok.2 ⟨done, hdone, rfl⟩⟩
  · exact ⟨_, rfl⟩

/-! ## Writes -/

theorem detach_total (h : Disciplined cfg s) (req : Request cfg) :
    ∃ s', detach cfg req s = .ok s' := by
  unfold detach
  split
  · exact ⟨_, rfl⟩
  · rename_i entries hentries
    have hstep : ∀ idx ∈ List.range cfg.bitsetSize, ∀ mid, SameShape s mid →
        ∃ next, invalidateUnit cfg req entries mid idx = .ok next ∧ SameShape s next := by
      intro idx hidx mid hshape
      unfold invalidateUnit
      by_cases hsel : (req.selects idx && cfg.live (entries idx)) = true
      · rw [if_pos hsel]
        rw [Bool.and_eq_true] at hsel
        have hleads := (hshape.leads _).2 (h.intact.live_leads hentries (List.mem_range.1 hidx)
          hsel.2 (Set.notMem_empty _))
        obtain ⟨next, hnext⟩ := trimUnit_ok hleads
        obtain ⟨⟨blk, hblk, -⟩, hsame, -⟩ := trimUnit_eq_ok hnext
        unfold trimUnit at hnext
        rw [hblk] at hnext ⊢
        exact ⟨next, hnext, hshape.trans hsame⟩
      · rw [if_neg hsel]
        exact ⟨mid, rfl, hshape⟩
    obtain ⟨s', hrun, -⟩ := foldlM_total (SameShape s) hstep (fun _ => rfl)
    exact ⟨s', hrun⟩

theorem invalidateAll_supply {sel : Nat → Bool}
    {f : PageMapping → Nat → Except Fault PageMapping} (hf : Invalidates cfg entries sel f)
    (run : list.foldlM f s = .ok s') : s'.supply = s.supply := by
  refine foldlM_invariant_mem (fun mid => mid.supply = s.supply) ?_ run rfl
  intro idx _ mid next hmid hstep
  rcases hf mid idx next hstep with ⟨-, blk, blk', hblk, hinv, rfl⟩ | ⟨rfl, -⟩
  · obtain ⟨-, rfl⟩ := Block.invalidate_eq_ok hinv
    have hfill : (mid.setBlock (entries idx).1 { blk with
        validBits := update₂ blk.validBits (entries idx).2 idx false }).fillOf = mid.fillOf := by
      rw [fillOf_setBlock, ← fillOf_eq hblk, Function.update_eq_self]
    rw [← hmid]
    unfold supply
    rw [hfill]
    rfl
  · exact hmid

theorem detach_supply (run : detach cfg req s = .ok s') : s'.supply = s.supply := by
  unfold detach at run
  split at run
  · cases run
    rfl
  · exact invalidateAll_supply invalidateUnit_invalidates run

theorem Orderly.beginWrite_total (h : Orderly cfg s) (hslots : SlotsInUse s)
    (htake : s.supply.take cfg req.ioFlag = some q) (tick : Tick) (sendToPAL : Bool) :
    ∃ start, beginWrite cfg req tick sendToPAL s = .ok start ∧
      start.2.2.nFreeBlocks = q.free := by
  obtain ⟨s₁, hdetach⟩ := detach_total h.disciplined req
  obtain ⟨hintact, -⟩ := h.disciplined.intact.detach hdetach
  have hsame := detach_sameSlots hdetach
  have hopenSlots : OpenSlots s₁.lastFreeBlock s₁ :=
    hsame.lastFreeBlock ▸ (h.openSlots hslots).same hsame
  have hstock := h.stocking.inside (detach_inside hdetach)
  rw [← detach_supply hdetach] at htake
  obtain ⟨dst, s₂, hopen, hslot, rfl⟩ := getLastFreeBlock_supplied hintact hopenSlots hstock htake
  have hsparing : Sparing [] s₁ := ⟨hopenSlots, by simp, by simp⟩
  have hused := (hsparing.getLastFreeBlock hopen).slots.inUse dst (List.mem_of_getElem? hslot)
  obtain ⟨accesses, hlooked⟩ := accessMapping_eq req tick sendToPAL s₂
  refine ⟨(dst, accessMapping cfg req tick sendToPAL s₂), ?_, ?_⟩
  · refine bind_eq_ok.2 ⟨s₁, hdetach, bind_eq_ok.2 ⟨(dst, s₂), hopen, ?_⟩⟩
    dsimp only
    rw [if_neg]
    rwa [Option.isNone_iff_eq_none]
  · change (accessMapping cfg req tick sendToPAL s₂).2.nFreeBlocks = _
    rw [hlooked]
    rfl

theorem WritingInOrder.total (sendToPAL : Bool) {start : Nat × Tick × PageMapping}
    {acc : Tick × PageMapping}
    (h : WritingInOrder cfg req start.2.2.host start.1 (idx :: rest) acc)
    (hunits : 0 < cfg.param.ioUnitInPage) (hpages : 0 < cfg.param.pagesInBlock) :
    ∃ acc', writeStep cfg req sendToPAL start acc idx = .ok acc' := by
  unfold writeStep writeUnit
  by_cases hsel : req.selects idx = true
  · obtain ⟨blk, hblk, hroom⟩ := h.ready hpages
    obtain ⟨entries, hentries, -⟩ := h.writing.merge
    obtain ⟨-, -, hsound⟩ := h.writing.intact.inUse _ blk hblk
    obtain ⟨blk', hwrite⟩ := write_total req.lpn start.2.1 hsound
      (h.sequential.inUse _ blk hblk)
      (lt_of_lt_of_le (h.bound idx List.mem_cons_self) (bitsetSize_le hunits))
      (hroom idx List.mem_cons_self)
    rw [if_pos hsel]
    simp only [hblk, hentries, hwrite, bind, Except.bind]
    exact ⟨_, rfl⟩
  · rw [if_neg hsel]
    exact ⟨_, rfl⟩

theorem collections_openSlots {sendToPAL : Bool} (h : OpenSlots s.lastFreeBlock s) :
    ∀ gc ∈ collections cfg choices req tick sendToPAL s,
      OpenSlots gc.2.2.lastFreeBlock gc.2.2 := by
  intro gc hgc
  unfold collections at hgc
  split at hgc
  · cases hgc
  · rename_i start hbegin
    split at hgc
    · cases hgc
    · rename_i done hloop
      split_ifs at hgc
      · split at hgc
        · cases hgc
        · rename_i selected hselect
          rw [List.mem_singleton.1 hgc]
          obtain ⟨list, beginAt, mid⟩ := selected
          obtain ⟨-, rfl⟩ := selectVictimBlock_eq_ok hselect
          exact (written_slots h hbegin hloop).same (.of_eq rfl rfl rfl)
      · cases hgc

theorem collections_selected {start : Nat × Tick × PageMapping} {done : Tick × PageMapping}
    (hbegin : beginWrite cfg req tick true s = .ok start)
    (hloop : (List.range cfg.bitsetSize).foldlM (writeStep cfg req true start)
      (tick, recorded cfg req start.2.2) = .ok done)
    (hsome : collections cfg choices req tick true s ≠ []) :
    ∃ gc, selectVictimBlock cfg choices (cfg.timing.applyLatency .writeInternal done.1) done.2 =
      .ok gc ∧ gc ∈ collections cfg choices req tick true s := by
  unfold collections at hsome ⊢
  simp only [hbegin, hloop] at hsome ⊢
  split_ifs at hsome ⊢
  · cases hselect : selectVictimBlock cfg choices
      (cfg.timing.applyLatency .writeInternal done.1) done.2 with
    | error e => simp [hselect] at hsome
    | ok gc => exact ⟨gc, rfl, by simp⟩
  · exact absurd rfl hsome

variable (cfg) in
/-- The collection of a list of blocks is covered: they are different, none of them is open,
and the supply lasts for the copies and one block more. -/
def Collectable (gc : List Nat × Tick × PageMapping) : Prop :=
  gc.1.Nodup ∧ (∀ b ∈ gc.1, b ∉ gc.2.2.lastFreeBlock) ∧
    ∃ q, takeAll cfg (copies cfg gc.2.2.validOf gc.1) gc.2.2.supply = some q ∧
      Reinserts cfg gc.1 gc.2.2 q

structure Writable (cfg : Config) (choices : Choices) (req : Request cfg) (tick : Tick)
    (s : PageMapping) : Prop where
  paged : 0 < cfg.param.pagesInBlock
  slots : SlotsInUse s
  covered : ∃ q, s.supply.take cfg req.ioFlag = some q ∧
    (cfg.belowThreshold q.free = true → collections cfg choices req tick true s ≠ [])
  collectable : ∀ gc ∈ collections cfg choices req tick true s, Collectable cfg gc

theorem Stocking.collections {n : Nat} {sendToPAL : Bool} (h : Stocking cfg n s) :
    ∀ gc ∈ collections cfg choices req tick sendToPAL s, Stocking cfg n gc.2.2 := by
  intro gc hgc
  unfold PageMapping.collections at hgc
  split at hgc
  · cases hgc
  · rename_i start hbegin
    split at hgc
    · cases hgc
    · rename_i done hloop
      split_ifs at hgc
      · split at hgc
        · cases hgc
        · rename_i selected hselect
          rw [List.mem_singleton.1 hgc]
          obtain ⟨list, beginAt, mid⟩ := selected
          obtain ⟨hstart, hblock⟩ := h.beginWrite hbegin
          have hinside : Inside cfg (recorded cfg req start.2.2) done.2 :=
            Inside.foldlM_open Prod.snd
              (fun idx acc acc' hopen hstep => writeStep_inside hopen hstep)
              (b := (tick, recorded cfg req start.2.2)) hblock hloop
          obtain ⟨-, rfl⟩ := selectVictimBlock_eq_ok hselect
          have hrecorded : Stocking cfg n (recorded cfg req start.2.2) :=
            hstart.inside (.of_eq rfl rfl rfl rfl)
          exact (hrecorded.inside hinside).inside (.of_eq rfl rfl rfl rfl)
      · cases hgc

theorem Orderly.collected {gc : List Nat × Tick × PageMapping} (h : Orderly cfg s)
    (hunits : 2 ≤ cfg.param.ioUnitInPage) (hslots : SlotsInUse s)
    (hcollectable : Collectable cfg gc) (hgc : gc ∈ collections cfg choices req tick true s) :
    ∃ done, doGarbageCollection cfg gc.1 gc.2.1 gc.2.2 = .ok done := by
  obtain ⟨hintact, hsequential, hfull⟩ := writeInternal_collects h.disciplined.intact
    h.disciplined.sequential hunits (merges_write req) gc hgc
  obtain ⟨hdistinct, hspared, hcovered⟩ := hcollectable
  have hsparing : Sparing gc.1 gc.2.2 :=
    ⟨(collections_openSlots (h.openSlots hslots) gc hgc), hspared, fun b hb => (hfull b hb).inUse⟩
  exact doGarbageCollection_total ⟨hintact, hsequential⟩ hsparing (h.stocking.collections gc hgc)
    hunits hdistinct hcovered gc.2.1

theorem Orderly.writeInternal_total (h : Orderly cfg s) (hunits : 2 ≤ cfg.param.ioUnitInPage)
    (hwritable : Writable cfg choices req tick s) :
    ∃ done, writeInternal cfg choices req tick true s = .ok done := by
  obtain ⟨q, htake, htrigger⟩ := hwritable.covered
  obtain ⟨start, hbegin, hfree⟩ := h.beginWrite_total hwritable.slots htake tick true
  have hfirst := WritingInOrder.first tick h.disciplined.intact h.disciplined.sequential
    (by omega) hbegin
  obtain ⟨done, hloop, -⟩ := foldlM_progress (f := writeStep cfg req true start)
    (WritingInOrder cfg req start.2.2.host start.1) (fun idx rest acc hinv => by
      obtain ⟨acc', hstep⟩ := hinv.total true (by omega) hwritable.paged
      exact ⟨acc', hstep, hinv.step (merges_write req) hstep⟩) hfirst
  have hinside : Inside cfg (recorded cfg req start.2.2) done.2 :=
    Inside.foldlM_open Prod.snd
      (fun idx acc acc' hopen hstep => writeStep_inside hopen hstep)
      (b := (tick, recorded cfg req start.2.2)) (h.stocking.beginWrite hbegin).2 hloop
  have hcollect : ∃ s', collectIfNeeded cfg choices
      (cfg.timing.applyLatency .writeInternal done.1) true done.2 = .ok s' := by
    unfold collectIfNeeded
    by_cases hbelow : cfg.belowThreshold done.2.nFreeBlocks = true
    · rw [if_pos hbelow, if_pos rfl]
      have hselect := collections_selected hbegin hloop (htrigger (by
        rw [← hfree, ← hbelow, hinside.nFreeBlocks]
        rfl))
      obtain ⟨gc, hselect, hgc⟩ := hselect
      obtain ⟨done', hcollected⟩ := h.collected hunits hwritable.slots
        (hwritable.collectable gc hgc) hgc
      exact ⟨done'.2, bind_eq_ok.2 ⟨gc, hselect, bind_eq_ok.2 ⟨done', hcollected, rfl⟩⟩⟩
    · rw [if_neg hbelow]
      exact ⟨_, rfl⟩
  obtain ⟨s', hcollect⟩ := hcollect
  rw [writeInternal_eq]
  exact ⟨_, bind_eq_ok.2 ⟨start, hbegin, bind_eq_ok.2 ⟨done, hloop,
    bind_eq_ok.2 ⟨s', hcollect, rfl⟩⟩⟩⟩

theorem Orderly.write_total (h : Orderly cfg s) (hunits : 2 ≤ cfg.param.ioUnitInPage)
    (hwritable : Writable cfg choices req tick s) :
    ∃ done, write cfg choices req tick s = .ok done := by
  unfold write
  split_ifs
  · obtain ⟨done, hdone⟩ := h.writeInternal_total hunits hwritable
    exact ⟨_, bind_eq_ok.2 ⟨done, hdone, rfl⟩⟩
  · exact ⟨_, rfl⟩

end SimpleSSD.FTL.PageMapping
