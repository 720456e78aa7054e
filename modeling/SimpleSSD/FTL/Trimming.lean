import SimpleSSD.FTL.Forward
import SimpleSSD.FTL.HostWrite

/-!
# Trims of the page mapping

A trim drops a logical page as a whole, whatever units are asked for.  It looks up the
block of every entry, so it panics for a page that is mapped in part.
-/

namespace SimpleSSD.FTL.PageMapping

open SimpleSSD.Foundation

variable {cfg : Config} {s s' s'' : PageMapping} {entries : Nat → Nat × Nat} {idx lpn : Nat}

def Leads (s : PageMapping) (entry : Nat × Nat) : Prop :=
  ∃ blk, s.blocks entry.1 = some blk ∧ entry.2 < blk.pageCount

def Whole (cfg : Config) (s : PageMapping) (lpn : Nat) : Prop :=
  ∀ entries, s.table lpn = some entries → ∀ idx < cfg.bitsetSize, Leads s (entries idx)

def SameShape (s s' : PageMapping) : Prop :=
  ∀ b, (s'.blocks b).map Block.pageCount = (s.blocks b).map Block.pageCount

theorem SameShape.trans (h : SameShape s s') (h' : SameShape s' s'') : SameShape s s'' :=
  fun b => (h' b).trans (h b)

theorem leads_iff (s : PageMapping) (entry : Nat × Nat) :
    Leads s entry ↔
      ∃ pages, (s.blocks entry.1).map Block.pageCount = some pages ∧ entry.2 < pages := by
  constructor
  · rintro ⟨blk, hblk, hpage⟩
    exact ⟨blk.pageCount, by rw [hblk]; rfl, hpage⟩
  · rintro ⟨pages, hmap, hpage⟩
    obtain ⟨blk, hblk, rfl⟩ := Option.map_eq_some_iff.1 hmap
    exact ⟨blk, hblk, hpage⟩

theorem SameShape.leads (h : SameShape s s') (entry : Nat × Nat) :
    Leads s' entry ↔ Leads s entry := by
  rw [leads_iff, leads_iff, h]

/-! ## One page -/

theorem trimUnit_ok (leads : Leads s (entries idx)) :
    ∃ s', trimUnit entries s idx = .ok s' := by
  obtain ⟨blk, hblk, hpage⟩ := leads
  unfold trimUnit Block.invalidate
  rw [hblk]
  dsimp only
  rw [if_neg (not_le.2 hpage)]
  exact ⟨_, rfl⟩

theorem trimUnit_eq_ok (h : trimUnit entries s idx = .ok s') :
    Leads s (entries idx) ∧ SameShape s s' ∧ s'.table = s.table := by
  unfold trimUnit at h
  cases hblk : s.blocks (entries idx).1 with
  | none =>
      rw [hblk] at h
      cases h
  | some blk =>
      rw [hblk] at h
      obtain ⟨blk', hinvalid, hdone⟩ := bind_eq_ok.1 h
      cases hdone
      obtain ⟨hpage, rfl⟩ := Block.invalidate_eq_ok hinvalid
      refine ⟨⟨blk, hblk, hpage⟩, fun b => ?_, rfl⟩
      change (Function.update s.blocks _ _ b).map _ = _
      by_cases same : b = (entries idx).1
      · rw [same, Function.update_self, hblk]
        rfl
      · rw [Function.update_of_ne same]

theorem trimUnits_eq_ok {list : List Nat} (h : list.foldlM (trimUnit entries) s = .ok s') :
    (∀ idx ∈ list, Leads s (entries idx)) ∧ SameShape s s' ∧ s'.table = s.table := by
  induction list generalizing s with
  | nil =>
      cases h
      exact ⟨fun _ hmem => absurd hmem List.not_mem_nil, fun _ => rfl, rfl⟩
  | cons idx rest ih =>
      obtain ⟨s₁, hfirst, hrest⟩ := bind_eq_ok.1 (List.foldlM_cons.symm.trans h)
      obtain ⟨leads, shape, table⟩ := trimUnit_eq_ok hfirst
      obtain ⟨leadsRest, shapeRest, tableRest⟩ := ih hrest
      refine ⟨?_, shape.trans shapeRest, tableRest.trans table⟩
      rw [List.forall_mem_cons]
      exact ⟨leads, fun other hmem => (shape.leads _).1 (leadsRest other hmem)⟩

theorem trimUnits_total {list : List Nat} (leads : ∀ idx ∈ list, Leads s (entries idx)) :
    ∃ s', list.foldlM (trimUnit entries) s = .ok s' := by
  obtain ⟨s', hrun, -⟩ := foldlM_total (fun s' => SameShape s s')
    (fun idx hmem mid shape => by
      obtain ⟨next, hnext⟩ := trimUnit_ok ((shape.leads _).2 (leads idx hmem))
      exact ⟨next, hnext, shape.trans (trimUnit_eq_ok hnext).2.1⟩)
    (fun _ => rfl)
  exact ⟨s', hrun⟩

variable {req : Request cfg} {tick : Tick} {latency : CPUFunction → Tick}

theorem trim_eq_ok {done : Tick × PageMapping} (h : FTL.trim cfg latency req tick s = .ok done) :
    Whole cfg s req.lpn ∧ SameShape s done.2 ∧
      done.2.table = Function.update s.table req.lpn none := by
  obtain ⟨outer, houter, hdone⟩ := bind_eq_ok.1 h
  cases hdone
  obtain ⟨inner, hinner, hdone⟩ := bind_eq_ok.1 houter
  cases hdone
  rcases trimInternal_eq_ok hinner with ⟨htable, rfl⟩ | ⟨entries, last, htable, hloop, rfl⟩
  · refine ⟨fun entries hentries => ?_, fun _ => rfl, ?_⟩
    · cases htable.symm.trans hentries
    · exact (Function.update_eq_self_iff.2 htable.symm).symm
  · obtain ⟨leads, shape, table⟩ := trimUnits_eq_ok hloop
    refine ⟨fun entries' hentries idx hidx => ?_, shape, ?_⟩
    · cases htable.symm.trans hentries
      exact leads idx (List.mem_range.2 hidx)
    · change Function.update last.table req.lpn none = _
      rw [table]
      rfl

theorem trim_total (whole : Whole cfg s req.lpn) :
    ∃ done, FTL.trim cfg latency req tick s = .ok done := by
  obtain ⟨inner, hinner⟩ : ∃ inner, trimInternal cfg req tick s = .ok inner := by
    unfold trimInternal
    cases htable : s.table req.lpn with
    | none => exact ⟨_, rfl⟩
    | some entries =>
        obtain ⟨s', hloop⟩ := trimUnits_total (s := (access cfg (.dramRead
            (if cfg.bRandomTweak then 8 * req.ioFlag.count true else 8)) tick s).2)
          fun idx hmem => whole entries htable idx (List.mem_range.1 hmem)
        exact ⟨_, bind_eq_ok.2 ⟨s', hloop, rfl⟩⟩
  exact ⟨_, bind_eq_ok.2 ⟨_, bind_eq_ok.2 ⟨inner, hinner, rfl⟩, rfl⟩⟩

end SimpleSSD.FTL.PageMapping
