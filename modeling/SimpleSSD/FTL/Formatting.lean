import SimpleSSD.FTL.Format
import SimpleSSD.FTL.Serving

/-!
# What a format leaves

A format drops the pages of its range and collects the blocks they were in.  Other pages
keep their versions as long as no dropped page is mapped in part and no such block is still
open, and the format returns when the supply of pages covers its copies.
-/

namespace SimpleSSD.FTL.PageMapping

open SimpleSSD.Foundation

variable {cfg : Config} {s s' s'' : PageMapping} {range : LPNRange} {choices : Choices}
  {entries : Nat → Nat × Nat} {lpn idx b page unit : Nat} {tick tick' : Tick}
  {keys rest list : List Nat} {acc acc' : PageMapping × List Nat}
  {contents : Nat → Nat → Nat → Option Nat} {detached : Set (Nat × Nat)}

/-! ## One page -/

/-- A location keeps its place unless its page is dropped. -/
def ownerWithout (dropped : Nat → Prop) [DecidablePred dropped] (s : PageMapping)
    (p : Nat × Nat × Nat) : Option (Nat × Nat) :=
  (s.owner p).filter fun l => !decide (dropped l.1)

theorem trimUnits_owner {list : List Nat} (run : list.foldlM (trimUnit entries) s = .ok s')
    (p : Nat × Nat × Nat) :
    s'.owner p = if p.2.2 ∈ list ∧ entries p.2.2 = (p.1, p.2.1) then none else s.owner p := by
  induction list generalizing s with
  | nil =>
      cases run
      simp
  | cons idx rest ih =>
      obtain ⟨mid, hfirst, hrest⟩ := bind_eq_ok.1 (List.foldlM_cons.symm.trans run)
      have howner : mid.owner = Function.update s.owner
          ((entries idx).1, (entries idx).2, idx) none := by
        unfold trimUnit at hfirst
        split at hfirst
        · cases hfirst
        · rename_i blk hblk
          obtain ⟨blk', hinv, hpair⟩ := bind_eq_ok.1 hfirst
          cases hpair
          exact owner_invalidate hblk hinv
      rw [ih hrest, howner]
      by_cases hlater : p.2.2 ∈ rest ∧ entries p.2.2 = (p.1, p.2.1)
      · rw [if_pos hlater, if_pos ⟨List.mem_cons_of_mem idx hlater.1, hlater.2⟩]
      · rw [if_neg hlater]
        by_cases hidx : p = ((entries idx).1, (entries idx).2, idx)
        · subst hidx
          rw [Function.update_self, if_pos ⟨List.mem_cons_self, rfl⟩]
        · rw [Function.update_of_ne hidx, if_neg]
          rintro ⟨hmem, hentry⟩
          rcases List.mem_cons.1 hmem with heq | hmem
          · exact hidx (by rw [← heq, hentry])
          · exact hlater ⟨hmem, hentry⟩

theorem Leads.live (hintact : Intact cfg contents detached s) {entry : Nat × Nat}
    (h : Leads s entry) : cfg.live entry = true := by
  obtain ⟨blk, hblk, hpage⟩ := h
  obtain ⟨hlt, -, hsound⟩ := hintact.inUse _ blk hblk
  rw [hsound.pageCount] at hpage
  simp [Config.live, hlt, hpage]

theorem trimmed_owner (hintact : Intact cfg contents ∅ s) (hentries : s.table lpn = some entries)
    (hleads : ∀ idx < cfg.bitsetSize, Leads s (entries idx))
    (run : (List.range cfg.bitsetSize).foldlM (trimUnit entries) s = .ok s')
    (p : Nat × Nat × Nat) : s'.owner p = s.ownerWithout (· = lpn) p := by
  refine (trimUnits_owner run p).trans ?_
  unfold ownerWithout
  cases howner : s.owner p with
  | none => simp
  | some l =>
      obtain ⟨hplace, -⟩ := hintact.consistent.placed l p howner
      obtain ⟨found, hfound, hidx, -, rfl⟩ := place_inv hplace
      by_cases heq : l.1 = lpn
      · have hsame : found = entries :=
          Option.some.inj (hfound.symm.trans ((congrArg s.table heq).trans hentries))
        subst hsame
        rw [if_pos ⟨List.mem_range.2 hidx, rfl⟩]
        simp [Option.filter_some, heq]
      · rw [if_neg]
        · simp [Option.filter_some, heq]
        · rintro ⟨-, hentry⟩
          have hlive := (hleads l.2 hidx).live hintact
          have howned := hintact.consistent.owned _ _ (Set.notMem_empty _)
            (place_eq_some hentries hidx hlive)
          change s.owner ((entries l.2).1, (entries l.2).2, l.2) = _ at howned
          rw [hentry] at howned
          exact heq (congrArg Prod.fst (Option.some.inj (howner.symm.trans howned)))

structure DropsPage (cfg : Config) (lpn : Nat) (s s' : PageMapping) : Prop where
  intact : Intact cfg s'.contents ∅ s'
  sequential : Sequential s'
  inside : Inside cfg s s'
  shape : SameShape s s'
  supply : s'.supply = s.supply
  contents : s'.contents = s.contents
  table : s'.table = Function.update s.table lpn none
  host : s'.host = s.host.trim lpn
  owner : ∀ p, s'.owner p = s.ownerWithout (· = lpn) p

theorem formatUnits_eq (list : List Nat) (acc : PageMapping × List Nat) :
    list.foldlM (formatUnit entries) acc = (do
      let s ← list.foldlM (trimUnit entries) acc.1
      .ok (s, acc.2 ++ list.map fun idx => (entries idx).1)) := by
  induction list generalizing acc with
  | nil => simp [pure, Except.pure, bind, Except.bind]
  | cons idx rest ih =>
      rw [List.foldlM_cons, List.foldlM_cons]
      unfold formatUnit
      cases trimUnit entries acc.1 idx with
      | error e => rfl
      | ok s =>
          refine (ih _).trans ?_
          simp [bind, Except.bind]

theorem formatPage_eq_ok (run : formatPage cfg acc lpn = .ok acc') :
    acc.1.table lpn = none ∧ acc' = acc ∨
      ∃ entries trimmed, acc.1.table lpn = some entries ∧
        (List.range cfg.bitsetSize).foldlM (trimUnit entries) acc.1 = .ok trimmed ∧
        acc' = ({ trimmed with
          table := Function.update trimmed.table lpn none
          host := trimmed.host.trim lpn },
            acc.2 ++ (List.range cfg.bitsetSize).map fun idx => (entries idx).1) := by
  unfold formatPage at run
  split at run
  · rename_i hnone
    cases run
    exact .inl ⟨hnone, rfl⟩
  · rename_i entries hentries
    rw [formatUnits_eq] at run
    obtain ⟨done, hdone, run⟩ := bind_eq_ok.1 run
    obtain ⟨trimmed, htrim, hpair⟩ := bind_eq_ok.1 hdone
    cases hpair
    cases run
    exact .inr ⟨entries, trimmed, hentries, htrim, rfl⟩

theorem formatPage_quiet (run : formatPage cfg acc lpn = .ok acc') : Quiet acc.1 acc'.1 := by
  rcases formatPage_eq_ok run with ⟨-, rfl⟩ | ⟨entries, trimmed, -, htrim, rfl⟩
  · exact .refl _
  · have hinvalidates : Invalidates cfg entries (fun _ => true) (trimUnit entries) :=
      trimUnit_invalidates
    exact (invalidateAll_quiet hinvalidates htrim).trans (.of_eq rfl rfl rfl rfl)

theorem formatPages_quiet {choices : Choices} {range : LPNRange} {acc' : PageMapping × List Nat}
    (run : formatPages cfg choices range s = .ok acc') : Quiet s acc'.1 :=
  Quiet.foldlM Prod.fst (fun _ _ _ hstep => formatPage_quiet hstep) run

def blocksOf (cfg : Config) (s : PageMapping) (lpn : Nat) : List Nat :=
  match s.table lpn with
  | none => []
  | some entries => (List.range cfg.bitsetSize).map fun idx => (entries idx).1

theorem formatPage_total (h : Disciplined cfg acc.1) (whole : Whole cfg acc.1 lpn)
    (mapped : acc.1.table lpn ≠ none) :
    ∃ acc', formatPage cfg acc lpn = .ok acc' ∧ DropsPage cfg lpn acc.1 acc'.1 ∧
      acc'.2 = acc.2 ++ blocksOf cfg acc.1 lpn := by
  obtain ⟨entries, hentries⟩ := Option.ne_none_iff_exists'.1 mapped
  have hleads := whole entries hentries
  have htotal : ∃ t, (List.range cfg.bitsetSize).foldlM (trimUnit entries) acc.1 = .ok t :=
    trimUnits_total fun idx hidx => hleads idx (List.mem_range.1 hidx)
  obtain ⟨t, htrim⟩ := htotal
  obtain ⟨hintact, hsame⟩ := h.intact.invalidateAll trimUnit_invalidates hentries htrim
  rw [← hsame.contents, entriesOf_congr (q := fun i => i < cfg.bitsetSize) (by simp)] at hintact
  have hinvalidates : Invalidates cfg entries (fun _ => true) (trimUnit entries) :=
    trimUnit_invalidates
  have hsupply : t.supply = acc.1.supply := invalidateAll_supply hinvalidates htrim
  have howner := trimmed_owner h.intact hentries hleads htrim
  refine ⟨({ t with
      table := Function.update t.table lpn none
      host := t.host.trim lpn }, acc.2 ++ blocksOf cfg acc.1 lpn), ?_, ?_, rfl⟩
  · unfold formatPage blocksOf
    rw [hentries]
    dsimp only
    rw [formatUnits_eq, htrim]
    rfl
  · exact
      { intact := hintact.forget
        sequential := (h.sequential.invalidateAll hinvalidates htrim).congr rfl rfl
        inside := (invalidateAll_inside hinvalidates htrim).trans (.of_eq rfl rfl rfl rfl)
        shape := (trimUnits_eq_ok htrim).2.1
        supply := hsupply
        contents := hsame.contents
        table := by rw [hsame.table]
        host := by rw [hsame.host]
        owner := howner }

/-! ## All pages -/

/-- Between two pages of a format that began in `s`: those of `keys` that are not to come
are dropped. -/
structure Dropping (cfg : Config) (keys : List Nat) (s : PageMapping) (rest : List Nat)
    (acc : PageMapping × List Nat) : Prop where
  members : ∀ lpn ∈ rest, lpn ∈ keys
  distinct : rest.Nodup
  disciplined : Disciplined cfg acc.1
  inside : Inside cfg s acc.1
  shape : SameShape s acc.1
  supply : acc.1.supply = s.supply
  contents : acc.1.contents = s.contents
  table : ∀ lpn, acc.1.table lpn = if lpn ∈ keys ∧ lpn ∉ rest then none else s.table lpn
  owner : ∀ p, acc.1.owner p = s.ownerWithout (fun lpn => lpn ∈ keys ∧ lpn ∉ rest) p
  host : ∀ lpn, ¬ (lpn ∈ keys ∧ lpn ∉ rest) →
    acc.1.host.written lpn = s.host.written lpn ∧ acc.1.host.latest lpn = s.host.latest lpn
  listed : acc.2 ++ rest.flatMap (blocksOf cfg s) = keys.flatMap (blocksOf cfg s)

theorem Dropping.start (h : Disciplined cfg s) (distinct : keys.Nodup) :
    Dropping cfg keys s keys (s, []) where
  members _ hmem := hmem
  distinct := distinct
  disciplined := h
  inside := .refl s
  shape _ := rfl
  supply := rfl
  contents := rfl
  table lpn := by simp
  owner p := by
    unfold ownerWithout
    cases s.owner p <;> simp [Option.filter_some]
  host _ _ := ⟨rfl, rfl⟩
  listed := rfl

theorem gone_cons_iff (members : lpn ∈ keys) (other : Nat) (notin : lpn ∉ rest) :
    other ∈ keys ∧ other ∉ rest ↔ (other ∈ keys ∧ other ∉ lpn :: rest) ∨ other = lpn := by
  by_cases heq : other = lpn
  · subst heq
    simp [members, notin]
  · simp [heq]

theorem Dropping.step (h : Dropping cfg keys s (lpn :: rest) acc)
    (whole : ∀ lpn ∈ keys, Whole cfg s lpn) (mapped : ∀ lpn ∈ keys, s.table lpn ≠ none) :
    ∃ acc', formatPage cfg acc lpn = .ok acc' ∧ Dropping cfg keys s rest acc' := by
  have hkey := h.members lpn List.mem_cons_self
  obtain ⟨hnotin, hdistinct⟩ := List.nodup_cons.1 h.distinct
  have htable : acc.1.table lpn = s.table lpn := by
    rw [h.table lpn, if_neg fun hgone => hgone.2 List.mem_cons_self]
  have hwhole : Whole cfg acc.1 lpn := fun entries hentries idx hidx =>
    (h.shape.leads _).2 (whole lpn hkey entries (htable.symm.trans hentries) idx hidx)
  obtain ⟨acc', hrun, hdrops, hlist⟩ := formatPage_total h.disciplined hwhole
    (by rw [htable]; exact mapped lpn hkey)
  refine ⟨acc', hrun,
    { members := fun other hmem => h.members other (List.mem_cons_of_mem lpn hmem)
      distinct := hdistinct
      disciplined := ⟨hdrops.intact, hdrops.sequential⟩
      inside := h.inside.trans hdrops.inside
      shape := h.shape.trans hdrops.shape
      supply := hdrops.supply.trans h.supply
      contents := hdrops.contents.trans h.contents
      table := fun other => ?_
      owner := fun p => ?_
      host := fun other hkept => ?_
      listed := ?_ }⟩
  · rw [hdrops.table, Function.update_apply, h.table other]
    simp only [gone_cons_iff hkey other hnotin]
    by_cases heq : other = lpn
    · simp [heq]
    · simp [heq]
  · rw [hdrops.owner]
    unfold ownerWithout
    rw [h.owner]
    unfold ownerWithout
    cases s.owner p with
    | none => rfl
    | some l =>
        simp only [Option.filter_some, gone_cons_iff hkey l.1 hnotin]
        by_cases hgone : l.1 ∈ keys ∧ l.1 ∉ lpn :: rest
        · simp [hgone]
        · simp only [hgone, false_or, decide_false, Bool.not_false, if_true, Option.filter_some]
  · rw [gone_cons_iff hkey other hnotin, not_or] at hkept
    obtain ⟨hwritten, hlatest⟩ := h.host other hkept.1
    rw [hdrops.host, ← hwritten, ← hlatest]
    constructor
    · funext slot
      simp [HostRecord.trim, hkept.2]
    · funext unit
      simp [HostRecord.trim, hkept.2]
  · rw [hlist, ← h.listed, List.flatMap_cons, List.append_assoc]
    unfold blocksOf
    rw [htable]

/-! ## The collection -/

def version (cfg : Config) (s : PageMapping) (lpn unit : Nat) : Option (Option Nat) :=
  (s.place cfg (lpn, cfg.slotOf unit)).map fun p => s.contents p.1 p.2.1 unit

theorem Intact.version_eq (h : Intact cfg s.contents ∅ s) (hunit : unit < cfg.param.ioUnitInPage)
    (lpn : Nat) :
    version cfg s lpn unit =
      if s.host.written lpn (cfg.slotOf unit) then some (s.host.latest lpn unit) else none := by
  unfold version
  cases hplace : s.place cfg (lpn, cfg.slotOf unit) with
  | none =>
      have hlatest : (s.remap cfg s.contents).latest (lpn, cfg.slotOf unit) = none :=
        not_not.1 fun hne => h.consistent.kept _ (Set.notMem_empty _) hne hplace
      simp only [remap] at hlatest
      split_ifs at hlatest with hwritten
      rw [if_neg hwritten]
      rfl
  | some p =>
      have hlatest := h.consistent.current _ _ (Set.notMem_empty _) hplace
      simp only [remap] at hlatest
      split_ifs at hlatest with hwritten
      obtain ⟨entries, -, -, -, rfl⟩ := place_inv hplace
      have hunits := congrFun (Option.some.inj hlatest) unit
      simp only [covered, hunit, true_and, if_true] at hunits
      rw [if_pos hwritten, Option.map_some, hunits]

def SameDomain (s s' : PageMapping) : Prop :=
  ∀ lpn, (s'.table lpn).isSome = (s.table lpn).isSome

theorem SameDomain.trans (h : SameDomain s s') (h' : SameDomain s' s'') : SameDomain s s'' :=
  fun lpn => (h' lpn).trans (h lpn)

theorem SameDomain.of_eq (h : s'.table = s.table) : SameDomain s s' :=
  fun lpn => by rw [h]

variable {w w' : Collection} {block dst : Nat} {bit : Nat → Bool} {lpns : Nat → Nat}

theorem relocateUnit_domain (run : relocateUnit cfg block page dst bit lpns w idx = .ok w') :
    SameDomain w.mapping w'.mapping := by
  by_cases hbit : bit idx = true
  · obtain ⟨blk, blk', entries, free, free', -, -, -, -, -, rfl⟩ := relocateUnit_eq_ok hbit run
    intro lpn
    by_cases heq : lpn = lpns idx
    · subst heq
      simp [setBlock, setEntry, access]
    · simp [setBlock, setEntry, access, heq]
  · cases relocateUnit_unselected hbit run
    exact .of_eq rfl

theorem relocatePage_domain (run : relocatePage cfg block w page = .ok w') :
    SameDomain w.mapping w'.mapping := by
  unfold relocatePage at run
  split at run
  · cases run
  · dsimp only at run
    split_ifs at run
    · obtain ⟨⟨dst, opened⟩, hopen, run⟩ := bind_eq_ok.1 run
      have hopened : SameDomain w.mapping opened := .of_eq (getLastFreeBlock_opened hopen).table
      exact foldlM_invariant_mem (fun mid : Collection => SameDomain w.mapping mid.mapping)
        (fun idx _ mid mid' h hstep => h.trans (relocateUnit_domain hstep)) run hopened
    · cases run
      exact .of_eq rfl

theorem collectBlock_domain (run : collectBlock cfg w block = .ok w') :
    SameDomain w.mapping w'.mapping := by
  unfold collectBlock at run
  split at run
  · cases run
  · exact foldlM_invariant_mem (fun mid : Collection => SameDomain w.mapping mid.mapping)
      (fun page _ mid mid' h hstep => h.trans (relocatePage_domain hstep)) run (.of_eq rfl)

theorem eraseStep_domain {acc acc' : Tick × PageMapping}
    (run : eraseStep cfg tick acc block = .ok acc') : SameDomain acc.2 acc'.2 := by
  obtain ⟨⟨done, mid⟩, herase, hpair⟩ := bind_eq_ok.1 run
  cases hpair
  obtain ⟨blk, free, nFree, -, -, -, rfl⟩ := eraseInternal_eq_ok herase
  exact .of_eq rfl

theorem doGarbageCollection_domain
    (run : doGarbageCollection cfg list tick s = .ok (tick', s')) : SameDomain s s' := by
  rcases doGarbageCollection_eq_ok cfg run with ⟨-, rfl⟩ | ⟨w, erases, hcollect, herases, rfl⟩
  · exact .of_eq rfl
  · have hcollected : SameDomain s w.mapping :=
      foldlM_invariant_mem (fun mid : Collection => SameDomain s mid.mapping)
        (fun block _ mid mid' h hstep => h.trans (collectBlock_domain hstep)) hcollect
        (.of_eq rfl)
    obtain ⟨accesses, contents, hcarried⟩ := carryOut_eq cfg tick w
    have hcarriedOut : SameDomain w.mapping (carryOut cfg tick w).2.2 := by
      rw [hcarried]
      exact .of_eq rfl
    exact (hcollected.trans hcarriedOut).trans (foldlM_invariant_mem
      (fun acc : Tick × PageMapping => SameDomain (carryOut cfg tick w).2.2 acc.2)
      (fun block _ acc acc' h hstep => h.trans (eraseStep_domain hstep)) herases (.of_eq rfl))

def copyTargets (cfg : Config) (list : List Nat) (tick : Tick) (s : PageMapping) : List Nat :=
  match list.foldlM (collectBlock cfg) ⟨s, tick, [], []⟩ with
  | .error _ => []
  | .ok w => w.writes.map fun copy => copy.req.blockIndex

theorem copyTargets_spared (h : Disciplined cfg s) (hfull : ∀ b ∈ list, Full cfg s b)
    (hunits : 2 ≤ cfg.param.ioUnitInPage) : ∀ b ∈ copyTargets cfg list tick s, b ∉ list := by
  intro b hb
  unfold copyTargets at hb
  split at hb
  · cases hb
  · rename_i w hcollect
    have hcollected := foldlM_invariant (CollectingVictims cfg list s)
      (fun block rest w w' hinv hstep => hinv.step hunits hstep) hcollect
      (.start tick h.intact h.sequential hfull)
    obtain ⟨copy, hcopy, rfl⟩ := List.mem_map.1 hb
    exact hcollected.2.collecting.apart copy hcopy

end SimpleSSD.FTL.PageMapping
