import SimpleSSD.Foundation.Prefixes
import SimpleSSD.HIL.NVMe.OpenChannel.AddressFormat
import SimpleSSD.HIL.NVMe.OpenChannel.Chunks

/-!
# Descriptors and the flash

The descriptors of the chunks tell what is in the flash: how far each block has been programmed,
page after page.  A command keeps that when no page behind the 64th is refused in a write, and no
closed chunk follows a refused one in a reset.
-/

namespace SimpleSSD.HIL.NVMe.OpenChannelSSD20

open Foundation PAL

variable {d : Drive} {cfg : PAL.Config}

/-! ## Pages of a command -/

def addresses (lbaList : List Nat) (mode : Bool) : List Nat :=
  if mode then lbaList
  else (lbaList.head?.bind fun front => lbaList.getLast?.map fun back =>
    List.range' front (back - front)).getD []

def pagesOf (cfg : PAL.Config) (lbaList : List Nat) (block mode : Bool) :
    List (CPDPBP × ChunkUpdateEntry) :=
  ((addresses lbaList mode).map (convert cfg)).destutter
    (fun back temp => OpenChannelSSD12.repeats block back.1 temp.1 = false)

theorem convertUnit_eq (lbaList : List Nat) (block mode : Bool) :
    convertUnit cfg lbaList block mode =
      ((pagesOf cfg lbaList block mode).map Prod.fst,
        (pagesOf cfg lbaList block mode).map Prod.snd) := by
  rw [pagesOf, ← foldl_keep, convertUnit]
  exact foldl_keep_pairs (f := convert cfg) (addresses lbaList mode) []

/-! ## The loop over the entries -/

def Sticky (visit : Visit) : Prop := ∀ desc pageIdx, (visit true desc pageIdx).1 = true

theorem sticky_writeVisit : Sticky (writeVisit cfg) := fun desc pageIdx => by simp [writeVisit]

theorem sticky_eraseVisit : Sticky eraseVisit := fun desc pageIdx => by
  unfold eraseVisit
  split <;> rfl

def Reply.bit (resp : Reply) (i : Nat) : Bool :=
  if i < 32 then resp.dword0.testBit i else resp.reserved.testBit (i - 32)

def Reply.Small (resp : Reply) : Prop := resp.dword0 < 2 ^ 32 ∧ resp.reserved < 2 ^ 32

theorem Reply.testBit_mask {resp : Reply} (small : resp.Small) (i : Nat) :
    resp.mask.testBit i = (decide (i < 64) && resp.bit i) := by
  rw [mask, Nat.testBit_or, Nat.testBit_mod_two_pow, Nat.testBit_shiftLeft, bit]
  by_cases low : i < 32
  · have below : i < 64 := by omega
    simp [low, below]
  · have high : resp.dword0.testBit i = false :=
      Nat.testBit_lt_two_pow (small.1.trans_le (Nat.pow_le_pow_right (by decide) (by omega)))
    have above : 32 ≤ i := Nat.le_of_not_lt low
    simp [low, high, above]

theorem Reply.mark_small {resp : Reply} (small : resp.Small) (n : Nat) :
    (resp.mark (2 ^ n % 2 ^ 64)).Small := by
  have word : 2 ^ n % 2 ^ 64 < 2 ^ 64 := Nat.mod_lt _ (by decide)
  unfold mark
  split
  · exact ⟨Nat.or_lt_two_pow small.1 (by omega), small.2⟩
  · refine ⟨small.1, Nat.or_lt_two_pow small.2 ?_⟩
    rw [Nat.shiftRight_eq_div_pow]
    omega

theorem Reply.bit_mark {resp : Reply} {i : Nat} (n : Nat) (inside : i < 64) :
    (resp.mark (2 ^ n % 2 ^ 64)).bit i = (resp.bit i || decide (i = n)) := by
  rcases Nat.lt_or_ge n 64 with few | many
  · have power : 2 ^ n % 2 ^ 64 = 2 ^ n :=
      Nat.mod_eq_of_lt (Nat.pow_lt_pow_right (by decide) few)
    rw [power, mark]
    rcases Nat.lt_or_ge n 32 with low | high
    · have least : 2 ^ n ≤ 2 ^ 31 := Nat.pow_le_pow_right (by decide) (by omega)
      rw [if_pos (by omega)]
      by_cases first : i < 32
      · simp [bit, first, Nat.testBit_two_pow, eq_comm]
      · have other : i ≠ n := by omega
        simp [bit, first, other]
    · have greatest : 2 ^ 32 ≤ 2 ^ n := Nat.pow_le_pow_right (by decide) high
      have shifted : 2 ^ n >>> 32 = 2 ^ (n - 32) := by
        rw [Nat.shiftRight_eq_div_pow, Nat.pow_div high (by decide)]
      rw [if_neg (by omega), shifted]
      by_cases first : i < 32
      · have other : i ≠ n := by omega
        simp [bit, first, other]
      · simp [bit, first, Nat.testBit_two_pow]
        grind
  · have power : 2 ^ n % 2 ^ 64 = 0 := Nat.mod_eq_zero_of_dvd (Nat.pow_dvd_pow 2 many)
    have other : i ≠ n := by omega
    rw [power]
    simp [mark, other, bit]

/-- Where the loop is behind `n` entries, of which the first `k` were fine. -/
structure Marked (k n : Nat) (s : Loop) : Prop where
  idx : s.idx = 2 ^ n % 2 ^ 64
  err : s.err = decide (k < n)
  small : s.resp.Small
  bit : ∀ i < 64, s.resp.bit i = decide (k ≤ i ∧ i < n)

theorem visit_ok {visit : Visit} {s s' : Loop} {entry : ChunkUpdateEntry} :
    s.visit visit entry = .ok s' ↔ ∃ desc, s.pDescriptor[entry.pDesc]? = some desc ∧
      s' = ⟨s.pDescriptor.set entry.pDesc (visit s.err desc entry.pageIdx).2.2,
        (visit s.err desc entry.pageIdx).1, s.idx <<< 1 % 2 ^ 64,
        if (visit s.err desc entry.pageIdx).1 then
          ((visit s.err desc entry.pageIdx).2.1.elim s.resp
            fun status => { s.resp with status := status }).mark s.idx
        else (visit s.err desc entry.pageIdx).2.1.elim s.resp
          fun status => { s.resp with status := status }⟩ := by
  unfold Loop.visit
  cases s.pDescriptor[entry.pDesc]? with
  | none =>
      constructor
      · intro step
        cases step
      · rintro ⟨_, stands, _⟩
        cases stands
  | some desc =>
      constructor
      · intro step
        cases step
        exact ⟨desc, rfl, rfl⟩
      · rintro ⟨_, stands, rfl⟩
        cases stands
        rfl

theorem two_pow_shift (n : Nat) : (2 ^ n % 2 ^ 64) <<< 1 % 2 ^ 64 = 2 ^ (n + 1) % 2 ^ 64 := by
  rw [Nat.shiftLeft_eq, Nat.mod_mul_mod, ← Nat.pow_add]

theorem Marked.visit {visit : Visit} (sticky : Sticky visit) {k n : Nat} {s s' : Loop}
    {entry : ChunkUpdateEntry} (marked : Marked k n s) (le : k ≤ n)
    (step : s.visit visit entry = .ok s') :
    (k = n ∧ s'.err = false ∧ Marked (n + 1) (n + 1) s') ∨
      (s'.err = true ∧ Marked k (n + 1) s') := by
  obtain ⟨desc, -, rfl⟩ := visit_ok.1 step
  have idx : s.idx <<< 1 % 2 ^ 64 = 2 ^ (n + 1) % 2 ^ 64 := by rw [marked.idx, two_pow_shift]
  have status : ∀ o : Option Nat, (o.elim s.resp
      fun status => { s.resp with status := status }).Small ∧ ∀ i, (o.elim s.resp
        fun status => { s.resp with status := status }).bit i = s.resp.bit i := by
    rintro (_ | status)
    · exact ⟨marked.small, fun _ => rfl⟩
    · exact ⟨marked.small, fun _ => rfl⟩
  cases flag : (visit s.err desc entry.pageIdx).1 with
  | false =>
      have fine : k = n := by
        by_contra other
        have set' : s.err = true := by rw [marked.err, decide_eq_true_eq]; omega
        rw [set', sticky] at flag
        cases flag
      refine .inl ⟨fine, rfl, idx, by simp, ?_, fun i inside => ?_⟩
      · exact (status _).1
      · have clear := marked.bit i inside
        have unmarked : ¬ (k ≤ i ∧ i < n) := by omega
        have unmarked' : ¬ (n + 1 ≤ i ∧ i < n + 1) := by omega
        simp only [(status _).2, clear, unmarked, unmarked', decide_false, if_false,
          Bool.false_eq_true]
  | true =>
      refine .inr ⟨rfl, idx, ?_, ?_, fun i inside => ?_⟩
      · simp
        omega
      · rw [if_pos rfl, marked.idx]
        exact Reply.mark_small (status _).1 n
      · rw [if_pos rfl, marked.idx, Reply.bit_mark n inside, (status _).2, marked.bit i inside]
        grind

def Refused (visit : Visit) (chunk : List ChunkUpdateEntry) (s : Loop) : Prop :=
  ∀ v ∈ visits (Loop.visit visit) chunk s, ∀ next, v.1.visit visit v.2 = .ok next → next.err = true

theorem Marked.refused {visit : Visit} (sticky : Sticky visit) {k n : Nat}
    {chunk : List ChunkUpdateEntry} {s s' : Loop} (marked : Marked k n s) (lt : k < n)
    (run : chunk.foldlM (Loop.visit visit) s = .ok s') :
    Marked k (n + chunk.length) s' ∧ Refused visit chunk s := by
  induction chunk generalizing n s with
  | nil =>
      cases run
      exact ⟨marked, by simp [Refused, visits]⟩
  | cons entry rest ih =>
      rw [List.foldlM_cons, bind_eq_ok] at run
      obtain ⟨mid, step, run⟩ := run
      obtain ⟨rfl, -⟩ | ⟨flag, marked'⟩ := marked.visit sticky lt.le step
      · exact absurd lt (Nat.lt_irrefl _)
      · obtain ⟨all, refused⟩ := ih marked' (Nat.lt_succ_of_lt lt) run
        refine ⟨?_, ?_⟩
        · rw [List.length_cons, Nat.add_comm rest.length, ← Nat.add_assoc]
          exact all
        · simp only [Refused, visits, step, List.forall_mem_cons]
          refine ⟨fun next same => ?_, refused⟩
          cases same
          exact flag

theorem exists_accepted {visit : Visit} (sticky : Sticky visit) {m : Nat}
    {chunk : List ChunkUpdateEntry} {s s' : Loop} (marked : Marked m m s)
    (run : chunk.foldlM (Loop.visit visit) s = .ok s') :
    ∃ k ≤ chunk.length, Marked (m + k) (m + chunk.length) s' ∧ ∃ mid : Loop,
      (chunk.take k).foldlM (Loop.visit visit) s = .ok mid ∧ mid.err = false ∧
        (chunk.drop k).foldlM (Loop.visit visit) mid = .ok s' ∧
        Refused visit (chunk.drop k) mid := by
  induction chunk generalizing m s with
  | nil =>
      cases run
      exact ⟨0, le_rfl, marked, _, rfl, by simp [marked.err], rfl, by simp [Refused, visits]⟩
  | cons entry rest ih =>
      have whole := run
      rw [List.foldlM_cons, bind_eq_ok] at run
      obtain ⟨next, step, run⟩ := run
      obtain ⟨-, flag, marked'⟩ | ⟨flag, marked'⟩ := marked.visit sticky le_rfl step
      · obtain ⟨k, le, all, mid, first, fine, later, refused⟩ := ih marked' run
        refine ⟨k + 1, Nat.succ_le_succ le, ?_, mid, ?_, fine, later, refused⟩
        · rw [List.length_cons, Nat.add_comm k, Nat.add_comm rest.length, ← Nat.add_assoc,
            ← Nat.add_assoc]
          exact all
        · rw [List.take_succ_cons, List.foldlM_cons, step, ok_bind]
          exact first
      · obtain ⟨all, refused⟩ := marked'.refused sticky (Nat.lt_succ_self m) run
        refine ⟨0, Nat.zero_le _, ?_, s, rfl, by simp [marked.err], whole, ?_⟩
        · rw [List.length_cons, Nat.add_comm rest.length, ← Nat.add_assoc]
          exact all
        · simp only [Refused, visits, step, List.drop_zero, List.forall_mem_cons]
          refine ⟨fun other same => ?_, refused⟩
          cases same
          exact flag

/-- Of the pages that are marked from the `k`-th on, those behind the 64th stay all the same. -/
theorem removeInvalid_eq {k mask : Nat} {list : List CPDPBP}
    (bits : ∀ i, mask.testBit i = decide (i < 64 ∧ k ≤ i ∧ i < list.length)) :
    removeInvalid mask list = list.take (min k 64) ++ list.drop 64 := by
  have loop : ∀ (l kept : List CPDPBP) (j : Nat),
      (l.foldl (fun acc addr =>
        (if mask &&& acc.2 ≠ 0 then acc.1 else acc.1 ++ [addr], acc.2 <<< 1 % 2 ^ 64))
          (kept, 2 ^ j % 2 ^ 64)).1 =
        kept ++ ((l.zipIdx j).filter fun p => !decide (p.2 < 64 ∧ mask.testBit p.2)).map
          Prod.fst := by
    intro l
    induction l with
    | nil => exact fun kept j => (List.append_nil kept).symm
    | cons addr rest ih =>
        intro kept j
        have chosen : (mask &&& 2 ^ j % 2 ^ 64 ≠ 0) ↔ (j < 64 ∧ mask.testBit j = true) := by
          rcases Nat.lt_or_ge j 64 with few | many
          · rw [Nat.mod_eq_of_lt (Nat.pow_lt_pow_right (by decide) few), Nat.and_two_pow]
            cases mask.testBit j <;> simp [few]
          · rw [Nat.mod_eq_zero_of_dvd (Nat.pow_dvd_pow 2 many), Nat.and_zero]
            simp [Nat.not_lt.2 many]
        rw [List.foldl_cons, List.zipIdx_cons]
        simp only [chosen, two_pow_shift]
        rw [ih]
        by_cases hit : j < 64 ∧ mask.testBit j = true
        · rw [if_pos hit, List.filter_cons_of_neg (by simp [hit])]
        · rw [if_neg hit]
          simp only [List.filter_cons, decide_eq_false hit, Bool.not_false, if_true, List.map_cons,
            List.append_assoc, List.singleton_append]
  rw [removeInvalid]
  refine (loop list [] 0).trans ?_
  rw [List.nil_append, List.filter_congr (q := fun p => decide (p.2 < min k 64 ∨ 64 ≤ p.2)),
    filter_zipIdx_outside (Nat.min_le_right k 64), Nat.sub_zero, Nat.sub_zero]
  intro p mem
  have inside := (List.mem_zipIdx mem).2.1
  simp only [bits]
  grind

/-! ## What the descriptors tell -/

def blockOf (addr : CPDPBP) : CPDPBP := { addr with page := 0 }

def PALCall.op : PALCall → Option (PageOp CPDPBP)
  | .read _ => none
  | .write addr => some (.program (blockOf addr) addr.page)
  | .erase addr => some (.erase (blockOf addr))

def pagesIn (cfg : PAL.Config) (calls : List PALCall) (a : ChunkAddress) : List Nat :=
  PageOp.pages (blockOf (pageOf cfg a)) (calls.filterMap PALCall.op)

structure Tells (d : Drive) (desc : ChunkDescriptor) (pages : List Nat) : Prop where
  inOrder : PageOp.InOrder pages
  writePointer : desc.writePointer = PageOp.frontier pages * d.geometry.writeSize
  chunkState : desc.chunkState = some (if pages = [] then .free
    else if PageOp.frontier pages = d.cfg.page then .closed else .open)

def Truthful (d : Drive) (s : State) : Prop :=
  ∀ a, Holds d a → ∃ desc,
    s.pDescriptor[descriptorOf d a]? = some desc ∧
      Tells d desc (pagesIn d.cfg s.calls a)

def Stands (d : Drive) (page : CPDPBP × ChunkUpdateEntry) : Prop :=
  ∃ a, Holds d a ∧ page = (pageOf d.cfg a,
    ⟨descriptorOf d a, a.l / d.geometry.writeSize⟩)

variable {a b : ChunkAddress} {calls : List PALCall}

theorem truthful_init : Truthful d (State.init d.cfg) := by
  intro a ha
  exact ⟨_, initDescriptors_getElem ha, List.Pairwise.nil, by simp [pagesIn, State.init],
    by simp [pagesIn, State.init]⟩

theorem block_eq_iff (ha : Holds d a) (hb : Holds d b) :
    blockOf (pageOf d.cfg a) = blockOf (pageOf d.cfg b) ↔
      descriptorOf d a = descriptorOf d b := by
  have first : ∀ x : ChunkAddress, blockOf (pageOf d.cfg x) = pageOf d.cfg { x with l := 0 } := by
    intro x
    simp [blockOf, pageOf]
  constructor
  · intro same
    rw [first, first] at same
    obtain ⟨hg, hp, hc, -⟩ := pageOf_eq_iff.1 same
    rw [descriptorOf, show a.g = b.g from hg, show a.p = b.p from hp, show a.c = b.c from hc]
  · intro same
    obtain ⟨hg, hp, hc⟩ := getChunkDescriptor_injective ha hb same
    rw [first, first, pageOf_eq_iff]
    exact ⟨hg, hp, hc, rfl⟩

theorem pagesIn_write (ha : Holds d a) (hb : Holds d b) :
    pagesIn d.cfg (calls ++ [.write (pageOf d.cfg a)]) b =
      if descriptorOf d a = descriptorOf d b then
        pagesIn d.cfg calls b ++ [a.l / d.geometry.writeSize]
      else pagesIn d.cfg calls b := by
  rw [pagesIn, List.filterMap_append]
  refine PageOp.pages_program.trans ?_
  simp only [block_eq_iff ha hb]
  rfl

theorem pagesIn_erase (ha : Holds d a) (hb : Holds d b) :
    pagesIn d.cfg (calls ++ [.erase (pageOf d.cfg a)]) b =
      if descriptorOf d a = descriptorOf d b then []
      else pagesIn d.cfg calls b := by
  rw [pagesIn, List.filterMap_append]
  refine PageOp.pages_erase.trans ?_
  simp only [block_eq_iff ha hb]
  rfl

/-- A write takes a page that is not below the frontier of its block, and no other. -/
theorem writeVisit_iff {desc : ChunkDescriptor} {pages : List Nat} {pageIdx : Nat}
    (tells : Tells d desc pages) (inside : pageIdx < d.cfg.page) :
    (writeVisit d.cfg false desc pageIdx).1 = false ↔ PageOp.frontier pages ≤ pageIdx := by
  have unit : desc.writePointer / d.geometry.writeSize = PageOp.frontier pages := by
    rw [tells.writePointer, Nat.mul_div_cancel _ d.writeSize_pos]
  simp only [writeVisit, tells.chunkState, unit]
  by_cases none : pages = []
  · simp [none]
  · by_cases full : PageOp.frontier pages = d.cfg.page
    · simp [none, full, inside]
    · by_cases below : pageIdx < PageOp.frontier pages <;> simp [none, full, below]
      omega

theorem writeVisit_snd {desc : ChunkDescriptor} {pageIdx : Nat}
    (inside : pageIdx < d.cfg.page) (fine : (writeVisit d.cfg false desc pageIdx).1 = false) :
    (writeVisit d.cfg false desc pageIdx).2.2 = { desc with
      writePointer := (pageIdx + 1) * d.geometry.writeSize
      chunkState := some (if pageIdx + 1 = d.cfg.page then .closed else .open) } := by
  have word : (pageIdx + 1) * d.geometry.writeSize < 2 ^ 32 := by
    refine Nat.lt_of_le_of_lt (Nat.mul_le_mul_right _ inside) ?_
    rw [← d.chunkSize_eq]
    exact d.chunkSize_lt
  have top : pageIdx = d.cfg.page - 1 ↔ pageIdx + 1 = d.cfg.page := by omega
  unfold writeVisit at fine ⊢
  simp only at fine ⊢
  split
  next refused =>
    rw [if_pos refused] at fine
    cases fine
  next => simp only [Nat.mod_eq_of_lt word, top]

theorem Truthful.write {s s' : Loop} {page : CPDPBP × ChunkUpdateEntry}
    (truthful : Truthful d ⟨s.pDescriptor, calls⟩) (stands : Stands d page) (fine : s.err = false)
    (step : s.visit (writeVisit d.cfg) page.2 = .ok s') (fine' : s'.err = false) :
    Truthful d ⟨s'.pDescriptor, calls ++ [.write page.1]⟩ := by
  obtain ⟨a, ha, rfl⟩ := stands
  obtain ⟨desc, entry, rfl⟩ := visit_ok.1 step
  obtain ⟨desc', entry', tells⟩ := truthful a ha
  cases entry.symm.trans entry'
  simp only [fine] at fine' ⊢
  have inside : a.l / d.geometry.writeSize < d.cfg.page := (pageOf_inFlash ha).page
  have above := (writeVisit_iff tells inside).1 fine'
  intro b hb
  rw [writeVisit_snd inside fine', pagesIn_write ha hb]
  obtain ⟨descb, entryb, tellsb⟩ := truthful b hb
  by_cases same : descriptorOf d a = descriptorOf d b
  · have room := (List.getElem?_eq_some_iff.1 entry).1
    rw [if_pos same, ← same]
    have pages : pagesIn d.cfg calls a = pagesIn d.cfg calls b := by
      rw [pagesIn, (block_eq_iff ha hb).2 same]
      rfl
    refine ⟨_, List.getElem?_set_self room, ?_⟩
    rw [← pages]
    exact ⟨PageOp.inOrder_concat.2 ⟨tells.inOrder, above⟩, by simp, by simp⟩
  · rw [if_neg same]
    exact ⟨descb, by rw [List.getElem?_set_ne same]; exact entryb, tellsb⟩

theorem set_of_getElem? {l : List ChunkDescriptor} {i : Nat} {desc : ChunkDescriptor}
    (entry : l[i]? = some desc) : l.set i desc = l := by
  obtain ⟨inside, rfl⟩ := List.getElem?_eq_some_iff.1 entry
  exact List.set_getElem_self inside

theorem write_refused {s s' : Loop} {entry : ChunkUpdateEntry}
    (step : s.visit (writeVisit cfg) entry = .ok s') (refused : s'.err = true) :
    s'.pDescriptor = s.pDescriptor := by
  obtain ⟨desc, stands, rfl⟩ := visit_ok.1 step
  have same : (writeVisit cfg s.err desc entry.pageIdx).2.2 = desc := by
    simp only [writeVisit] at refused ⊢
    split
    next => rfl
    next fine => simp [fine] at refused
  simp only [same]
  exact set_of_getElem? stands

theorem Truthful.erase {s s' : Loop} {page : CPDPBP × ChunkUpdateEntry}
    (truthful : Truthful d ⟨s.pDescriptor, calls⟩) (stands : Stands d page)
    (step : s.visit eraseVisit page.2 = .ok s') (fine : s'.err = false) :
    Truthful d ⟨s'.pDescriptor, calls ++ [.erase page.1]⟩ := by
  obtain ⟨a, ha, rfl⟩ := stands
  obtain ⟨desc, entry, rfl⟩ := visit_ok.1 step
  have reset : (eraseVisit s.err desc (a.l / d.geometry.writeSize)).2.2 =
      { desc with writePointer := 0, chunkState := some .free } := by
    simp only [eraseVisit] at fine ⊢
    split <;> simp_all
  intro b hb
  obtain ⟨descb, entryb, tellsb⟩ := truthful b hb
  rw [reset, pagesIn_erase ha hb]
  by_cases same : descriptorOf d a = descriptorOf d b
  · have room := (List.getElem?_eq_some_iff.1 entry).1
    rw [if_pos same, ← same]
    exact ⟨_, List.getElem?_set_self room, List.Pairwise.nil, by simp, by simp⟩
  · rw [if_neg same]
    exact ⟨descb, by rw [List.getElem?_set_ne same]; exact entryb, tellsb⟩

/-! ## Runs of the loop -/

theorem err_of_run {visit : Visit} (sticky : Sticky visit) {chunk : List ChunkUpdateEntry}
    {s s' : Loop} (run : chunk.foldlM (Loop.visit visit) s = .ok s') (err : s.err = true) :
    s'.err = true := by
  refine foldlM_invariant_mem (fun s => s.err = true) ?_ run err
  intro entry _ s s' err step
  obtain ⟨desc, -, rfl⟩ := visit_ok.1 step
  rw [err]
  exact sticky desc _

theorem err_of_visit {visit : Visit} (sticky : Sticky visit) {chunk : List ChunkUpdateEntry}
    {s s' : Loop} (run : chunk.foldlM (Loop.visit visit) s = .ok s') (fine : s'.err = false) :
    ∀ v ∈ visits (Loop.visit visit) chunk s, v.1.err = false := by
  induction chunk generalizing s with
  | nil => simp [visits]
  | cons entry rest ih =>
      have whole := run
      rw [List.foldlM_cons, bind_eq_ok] at run
      obtain ⟨mid, step, run⟩ := run
      simp only [visits, step, List.forall_mem_cons]
      refine ⟨?_, ih run⟩
      by_contra err
      rw [err_of_run sticky whole (Bool.eq_true_of_not_eq_false err)] at fine
      cases fine

/-- What one entry keeps while all goes well, the entries in front of the first error keep. -/
theorem Truthful.accepted {visit : Visit} {call : CPDPBP → PALCall} (sticky : Sticky visit)
    (one : ∀ {s s' : Loop} {page : CPDPBP × ChunkUpdateEntry} {calls : List PALCall},
      Truthful d ⟨s.pDescriptor, calls⟩ → Stands d page → s.err = false →
        s.visit visit page.2 = .ok s' → s'.err = false →
          Truthful d ⟨s'.pDescriptor, calls ++ [call page.1]⟩)
    {pages : List (CPDPBP × ChunkUpdateEntry)} {s s' : Loop}
    (truthful : Truthful d ⟨s.pDescriptor, calls⟩) (stands : ∀ page ∈ pages, Stands d page)
    (run : (pages.map Prod.snd).foldlM (Loop.visit visit) s = .ok s') (fine : s.err = false)
    (fine' : s'.err = false) :
    Truthful d ⟨s'.pDescriptor, calls ++ pages.map fun page => call page.1⟩ := by
  induction pages generalizing s calls with
  | nil =>
      cases run
      simpa using truthful
  | cons page rest ih =>
      rw [List.map_cons, List.foldlM_cons, bind_eq_ok] at run
      obtain ⟨mid, step, run⟩ := run
      obtain ⟨here, later⟩ := List.forall_mem_cons.1 stands
      have clear : mid.err = false := by
        by_contra err
        rw [err_of_run sticky run (Bool.eq_true_of_not_eq_false err)] at fine'
        cases fine'
      have all := ih (one truthful here fine step clear) later run clear
      rwa [List.append_assoc, List.singleton_append] at all

theorem write_all_refused {chunk : List ChunkUpdateEntry} {s s' : Loop}
    (run : chunk.foldlM (Loop.visit (writeVisit cfg)) s = .ok s')
    (refused : Refused (writeVisit cfg) chunk s) : s'.pDescriptor = s.pDescriptor := by
  induction chunk generalizing s with
  | nil =>
      cases run
      rfl
  | cons entry rest ih =>
      rw [List.foldlM_cons, bind_eq_ok] at run
      obtain ⟨mid, step, run⟩ := run
      simp only [Refused, visits, step, List.forall_mem_cons] at refused
      rw [ih run refused.2, write_refused step (refused.1 mid rfl)]

def stateAt (d : Drive) (pDescriptor : List ChunkDescriptor) (a : ChunkAddress) :
    Option ChunkState :=
  pDescriptor[descriptorOf d a]?.bind ChunkDescriptor.chunkState

def FindsClosed (v : Loop × ChunkUpdateEntry) : Prop :=
  v.1.pDescriptor[v.2.pDesc]?.bind ChunkDescriptor.chunkState = some .closed

instance (v : Loop × ChunkUpdateEntry) : Decidable (FindsClosed v) :=
  inferInstanceAs (Decidable (_ = _))

theorem err_of_closed {v : Loop × ChunkUpdateEntry}
    (refused : ∀ next, v.1.visit eraseVisit v.2 = .ok next → next.err = true)
    (closed : FindsClosed v) : v.1.err = true := by
  obtain ⟨desc, entry, state⟩ := Option.bind_eq_some_iff.1 closed
  have next := refused _ (visit_ok.2 ⟨desc, entry, rfl⟩)
  simpa [eraseVisit, state] using next

def Known (d : Drive) (pDescriptor : List ChunkDescriptor) : Prop :=
  ∀ a, Holds d a → stateAt d pDescriptor a ≠ none

theorem Truthful.known {s : State} (truthful : Truthful d s) : Known d s.pDescriptor := by
  intro a ha
  obtain ⟨desc, entry, tells⟩ := truthful a ha
  simp [stateAt, entry, tells.chunkState]

/-- A reset that is refused resets the chunk if it is closed, and does nothing else. -/
theorem erase_refused {s s' : Loop} {page : CPDPBP × ChunkUpdateEntry}
    (known : Known d s.pDescriptor) (stands : Stands d page)
    (step : s.visit eraseVisit page.2 = .ok s') (refused : s'.err = true) :
    (¬ FindsClosed (s, page.2) → s'.pDescriptor = s.pDescriptor) ∧
      ∀ b, Holds d b → stateAt d s'.pDescriptor b =
        if FindsClosed (s, page.2) ∧
          page.2.pDesc = descriptorOf d b then some .free
        else stateAt d s.pDescriptor b := by
  obtain ⟨desc, entry, rfl⟩ := visit_ok.1 step
  obtain ⟨a, ha, rfl⟩ := stands
  have some' := known a ha
  simp only [stateAt] at some' entry
  simp only [FindsClosed, entry, Option.bind_some] at some' refused ⊢
  by_cases closed : desc.chunkState = some .closed
  · have reset : (eraseVisit s.err desc (a.l / d.geometry.writeSize)).2.2 =
        { desc with writePointer := 0, chunkState := some .free } := by simp [eraseVisit, closed]
    refine ⟨fun other => absurd closed other, fun b hb => ?_⟩
    rw [reset, stateAt, stateAt]
    by_cases same : descriptorOf d a = descriptorOf d b
    · have room := (List.getElem?_eq_some_iff.1 entry).1
      rw [← same, List.getElem?_set_self room, if_pos ⟨closed, rfl⟩]
      rfl
    · rw [List.getElem?_set_ne same, if_neg fun both => same both.2]
  · have alone : (eraseVisit s.err desc (a.l / d.geometry.writeSize)).2.2 = desc := by
      unfold eraseVisit
      split <;> simp_all
    rw [alone, set_of_getElem? entry]
    exact ⟨fun _ => rfl, fun b _ => by rw [if_neg fun both => closed both.1]⟩

/-- Behind the first error a reset takes closed chunks with it, and the flash does not hear. -/
theorem erase_all_refused {pages : List (CPDPBP × ChunkUpdateEntry)} {s s' : Loop}
    (known : Known d s.pDescriptor) (stands : ∀ page ∈ pages, Stands d page)
    (run : (pages.map Prod.snd).foldlM (Loop.visit eraseVisit) s = .ok s')
    (refused : Refused eraseVisit (pages.map Prod.snd) s) :
    ((∀ v ∈ visits (Loop.visit eraseVisit) (pages.map Prod.snd) s, ¬ FindsClosed v) →
      s'.pDescriptor = s.pDescriptor) ∧
    (∀ b, Holds d b → stateAt d s'.pDescriptor b = stateAt d s.pDescriptor b ∨
      stateAt d s'.pDescriptor b = some .free) ∧
    ∀ v ∈ visits (Loop.visit eraseVisit) (pages.map Prod.snd) s, FindsClosed v → ∃ b, Holds d b ∧
      stateAt d s.pDescriptor b = some .closed ∧
        stateAt d s'.pDescriptor b = some .free := by
  induction pages generalizing s with
  | nil =>
      cases run
      exact ⟨fun _ => rfl, fun b _ => .inl rfl, by simp [visits]⟩
  | cons page rest ih =>
      rw [List.map_cons, List.foldlM_cons, bind_eq_ok] at run
      obtain ⟨mid, step, run⟩ := run
      obtain ⟨here, later⟩ := List.forall_mem_cons.1 stands
      simp only [Refused, List.map_cons, visits, step, List.forall_mem_cons] at refused ⊢
      obtain ⟨alone, states⟩ := erase_refused known here step (refused.1 mid rfl)
      have known' : Known d mid.pDescriptor := by
        intro b hb
        rw [states b hb]
        split
        · simp
        · exact known b hb
      obtain ⟨same, moved, found⟩ := ih known' later run refused.2
      refine ⟨fun none => ?_, fun b hb => ?_, fun closed => ?_, fun v hv closed => ?_⟩
      · rw [same none.2, alone none.1]
      · rcases moved b hb with stay | free
        · rw [stay, states b hb]
          split
          · exact .inr rfl
          · exact .inl rfl
        · exact .inr free
      · obtain ⟨a, ha, rfl⟩ := here
        have free := states a ha
        rw [if_pos ⟨closed, rfl⟩] at free
        refine ⟨a, ha, closed, ?_⟩
        rcases moved a ha with stay | freed
        · rw [stay, free]
        · exact freed
      · obtain ⟨b, hb, closed', freed⟩ := found v hv closed
        refine ⟨b, hb, ?_, freed⟩
        rw [states b hb] at closed'
        split at closed'
        · cases closed'
        · exact closed'

/-! ## Commands -/

/-- The pages that go to the flash although they are marked, as there are no bits for them. -/
def unmarked (k : Nat) (pages : List (CPDPBP × ChunkUpdateEntry)) :
    List (CPDPBP × ChunkUpdateEntry) := pages.drop (max k 64)

/-- A command accepts the first `k` of its pages. -/
structure Accepts (cfg : PAL.Config) (visit : Visit) (call : CPDPBP → PALCall)
    (pages : List (CPDPBP × ChunkUpdateEntry)) (s s' : State) (reply : Reply) (k : Nat)
    (mid loop : Loop) : Prop where
  le : k ≤ pages.length
  front : ((pages.take k).map Prod.snd).foldlM (Loop.visit visit)
    ⟨s.pDescriptor, false, 1, .zero⟩ = .ok mid
  fine : mid.err = false
  behind : ((pages.drop k).map Prod.snd).foldlM (Loop.visit visit) mid = .ok loop
  refused : Refused visit ((pages.drop k).map Prod.snd) mid
  marked : Marked k pages.length loop
  descriptors : s'.pDescriptor = loop.pDescriptor
  calls : s'.calls = s.calls ++ ((pages.take k).map fun page => call page.1) ++
    (unmarked k pages).map fun page => call page.1
  reply : reply = if k = pages.length then
    ⟨loop.resp.status, 0xFFFFFFFF, 0xFFFFFFFF⟩ else loop.resp

theorem internal_accepts {visit : Visit} {call : CPDPBP → PALCall} (sticky : Sticky visit)
    {lbaList : List Nat} {block mode : Bool} {s s' : State} {reply : Reply}
    (run : internal cfg visit call lbaList block mode s = .ok (s', reply)) :
    ∃ k mid loop,
      Accepts cfg visit call (pagesOf cfg lbaList block mode) s s' reply k mid loop := by
  rw [internal, convertUnit_eq, bind_eq_ok] at run
  obtain ⟨loop, run, done⟩ := run
  set pages := pagesOf cfg lbaList block mode
  have start : Marked 0 0 ⟨s.pDescriptor, false, 1, .zero⟩ :=
    ⟨rfl, by simp, ⟨Nat.two_pow_pos 32, Nat.two_pow_pos 32⟩,
      fun i _ => by simp [Reply.bit, Reply.zero]⟩
  obtain ⟨k, le, marked, mid, front, fine, behind, refused⟩ := exists_accepted sticky start run
  simp only [List.length_map, Nat.zero_add] at le marked
  simp only [Except.ok.injEq, Prod.mk.injEq] at done
  obtain ⟨rfl, rfl⟩ := done
  refine ⟨k, mid, loop, le, by rw [List.map_take]; exact front, fine,
    by rw [List.map_drop]; exact behind, by rw [List.map_drop]; exact refused, marked, rfl, ?_, ?_⟩
  · rw [List.append_assoc, ← List.map_append, unmarked, marked.err]
    rcases Nat.eq_or_lt_of_le le with rfl | lt
    · have beyond : pages.drop (max pages.length 64) = [] :=
        List.drop_eq_nil_of_le (le_max_left _ _)
      rw [decide_eq_false (Nat.lt_irrefl _), beyond, List.take_length, List.append_nil]
      simp
    · have bits : ∀ i, loop.resp.mask.testBit i =
          decide (i < 64 ∧ k ≤ i ∧ i < (pages.map Prod.fst).length) := by
        intro i
        rw [Reply.testBit_mask marked.small, List.length_map]
        by_cases inside : i < 64
        · simp [inside, marked.bit i inside]
        · simp [inside]
      rw [decide_eq_true lt, if_pos rfl, removeInvalid_eq bits]
      rcases Nat.le_total k 64 with few | many
      · rw [Nat.min_eq_left few, Nat.max_eq_right few]
        simp [List.map_take, List.map_drop, Function.comp_def]
      · rw [Nat.min_eq_right many, Nat.max_eq_left many, List.take_append_drop,
          List.take_append_drop]
        simp
  · rw [marked.err]
    rcases Nat.eq_or_lt_of_le le with rfl | lt
    · simp
    · simp [lt, lt.ne]

variable {s s' : State} {reply : Reply} {k : Nat} {mid loop : Loop}
  {pages : List (CPDPBP × ChunkUpdateEntry)}

theorem Truthful.write_accepted (truthful : Truthful d s) (stands : ∀ page ∈ pages, Stands d page)
    (accepts : Accepts d.cfg (writeVisit d.cfg) .write pages s s' reply k mid loop) :
    Truthful d ⟨s'.pDescriptor, s.calls ++ (pages.take k).map fun page => .write page.1⟩ := by
  rw [accepts.descriptors, write_all_refused accepts.behind accepts.refused]
  exact Truthful.accepted sticky_writeVisit Truthful.write truthful
    (fun page mem => stands page (List.mem_of_mem_take mem)) accepts.front rfl accepts.fine

theorem Truthful.no_more {pDescriptor : List ChunkDescriptor}
    (truthful : Truthful d ⟨pDescriptor, calls⟩) (stands : ∀ page ∈ pages, Stands d page)
    (after : Truthful d ⟨pDescriptor, calls ++ pages.map fun page => .write page.1⟩) :
    pages = [] := by
  by_contra some'
  obtain ⟨page, mem⟩ := List.exists_mem_of_ne_nil pages some'
  obtain ⟨a, ha, rfl⟩ := stands page mem
  obtain ⟨desc, entry, tells⟩ := truthful a ha
  obtain ⟨desc', entry', tells'⟩ := after a ha
  cases entry.symm.trans entry'
  have programs : (pages.map fun page => PALCall.write page.1).filterMap PALCall.op =
      (pages.map fun page => (blockOf page.1, page.1.page)).map fun p =>
        PageOp.program p.1 p.2 := by
    rw [List.filterMap_map, List.map_map, ← List.filterMap_eq_map]
    rfl
  have more : pagesIn d.cfg (calls ++ pages.map fun page => .write page.1) a =
      pagesIn d.cfg calls a ++ ((pages.map fun page => (blockOf page.1, page.1.page)).filter
        fun p => p.1 = blockOf (pageOf d.cfg a)).map Prod.snd := by
    rw [pagesIn, List.filterMap_append, programs, PageOp.pages_append_programs]
    rfl
  have ordered := tells'.inOrder
  have pointer := tells.writePointer.symm.trans tells'.writePointer
  rw [more] at ordered pointer
  have moved := PageOp.frontier_lt_of_append ordered ?_
  · exact moved.ne (Nat.eq_of_mul_eq_mul_right d.writeSize_pos pointer)
  · refine List.ne_nil_of_mem
      (List.mem_map.2 ⟨(blockOf (pageOf d.cfg a), (pageOf d.cfg a).page), ?_, rfl⟩)
    exact List.mem_filter.2 ⟨List.mem_map.2 ⟨_, mem, rfl⟩, by simp⟩

theorem Truthful.write_iff (truthful : Truthful d s) (stands : ∀ page ∈ pages, Stands d page)
    (accepts : Accepts d.cfg (writeVisit d.cfg) .write pages s s' reply k mid loop) :
    Truthful d s' ↔ unmarked k pages = [] := by
  have before := truthful.write_accepted stands accepts
  have whole : s' = ⟨s'.pDescriptor, s.calls ++ ((pages.take k).map fun page => .write page.1) ++
      (unmarked k pages).map fun page => .write page.1⟩ := by rw [← accepts.calls]
  rw [whole]
  constructor
  · exact before.no_more fun page mem => stands page (List.mem_of_mem_drop mem)
  · intro none
    rw [none, List.map_nil, List.append_nil]
    exact before

/-- Within one reset, no closed chunk stands behind one that is refused. -/
def ResetOrderly (pDescriptor : List ChunkDescriptor) (chunk : List ChunkUpdateEntry) : Prop :=
  ∀ v ∈ visits (Loop.visit eraseVisit) chunk ⟨pDescriptor, false, 1, .zero⟩,
    v.1.err = true → ¬ FindsClosed v

instance (pDescriptor : List ChunkDescriptor) (chunk : List ChunkUpdateEntry) :
    Decidable (ResetOrderly pDescriptor chunk) :=
  inferInstanceAs (Decidable (∀ v ∈ _, _))

theorem Truthful.erase_iff (truthful : Truthful d s) (stands : ∀ page ∈ pages, Stands d page)
    (accepts : Accepts d.cfg eraseVisit .erase pages s s' reply k mid loop)
    (few : pages.length ≤ 64) :
    Truthful d s' ↔ ResetOrderly s.pDescriptor (pages.map Prod.snd) := by
  have front : ∀ page ∈ pages.take k, Stands d page := fun page mem =>
    stands page (List.mem_of_mem_take mem)
  have behind : ∀ page ∈ pages.drop k, Stands d page := fun page mem =>
    stands page (List.mem_of_mem_drop mem)
  have before : Truthful d ⟨mid.pDescriptor,
      s.calls ++ (pages.take k).map fun page => .erase page.1⟩ :=
    Truthful.accepted sticky_eraseVisit (fun truthful stands _ => truthful.erase stands) truthful
      front accepts.front rfl accepts.fine
  have calls : s'.calls = s.calls ++ (pages.take k).map fun page => .erase page.1 := by
    rw [accepts.calls, unmarked, List.drop_eq_nil_of_le (few.trans (le_max_right _ _)),
      List.map_nil, List.append_nil]
  obtain ⟨alone, -, found⟩ := erase_all_refused before.known behind accepts.behind accepts.refused
  have orderly : ResetOrderly s.pDescriptor (pages.map Prod.snd) ↔
      ∀ v ∈ visits (Loop.visit eraseVisit) ((pages.drop k).map Prod.snd) mid,
        ¬ FindsClosed v := by
    have split : pages.map Prod.snd =
        (pages.take k).map Prod.snd ++ (pages.drop k).map Prod.snd := by
      rw [← List.map_append, List.take_append_drop]
    rw [ResetOrderly, split, visits_append accepts.front]
    simp only [List.forall_mem_append]
    constructor
    · rintro ⟨-, orderly⟩ v hv closed
      exact orderly v hv (err_of_closed (accepts.refused v hv) closed) closed
    · intro none
      refine ⟨fun v hv err => ?_, fun v hv _ => none v hv⟩
      rw [err_of_visit sticky_eraseVisit accepts.front accepts.fine v hv] at err
      cases err
  rw [orderly]
  constructor
  · intro after v hv closed
    obtain ⟨b, hb, was, is⟩ := found v hv closed
    obtain ⟨desc, entry, tells⟩ := before b hb
    obtain ⟨desc', entry', tells'⟩ := after b hb
    rw [calls] at tells'
    simp only [stateAt, entry, Option.bind_some] at was
    rw [accepts.descriptors] at entry'
    simp only [stateAt, entry', Option.bind_some] at is
    rw [tells.chunkState] at was
    rw [tells'.chunkState] at is
    rw [was] at is
    cases is
  · intro none
    have whole : s' = ⟨mid.pDescriptor,
        s.calls ++ (pages.take k).map fun page => .erase page.1⟩ := by
      rw [← alone none, ← accepts.descriptors, ← calls]
    rw [whole]
    exact before

end SimpleSSD.HIL.NVMe.OpenChannelSSD20
