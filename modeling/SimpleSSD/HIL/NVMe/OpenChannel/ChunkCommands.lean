import SimpleSSD.HIL.NVMe.OpenChannel.ChunkRuns

/-!
# Runs of open-channel commands

Commands about sectors that the drive holds always return.  Over a run of them the descriptors go
on to tell what is in the flash exactly as long as each command is orderly, and a vector write says
which of its pages went there.
-/

namespace SimpleSSD.HIL.NVMe.OpenChannelSSD20

open Foundation PAL

variable {d : Drive}

/-! ## Commands about sectors of the drive -/

instance (d : Drive) (a : ChunkAddress) : Decidable (Holds d a) :=
  decidable_of_iff (a.g < d.geometry.group ∧ a.p < d.geometry.parallelUnit ∧
    a.c < d.geometry.chunk ∧ a.l < d.geometry.chunkSize)
    ⟨fun h => ⟨h.1, h.2.1, h.2.2.1, h.2.2.2⟩, fun h => ⟨h.g, h.p, h.c, h.l⟩⟩

def vector (lbaList : List Nat) : Vector :=
  ⟨0, lbaList.length - 1, fun address => lbaList.getD (address / 8) 0⟩

def Command.addresses : Command → List Nat
  | .read slba dword12 | .write slba dword12 =>
      OpenChannelSSD20.addresses [slba, scalarBlocks dword12] false
  | .datasetManagement _ => []
  | .vectorChunkRead v | .vectorChunkWrite v | .vectorChunkReset v => v.lbaList

/-- A command about sectors of the drive, that is not a deallocation. -/
structure HeldCommand (d : Drive) where
  command : Command
  holds : ∀ lba ∈ command.addresses, Holds d (parseLBA (ppaMask d.cfg) lba)
  keeps : ∀ dword11, command = .datasetManagement dword11 → dword11 &&& 0x04 = 0

theorem stands_pagesOf {lbaList : List Nat} {mode : Bool} (block : Bool)
    (holds : ∀ lba ∈ addresses lbaList mode, Holds d (parseLBA (ppaMask d.cfg) lba)) :
    ∀ page ∈ pagesOf d.cfg lbaList block mode, Stands d page := by
  intro page mem
  obtain ⟨lba, among, rfl⟩ := List.mem_map.1 ((List.destutter_sublist _ _).mem mem)
  exact ⟨_, holds lba among, rfl⟩

theorem Vector.nlb_le (v : Vector) : v.nlb ≤ 64 :=
  Nat.mod_lt v.dword12 (by decide : 0 < 2 ^ 6)

theorem Vector.length_lbaList (v : Vector) : v.lbaList.length ≤ 64 := by
  unfold lbaList
  split
  · simpa using v.nlb_le
  · simp

theorem length_pagesOf_le (lbaList : List Nat) (block : Bool) :
    (pagesOf d.cfg lbaList block true).length ≤ lbaList.length := by
  have shorter := (List.destutter_sublist (fun back temp : CPDPBP × ChunkUpdateEntry =>
    OpenChannelSSD12.repeats block back.1 temp.1 = false)
      ((addresses lbaList true).map (convert d.cfg))).length_le
  simpa [pagesOf, addresses] using shorter

theorem Vector.length_pagesOf (v : Vector) (block : Bool) :
    (pagesOf d.cfg v.lbaList block true).length ≤ 64 :=
  (length_pagesOf_le v.lbaList block).trans v.length_lbaList

/-! ## Every command returns -/

def Sized (d : Drive) (pDescriptor : List ChunkDescriptor) : Prop :=
  pDescriptor.length = (initDescriptors d.cfg).length

theorem visit_returns (visit : Visit) {s : Loop} {page : CPDPBP × ChunkUpdateEntry}
    (sized : Sized d s.pDescriptor) (stands : Stands d page) :
    ∃ s', s.visit visit page.2 = .ok s' ∧ Sized d s'.pDescriptor := by
  obtain ⟨a, ha, rfl⟩ := stands
  have inside : descriptorOf d a < s.pDescriptor.length := by
    rw [sized]
    exact getChunkDescriptor_lt ha
  refine ⟨_, visit_ok.2 ⟨_, List.getElem?_eq_getElem inside, rfl⟩, ?_⟩
  simpa [Sized] using sized

theorem internal_returns {visit : Visit} {call : CPDPBP → PALCall} {lbaList : List Nat}
    {block mode : Bool} {s : State} (sized : Sized d s.pDescriptor)
    (holds : ∀ lba ∈ addresses lbaList mode, Holds d (parseLBA (ppaMask d.cfg) lba)) :
    ∃ s' reply, internal d.cfg visit call lbaList block mode s = .ok (s', reply) ∧
      Sized d s'.pDescriptor := by
  have total : ∀ (pages : List (CPDPBP × ChunkUpdateEntry)) (loop : Loop),
      Sized d loop.pDescriptor → (∀ page ∈ pages, Stands d page) → ∃ loop',
        (pages.map Prod.snd).foldlM (Loop.visit visit) loop = .ok loop' ∧
          Sized d loop'.pDescriptor := by
    intro pages
    induction pages with
    | nil => exact fun loop sized _ => ⟨loop, rfl, sized⟩
    | cons page rest ih =>
        intro loop sized stands
        obtain ⟨here, later⟩ := List.forall_mem_cons.1 stands
        obtain ⟨mid, step, sized'⟩ := visit_returns visit sized here
        obtain ⟨loop', run, sized''⟩ := ih mid sized' later
        refine ⟨loop', ?_, sized''⟩
        rw [List.map_cons, List.foldlM_cons, step, ok_bind]
        exact run
  obtain ⟨loop, run, sized'⟩ := total _ ⟨s.pDescriptor, false, 1, .zero⟩ sized
    (stands_pagesOf block holds)
  simp only [internal, convertUnit_eq, run, ok_bind]
  exact ⟨_, _, rfl, sized'⟩

theorem submitCommand_returns {s : State} (sized : Sized d s.pDescriptor) (c : HeldCommand d) :
    ∃ s' reply, submitCommand d.cfg s c.command = .ok (s', reply) ∧ Sized d s'.pDescriptor := by
  obtain ⟨command, holds, keeps⟩ := c
  cases command with
  | read slba dword12 =>
      rw [submitCommand]
      split
      · exact ⟨s, .zero, rfl, sized⟩
      · exact internal_returns sized holds
  | write slba dword12 =>
      rw [submitCommand]
      split
      · exact ⟨s, .zero, rfl, sized⟩
      · exact internal_returns sized holds
  | datasetManagement dword11 =>
      refine ⟨s, .zero, ?_, sized⟩
      rw [submitCommand, if_pos (keeps dword11 rfl)]
  | vectorChunkRead v => exact internal_returns sized holds
  | vectorChunkWrite v => exact internal_returns sized holds
  | vectorChunkReset v => exact internal_returns sized holds

/-! ## Reads -/

theorem read_keeps {lbaList : List Nat} {mode : Bool} {s s' : State} {reply : Reply}
    (run : readInternal d.cfg lbaList mode s = .ok (s', reply)) :
    s'.pDescriptor = s.pDescriptor ∧
      s'.calls.filterMap PALCall.op = s.calls.filterMap PALCall.op := by
  rw [readInternal, internal, convertUnit_eq, bind_eq_ok] at run
  obtain ⟨loop, run, done⟩ := run
  have same : loop.pDescriptor = s.pDescriptor := by
    refine foldlM_invariant_mem (fun loop : Loop => loop.pDescriptor = s.pDescriptor) ?_ run rfl
    intro entry _ loop loop' same step
    obtain ⟨desc, stands, rfl⟩ := visit_ok.1 step
    rw [← same]
    exact set_of_getElem? stands
  have silent : ∀ list : List CPDPBP, (list.map PALCall.read).filterMap PALCall.op = [] := by
    intro list
    induction list with
    | nil => rfl
    | cons addr rest ih => exact ih
  cases done
  exact ⟨same, by rw [List.filterMap_append, silent, List.append_nil]⟩

theorem Truthful.read_iff {lbaList : List Nat} {mode : Bool} {s s' : State} {reply : Reply}
    (run : readInternal d.cfg lbaList mode s = .ok (s', reply)) :
    Truthful d s' ↔ Truthful d s := by
  obtain ⟨descriptors, calls⟩ := read_keeps run
  simp only [Truthful, pagesIn, descriptors, calls]

/-! ## Orderly commands -/

def AllTaken (cfg : PAL.Config) (s : State) (chunk : List ChunkUpdateEntry) : Prop :=
  ((chunk.foldlM (Loop.visit (writeVisit cfg)) ⟨s.pDescriptor, false, 1, .zero⟩).toOption.any
    Loop.err) = false

instance (cfg : PAL.Config) (s : State) (chunk : List ChunkUpdateEntry) :
    Decidable (AllTaken cfg s chunk) :=
  inferInstanceAs (Decidable (_ = _))

/-- A write of more pages than there are bits is taken as a whole, and a reset does not come to a
closed chunk behind one that it refuses. -/
def Orderly (cfg : PAL.Config) (s : State) : Command → Prop
  | .write slba dword12 =>
      let pages := pagesOf cfg [slba, scalarBlocks dword12] false false
      pages.length ≤ 64 ∨ AllTaken cfg s (pages.map Prod.snd)
  | .vectorChunkReset v =>
      ResetOrderly s.pDescriptor ((pagesOf cfg v.lbaList true true).map Prod.snd)
  | _ => True

instance (cfg : PAL.Config) (s : State) (c : Command) : Decidable (Orderly cfg s c) := by
  cases c <;> unfold Orderly <;> infer_instance

def step (d : Drive) (s : State) (c : HeldCommand d) : Option State :=
  (submitCommand d.cfg s c.command).toOption.map Prod.fst

theorem step_iff {s s' : State} {c : HeldCommand d} :
    step d s c = some s' ↔ ∃ reply, submitCommand d.cfg s c.command = .ok (s', reply) := by
  rw [step]
  cases submitCommand d.cfg s c.command with
  | error e => simp [Except.toOption]
  | ok out => simp [Except.toOption, Prod.ext_iff]

section

variable {s s' : State} {reply : Reply} {k : Nat} {mid loop : Loop}
  {pages : List (CPDPBP × ChunkUpdateEntry)}

theorem Accepts.run {visit : Visit} {call : CPDPBP → PALCall}
    (accepts : Accepts d.cfg visit call pages s s' reply k mid loop) :
    (pages.map Prod.snd).foldlM (Loop.visit visit) ⟨s.pDescriptor, false, 1, .zero⟩ = .ok loop := by
  rw [← List.take_append_drop k pages, List.map_append, List.foldlM_append, accepts.front, ok_bind]
  exact accepts.behind

theorem allTaken_iff
    (accepts : Accepts d.cfg (writeVisit d.cfg) .write pages s s' reply k mid loop) :
    AllTaken d.cfg s (pages.map Prod.snd) ↔ k = pages.length := by
  have le := accepts.le
  simp [AllTaken, accepts.run, Except.toOption, accepts.marked.err]
  omega

theorem unmarked_eq_nil_iff
    (accepts : Accepts d.cfg (writeVisit d.cfg) .write pages s s' reply k mid loop) :
    unmarked k pages = [] ↔ pages.length ≤ 64 ∨ AllTaken d.cfg s (pages.map Prod.snd) := by
  have le := accepts.le
  rw [unmarked, List.drop_eq_nil_iff, allTaken_iff accepts]
  omega

end

theorem Truthful.step_iff {s s' : State} (truthful : Truthful d s) (c : HeldCommand d)
    (taken : step d s c = some s') : Truthful d s' ↔ Orderly d.cfg s c.command := by
  obtain ⟨reply, run⟩ := OpenChannelSSD20.step_iff.1 taken
  obtain ⟨command, holds, keeps⟩ := c
  cases command with
  | read slba dword12 =>
      simp only [submitCommand] at run
      split at run
      next =>
        cases run
        exact iff_of_true truthful trivial
      next => exact (Truthful.read_iff run).trans (iff_of_true truthful trivial)
  | write slba dword12 =>
      simp only [submitCommand] at run
      split at run
      next none =>
        cases run
        refine iff_of_true truthful (.inl ?_)
        simp [pagesOf, addresses, none]
      next =>
        obtain ⟨k, mid, loop, accepts⟩ := internal_accepts sticky_writeVisit run
        exact (truthful.write_iff (stands_pagesOf _ holds) accepts).trans
          (unmarked_eq_nil_iff accepts)
  | datasetManagement dword11 =>
      simp only [submitCommand] at run
      split at run
      next =>
        cases run
        exact iff_of_true truthful trivial
      next => cases run
  | vectorChunkRead v => exact (Truthful.read_iff run).trans (iff_of_true truthful trivial)
  | vectorChunkWrite v =>
      obtain ⟨k, mid, loop, accepts⟩ := internal_accepts sticky_writeVisit run
      have stands : ∀ page ∈ pagesOf d.cfg v.lbaList false true, Stands d page :=
        stands_pagesOf _ holds
      have few := v.length_pagesOf (d := d) false
      exact (truthful.write_iff stands accepts).trans
        ((unmarked_eq_nil_iff accepts).trans (iff_of_true (.inl few) trivial))
  | vectorChunkReset v =>
      obtain ⟨k, mid, loop, accepts⟩ := internal_accepts sticky_eraseVisit run
      have stands : ∀ page ∈ pagesOf d.cfg v.lbaList true true, Stands d page :=
        stands_pagesOf _ holds
      exact truthful.erase_iff stands accepts (v.length_pagesOf true)

theorem sized_step {s s' : State} (c : HeldCommand d) (sized : Sized d s.pDescriptor)
    (taken : step d s c = some s') : Sized d s'.pDescriptor := by
  obtain ⟨reply, run⟩ := step_iff.1 taken
  obtain ⟨s'', reply', run', sized'⟩ := submitCommand_returns sized c
  rw [run] at run'
  cases run'
  exact sized'

/-- Commands about sectors of the drive return in any order, and the descriptors tell what is in
the flash after each of them exactly if each is orderly. -/
theorem descriptors_tell_the_flash (commands : List (HeldCommand d)) :
    (∃ t, runActions (step d) (State.init d.cfg) commands = some t) ∧
      (Throughout (step d) (Truthful d) (State.init d.cfg) commands ↔
        EachAction (step d) (fun s c => Orderly d.cfg s c.command) (State.init d.cfg)
          commands) := by
  constructor
  · have returns : ∀ s : State, Sized d s.pDescriptor →
        ∃ t, runActions (step d) s commands = some t := by
      induction commands with
      | nil => exact fun s _ => ⟨s, rfl⟩
      | cons c rest ih =>
          intro s sized
          obtain ⟨s', reply, run, sized'⟩ := submitCommand_returns sized c
          obtain ⟨t, later⟩ := ih s' sized'
          exact ⟨t, Option.bind_eq_some_iff.2 ⟨s', step_iff.2 ⟨reply, run⟩, later⟩⟩
    exact returns _ rfl
  · have kept : ∀ s c s', Truthful d s → Orderly d.cfg s c.command → step d s c = some s' →
        Truthful d s' := fun s c s' truthful orderly taken =>
      (truthful.step_iff c taken).2 orderly
    exact throughout_iff_eachAction kept (fun s truthful => truthful)
      (fun s c s' truthful taken after => (truthful.step_iff c taken).1 after)
      truthful_init commands

-- a full chunk, behind a free one in a reset
example : ((submitCommand twoGroups.cfg (.init twoGroups.cfg)
    (.vectorChunkWrite (vector [0, 2, 4, 6]))).toOption.map fun out =>
      decide (Orderly twoGroups.cfg out.1 (.vectorChunkReset (vector [8, 0])))) = some false := by
  decide +kernel

/-! ## What a vector write takes -/

theorem Reply.status_mark (resp : Reply) (idx : Nat) : (resp.mark idx).status = resp.status := by
  unfold mark
  split <;> rfl

theorem writeVisit_status (cfg : PAL.Config) (err : Bool) (desc : ChunkDescriptor) (pageIdx : Nat) :
    (writeVisit cfg err desc pageIdx).2.1 =
      if (writeVisit cfg err desc pageIdx).1 then some (mediaError 0xF2) else none := by
  unfold writeVisit
  dsimp only
  split <;> rfl

theorem write_status {cfg : PAL.Config} {chunk : List ChunkUpdateEntry} {loop loop' : Loop}
    (run : chunk.foldlM (Loop.visit (writeVisit cfg)) loop = .ok loop')
    (start : loop.resp.status = if loop.err then mediaError 0xF2 else 0) :
    loop'.resp.status = if loop'.err then mediaError 0xF2 else 0 := by
  refine foldlM_invariant_mem
    (fun loop : Loop => loop.resp.status = if loop.err then mediaError 0xF2 else 0) ?_ run start
  intro entry _ loop loop' status step
  obtain ⟨desc, -, rfl⟩ := visit_ok.1 step
  have flagged := writeVisit_status cfg loop.err desc entry.pageIdx
  cases flag : (writeVisit cfg loop.err desc entry.pageIdx).1 with
  | true => simp [flagged, flag, Reply.status_mark]
  | false =>
      have clear : loop.err = false := by
        by_contra set'
        rw [Bool.eq_true_of_not_eq_false set', sticky_writeVisit] at flag
        cases flag
      rw [clear] at flag flagged status
      rw [flag] at flagged
      simp [clear, flagged, status]

section

variable {s s' : State} {reply : Reply} {k : Nat} {mid loop : Loop}
  {pages : List (CPDPBP × ChunkUpdateEntry)}

theorem Accepts.bits {visit : Visit} {call : CPDPBP → PALCall}
    (accepts : Accepts d.cfg visit call pages s s' reply k mid loop) :
    ∀ i < 64, reply.bit i = decide (k = pages.length ∨ k ≤ i ∧ i < pages.length) := by
  intro i inside
  rw [accepts.reply]
  split
  next all =>
    have ones : ∀ n < 32, Nat.testBit 0xFFFFFFFF n = true := by decide
    simp only [all, Reply.bit, true_or, decide_true]
    split
    · exact ones i ‹_›
    · exact ones (i - 32) (by omega)
  next some' =>
    rw [accepts.marked.bit i inside]
    simp [some']

theorem Truthful.write_stops (truthful : Truthful d s) (stands : ∀ page ∈ pages, Stands d page)
    (accepts : Accepts d.cfg (writeVisit d.cfg) .write pages s s' reply k mid loop)
    {a : ChunkAddress} {entry : ChunkUpdateEntry}
    (stops : pages[k]? = some (pageOf d.cfg a, entry)) :
    (pageOf d.cfg a).page < PageOp.frontier (pagesIn d.cfg
      (s.calls ++ (pages.take k).map fun page => .write page.1) a) := by
  obtain ⟨b, hb, same⟩ := stands _ (List.mem_of_getElem? stops)
  obtain ⟨samePage, rfl⟩ := Prod.mk.inj same
  have before : Truthful d ⟨mid.pDescriptor,
      s.calls ++ (pages.take k).map fun page => .write page.1⟩ :=
    Truthful.accepted sticky_writeVisit Truthful.write truthful
      (fun page mem => stands page (List.mem_of_mem_take mem)) accepts.front rfl accepts.fine
  obtain ⟨desc, found, tells⟩ := before b hb
  have inside : b.l / d.geometry.writeSize < d.cfg.page := (pageOf_inFlash hb).page
  have refused := accepts.refused
  rw [List.drop_eq_getElem?_toList_append, stops] at refused
  simp only [Option.toList_some, List.singleton_append, List.map_cons, Refused, visits,
    List.forall_mem_cons] at refused
  have flag := refused.1 _ (visit_ok.2 ⟨desc, found, rfl⟩)
  simp only [accepts.fine] at flag
  rw [pagesIn, samePage]
  refine Nat.lt_of_not_le fun above => ?_
  rw [(writeVisit_iff tells inside).2 above] at flag
  cases flag

end

/-- After any run of orderly commands, a vector write takes its pages up to the first that is not
in order in its block.  The flash gets these and no others, the status says if there are others,
and the completion entry has their bits. -/
theorem vector_write_takes_orderly_prefix {commands : List (HeldCommand d)} {s : State}
    (run : runActions (step d) (State.init d.cfg) commands = some s)
    (orderly : EachAction (step d) (fun s c => Orderly d.cfg s c.command) (State.init d.cfg)
      commands)
    {v : Vector} (holds : ∀ lba ∈ v.lbaList, Holds d (parseLBA (ppaMask d.cfg) lba)) :
    ∃ k s' reply, submitCommand d.cfg s (.vectorChunkWrite v) = .ok (s', reply) ∧
      let pages := pagesOf d.cfg v.lbaList false true
      k ≤ pages.length ∧
        s'.calls = s.calls ++ ((pages.take k).map fun page => .write page.1) ∧
        (∀ a, Holds d a → PageOp.InOrder (pagesIn d.cfg s'.calls a)) ∧
        (∀ a entry, pages[k]? = some (pageOf d.cfg a, entry) →
          (pageOf d.cfg a).page < PageOp.frontier (pagesIn d.cfg s'.calls a)) ∧
        reply.status = (if k = pages.length then 0 else mediaError 0xF2) ∧
        ∀ i < 64, reply.bit i = decide (k = pages.length ∨ k ≤ i ∧ i < pages.length) := by
  have tellsAfter : ∀ (s : State) (c : HeldCommand d) (s' : State), Truthful d s →
      Orderly d.cfg s c.command → step d s c = some s' → Truthful d s' :=
    fun s c s' truthful orderly taken => (truthful.step_iff c taken).2 orderly
  have truthful : Truthful d s := invariant_of_run tellsAfter run truthful_init orderly
  have sizedAfter : ∀ (s : State) (c : HeldCommand d) (s' : State), Sized d s.pDescriptor →
      step d s c = some s' → Sized d s'.pDescriptor := fun s c s' => sized_step c
  have sized : Sized d s.pDescriptor := invariant_of_actions sizedAfter run rfl
  obtain ⟨s', reply, done, -⟩ := submitCommand_returns sized ⟨.vectorChunkWrite v, holds, by simp⟩
  obtain ⟨k, mid, loop, accepts⟩ := internal_accepts sticky_writeVisit done
  have stands : ∀ page ∈ pagesOf d.cfg v.lbaList false true, Stands d page :=
    stands_pagesOf _ holds
  have none : unmarked k (pagesOf d.cfg v.lbaList false true) = [] :=
    (unmarked_eq_nil_iff accepts).2 (.inl (v.length_pagesOf false))
  have calls : s'.calls = s.calls ++
      ((pagesOf d.cfg v.lbaList false true).take k).map fun page => .write page.1 := by
    rw [accepts.calls, none, List.map_nil, List.append_nil]
  have after : Truthful d s' := (truthful.write_iff stands accepts).2 none
  have status : loop.resp.status =
      if k = (pagesOf d.cfg v.lbaList false true).length then 0 else mediaError 0xF2 := by
    rw [write_status accepts.run rfl, accepts.marked.err]
    rcases Nat.eq_or_lt_of_le accepts.le with all | less
    · simp [all]
    · simp [less, less.ne]
  refine ⟨k, s', reply, done, accepts.le, calls, fun a ha => ?_, fun a entry stops => ?_, ?_,
    accepts.bits⟩
  · obtain ⟨desc, -, tells⟩ := after a ha
    exact tells.inOrder
  · rw [calls]
    exact truthful.write_stops stands accepts stops
  · rw [accepts.reply, ← status]
    split <;> rfl

def firstTwoPages : HeldCommand twoGroups where
  command := .vectorChunkWrite (vector [0, 2])
  holds := by decide +kernel
  keeps := by simp

/-- Of the third page, the second once more and the fourth, the third alone is taken. -/
theorem vector_write_takes_third_page : ∃ s s' reply,
    runActions (step twoGroups) (State.init twoGroups.cfg) [firstTwoPages] = some s ∧
      submitCommand twoGroups.cfg s (.vectorChunkWrite (vector [4, 2, 6])) = .ok (s', reply) ∧
        s'.calls.length = 3 ∧ reply.status = mediaError 0xF2 ∧
          ∀ i < 64, reply.bit i = decide (1 ≤ i ∧ i < 3) := by
  have three : (pagesOf twoGroups.cfg (vector [4, 2, 6]).lbaList false true).length = 3 := by
    decide +kernel
  have ran : ((runActions (step twoGroups) (State.init twoGroups.cfg) [firstTwoPages]).bind
      fun s => (submitCommand twoGroups.cfg s (.vectorChunkWrite (vector [4, 2, 6]))).toOption.map
        fun out => (s.calls.length, out.1.calls.length)) = some (2, 3) := by decide +kernel
  obtain ⟨s, run, out⟩ := Option.bind_eq_some_iff.1 ran
  obtain ⟨k, s', reply, done, le, calls, -, -, status, bits⟩ :=
    vector_write_takes_orderly_prefix run (fun _ _ => ⟨trivial, trivial⟩)
      (v := vector [4, 2, 6]) (by decide +kernel)
  rw [done] at out
  simp only [Except.toOption, Option.map_some, Option.some.injEq, Prod.mk.injEq] at out
  have one : k = 1 := by
    have counted := congrArg List.length calls
    simp only [List.length_append, List.length_map, List.length_take, out.1, out.2] at counted
    omega
  subst one
  rw [three] at status bits
  exact ⟨s, s', reply, run, done, out.2, status, fun i inside => by simp [bits i inside]⟩

end SimpleSSD.HIL.NVMe.OpenChannelSSD20
