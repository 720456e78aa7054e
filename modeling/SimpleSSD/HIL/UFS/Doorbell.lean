import SimpleSSD.Foundation.Arrays
import SimpleSSD.Foundation.Fallible
import SimpleSSD.Foundation.Rounds
import SimpleSSD.HIL.UFS.Host

/-!
# Rounds of the doorbell

A slot whose bit is set has one request, in the queue, in flight or among the completions.  For each
time that the bit is set, the descriptor and the request are read, then the response and the
descriptor are written, once each, and then the bit is cleared.
-/

namespace SimpleSSD.HIL.UFS.Host

open Foundation

/-! ## Places -/

inductive Place where
  | queued
  | inFlight (stage : Stage)
  | finished

def places (slot : Nat) (h : Host) : List Place :=
  (h.lRequestQueue.filter fun i => i = slot).map (fun _ => .queued) ++
    ((h.inFlight.filter fun c => c.index = slot).map fun c => .inFlight c.stage) ++
      (h.lResponseQueue.filter fun c => c.bitmask = bit slot).map fun _ => .finished

/-! ## What is seen of a slot -/

inductive Event where
  | rang
  | took
  | fetched (desc : UTPTransferReqDesc)
  | requested (transferReq : Memory)
  | responded (address : Nat) (transferResp : Memory)
  | wroteBack (desc : UTPTransferReqDesc)
  | cleared

def seen (slot : Nat) (h : Host) (i : Nat) (event : Stage → Option Event) : List Event :=
  ((h.inFlight[i]?.filter fun c => c.index = slot).bind fun c => event c.stage).toList

abbrev written (h : Host) (data : BitVec 32) : Host := { h with utrldbr := h.utrldbr ||| data }

abbrev due (h : Host) (tick : Nat) : List Completion :=
  h.lResponseQueue.takeWhile fun c => c.finishedAt ≤ tick

def rings (h : Host) (i : Nat) : Bool :=
  h.utrldbr.getLsbD i && !h.pendingInterrupt.getLsbD i

def rung (h : Host) : Action → List Nat
  | .writeUTRLDBR data =>
      (List.range 32).filter (rings (h.written data))
  | _ => []

def taken (h : Host) : Action → List Nat
  | .handleRequest => h.lRequestQueue.head?.toList
  | _ => []

def see (slot : Nat) (h : Host) : Action → List Event
  | .writeUTRLDBR data => ((rung h (.writeUTRLDBR data)).filter (· = slot)).map fun _ => .rang
  | .handleRequest => ((taken h .handleRequest).filter (· = slot)).map fun _ => .took
  | .descriptorRead i => seen slot h i fun
      | .descriptor start => some (.fetched ⟨slice h.memory start 32⟩)
      | _ => none
  | .requestRead i _ _ => seen slot h i fun
      | .command desc none _ => some (.requested fun k => h.memory (add64 desc.base k))
      | _ => none
  | .responseWritten i => seen slot h i fun
      | .response desc _ transferResp =>
          some (.responded (add64 desc.base desc.offUPIUResp) transferResp)
      | _ => none
  | .descriptorWritten i _ => seen slot h i fun
      | .descriptorBack desc _ => some (.wroteBack desc)
      | _ => none
  | .completion tick =>
      if (h.due tick).any (·.bitmask = bit slot) then [.cleared] else []
  | _ => []

def Parsed (desc : UTPTransferReqDesc) (transferReq : Memory) (req : UPIU) : Prop :=
  ∃ garbage ret, (getUPIU garbage (transferReq 0 &&& 0x3F)).set transferReq desc.offUPIUResp =
    .ok (ret, req)

def Answers (desc : UTPTransferReqDesc) (transferReq transferResp : Memory) : Prop :=
  ∃ req resp, Parsed desc transferReq req ∧ respond req resp desc.sizeUPIUResp = .ok transferResp

def upTo (desc : UTPTransferReqDesc) : List Event := [.rang, .took, .fetched desc]

inductive Begun : List Place → List Event → Prop where
  | idle : Begun [] []
  | queued : Begun [.queued] [.rang]
  | descriptor {start : Nat} : Begun [.inFlight (.descriptor start)] [.rang, .took]
  | command {desc : UTPTransferReqDesc} {prdtDone : Bool} :
      Begun [.inFlight (.command desc none prdtDone)] (upTo desc)
  | requested {desc : UTPTransferReqDesc} {transferReq : Memory} :
      Begun [.inFlight (.command desc (some transferReq) false)]
        (upTo desc ++ [.requested transferReq])
  | device {desc : UTPTransferReqDesc} {transferReq : Memory} {req resp : UPIU}
      (parsed : Parsed desc transferReq req) :
      Begun [.inFlight (.device desc transferReq req resp)] (upTo desc ++ [.requested transferReq])
  | response {desc : UTPTransferReqDesc} {transferReq transferResp : Memory}
      (answers : Answers desc transferReq transferResp) :
      Begun [.inFlight (.response desc transferReq transferResp)]
        (upTo desc ++ [.requested transferReq])
  | descriptorBack {desc : UTPTransferReqDesc} {transferReq transferResp : Memory} {start : Nat}
      (answers : Answers desc transferReq transferResp) :
      Begun [.inFlight (.descriptorBack desc.clearStatus start)] (upTo desc ++
        [.requested transferReq, .responded (add64 desc.base desc.offUPIUResp) transferResp])
  | finished {desc : UTPTransferReqDesc} {transferReq transferResp : Memory}
      (answers : Answers desc transferReq transferResp) :
      Begun [.finished] (upTo desc ++ [.requested transferReq,
        .responded (add64 desc.base desc.offUPIUResp) transferResp, .wroteBack desc.clearStatus])

def Whole (round : List Event) : Prop :=
  ∃ desc transferReq transferResp, Answers desc transferReq transferResp ∧
    round = [.rang, .took, .fetched desc, .requested transferReq,
      .responded (add64 desc.base desc.offUPIUResp) transferResp, .wroteBack desc.clearStatus,
      .cleared]

/-! ## One slot

What a step of the host does to a slot. -/

inductive Goes (d : Device) : Stage → Option Event → Stage → Prop where
  | fetched {start : Nat} {desc : UTPTransferReqDesc} {prdtDone : Bool} :
      Goes d (.descriptor start) (some (.fetched desc)) (.command desc none prdtDone)
  | requested {desc : UTPTransferReqDesc} {transferReq : Memory} :
      Goes d (.command desc none false) (some (.requested transferReq))
        (.command desc (some transferReq) false)
  | prdt {desc : UTPTransferReqDesc} :
      Goes d (.command desc none false) none (.command desc none true)
  | requestedLast {desc : UTPTransferReqDesc} {transferReq : Memory} {garbage garbage' : Query}
      {stage : Stage} (did : doRequest d garbage garbage' desc transferReq = .ok stage) :
      Goes d (.command desc none true) (some (.requested transferReq)) stage
  | prdtLast {desc : UTPTransferReqDesc} {transferReq : Memory} {garbage garbage' : Query}
      {stage : Stage} (did : doRequest d garbage garbage' desc transferReq = .ok stage) :
      Goes d (.command desc (some transferReq) false) none stage
  | processed {desc : UTPTransferReqDesc} {transferReq : Memory} {req resp : UPIU} {stage : Stage}
      (did : done desc transferReq req resp = .ok stage) :
      Goes d (.device desc transferReq req resp) none stage
  | responded {desc : UTPTransferReqDesc} {transferReq transferResp : Memory} {start : Nat} :
      Goes d (.response desc transferReq transferResp)
        (some (.responded (add64 desc.base desc.offUPIUResp) transferResp))
        (.descriptorBack desc.clearStatus start)

inductive Move (d : Device) : List Place → List Event → List Place → Prop where
  | stay (places : List Place) : Move d places [] places
  | rang : Move d [] [.rang] [.queued]
  | took {start : Nat} : Move d [.queued] [.took] [.inFlight (.descriptor start)]
  | goes {stage stage' : Stage} {event : Option Event} (goes : Goes d stage event stage') :
      Move d [.inFlight stage] event.toList [.inFlight stage']
  | wroteBack {desc : UTPTransferReqDesc} {start : Nat} :
      Move d [.inFlight (.descriptorBack desc start)] [.wroteBack desc] [.finished]
  | cleared : Move d [.finished] [.cleared] []

/-! ## The bits -/

theorem getLsbD_bit (i k : Nat) : (bit i).getLsbD k = decide (k < 32 ∧ k = i) := by
  rw [bit, BitVec.getLsbD_shiftLeft, BitVec.getLsbD_one]
  grind

theorem bit_inj {i k : Nat} (inside : i < 32) : bit i = bit k ↔ i = k := by
  refine ⟨fun same => ?_, fun same => by rw [same]⟩
  have at_i := getLsbD_bit k i
  rw [← same, getLsbD_bit] at at_i
  simpa [inside] using at_i

theorem getLsbD_foldl_clear (finished : List Completion) (r : BitVec 32) {k : Nat}
    (inside : k < 32) :
    (finished.foldl (fun r c => r &&& ~~~c.bitmask) r).getLsbD k =
      (r.getLsbD k && !finished.any fun c => c.bitmask.getLsbD k) := by
  induction finished generalizing r with
  | nil => simp
  | cons c rest ih =>
      rw [List.foldl_cons, ih, List.any_cons]
      simp only [BitVec.getLsbD_and, BitVec.getLsbD_not, inside, decide_true, Bool.true_and,
        Bool.not_or, Bool.and_assoc]

theorem filter_rings_queued {i : Nat} {l : List Nat} (fresh : i ∉ l) (h : Host) :
    (l.filter (rings { h with
      pendingInterrupt := h.pendingInterrupt ||| bit i
      lRequestQueue := h.lRequestQueue ++ [i] })) = l.filter (rings h) := by
  apply List.filter_congr
  intro k mem
  have other : k ≠ i := fun same => fresh (same ▸ mem)
  simp only [rings, BitVec.getLsbD_or, getLsbD_bit, other, and_false, decide_false, Bool.or_false]

theorem foldl_rings {l : List Nat} (apart : l.Nodup) (h : Host) :
    ∃ pending : BitVec 32,
      (∀ k < 32, pending.getLsbD k =
        (h.pendingInterrupt.getLsbD k || (decide (k ∈ l) && h.utrldbr.getLsbD k))) ∧
      l.foldl (fun h i =>
        if rings h i then
          { h with
            pendingInterrupt := h.pendingInterrupt ||| bit i
            lRequestQueue := h.lRequestQueue ++ [i] }
        else h) h = { h with
          pendingInterrupt := pending
          lRequestQueue := h.lRequestQueue ++ l.filter (rings h) } := by
  induction l generalizing h with
  | nil => exact ⟨h.pendingInterrupt, by simp, by simp⟩
  | cons i rest ih =>
      obtain ⟨fresh, apart⟩ := List.nodup_cons.1 apart
      rw [List.foldl_cons]
      by_cases ringing : rings h i = true
      · obtain ⟨pending, bits, eq⟩ := ih apart
          { h with
            pendingInterrupt := h.pendingInterrupt ||| bit i
            lRequestQueue := h.lRequestQueue ++ [i] }
        rw [if_pos ringing, eq, filter_rings_queued fresh]
        refine ⟨pending, fun k inside => ?_, ?_⟩
        · rw [bits k inside, BitVec.getLsbD_or, getLsbD_bit]
          rw [rings] at ringing
          grind
        · rw [List.filter_cons_of_pos ringing]
          simp
      · obtain ⟨pending, bits, eq⟩ := ih apart h
        rw [if_neg ringing, eq, List.filter_cons_of_neg ringing]
        refine ⟨pending, fun k inside => ?_, rfl⟩
        rw [bits k inside]
        rw [rings] at ringing
        grind

theorem processUTPTransfer_eq (h : Host) :
    ∃ pending : BitVec 32,
      (∀ k < 32, pending.getLsbD k = (h.pendingInterrupt.getLsbD k || h.utrldbr.getLsbD k)) ∧
      h.processUTPTransfer = { h with
        pendingInterrupt := pending
        lRequestQueue := h.lRequestQueue ++ (List.range 32).filter (rings h) } := by
  obtain ⟨pending, bits, eq⟩ := foldl_rings List.nodup_range h
  refine ⟨pending, fun k inside => ?_, eq⟩
  rw [bits k inside, decide_eq_true (List.mem_range.2 inside), Bool.true_and]

/-! ## What holds of every slot -/

structure Inv (h : Host) : Prop where
  queued : ∀ i ∈ h.lRequestQueue, i < 32
  inFlight : ∀ c ∈ h.inFlight, c.index < 32
  finished : ∀ c ∈ h.lResponseQueue, ∃ i < 32, c.bitmask = bit i
  bits : ∀ k < 32, h.utrldbr.getLsbD k = h.pendingInterrupt.getLsbD k
  held : ∀ k < 32, (places k h).length = (h.pendingInterrupt.getLsbD k).toNat

theorem inv_init (memory : Memory) : Inv (init memory) := by
  constructor <;> simp [init, places]

variable {d : Device} {h h' : Host} {i slot : Nat} {context : RequestContext} {stage : Stage}

theorem Inv.length_le (inv : Inv h) (inside : slot < 32) : (places slot h).length ≤ 1 := by
  rw [inv.held slot inside]
  exact Bool.toNat_le _

/-! ## What a step does -/

def put (h : Host) (i : Nat) (context : RequestContext) (memory : Memory) (stage : Stage) : Host :=
  { h with memory := memory, inFlight := h.inFlight.set i { context with stage := stage } }

def settle (h : Host) (i : Nat) (context : RequestContext) (memory : Memory) (now : Nat) : Host :=
  { h with memory := memory, inFlight := h.inFlight.eraseIdx i }.pushCompletion now context.index

inductive StepCases (d : Device) (h : Host) : Action → Host → Prop where
  | rang (data : BitVec 32) :
      StepCases d h (.writeUTRLDBR data) (h.written data).processUTPTransfer
  | register {a : Action} (is : BitVec 32) (utrlba : Nat) (memory : Memory) (bells : rung h a = [])
      (takes : taken h a = []) (shown : ∀ slot, see slot h a = []) :
      StepCases d h a { h with is := is, utrlba := utrlba, memory := memory }
  | took : StepCases d h .handleRequest h.handleRequest
  | goes {a : Action} {i : Nat} {context : RequestContext} {before stage : Stage}
      {event : Option Event} (memory : Memory) (entry : h.inFlight[i]? = some context)
      (waits : context.stage = before) (goes : Goes d before event stage) (bells : rung h a = [])
      (takes : taken h a = [])
      (shown : ∀ slot, see slot h a = if context.index = slot then event.toList else []) :
      StepCases d h a (h.put i context memory stage)
  | settled {i : Nat} {context : RequestContext} {desc : UTPTransferReqDesc} {start : Nat}
      (memory : Memory) (now : Nat) (entry : h.inFlight[i]? = some context)
      (waits : context.stage = .descriptorBack desc start) :
      StepCases d h (.descriptorWritten i now) (h.settle i context memory now)
  | completed (tick : Nat) : StepCases d h (.completion tick) (h.completion tick)

theorem seen_eq (entry : h.inFlight[i]? = some context) (event : Stage → Option Event) :
    seen slot h i event = if context.index = slot then (event context.stage).toList else [] := by
  by_cases same : context.index = slot <;> simp [seen, entry, same, Option.filter]

theorem advance_eq_some {result : Except Fault Stage}
    (advanced : h.advance i context result = some h') :
    ∃ stage, result = .ok stage ∧ h' = h.put i context h.memory stage := by
  cases result with
  | error fault => simp [advance, Except.toOption] at advanced
  | ok stage => exact ⟨stage, rfl, by simpa [advance, put, Except.toOption] using advanced.symm⟩

theorem put_of_memory (memory memory' : Memory) :
    { h with memory := memory' }.put i context memory stage = h.put i context memory stage := rfl

theorem step_cases {a : Action} (step : Host.step d h a = some h') : StepCases d h a h' := by
  cases a with
  | writeUTRLDBR data =>
      cases step
      exact .rang data
  | writeUTRLBA data =>
      rw [Host.step, Option.some.injEq] at step
      subst step
      exact .register _ _ _ rfl rfl fun _ => rfl
  | writeUTRLBAU data =>
      rw [Host.step, Option.some.injEq] at step
      subst step
      exact .register _ _ _ rfl rfl fun _ => rfl
  | writeIS data =>
      rw [Host.step, Option.some.injEq] at step
      subst step
      exact .register _ _ _ rfl rfl fun _ => rfl
  | store start bytes =>
      rw [Host.step, Option.some.injEq] at step
      subst step
      exact .register _ _ _ rfl rfl fun _ => rfl
  | handleRequest =>
      cases step
      exact .took
  | descriptorRead i =>
      obtain ⟨context, entry, step⟩ := Option.bind_eq_some_iff.1 step
      split at step
      case h_2 => cases step
      case h_1 start waits =>
        obtain ⟨stage, parsed, rfl⟩ := advance_eq_some step
        rw [processUTPCommand] at parsed
        split at parsed
        case isFalse => cases parsed
        case isTrue =>
          cases parsed
          refine .goes _ entry waits .fetched rfl rfl fun slot => ?_
          rw [see, seen_eq entry, waits]
  | requestRead i garbage garbage' =>
      obtain ⟨context, entry, step⟩ := Option.bind_eq_some_iff.1 step
      split at step
      case h_2 => cases step
      case h_1 desc prdtDone waits =>
        split at step
        case isTrue => cases step
        case isFalse =>
          obtain ⟨stage, did, rfl⟩ := advance_eq_some step
          have goes : Goes d (.command desc none prdtDone)
              (some (.requested fun k => h.memory (add64 desc.base k))) stage := by
            cases prdtDone with
            | false =>
                cases did
                exact .requested
            | true => exact .requestedLast did
          refine .goes _ entry waits goes rfl rfl fun slot => ?_
          rw [see, seen_eq entry, waits]
  | prdtRead i garbage garbage' =>
      obtain ⟨context, entry, step⟩ := Option.bind_eq_some_iff.1 step
      split at step
      case h_2 => cases step
      case h_1 desc transferReq waits =>
        obtain ⟨stage, did, rfl⟩ := advance_eq_some step
        have goes : Goes d (.command desc transferReq false) none stage := by
          cases transferReq with
          | none =>
              cases did
              exact .prdt
          | some transferReq => exact .prdtLast did
        exact .goes _ entry waits goes rfl rfl fun slot => by simp [see]
  | processed i =>
      obtain ⟨context, entry, step⟩ := Option.bind_eq_some_iff.1 step
      split at step
      case h_2 => cases step
      case h_1 desc transferReq req resp waits =>
        split at step
        case isTrue => cases step
        case isFalse =>
          obtain ⟨stage, did, rfl⟩ := advance_eq_some step
          exact .goes _ entry waits (.processed did) rfl rfl fun slot => by simp [see]
  | responseWritten i =>
      obtain ⟨context, entry, step⟩ := Option.bind_eq_some_iff.1 step
      split at step
      case h_2 => cases step
      case h_1 desc transferReq transferResp waits =>
        split at step
        case isTrue => cases step
        case isFalse =>
          obtain ⟨stage, did, rfl⟩ := advance_eq_some step
          rw [put_of_memory, ← Except.ok.inj did]
          refine .goes _ entry waits .responded rfl rfl fun slot => ?_
          rw [see, seen_eq entry, waits]
  | descriptorWritten i now =>
      obtain ⟨context, entry, step⟩ := Option.bind_eq_some_iff.1 step
      split at step
      case h_2 => cases step
      case h_1 desc start waits =>
        cases step
        exact .settled _ now entry waits
  | completion tick =>
      cases step
      exact .completed tick

theorem queue_of_step {a : Action} (step : Host.step d h a = some h') :
    h.lRequestQueue ++ rung h a = taken h a ++ h'.lRequestQueue := by
  cases step_cases step with
  | rang data =>
      obtain ⟨pending, -, eq⟩ := processUTPTransfer_eq (h.written data)
      rw [eq]
      rfl
  | register is utrlba memory bells takes => simp [bells, takes]
  | took => cases queue : h.lRequestQueue <;> simp [taken, rung, handleRequest, queue]
  | goes memory entry waits goes bells takes => simp [bells, takes, put]
  | settled => simp [rung, taken, settle, pushCompletion]
  | completed => simp [rung, taken, completion]

/-! ## What a step does to a slot -/

theorem places_put (entry : h.inFlight[i]? = some context) (memory : Memory) (stage : Stage)
    (slot : Nat) :
    (context.index = slot ∧ ∃ a b, places slot h = a ++ .inFlight context.stage :: b ∧
      places slot (h.put i context memory stage) = a ++ .inFlight stage :: b) ∨
    (context.index ≠ slot ∧ places slot (h.put i context memory stage) = places slot h) := by
  by_cases same : context.index = slot
  · obtain ⟨a, b, before, after⟩ := filter_set_of_pos (p := fun c => decide (c.index = slot))
      (y := { context with stage := stage }) entry (by simpa using same) (by simpa using same)
    refine .inl ⟨same,
      (h.lRequestQueue.filter fun i => i = slot).map (fun _ => .queued) ++
        a.map fun c => .inFlight c.stage,
      (b.map fun c => .inFlight c.stage) ++
        (h.lResponseQueue.filter fun c => c.bitmask = bit slot).map fun _ => .finished, ?_, ?_⟩
    · simp [places, before]
    · simp [places, put, after]
  · refine .inr ⟨same, ?_⟩
    have others := filter_set_of_neg (p := fun c => decide (c.index = slot))
      (y := { context with stage := stage }) entry (by simpa using same) (by simpa using same)
    simp only [places, put, others]

theorem move_of_goes (inv : Inv h) (entry : h.inFlight[i]? = some context)
    {event : Option Event} (goes : Goes d context.stage event stage) (memory : Memory) :
    Inv (h.put i context memory stage) ∧ ∀ slot < 32, Move d (places slot h)
      (if context.index = slot then event.toList else [])
      (places slot (h.put i context memory stage)) := by
  refine ⟨⟨inv.queued, fun c mem => ?_, inv.finished, inv.bits, fun k inside => ?_⟩,
    fun slot inside => ?_⟩
  · rcases List.mem_or_eq_of_mem_set mem with old | rfl
    · exact inv.inFlight c old
    · exact inv.inFlight context (List.mem_of_getElem? entry)
  · refine Eq.trans ?_ (inv.held k inside)
    rcases places_put entry memory stage k with ⟨-, a, b, before, after⟩ | ⟨-, same⟩
    · rw [before, after]
      simp
    · rw [same]
  · rcases places_put entry memory stage slot with ⟨here, a, b, before, after⟩ | ⟨other, same⟩
    · have one := inv.length_le inside
      rw [before, List.length_append, List.length_cons] at one
      obtain ⟨rfl, rfl⟩ : a = [] ∧ b = [] := by
        simp only [← List.length_eq_zero_iff]
        omega
      rw [before, after, if_pos here]
      exact .goes goes
    · rw [same, if_neg other]
      exact .stay _

theorem filter_range_eq {p : Nat → Bool} (inside : slot < 32) :
    ((List.range 32).filter p).filter (· = slot) = if p slot then [slot] else [] := by
  have one : (List.range 32).filter (· = slot) = [slot] := by
    rw [List.filter_eq, List.count_eq_one_of_mem List.nodup_range (List.mem_range.2 inside)]
    rfl
  rw [List.filter_comm, one]
  by_cases chosen : p slot = true <;> simp [chosen]

theorem move_of_writeUTRLDBR (inv : Inv h) (data : BitVec 32) :
    Inv (h.written data).processUTPTransfer ∧
    ∀ slot < 32, Move d (places slot h) (see slot h (.writeUTRLDBR data))
      (places slot (h.written data).processUTPTransfer) := by
  obtain ⟨pending, bits, eq⟩ := processUTPTransfer_eq (h.written data)
  have old : ∀ k < 32, pending.getLsbD k = (h.utrldbr ||| data).getLsbD k := by
    intro k inside
    rw [bits k inside, BitVec.getLsbD_or, ← inv.bits k inside]
    simp
  have moved : ∀ k < 32,
      (rings (h.written data) k = false ∧
        pending.getLsbD k = h.pendingInterrupt.getLsbD k ∧
        places k (h.written data).processUTPTransfer = places k h) ∨
      (rings (h.written data) k = true ∧
        pending.getLsbD k = true ∧ places k h = [] ∧
        places k (h.written data).processUTPTransfer = [.queued]) := by
    intro k inside
    cases ringing : rings (h.written data) k with
    | false =>
        refine .inl ⟨rfl, ?_, ?_⟩
        · rw [rings, ← old k inside] at ringing
          have := bits k inside
          rw [← old k inside] at this
          grind
        · rw [eq]
          simp only [places, List.filter_append, filter_range_eq inside, ringing]
          simp
    | true =>
        have free : h.pendingInterrupt.getLsbD k = false := by
          rw [rings] at ringing
          simpa using (Bool.and_eq_true_iff.1 ringing).2
        have none : places k h = [] := by
          apply List.eq_nil_of_length_eq_zero
          rw [inv.held k inside, free]
          rfl
        refine .inr ⟨rfl, ?_, none, ?_⟩
        · rw [old k inside]
          exact (Bool.and_eq_true_iff.1 ringing).1
        · rw [eq]
          simp only [places, List.append_eq_nil_iff, List.map_eq_nil_iff] at none
          simp only [places, List.filter_append, filter_range_eq inside, ringing, none.1.1,
            none.1.2, none.2]
          simp
  refine ⟨⟨?_, ?_, ?_, ?_, fun k inside => ?_⟩, fun slot inside => ?_⟩
  · rw [eq]
    simp only [List.mem_append, List.mem_filter, List.mem_range]
    rintro i (mem | ⟨inside, -⟩)
    · exact inv.queued i mem
    · exact inside
  · rw [eq]
    exact inv.inFlight
  · rw [eq]
    exact inv.finished
  · rw [eq]
    exact fun k inside => (old k inside).symm
  · have now : (h.written data).processUTPTransfer.pendingInterrupt =
        pending := by rw [eq]
    rw [now]
    rcases moved k inside with ⟨-, same, rest⟩ | ⟨-, set, -, rest⟩
    · rw [same, rest, inv.held k inside]
    · rw [set, rest]
      rfl
  · rw [see, rung, filter_range_eq inside]
    rcases moved slot inside with ⟨ringing, -, rest⟩ | ⟨ringing, -, before, rest⟩
    · rw [ringing, rest]
      exact .stay _
    · rw [ringing, rest, before]
      exact .rang

theorem move_of_handleRequest (inv : Inv h) :
    Inv h.handleRequest ∧ ∀ slot < 32,
      Move d (places slot h) (see slot h .handleRequest) (places slot h.handleRequest) := by
  cases queue : h.lRequestQueue with
  | nil =>
      have same : h.handleRequest = h := by simp [handleRequest, queue]
      rw [same]
      refine ⟨inv, fun slot _ => ?_⟩
      simpa [see, taken, queue] using Move.stay (places slot h)
  | cons i rest =>
      have moved : ∀ k < 32,
          (i ≠ k ∧ places k h.handleRequest = places k h) ∨
          (i = k ∧ places k h = [.queued] ∧
            places k h.handleRequest =
              [.inFlight (.descriptor (add64 h.utrlba (UTP_TRANSFER_REQ_DESC_SIZE * i)))]) := by
        intro k inside
        by_cases same : i = k
        · have one := inv.length_le inside
          simp only [places, queue, List.length_append, List.length_map, same, decide_true,
            List.filter_cons_of_pos, List.length_cons] at one
          obtain ⟨queued, inFlight, finished⟩ : (rest.filter fun i => i = k) = [] ∧
              (h.inFlight.filter fun c => c.index = k) = [] ∧
              (h.lResponseQueue.filter fun c => c.bitmask = bit k) = [] := by
            simp only [← List.length_eq_zero_iff]
            omega
          refine .inr ⟨same, ?_, ?_⟩
          · simp only [places, queue, same, decide_true, List.filter_cons_of_pos, queued, inFlight,
              finished]
            rfl
          · simp only [places, handleRequest, queue, List.filter_append, queued, inFlight, finished]
            simp [same]
        · refine .inl ⟨same, ?_⟩
          simp [places, handleRequest, queue, same]
      refine ⟨⟨?_, ?_, ?_, ?_, fun k inside => ?_⟩, fun slot inside => ?_⟩
      · simp only [handleRequest, queue]
        intro i mem
        exact inv.queued i (by simp [queue, mem])
      · simp only [handleRequest, queue, List.mem_append, List.mem_singleton]
        rintro c (mem | rfl)
        · exact inv.inFlight c mem
        · exact inv.queued i (by simp [queue])
      · simpa only [handleRequest, queue] using inv.finished
      · simpa only [handleRequest, queue] using inv.bits
      · have now : h.handleRequest.pendingInterrupt = h.pendingInterrupt := by
          simp only [handleRequest, queue]
        rw [now, ← inv.held k inside]
        rcases moved k inside with ⟨-, rest⟩ | ⟨-, before, rest⟩
        · rw [rest]
        · rw [before, rest]
          rfl
      · rcases moved slot inside with ⟨other, rest⟩ | ⟨same, before, rest⟩
        · rw [rest]
          simpa [see, taken, queue, other] using Move.stay (places slot h)
        · rw [before, rest]
          simpa [see, taken, queue, same] using Move.took

theorem finished_orderedInsert (c : Completion) (l : List Completion) (p : Completion → Bool) :
    ((l.orderedInsert (fun a b => a.finishedAt ≤ b.finishedAt) c).filter p).map
        (fun _ => Place.finished) =
      ((c :: l).filter p).map fun _ => Place.finished := by
  have perm := (List.perm_orderedInsert (fun a b : Completion => a.finishedAt ≤ b.finishedAt)
    c l).filter p
  rw [List.map_const', List.map_const', perm.length_eq]

theorem move_of_settle (inv : Inv h) (entry : h.inFlight[i]? = some context)
    {desc : UTPTransferReqDesc} {start : Nat} (waits : context.stage = .descriptorBack desc start)
    (memory : Memory) (now : Nat) :
    Inv (h.settle i context memory now) ∧ ∀ slot < 32, Move d (places slot h)
      (if context.index = slot then [.wroteBack desc] else [])
      (places slot (h.settle i context memory now)) := by
  have bound := inv.inFlight context (List.mem_of_getElem? entry)
  have moved : ∀ k < 32,
      (context.index ≠ k ∧ places k (h.settle i context memory now) = places k h) ∨
      (context.index = k ∧ places k h = [.inFlight context.stage] ∧
        places k (h.settle i context memory now) = [.finished]) := by
    intro k inside
    by_cases same : context.index = k
    · obtain ⟨a, b, before, after⟩ :=
        filter_eraseIdx_of_pos (p := fun c => decide (c.index = k)) entry (by simpa using same)
      have one := inv.length_le inside
      simp only [places, before, List.length_append, List.length_map, List.length_cons] at one
      obtain ⟨queued, rfl, rfl, finished⟩ : (h.lRequestQueue.filter fun i => i = k) = [] ∧ a = [] ∧
          b = [] ∧ (h.lResponseQueue.filter fun c => c.bitmask = bit k) = [] := by
        simp only [← List.length_eq_zero_iff]
        omega
      refine .inr ⟨same, ?_, ?_⟩
      · simp [places, before, queued, finished]
      · simp only [places, settle, pushCompletion, queued, after, finished_orderedInsert]
        simp [same, finished]
    · have others :=
        filter_eraseIdx_of_neg (p := fun c => decide (c.index = k)) entry (by simpa using same)
      refine .inl ⟨same, ?_⟩
      simp only [places, settle, pushCompletion, others, finished_orderedInsert]
      simp [bit_inj bound, same]
  refine ⟨⟨inv.queued, fun c mem => ?_, fun c mem => ?_, inv.bits, fun k inside => ?_⟩,
    fun slot inside => ?_⟩
  · exact inv.inFlight c (List.mem_of_mem_eraseIdx mem)
  · rcases List.mem_cons.1 ((List.perm_orderedInsert _ _ _).subset mem) with rfl | old
    · exact ⟨context.index, bound, rfl⟩
    · exact inv.finished c old
  · refine Eq.trans ?_ (inv.held k inside)
    rcases moved k inside with ⟨-, rest⟩ | ⟨-, before, rest⟩
    · rw [rest]
    · rw [rest, before]
      rfl
  · rcases moved slot inside with ⟨other, rest⟩ | ⟨same, before, rest⟩
    · rw [rest, if_neg other]
      exact .stay _
    · rw [rest, before, if_pos same, waits]
      exact .wroteBack

theorem any_bitmask {l : List Completion} (sound : ∀ c ∈ l, ∃ i < 32, c.bitmask = bit i)
    (inside : slot < 32) :
    (l.any fun c => c.bitmask.getLsbD slot) = l.any fun c => c.bitmask = bit slot := by
  have agree : ∀ c ∈ l, (c.bitmask.getLsbD slot = true ↔ c.bitmask = bit slot) := by
    intro c mem
    obtain ⟨i, bound, eq⟩ := sound c mem
    rw [eq, getLsbD_bit, bit_inj bound]
    simp [inside, eq_comm]
  rw [Bool.eq_iff_iff, List.any_eq_true, List.any_eq_true]
  simp only [decide_eq_true_eq]
  exact exists_congr fun c => and_congr_right (agree c)

theorem move_of_completion (inv : Inv h) (tick : Nat) :
    Inv (h.completion tick) ∧ ∀ slot < 32,
      Move d (places slot h) (see slot h (.completion tick)) (places slot (h.completion tick)) := by
  have split : ∀ k, (h.lResponseQueue.filter fun c => c.bitmask = bit k) =
      ((h.due tick).filter fun c => c.bitmask = bit k) ++
      (h.lResponseQueue.dropWhile fun c => c.finishedAt ≤ tick).filter fun c =>
        c.bitmask = bit k := by
    intro k
    rw [← List.filter_append, List.takeWhile_append_dropWhile]
  have sound : ∀ c ∈ h.due tick, ∃ i < 32, c.bitmask = bit i := fun c mem =>
    inv.finished c (List.takeWhile_subset _ mem)
  have bits : ∀ (r : BitVec 32), ∀ k < 32,
      ((h.due tick).foldl (fun r c => r &&& ~~~c.bitmask) r).getLsbD k =
        (r.getLsbD k && !(h.due tick).any fun c => c.bitmask = bit k) := by
    intro r k inside
    rw [getLsbD_foldl_clear _ _ inside, any_bitmask sound inside]
  have moved : ∀ k < 32,
      (((h.due tick).any fun c => c.bitmask = bit k) = false ∧
        places k (h.completion tick) = places k h) ∨
      (((h.due tick).any fun c => c.bitmask = bit k) = true ∧
        places k h = [.finished] ∧ places k (h.completion tick) = []) := by
    intro k inside
    cases now : (h.due tick).any fun c => c.bitmask = bit k with
    | false =>
        have none : ((h.due tick).filter fun c => c.bitmask = bit k) = [] := by
          rw [List.filter_eq_nil_iff]
          exact List.any_eq_false.1 now
        refine .inl ⟨rfl, ?_⟩
        rw [places, places, split k, none]
        rfl
    | true =>
        obtain ⟨c, mem, chosen⟩ := List.any_eq_true.1 now
        have some : 0 < ((h.due tick).filter fun c => c.bitmask = bit k).length :=
          List.length_pos_of_mem (List.mem_filter.2 ⟨mem, chosen⟩)
        have one := inv.length_le inside
        simp only [places, split k, List.length_append, List.length_map] at one
        obtain ⟨queued, inFlight, later⟩ : (h.lRequestQueue.filter fun i => i = k) = [] ∧
            (h.inFlight.filter fun c => c.index = k) = [] ∧
            ((h.lResponseQueue.dropWhile fun c => c.finishedAt ≤ tick).filter fun c =>
              c.bitmask = bit k) = [] := by
          simp only [← List.length_eq_zero_iff]
          omega
        obtain ⟨only, eq⟩ := List.length_eq_one_iff.1 (le_antisymm (by omega) some)
        refine .inr ⟨rfl, ?_, ?_⟩
        · rw [places, split k, queued, inFlight, later, eq]
          rfl
        · simp only [places, completion, queued, inFlight, later]
          rfl
  refine ⟨⟨inv.queued, inv.inFlight, fun c mem => ?_, fun k inside => ?_, fun k inside => ?_⟩,
    fun slot inside => ?_⟩
  · exact inv.finished c (List.dropWhile_subset _ mem)
  · rw [completion, bits _ k inside, bits _ k inside, inv.bits k inside]
  · have held := inv.held k inside
    rw [completion, bits _ k inside]
    rcases moved k inside with ⟨now, rest⟩ | ⟨now, before, rest⟩
    · rw [now, Bool.not_false, Bool.and_true, ← held]
      exact congrArg List.length rest
    · rw [now, Bool.not_true, Bool.and_false]
      exact congrArg List.length rest
  · rcases moved slot inside with ⟨now, rest⟩ | ⟨now, before, rest⟩
    · rw [rest, see, if_neg (by simpa using now)]
      exact .stay _
    · rw [rest, before, see, if_pos now]
      exact .cleared

theorem move_of_step (inv : Inv h) {a : Action} (step : Host.step d h a = some h') :
    Inv h' ∧ ∀ slot < 32, Move d (places slot h) (see slot h a) (places slot h') := by
  cases step_cases step with
  | rang data => exact move_of_writeUTRLDBR inv data
  | register is utrlba memory bells takes shown =>
      refine ⟨⟨inv.queued, inv.inFlight, inv.finished, inv.bits, inv.held⟩, fun slot _ => ?_⟩
      rw [shown]
      exact .stay _
  | took => exact move_of_handleRequest inv
  | goes memory entry waits goes bells takes shown =>
      obtain ⟨inv', moves⟩ := move_of_goes inv entry (waits ▸ goes) memory
      refine ⟨inv', fun slot inside => ?_⟩
      rw [shown]
      exact moves slot inside
  | settled memory now entry waits =>
      obtain ⟨inv', moves⟩ := move_of_settle inv entry waits memory now
      refine ⟨inv', fun slot inside => ?_⟩
      rw [see, seen_eq entry, waits]
      exact moves slot inside
  | completed tick => exact move_of_completion inv tick

/-! ## Rounds -/

theorem done_ok {desc : UTPTransferReqDesc} {transferReq : Memory} {req resp : UPIU}
    (did : done desc transferReq req resp = .ok stage) :
    ∃ transferResp, respond req resp desc.sizeUPIUResp = .ok transferResp ∧
      stage = .response desc transferReq transferResp := by
  obtain ⟨transferResp, responded, eq⟩ := bind_eq_ok.1 did
  cases eq
  exact ⟨transferResp, responded, rfl⟩

theorem doRequest_ok {garbage garbage' : Query} {desc : UTPTransferReqDesc} {transferReq : Memory}
    (did : doRequest d garbage garbage' desc transferReq = .ok stage) :
    (∃ req resp, Parsed desc transferReq req ∧ stage = .device desc transferReq req resp) ∨
    ∃ transferResp, Answers desc transferReq transferResp ∧
      stage = .response desc transferReq transferResp := by
  obtain ⟨⟨ret, req⟩, set, did⟩ := bind_eq_ok.1 did
  have parsed : Parsed desc transferReq req := ⟨garbage, ret, set⟩
  dsimp only at did
  split at did
  case isTrue =>
    obtain ⟨transferResp, responded, rfl⟩ := done_ok did
    exact .inr ⟨transferResp, ⟨req, _, parsed, responded⟩, rfl⟩
  case isFalse =>
    split at did
    · obtain ⟨⟨header, r⟩, -, eq⟩ := bind_eq_ok.1 did
      cases eq
      exact .inl ⟨req, _, parsed, rfl⟩
    · cases did
      exact .inl ⟨req, _, parsed, rfl⟩
    · cases did

theorem Begun.goes {stage' : Stage} {event : Option Event} {begun : List Event}
    (goes : Goes d stage event stage') (before : Begun [.inFlight stage] begun) :
    Begun [.inFlight stage'] (begun ++ event.toList) := by
  cases goes with
  | fetched =>
      cases before
      exact .command
  | requested =>
      cases before
      exact .requested
  | prdt =>
      cases before
      exact .command
  | requestedLast did | prdtLast did =>
      cases before
      rcases doRequest_ok did with ⟨req, resp, parsed, rfl⟩ | ⟨transferResp, answers, rfl⟩
      · exact .device parsed
      · exact .response answers
  | processed did =>
      cases before with
      | device parsed =>
          obtain ⟨transferResp, responded, rfl⟩ := done_ok did
          rw [Option.toList_none, List.append_nil]
          exact .response ⟨_, _, parsed, responded⟩
  | responded =>
      cases before with
      | response answers => exact .descriptorBack answers

theorem round_of_move {before after : List Place} {events : List Event}
    (move : Move d before events after) :
    (∀ begun, Begun before begun → Begun after (begun ++ events)) ∨
      (∀ begun, Begun before begun → Whole (begun ++ events)) ∧ Begun after [] := by
  cases move with
  | stay =>
      refine .inl fun begun so_far => ?_
      rwa [List.append_nil]
  | rang =>
      refine .inl fun begun so_far => ?_
      cases so_far
      exact .queued
  | took =>
      refine .inl fun begun so_far => ?_
      cases so_far
      exact .descriptor
  | goes goes => exact .inl fun begun so_far => so_far.goes goes
  | wroteBack =>
      refine .inl fun begun so_far => ?_
      cases so_far with
      | descriptorBack answers => exact .finished answers
  | cleared =>
      refine .inr ⟨fun begun so_far => ?_, .idle⟩
      cases so_far with
      | finished answers => exact ⟨_, _, _, answers, rfl⟩

/-- From the first state on, in every order of what happens, each bell of a slot leads to one read
of its descriptor and of its request, one response with the answer and one descriptor in return,
before its bit is cleared and can ring again.  The bit says where the slot is, and the requests are
taken in the order of their bells. -/
theorem each_bell_is_answered_once {memory : Memory} {actions : List Action} {t : Host}
    (run : runActions (step d) (init memory) actions = some t) :
    (∀ slot < 32,
      Rounds Whole (Begun (places slot t)) (observed (step d) (see slot) (init memory) actions) ∧
      t.utrldbr.getLsbD slot = t.pendingInterrupt.getLsbD slot ∧
      (t.utrldbr.getLsbD slot = false ↔ places slot t = [])) ∧
    observed (step d) rung (init memory) actions =
      observed (step d) taken (init memory) actions ++ t.lRequestQueue := by
  have inv : Inv t :=
    invariant_of_actions (fun _ _ _ inv step => (move_of_step inv step).1) run (inv_init memory)
  refine ⟨fun slot inside => ⟨?_, inv.bits slot inside, ?_⟩, ?_⟩
  · have kept : ∀ s a s', Inv s → step d s a = some s' → Inv s' ∧
        ((∀ begun, Begun (places slot s) begun → Begun (places slot s') (begun ++ see slot s a)) ∨
          (∀ begun, Begun (places slot s) begun → Whole (begun ++ see slot s a)) ∧
            Begun (places slot s') []) := by
      intro s a s' inv step
      obtain ⟨inv', moves⟩ := move_of_step inv step
      exact ⟨inv', round_of_move (moves slot inside)⟩
    exact rounds_of_run kept run (inv_init memory) .idle
  · rw [inv.bits slot inside, ← List.length_eq_zero_iff, inv.held slot inside]
    cases t.pendingInterrupt.getLsbD slot <;> simp
  · have kept : ∀ s a s', True → True → step d s a = some s' →
        True ∧ s.lRequestQueue ++ rung s a = taken s a ++ s'.lRequestQueue :=
      fun s a s' _ _ step => ⟨trivial, queue_of_step step⟩
    have all : EachAction (step d) (fun _ _ => True) (init memory) actions :=
      eachAction_of_forall fun _ _ => trivial
    exact queue_of_run lRequestQueue rung taken kept run trivial all

def ping : Memory := fun i => if i = 24 ∨ i = 26 then 8 else 0

def still : Device where
  descriptors :=
    ⟨fun _ => 0, fun _ => 0, fun _ => 0, fun _ => 0, fun _ => 0, fun _ => 0, fun _ => 0, fun _ => 0,
      fun _ => 0, fun _ => 0⟩
  totalLogicalPages := 1
  logicalPageSize := 512

theorem each_bell_is_answered_once_ping : ∃ actions t,
    runActions (step still) (init ping) actions = some t ∧ t.utpCommand = 1 ∧
    places 0 t = [] ∧
    Rounds Whole (Begun (places 0 t)) (observed (step still) (see 0) (init ping) actions) := by
  have runs : (runActions (step still) (init ping)
      [.writeUTRLDBR 1, .handleRequest, .descriptorRead 0,
        .requestRead 0 ⟨0, 0, 0, 0, 0, 0, 0, none⟩ ⟨0, 0, 0, 0, 0, 0, 0, none⟩, .responseWritten 0,
        .descriptorWritten 0 5, .completion 5]).any (fun t =>
          t.utpCommand = 1 && !t.utrldbr.getLsbD 0) = true := by decide +kernel
  obtain ⟨t, run, finished⟩ := (Option.any_eq_true _ _).1 runs
  obtain ⟨one, clear⟩ : t.utpCommand = 1 ∧ t.utrldbr.getLsbD 0 = false := by simpa using finished
  obtain ⟨rounds, -, idle⟩ := (each_bell_is_answered_once run).1 0 (by decide)
  exact ⟨_, t, run, one, idle.1 clear, rounds⟩

end SimpleSSD.HIL.UFS.Host
