import Mathlib.Data.List.Find
import SimpleSSD.HIL.NVMe.Controller
import SimpleSSD.HIL.NVMe.Isolation
import SimpleSSD.HIL.Scheduler.Credit

/-!
# The sizes of a command

A read or write names its blocks by a 16-bit field that is one below their number.  The
controller turns it into the pages it asks `canServe` for, the namespace into the length
of its DMA, and `convertUnit` into the request whose pages the scheduler charges.
-/

namespace SimpleSSD.HIL.NVMe

open SimpleSSD.Foundation

def NVMCommand.field (c : NVMCommand) : Nat := c.dword12.toNat &&& 0xFFFF

structure ReadWrite where
  front : SQEntryWrapper
  command : NVMCommand
  same : front.entry.dword12 = command.dword12.toNat
  opcode : command.opcode = .read ∨ command.opcode = .write

def pagesOf (bytes : Nat) : Nat := (bytes + 4095) / 4096

/-! ## The namespace -/

def makeStatus (dnr more : Bool) (sct sc : Nat) : Nat :=
  dnr.toNat <<< 15 ||| more.toNat <<< 14 ||| (sct &&& 0x07) <<< 9 ||| (sc &&& 0xFF) <<< 1

def STATUS_SUCCESS : Nat := 0

def STATUS_FORMAT_IN_PROGRESS : Nat := 0x84

def STATUS_NAMESPACE_NOT_ATTACHED : Nat := 0x1A

def formatInProgress : Nat := makeStatus false false 0 STATUS_FORMAT_IN_PROGRESS

def namespaceNotAttached : Nat := makeStatus true false 1 STATUS_NAMESPACE_NOT_ATTACHED

inductive Part where
  | dma
  | request
  deriving DecidableEq, Repr

/-- The context of a read or write; `pending` are the calls of `dmaDone` to come and
`moved` the bytes of the DMA that is done. -/
structure IOContext where
  slba : Nat
  nlb : Nat
  prpSize : Nat
  dmaLength : Nat
  beginAt : Nat
  status : Nat
  pending : List Part
  moved : Nat
  deriving DecidableEq, Repr

inductive Progress where
  | answered (status moved : Nat)
  | running (io : IOContext)
  deriving DecidableEq, Repr

def submitReadWrite (getTick formatFinishedAt : Tick) (c : NVMCommand) (ns : Namespace) :
    Progress :=
  if getTick < formatFinishedAt then .answered formatInProgress 0
  else
    let status := if ns.attached then STATUS_SUCCESS else namespaceNotAttached
    if !ns.attached || c.nlb = 0 then .answered status 0
    else .running ⟨c.slba, c.nlb, mul64 c.nlb ns.info.lbaSize, mul64 c.nlb ns.info.lbaSize, 0,
      status, [.dma, .request], 0⟩

def dmaDone (part : Part) (io : IOContext) : Progress :=
  let io := { io with
    beginAt := io.beginAt + 1
    pending := io.pending.erase part
    moved := if part = .dma then io.moved + io.dmaLength else io.moved }
  if io.beginAt = 2 then .answered io.status io.moved else .running io

def callBack (state : Progress) (part : Part) : Option Progress :=
  match state with
  | .answered _ _ => none
  | .running io => if part ∈ io.pending then some (dmaDone part io) else none

def Subsystem.getNamespaceLbaSize (s : Subsystem) (nsid : Nat) : Nat :=
  match s.lNamespaces.find? fun ns => ns.nsid = nsid ∧ ns.info.lbaSize ≠ 0 with
  | some ns => ns.info.lbaSize
  | none => 4096

def received (op : OpType) (reqID : Nat) (uid : UserID) (req : Request) : Request :=
  { req with op := op, reqID := reqID, userID := uid }

/-! ## The three sizes -/

/-- The scheduler takes or defers this number of pages for the request. -/
def Charges (req : Request) (pages : Nat) : Prop :=
  ∀ (p : CreditScheduler.Params) (now : Tick) (s : CreditScheduler),
    CreditScheduler.tryDispatchWithCredit p req now s =
      let s := s.getOrCreateUser p req.userID
      if (s.account req.userID).credit < pages then
        (false, { s with deferredQueue := s.deferredQueue ++ [⟨req, pages, now⟩] })
      else (true, s.charge .hostQueue (.ofOp req.op) req.userID pages)

def ReadWrite.bytes (cmd : ReadWrite) (ns : Namespace) : Nat :=
  (cmd.command.field + 1) * ns.info.lbaSize

/-- The pages asked for, the pages charged and the bytes moved are those the host means, and
no other number is reported as a success. -/
structure SizesAgree (d : Device) (s : Subsystem) (ns : Namespace) (cmd : ReadWrite) : Prop where
  asked : Controller.needPages s.getNamespaceLbaSize cmd.front = pagesOf (cmd.bytes ns)
  charged : ∀ now formatted io, submitReadWrite now formatted cmd.command ns = .running io → ∀ req,
    ∃ req', Subsystem.convertUnit d ns.info ⟨io.slba, io.nlb⟩ req = .ok req' ∧
      ∀ op reqID uid, Charges (received op reqID uid req') (pagesOf (cmd.bytes ns))
  moves : ∀ now formatted io, submitReadWrite now formatted cmd.command ns = .running io →
    io.dmaLength = cmd.bytes ns
  reported : ∀ now formatted calls moved,
    runActions callBack (submitReadWrite now formatted cmd.command ns) calls =
      some (.answered STATUS_SUCCESS moved) → cmd.bytes ns ≤ moved

variable {d : Device} {s₀ s s' : Subsystem} {ns : Namespace} {cmd : ReadWrite} {c : NVMCommand}

theorem NVMCommand.field_lt (c : NVMCommand) : c.field < 2 ^ 16 := by
  have masked : c.field = c.dword12.toNat % 2 ^ 16 := Nat.and_two_pow_sub_one_eq_mod _ 16
  rw [masked]
  exact Nat.mod_lt _ (Nat.two_pow_pos 16)

theorem NVMCommand.nlb_eq (c : NVMCommand) :
    c.nlb = if c.field = 0xFFFF then 0 else c.field + 1 := by
  have lt := c.field_lt
  change (c.field + 1) % 2 ^ 16 = _
  split
  · omega
  · omega

theorem needPages_eq (lbaSize : Nat → Nat) (cmd : ReadWrite)
    (word : lbaSize cmd.front.entry.namespaceID < 2 ^ 32) :
    Controller.needPages lbaSize cmd.front =
      max 1 (pagesOf (cmd.command.nlb * lbaSize cmd.front.entry.namespaceID)) := by
  unfold Controller.needPages pagesOf
  rw [Nat.mod_eq_of_lt word, cmd.same]
  change (if (cmd.command.nlb * _ + 4096 - 1) / 4096 = 0 then 1
    else (cmd.command.nlb * _ + 4096 - 1) / 4096) = _
  generalize cmd.command.nlb * lbaSize cmd.front.entry.namespaceID = bytes
  split
  · omega
  · omega

/-! ## The namespaces of a run -/

namespace Subsystem

/-- No namespace has the number of all, and block sizes are 32-bit words. -/
structure Numbered (s : Subsystem) : Prop where
  number : ∀ ns ∈ s.lNamespaces, ns.nsid < NSID_ALL
  word : ∀ ns ∈ s.lNamespaces, ns.info.lbaSize < 2 ^ 32

theorem lbaSize_lt (stray : ∀ i, d.strayLbaSize i < 2 ^ 32) (i : Nat) :
    d.lbaSize i < 2 ^ 32 := by
  unfold Device.lbaSize
  cases known : lbaSizes[i]? with
  | none => exact stray i
  | some size =>
      have hmem := List.mem_of_getElem? known
      exact (by decide : ∀ size ∈ lbaSizes, size < 2 ^ 32) size hmem

theorem unusedNsid_le {namespaces : List Namespace} {nsid : Nat} (le : nsid ≤ NSID_ALL)
    (number : ∀ ns ∈ namespaces, ns.nsid < NSID_ALL) :
    unusedNsid nsid namespaces ≤ NSID_ALL := by
  induction namespaces generalizing nsid with
  | nil => exact le
  | cons ns rest ih =>
      unfold unusedNsid
      split
      next taken =>
        have lt := number ns List.mem_cons_self
        exact ih (by omega) fun other hmem => number other (List.mem_cons_of_mem _ hmem)
      next => exact le

theorem Numbered.create {created : Bool} {nsid : Nat} {info info' : Information}
    (numbered : s.Numbered) (lt : nsid < NSID_ALL) (word : info.lbaSize < 2 ^ 32)
    (run : createNamespace d nsid info s = .ok (created, info', s')) : s'.Numbered := by
  rcases createNamespace_ok run with ⟨-, rfl⟩ | ⟨-, hnew, -, hlba, -⟩
  · exact numbered
  · constructor
    · intro ns hmem
      rw [hnew] at hmem
      rcases mem_insertNamespace.1 hmem with rfl | old
      · exact lt
      · exact numbered.number ns old
    · intro ns hmem
      rw [hnew] at hmem
      rcases mem_insertNamespace.1 hmem with rfl | old
      · change info'.lbaSize < 2 ^ 32
        rw [hlba]
        exact word
      · exact numbered.word ns old

theorem Numbered.of_forall (numbered : s.Numbered)
    (same : ∀ ns ∈ s'.lNamespaces, ∃ old ∈ s.lNamespaces, ns.nsid = old.nsid ∧
      (ns.info.lbaSize = old.info.lbaSize ∨ ns.info.lbaSize < 2 ^ 32)) : s'.Numbered := by
  constructor
  · intro ns hmem
    obtain ⟨old, hold, number, -⟩ := same ns hmem
    rw [number]
    exact numbered.number old hold
  · intro ns hmem
    obtain ⟨old, hold, -, lba | word⟩ := same ns hmem
    · rw [lba]
      exact numbered.word old hold
    · exact word

theorem Numbered.submit (stray : ∀ i, d.strayLbaSize i < 2 ^ 32) (numbered : s.Numbered)
    {command : Submission} (step : submitCommand d s command = some s') : s'.Numbered := by
  cases command with
  | management data uninitialised =>
      obtain ⟨created, info', run⟩ := management_returned step
      unfold namespaceManagement at run
      dsimp only at run
      split at run
      · cases run
        exact numbered
      next free =>
        have le : unusedNsid NSID_LOWEST s.lNamespaces ≤ NSID_ALL :=
          unusedNsid_le (by decide) numbered.number
        exact numbered.create (lt_of_le_of_ne le free) (lbaSize_lt stray _) run
  | delete nsid =>
      cases step
      apply numbered.of_forall
      intro ns hmem
      unfold destroyNamespace at hmem
      split at hmem
      · exact ⟨ns, hmem, rfl, .inl rfl⟩
      · exact ⟨ns, List.mem_of_mem_eraseP hmem, rfl, .inl rfl⟩
  | attachment sel nsid =>
      cases step
      apply numbered.of_forall
      intro ns hmem
      obtain ⟨old, hold, rfl⟩ := List.mem_map.1 hmem
      refine ⟨old, hold, ?_, .inl (by rw [attach_info])⟩
      unfold attach
      split
      · split
        · rfl
        · split
          · rfl
          · rfl
      · rfl
  | format c usedPageCount =>
      cases step
      apply numbered.of_forall
      intro ns hmem
      rcases formatNVM_cases usedPageCount c s with ⟨same, -⟩ | ⟨-, old, found, hnew⟩
      · rw [same] at hmem
        exact ⟨ns, hmem, rfl, .inl rfl⟩
      · rw [hnew] at hmem
        rcases (mem_updateInformation found).2 ns hmem with rfl | kept
        · exact ⟨old, List.mem_of_find?_eq_some found, rfl, .inr (lbaSize_lt stray _)⟩
        · exact ⟨ns, kept, rfl, .inl rfl⟩
  | nvm namespaceID c =>
      cases step
      exact numbered

theorem Numbered.attachLast (numbered : s.Numbered) :
    ({ s with lNamespaces := Subsystem.attachLast s.lNamespaces } : Subsystem).Numbered := by
  apply numbered.of_forall
  intro ns hmem
  change ns ∈ Subsystem.attachLast s.lNamespaces at hmem
  unfold Subsystem.attachLast at hmem
  split at hmem
  next => exact ⟨ns, hmem, rfl, .inl rfl⟩
  next last found =>
    rcases List.mem_append.1 hmem with early | late
    · exact ⟨ns, List.dropLast_subset _ early, rfl, .inl rfl⟩
    · rw [List.mem_singleton.1 late]
      exact ⟨last, List.mem_of_getLast? found, rfl, .inl rfl⟩

theorem init_numbered {conf : Defaults} (returned : init d conf = .ok s) : s.Numbered := by
  have empty : blank.Numbered := by
    constructor
    · intro ns hmem
      cases hmem
    · intro ns hmem
      cases hmem
  unfold init at returned
  dsimp only at returned
  split at returned
  · cases returned
    exact empty
  · split at returned
    next known =>
      obtain ⟨state, run, done⟩ := bind_eq_ok.1 returned
      cases done
      have small : conf.lbaSize % 2 ^ 32 < 2 ^ 32 := Nat.mod_lt _ (Nat.two_pow_pos 32)
      have few : conf.defaultNamespaces % 2 ^ 16 < 2 ^ 16 := Nat.mod_lt _ (Nat.two_pow_pos 16)
      have filled := foldlM_invariant_mem
        (fun state : Information × Subsystem => state.1.lbaSize < 2 ^ 32 ∧ state.2.Numbered)
        (fun i hmem state state' inv step => ?_) run ⟨small, empty⟩
      · exact filled.2
      · obtain ⟨⟨created, info, s'⟩, create, step⟩ := bind_eq_ok.1 step
        have lt : NSID_LOWEST + i < NSID_ALL := by
          have := List.mem_range.1 hmem
          unfold NSID_LOWEST NSID_ALL
          omega
        have word : (state.1.ofSize (defaultSize d conf)).lbaSize < 2 ^ 32 := inv.1
        have numbered := inv.2.create lt word create
        cases created with
        | false => cases step
        | true =>
            cases step
            rcases createNamespace_ok create with ⟨refused, -⟩ | ⟨-, -, -, hlba, -⟩
            · cases refused
            · change info.lbaSize < 2 ^ 32 ∧ _
              rw [hlba]
              exact ⟨inv.1, numbered.attachLast⟩
    next => cases returned

theorem kept_of_run {conf : Defaults} {commands : List Submission}
    (stray : ∀ i, d.strayLbaSize i < 2 ^ 32) (start : init d conf = .ok s₀)
    (run : runActions (submitCommand d) s₀ commands = some s) : s.Usable d ∧ s.Numbered := by
  constructor
  · exact invariant_of_actions (fun _ _ _ usable step => submitCommand_usable usable step) run
      (init_usable start)
  · exact invariant_of_actions (fun _ _ _ numbered step => numbered.submit stray step) run
      (init_numbered start)

end Subsystem

/-! ## The LBA size -/

theorem getNamespaceLbaSize_of_target {nsid : Nat} (usable : s.Usable d)
    (target : s.target nsid = some ns) (one : nsid < Subsystem.NSID_ALL) :
    s.getNamespaceLbaSize nsid = ns.info.lbaSize := by
  unfold Subsystem.target at target
  rw [if_pos one] at target
  have same : s.lNamespaces.find? (fun ns => ns.nsid = nsid ∧ ns.info.lbaSize ≠ 0) = some ns := by
    rw [← target]
    apply List.find?_congr
    intro other hmem
    have formatted := usable.formatted other hmem
    simp [formatted]
  unfold Subsystem.getNamespaceLbaSize
  rw [same]

theorem getNamespaceLbaSize_of_all {nsid : Nat} (numbered : s.Numbered)
    (all : Subsystem.NSID_ALL ≤ nsid) : s.getNamespaceLbaSize nsid = 4096 := by
  have none : s.lNamespaces.find? (fun ns => ns.nsid = nsid ∧ ns.info.lbaSize ≠ 0) = none := by
    rw [List.find?_eq_none]
    intro ns hmem
    have lt := numbered.number ns hmem
    have apart : ns.nsid ≠ nsid := by omega
    simp [apart]
  unfold Subsystem.getNamespaceLbaSize
  rw [none]

theorem pagesOf_eq_iff {n lba : Nat} (positive : 0 < n) :
    pagesOf (n * lba) = n ↔ lba ≤ 4096 ∧ n * (4096 - lba) < 4096 := by
  have bounds : pagesOf (n * lba) = n ↔ n * lba ≤ n * 4096 ∧ n * 4096 < n * lba + 4096 := by
    unfold pagesOf
    omega
  rw [bounds, Nat.mul_le_mul_left_iff positive]
  apply and_congr_right
  intro le
  have split : n * 4096 = n * lba + n * (4096 - lba) := by
    rw [← Nat.mul_add, Nat.add_sub_cancel' le]
  omega

/-! ## The request -/

theorem charges_pages (req : Request) : Charges req req.pages := by
  intro p now s
  rfl

theorem convertUnit_length {info : Information} {b : Blocks} (formatted : 0 < info.lbaSize)
    (req : Request) : ∃ req', Subsystem.convertUnit d info b req = .ok req' ∧
      req'.length = mul64 b.nlb info.lbaSize := by
  unfold Subsystem.convertUnit
  rw [if_neg formatted.ne']
  dsimp only
  split
  · exact ⟨_, rfl, rfl⟩
  · exact ⟨_, rfl, rfl⟩

/-! ## The calls of `dmaDone` -/

/-- A read or write that runs, or was answered: a success has moved all bytes of the DMA. -/
def Transfers (bytes : Nat) : Progress → Prop
  | .answered status moved => status = STATUS_SUCCESS → moved = bytes
  | .running io => io.dmaLength = bytes ∧ io.beginAt + io.pending.length = 2 ∧
      io.pending.Nodup ∧ io.moved = if .dma ∈ io.pending then 0 else bytes

theorem Transfers.callBack {bytes : Nat} {state state' : Progress} {part : Part}
    (transfers : Transfers bytes state) (step : callBack state part = some state') :
    Transfers bytes state' := by
  cases state with
  | answered status moved => cases step
  | running io =>
      obtain ⟨waits, same⟩ := Option.ite_none_right_eq_some.1 step
      obtain ⟨length, count, nodup, moved⟩ := transfers
      cases same
      have fewer := List.length_erase_of_mem waits
      have some := List.length_pos_of_mem waits
      have next : (if part = .dma then io.moved + io.dmaLength else io.moved) =
          if .dma ∈ io.pending.erase part then 0 else bytes := by
        simp only [nodup.mem_erase_iff, length]
        cases part with
        | dma => simp [moved, waits]
        | request => simp [moved]
      unfold dmaDone
      dsimp only
      split
      next last =>
        have none : io.pending.erase part = [] := by
          apply List.eq_nil_of_length_eq_zero
          omega
        intro _
        simpa [none] using next
      next => exact ⟨length, by dsimp only; omega, nodup.erase part, next⟩

theorem submitReadWrite_running {now formatted : Tick} {io : IOContext}
    (run : submitReadWrite now formatted c ns = .running io) :
    io.slba = c.slba ∧ io.nlb = c.nlb ∧ io.dmaLength = mul64 c.nlb ns.info.lbaSize := by
  unfold submitReadWrite at run
  split at run
  · cases run
  · dsimp only at run
    split at run
    · cases run
    · cases run
      exact ⟨rfl, rfl, rfl⟩

theorem submitReadWrite_transfers (some : c.nlb ≠ 0) (now formatted : Tick) :
    Transfers (mul64 c.nlb ns.info.lbaSize) (submitReadWrite now formatted c ns) := by
  unfold submitReadWrite
  split
  · intro success
    cases success
  · dsimp only
    split
    next refused =>
      have detached : ns.attached = false := by simpa [some] using refused
      rw [detached]
      intro success
      cases success
    next => exact ⟨rfl, rfl, (by decide : [Part.dma, Part.request].Nodup), rfl⟩

/-- Without a wrap of the number of blocks the request and the DMA are those the host means,
and so is what is moved before a success. -/
theorem sizesAgree_of_asked (formatted : 0 < ns.info.lbaSize) (word : ns.info.lbaSize < 2 ^ 32)
    (fits : cmd.command.field ≠ 0xFFFF)
    (asked : Controller.needPages s.getNamespaceLbaSize cmd.front = pagesOf (cmd.bytes ns)) :
    SizesAgree d s ns cmd := by
  have field := cmd.command.field_lt
  have nlb : cmd.command.nlb = cmd.command.field + 1 := by
    rw [cmd.command.nlb_eq, if_neg fits]
  have small : cmd.bytes ns < wordSize := by
    have bound : cmd.bytes ns ≤ 2 ^ 16 * 2 ^ 32 :=
      Nat.mul_le_mul (by omega) word.le
    unfold wordSize
    omega
  have bytes : mul64 cmd.command.nlb ns.info.lbaSize = cmd.bytes ns := by
    rw [nlb]
    exact Nat.mod_eq_of_lt small
  constructor
  · exact asked
  · intro now formatting io run req
    obtain ⟨-, blocks, -⟩ := submitReadWrite_running run
    obtain ⟨req', converted, length⟩ := convertUnit_length (d := d) (b := ⟨io.slba, io.nlb⟩)
      formatted req
    refine ⟨req', converted, fun op reqID uid => ?_⟩
    have pages : (received op reqID uid req').pages = pagesOf (cmd.bytes ns) := by
      unfold Request.pages received pagesOf
      dsimp only
      rw [length, blocks, bytes]
      rfl
    rw [← pages]
    exact charges_pages _
  · intro now formatting io run
    rw [(submitReadWrite_running run).2.2, bytes]
  · intro now formatting calls moved run
    have some : cmd.command.nlb ≠ 0 := by omega
    have start : Transfers (mul64 cmd.command.nlb ns.info.lbaSize)
        (submitReadWrite now formatting cmd.command ns) :=
      submitReadWrite_transfers some now formatting
    rw [bytes] at start
    have last := invariant_of_actions
      (fun _ _ _ transfers step => Transfers.callBack transfers step) run start
    exact (last rfl).ge

/-- What the controller asks for with a block size, unless the number of blocks wraps. -/
theorem asked_of_fits (lbaSize : Nat → Nat) (fits : cmd.command.field ≠ 0xFFFF)
    (formatted : 0 < lbaSize cmd.front.entry.namespaceID)
    (word : lbaSize cmd.front.entry.namespaceID < 2 ^ 32) :
    Controller.needPages lbaSize cmd.front =
      pagesOf ((cmd.command.field + 1) * lbaSize cmd.front.entry.namespaceID) := by
  have bytes : 0 < (cmd.command.field + 1) * lbaSize cmd.front.entry.namespaceID :=
    Nat.mul_pos (Nat.succ_pos _) formatted
  rw [needPages_eq _ _ word, cmd.command.nlb_eq, if_neg fits]
  unfold pagesOf
  omega

theorem asked_of_wrap {lbaSize : Nat → Nat} (largest : cmd.command.field = 0xFFFF)
    (word : lbaSize cmd.front.entry.namespaceID < 2 ^ 32) :
    Controller.needPages lbaSize cmd.front = 1 := by
  rw [needPages_eq _ _ word, cmd.command.nlb_eq, if_pos largest, Nat.zero_mul]
  decide

theorem not_sizesAgree_of_wrap (formatted : 0 < ns.info.lbaSize)
    (word : s.getNamespaceLbaSize cmd.front.entry.namespaceID < 2 ^ 32)
    (largest : cmd.command.field = 0xFFFF) : ¬ SizesAgree d s ns cmd := by
  intro agree
  have asked := (asked_of_wrap largest word).symm.trans agree.asked
  have bytes : 0x10000 * 1 ≤ cmd.bytes ns := by
    rw [ReadWrite.bytes, largest]
    exact Nat.mul_le_mul_left _ formatted
  unfold pagesOf at asked
  omega

/-- In every run of the subsystem, the three sizes of a command agree exactly when its field
is not the largest and the command names its namespace, or comes to the same number of pages
with blocks of 4096 bytes. -/
theorem sizesAgree_iff {conf : Subsystem.Defaults} {commands : List Subsystem.Submission}
    (stray : ∀ i, d.strayLbaSize i < 2 ^ 32) (start : Subsystem.init d conf = .ok s₀)
    (run : runActions (Subsystem.submitCommand d) s₀ commands = some s)
    (target : s.target cmd.front.entry.namespaceID = some ns) :
    SizesAgree d s ns cmd ↔ cmd.command.field ≠ 0xFFFF ∧
      (cmd.front.entry.namespaceID < Subsystem.NSID_ALL ∨ ns.info.lbaSize ≤ 4096 ∧
        (cmd.command.field + 1) * (4096 - ns.info.lbaSize) < 4096) := by
  obtain ⟨usable, numbered⟩ := Subsystem.kept_of_run stray start run
  have hmem := Subsystem.target_mem target
  have formatted := Nat.pos_of_ne_zero (usable.formatted ns hmem)
  have word := numbered.word ns hmem
  rcases Nat.lt_or_ge cmd.front.entry.namespaceID Subsystem.NSID_ALL with one | all
  · have lba := getNamespaceLbaSize_of_target usable target one
    rw [and_iff_left (.inl one)]
    constructor
    · intro agree largest
      exact not_sizesAgree_of_wrap formatted (lba ▸ word) largest agree
    · intro fits
      have asked := asked_of_fits s.getNamespaceLbaSize fits (lba ▸ formatted)
        (lba ▸ word)
      rw [lba] at asked
      exact sizesAgree_of_asked formatted word fits asked
  · have lba := getNamespaceLbaSize_of_all numbered all
    rw [or_iff_right (not_lt.2 all), ← pagesOf_eq_iff (Nat.succ_pos _)]
    have known : 0 < s.getNamespaceLbaSize cmd.front.entry.namespaceID ∧
        s.getNamespaceLbaSize cmd.front.entry.namespaceID < 2 ^ 32 := by
      rw [lba]
      decide
    have asks : cmd.command.field ≠ 0xFFFF →
        Controller.needPages s.getNamespaceLbaSize cmd.front = cmd.command.field + 1 := by
      intro fits
      rw [asked_of_fits _ fits known.1 known.2, lba]
      unfold pagesOf
      omega
    constructor
    · intro agree
      have fits : cmd.command.field ≠ 0xFFFF := fun largest =>
        not_sizesAgree_of_wrap formatted known.2 largest agree
      exact ⟨fits, agree.asked.symm.trans (asks fits)⟩
    · rintro ⟨fits, rounds⟩
      exact sizesAgree_of_asked formatted word fits ((asks fits).trans rounds.symm)

def oneNamespace : Namespace :=
  ⟨1, ⟨524288, 524288, 0, 268435456, 0, 0, 0, 0, 512, ⟨0, 65536⟩⟩, true⟩

def oneNamespaceSubsystem : Subsystem := ⟨[oneNamespace], 65536⟩

theorem init_oneNamespace :
    Subsystem.init Subsystem.smallDevice ⟨1, 512, Subsystem.hostInformation 0⟩ =
      .ok oneNamespaceSubsystem := by decide +kernel

def readBlocks (dword12 : UInt32) : ReadWrite where
  front := ⟨⟨7, 1, 1001, dword12.toNat⟩, 1, 1, 1, 0, 0⟩
  command := ⟨.read, 0, 0, dword12, fun _ => ⟨0, 0, 0⟩⟩
  same := rfl
  opcode := .inl rfl

theorem sizesAgree_small :
    SizesAgree Subsystem.smallDevice oneNamespaceSubsystem oneNamespace (readBlocks 11) := by
  have stray : ∀ i, Subsystem.smallDevice.strayLbaSize i < 2 ^ 32 := by
    intro i
    exact (by decide : 0 < 2 ^ 32)
  have run : runActions (Subsystem.submitCommand Subsystem.smallDevice) oneNamespaceSubsystem [] =
      some oneNamespaceSubsystem := rfl
  exact (sizesAgree_iff stray init_oneNamespace run rfl).2 ⟨by decide, .inl (by decide)⟩

/-- A read of 65536 blocks is a success without any. -/
theorem largest_read_reported :
    ¬ SizesAgree Subsystem.smallDevice oneNamespaceSubsystem oneNamespace (readBlocks 0xFFFF) := by
  intro agree
  have nothing := agree.reported 0 0 [] 0 rfl
  revert nothing
  decide

end SimpleSSD.HIL.NVMe
