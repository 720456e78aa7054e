import SimpleSSD.Foundation.Fallible
import SimpleSSD.HIL.UFS.Query
import SimpleSSD.HIL.UFS.UPIUFormat

/-!
# Answers to queries

The host gets the bytes of the descriptor that it has asked for, as many as it has asked for, if
there are so many.  It may not ask for more when there is room for them in the response, nor for a
part of the front of a string.
-/

namespace SimpleSSD.HIL.UFS

open SimpleSSD.Foundation

variable {d : Descriptors} {garbage garbage' : Query}

def Descriptors.asked (d : Descriptors) (lun : UInt8) (q : Query) : Option (List UInt8) :=
  if q.opcode = OPCODE_READ_DESCRIPTOR then
    if q.idn = IDN_DEVICE then some deviceDescriptor
    else if q.idn = IDN_UNIT then some (d.unitDescriptor lun)
    else if q.idn = IDN_POWER then some powerDescriptor
    else if q.idn = IDN_STRING then some (0xFE :: IDN_STRING :: d.string q.index)
    else none
  else none

theorem Descriptors.length_unitDescriptor (d : Descriptors) (lun : UInt8) :
    (d.unitDescriptor lun).length = IDN_UNIT_LENGTH := by
  unfold unitDescriptor
  split_ifs <;> simp

theorem Descriptors.length_string (d : Descriptors) (index : UInt8) :
    (d.string index).length = IDN_STRING_LENGTH - 2 := by
  unfold string
  split_ifs <;> simp

theorem Descriptors.length_asked {lun : UInt8} {q : Query} {bytes : List UInt8}
    (some' : d.asked lun q = some bytes) : bytes.length < 256 := by
  unfold asked at some'
  split_ifs at some' <;> cases some'
  · decide
  · rw [d.length_unitDescriptor]
    decide
  · decide
  · rw [List.length_cons, List.length_cons, d.length_string]
    decide

def Answerable (d : Descriptors) (lun : UInt8) (q : Query) (sizeUPIUResp : Nat) : Prop :=
  ∀ bytes, d.asked lun q = some bytes →
    (q.idn = IDN_STRING → 2 ≤ q.length.toNat) ∧
      (q.length.toNat ≤ bytes.length ∨ sizeUPIUResp < 32 + q.length.toNat)

instance (d : Descriptors) (lun : UInt8) (q : Query) (sizeUPIUResp : Nat) :
    Decidable (Answerable d lun q sizeUPIUResp) :=
  inferInstanceAs (Decidable (∀ bytes ∈ d.asked lun q, _))

def echo (q r : Query) : Query :=
  { r with
    opcode := q.opcode
    idn := q.idn
    index := q.index
    selector := q.selector
    length := q.length }

theorem processQueryCommand_eq (d : Descriptors) (lun : UInt8) (q r : Query)
    (header : UPIUHeader) :
    processQueryCommand d lun q header r =
      match d.asked lun q with
      | none => .ok (header, echo q r)
      | some bytes =>
          if q.idn = IDN_STRING ∧ q.length.toNat < 2 then .error .undefined
          else .ok (answer q header (echo q r) bytes) := by
  have strings : ∀ {idn : UInt8}, q.idn = idn → idn ≠ IDN_STRING →
      ¬ (q.idn = IDN_STRING ∧ q.length.toNat < 2) :=
    fun same other both => other (same ▸ both.1)
  unfold processQueryCommand Descriptors.asked
  by_cases read : q.opcode = OPCODE_READ_DESCRIPTOR
  · rw [if_pos read, if_pos read]
    by_cases device : q.idn = IDN_DEVICE
    · rw [if_pos device, if_pos device]
      exact (if_neg (strings device (by decide))).symm
    rw [if_neg device, if_neg device]
    by_cases unit : q.idn = IDN_UNIT
    · rw [if_pos unit, if_pos unit]
      exact (if_neg (strings unit (by decide))).symm
    rw [if_neg unit, if_neg unit]
    by_cases power : q.idn = IDN_POWER
    · rw [if_pos power, if_pos power]
      exact (if_neg (strings power (by decide))).symm
    rw [if_neg power, if_neg power]
    by_cases string : q.idn = IDN_STRING
    · rw [if_pos string, if_pos string]
      simp only [echo, string, true_and]
    · rw [if_neg string, if_neg string]
      rfl
  · rw [if_neg read, if_neg read]
    rfl

section

variable {h : UPIUHeader} {buffer : Memory} {length : Nat} {data : Option (List UInt8)}

theorem getSegment_ok_iff : (∃ out, h.getSegment buffer length data = .ok out) ↔
    h.dataSegmentLength.toNat = 0 ∨ length < 32 + h.dataSegmentLength.toNat ∨
      ∃ bytes, data = some bytes ∧ h.dataSegmentLength.toNat ≤ bytes.length := by
  unfold UPIUHeader.getSegment
  split_ifs with some' long
  · cases data with
    | none => simp; omega
    | some bytes =>
        by_cases enough : h.dataSegmentLength.toNat ≤ bytes.length
        · simp [enough]
        · simp [enough]; omega
  · simp; omega
  · simp; omega

end

def sent (req : UPIU) (header : UPIUHeader) (r : Query) : UPIU :=
  ⟨{ header with transactionType := OPCODE_QUERY_RESPONSE, taskTag := req.header.taskTag },
    .queryResp { r with
      data := if header.dataSegmentLength.toNat = 0 then none else r.data }⟩

theorem respond_eq (req : UPIU) (header : UPIUHeader) (r : Query) (sizeUPIUResp : Nat) :
    respond req ⟨header, .queryResp r⟩ sizeUPIUResp =
      ((sent req header r).get (fun _ => 0) sizeUPIUResp).map fun out => out.2.1 := by
  unfold respond sent UPIU.get UPIU.getAs Query.get UPIUHeader.getSegment
  by_cases room : 31 < sizeUPIUResp
  · simp only [if_pos room]
    by_cases none : header.dataSegmentLength.toNat = 0
    · simp [none, Except.map]
    · simp only [if_neg none]
  · simp [room, Except.map]

theorem respond_ok_iff {req : UPIU} {header : UPIUHeader} {r : Query} {sizeUPIUResp : Nat} :
    (∃ bytes, respond req ⟨header, .queryResp r⟩ sizeUPIUResp = .ok bytes) ↔
      header.dataSegmentLength.toNat = 0 ∨ sizeUPIUResp < 32 + header.dataSegmentLength.toNat ∨
        ∃ bytes, r.data = some bytes ∧ header.dataSegmentLength.toNat ≤ bytes.length := by
  have mapped : ∀ {α β : Type} {f : α → β} {x : Except Fault α},
      (∃ b, x.map f = .ok b) ↔ ∃ a, x = .ok a := by
    intro α β f x
    simp [map_eq_ok]
  unfold respond UPIU.get UPIU.getAs Query.get
  rw [mapped]
  by_cases room : 31 < sizeUPIUResp
  · simp only [if_pos room]
    exact mapped.trans getSegment_ok_iff
  · simp only [if_neg room]
    exact iff_of_true ⟨_, rfl⟩ (.inr (.inl (by omega)))

theorem sent_wellFormed (req : UPIU) {header : UPIUHeader} {r : Query}
    (fits : header.dataSegmentLength.toNat = 0 ∨
      ∃ bytes, r.data = some bytes ∧ header.dataSegmentLength.toNat = bytes.length) :
    (sent req header r).WellFormed := by
  refine ⟨rfl, (by decide : OPCODE_QUERY_RESPONSE &&& 0x3F = OPCODE_QUERY_RESPONSE), ?_⟩
  change Option.map _ (if _ then none else _) = if header.dataSegmentLength.toNat = 0 then _ else _
  rcases fits with none | ⟨bytes, data, exactly⟩
  · rw [if_pos none, if_pos none, Option.map_none]
  · split_ifs
    · rfl
    · rw [data]
      exact congrArg some exactly.symm

variable {h : UPIUHeader} {q : Query} {transferReq : Memory} {offUPIUResp : Nat}

theorem query_eq (garbage' : Query) (accepted : (getUPIU garbage OPCODE_QUERY_REQUEST).set
    transferReq offUPIUResp = .ok (true, ⟨h, .queryReq q⟩)) (sizeUPIUResp : Nat) :
    query d garbage garbage' transferReq offUPIUResp sizeUPIUResp =
      (processQueryCommand d h.lun q .zero { garbage' with data := none } >>= fun out =>
        respond ⟨h, .queryReq q⟩ ⟨out.1, .queryResp out.2⟩ sizeUPIUResp) := by
  rw [query, accepted]
  rfl

theorem query_returns_iff (garbage' : Query) (accepted : (getUPIU garbage OPCODE_QUERY_REQUEST).set
    transferReq offUPIUResp = .ok (true, ⟨h, .queryReq q⟩)) (sizeUPIUResp : Nat) :
    (∃ bytes, query d garbage garbage' transferReq offUPIUResp sizeUPIUResp = .ok bytes) ↔
      Answerable d h.lun q sizeUPIUResp := by
  rw [query_eq garbage' accepted, processQueryCommand_eq]
  unfold Answerable
  cases asked : d.asked h.lun q with
  | none =>
      refine iff_of_true (respond_ok_iff.2 (.inl rfl)) ?_
      simp
  | some bytes =>
      simp only [Option.some.injEq, forall_eq']
      by_cases short : q.idn = IDN_STRING ∧ q.length.toNat < 2
      · rw [if_pos short]
        refine iff_of_false ?_ fun fine => absurd (fine.1 short.1) (Nat.not_le.2 short.2)
        rintro ⟨_, run⟩
        cases run
      · rw [if_neg short]
        refine respond_ok_iff.trans ?_
        simp only [answer, Option.some.injEq, exists_eq_left', List.length_take]
        have string : q.idn = IDN_STRING → 2 ≤ q.length.toNat := fun same =>
          Nat.le_of_not_lt fun few => short ⟨same, few⟩
        rw [and_iff_right string]
        omega

structure Reads (garbage : Query) (asked : Option (List UInt8)) (h : UPIUHeader) (q : Query)
    (response : Memory) (size : Nat) (header : UPIUHeader) (r : Query) : Prop where
  set : (getUPIU garbage OPCODE_QUERY_RESPONSE).set response size =
    .ok (true, ⟨header, .queryResp r⟩)
  taskTag : header.taskTag = h.taskTag
  fields : (r.opcode, r.idn, r.index, r.selector) = (q.opcode, q.idn, q.index, q.selector)
  length : r.length.toNat = (asked.map List.length).getD q.length.toNat
  data : r.data.getD [] = (asked.map (List.take q.length.toNat)).getD []

theorem respond_reads (garbage : Query) {header : UPIUHeader} {r : Query} {sizeUPIUResp : Nat}
    {response : Memory}
    (run : respond ⟨h, .queryReq q⟩ ⟨header, .queryResp r⟩ sizeUPIUResp = .ok response)
    (room : 32 + header.dataSegmentLength.toNat ≤ sizeUPIUResp)
    (fits : header.dataSegmentLength.toNat = 0 ∨
      ∃ bytes, r.data = some bytes ∧ header.dataSegmentLength.toNat = bytes.length) :
    (getUPIU garbage OPCODE_QUERY_RESPONSE).set response sizeUPIUResp =
      .ok (true, sent ⟨h, .queryReq q⟩ header r) := by
  rw [respond_eq, map_eq_ok] at run
  obtain ⟨⟨ret, response', u'⟩, run, rfl⟩ := run
  obtain ⟨long, again⟩ := get_set garbage (sent_wellFormed ⟨h, .queryReq q⟩ fits)
    (fun _ => 0) sizeUPIUResp
  obtain ⟨bytes, u'', out⟩ := long.1 room
  cases out.symm.trans run
  exact (again _ _ out).2

/-- A query that is accepted gets a response exactly if it is answerable.  Where there is room for
it, the host reads in it as many bytes of the descriptor as it has asked for, and how many the
descriptor has. -/
theorem query_answers {garbage : Query} {h : UPIUHeader} {q : Query} {transferReq : Memory}
    {offUPIUResp : Nat} (accepted : (getUPIU garbage OPCODE_QUERY_REQUEST).set transferReq
      offUPIUResp = .ok (true, ⟨h, .queryReq q⟩)) (garbage' : Query) (sizeUPIUResp : Nat) :
    ((∃ response, query d garbage garbage' transferReq offUPIUResp sizeUPIUResp = .ok response) ↔
      Answerable d h.lun q sizeUPIUResp) ∧
    ∀ response, query d garbage garbage' transferReq offUPIUResp sizeUPIUResp = .ok response →
      (32 + if (d.asked h.lun q).isSome then q.length.toNat else 0) ≤ sizeUPIUResp →
        ∃ header r, Reads garbage (d.asked h.lun q) h q response sizeUPIUResp header r := by
  refine ⟨query_returns_iff garbage' accepted sizeUPIUResp, fun response run room => ?_⟩
  have answerable := (query_returns_iff garbage' accepted sizeUPIUResp).1 ⟨response, run⟩
  rw [query_eq garbage' accepted, processQueryCommand_eq] at run
  cases asked : d.asked h.lun q with
  | none =>
      rw [asked] at run room
      have read := respond_reads garbage run room (.inl rfl)
      exact ⟨_, _, read, rfl, rfl, rfl, rfl⟩
  | some bytes =>
      rw [asked] at run room
      obtain ⟨string, few⟩ := answerable bytes asked
      have many : q.length.toNat ≤ bytes.length := by
        simp only [Option.isSome_some, if_true] at room
        omega
      have short : ¬ (q.idn = IDN_STRING ∧ q.length.toNat < 2) :=
        fun both => absurd (string both.1) (Nat.not_le.2 both.2)
      simp only [if_neg short] at run
      have read := respond_reads garbage run room (.inr ⟨_, rfl, by simp [answer, many]⟩)
      refine ⟨_, _, read, rfl, rfl, ?_, ?_⟩
      · have small := d.length_asked asked
        exact UInt16.toNat_ofNat_of_lt' (small.trans (by decide))
      · change (if q.length.toNat = 0 then none
          else some (bytes.take (min q.length.toNat bytes.length))).getD [] =
            bytes.take q.length.toNat
        rw [Nat.min_eq_left many]
        split_ifs with none
        · simp [none]
        · rfl

def clear : Descriptors where
  lunReportLuns := fun _ => 0
  lunUFSDevice := fun _ => 0
  lunBoot := fun _ => 0
  lunRPMB := fun _ => 0
  lun := fun _ => 0
  strManufacturer := fun _ => 0
  strProductName := fun _ => 0
  strSerialNumber := fun _ => 0
  strOEMID := fun _ => 0
  strProductRevision := fun _ => 0

def deviceRequest (length : UInt8) : Memory := fun i =>
  [OPCODE_QUERY_REQUEST, 0, 0, 7, 0, 0, 0, 0, 0, 0, 0, 0, OPCODE_READ_DESCRIPTOR, IDN_DEVICE, 0, 0,
    0, 0, 0, length].getD i 0

theorem query_answers_device : ∃ response header r,
    query clear ⟨0, 0, 0, 0, 0, 0, 0, none⟩ ⟨0, 0, 0, 0, 0, 0, 0, none⟩ (deviceRequest 18) 32 64 =
      .ok response ∧
    (getUPIU ⟨0, 0, 0, 0, 0, 0, 0, none⟩ OPCODE_QUERY_RESPONSE).set response 64 =
      .ok (true, ⟨header, .queryResp r⟩) ∧
    header.taskTag = 7 ∧ r.length.toNat = 31 ∧ r.data.getD [] = deviceDescriptor.take 18 := by
  have accepted : (getUPIU ⟨0, 0, 0, 0, 0, 0, 0, none⟩ OPCODE_QUERY_REQUEST).set (deviceRequest 18)
      32 = .ok (true, ⟨⟨OPCODE_QUERY_REQUEST, 0, 0, 7, 0, 0, 0, 0, 0, 0, 0⟩,
        .queryReq ⟨OPCODE_READ_DESCRIPTOR, IDN_DEVICE, 0, 0, 18, 0, 0, none⟩⟩) := rfl
  obtain ⟨returns, reads⟩ := query_answers (d := clear) accepted ⟨0, 0, 0, 0, 0, 0, 0, none⟩ 64
  obtain ⟨response, run⟩ := returns.2 (by decide)
  obtain ⟨header, r, read⟩ := reads response run (by decide)
  exact ⟨response, header, r, run, read.set, read.taskTag, read.length, read.data⟩

-- more than the descriptor has, with room for it
example : ¬ Answerable clear 0 ⟨OPCODE_READ_DESCRIPTOR, IDN_DEVICE, 0, 0, 255, 0, 0, none⟩ 288 := by
  decide

end SimpleSSD.HIL.UFS
