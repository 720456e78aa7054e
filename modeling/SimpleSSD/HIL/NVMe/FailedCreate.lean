import SimpleSSD.HIL.NVMe.Responses

/-!
# Creates that fail

A create command of Namespace Management may be refused when it arrives or be answered with
an error when its data has been read.  The settings in the data are checked, but a check
that fails only sets the status.
-/

namespace SimpleSSD.HIL.NVMe

open SimpleSSD.Foundation Subsystem

def Subsystem.ManagementData.Accepted (data : ManagementData) : Prop :=
  data.lbaFormatIndex.toNat < nLBAFormat ∧ data.namespaceSharingCapabilities = 0 ∧
    data.dataProtectionSettings = 0

instance (data : ManagementData) : Decidable data.Accepted :=
  inferInstanceAs (Decidable (_ ∧ _ ∧ _))

namespace AdminCommand

variable {env : Surroundings} {nsid : Nat} {resp : Response} {s s' : AdminState}

theorem namespaceManagement_create {c : AdminCommand} (create : c.sel = 0) :
    (c.namespaceManagement env s).state = s := by
  unfold namespaceManagement
  simp only [create]
  split
  · rfl
  · rw [if_pos trivial]
    split <;> rfl

/-- The answer when the data has been read: an error if the settings are refused or nothing
is created, and success otherwise. -/
theorem createDone_isError (env : Surroundings) (s : AdminState) {created : Bool}
    {info : Information} {sub : Subsystem}
    (h : createNamespace env.device nsid
      (managementInformation env.device env.managementData env.uninitialised) s.subsystem =
        .ok (created, info, sub)) :
    ∃ resp, createDone env nsid .success s = .ok (resp, { s with subsystem := sub }) ∧
      (resp.IsError ↔ ¬env.managementData.Accepted ∨ created = false) := by
  have format : NVMe.makeStatus false false TYPE_GENERIC_COMMAND_STATUS
      STATUS_ABORT_INVALID_FORMAT &&& 0x0FFE ≠ 0 := by decide
  have field : NVMe.makeStatus false false TYPE_GENERIC_COMMAND_STATUS STATUS_INVALID_FIELD &&&
      0x0FFE ≠ 0 := by decide
  have capacity : NVMe.makeStatus false false TYPE_COMMAND_SPECIFIC_STATUS
      STATUS_NAMESPACE_INSUFFICIENT_CAPACITY &&& 0x0FFE ≠ 0 := by decide
  have success : Response.success.status &&& 0x0FFE = 0 := by decide
  unfold createDone
  dsimp only
  rw [h]
  refine ⟨_, rfl, ?_⟩
  unfold Response.IsError
  cases created with
  | false => simpa [Response.makeStatus] using capacity
  | true =>
      simp only [managementInformation, ManagementData.Accepted, ← UInt8.toNat_inj, if_true]
      by_cases hformat : nLBAFormat ≤ env.managementData.lbaFormatIndex.toNat
      · simpa [hformat, Nat.not_lt.2 hformat, Response.makeStatus] using format
      · by_cases hfield : env.managementData.namespaceSharingCapabilities.toNat ≠ 0 ∨
            env.managementData.dataProtectionSettings.toNat ≠ 0
        · simp only [hformat, hfield, if_true, if_false, Response.makeStatus]
          refine iff_of_true field (.inl ?_)
          rintro ⟨-, sharing, protection⟩
          exact hfield.elim (fun h => h sharing) fun h => h protection
        · simp only [hformat, hfield, if_false]
          refine iff_of_false (not_not.2 success) ?_
          push Not at hfield
          simpa [Nat.lt_of_not_le hformat] using hfield

end AdminCommand

namespace Subsystem

open AdminCommand (smallSurroundings afterReset)

variable {d : Device} {conf : Defaults} {s : Subsystem} {m m' : Management}
  {a : Management.Action}

/-- A part of a create that answers with an error leaves the namespaces, their ranges and
the counter alone; what else the command works on does not matter. -/
def Unchanged (env : Surroundings) (t : AdminState) (m : Management) :
    Management.Action → Prop
  | .create => ∀ c : AdminCommand, c.sel = 0 →
      (c.namespaceManagement env { t with subsystem := m.subsystem }).state.subsystem =
        m.subsystem
  | .dmaDone nsid data uninitialised => ∀ resp t',
      AdminCommand.createDone
          { env with managementData := data, uninitialised := uninitialised } nsid .success
          { t with subsystem := m.subsystem } = .ok (resp, t') →
        resp.IsError → t'.subsystem = m.subsystem
  | _ => True

def AcceptedOrFull (d : Device) (m : Management) : Management.Action → Prop
  | .dmaDone _ data uninitialised =>
      HasRoom d (requestedPages d (managementInformation d data uninitialised)) m.subsystem →
        data.Accepted
  | _ => True

theorem insertNamespace_ne (s : Subsystem) (ns : Namespace) (pages : Nat) :
    ({ lNamespaces := s.insertNamespace ns, allocatedLogicalPages := pages } : Subsystem) ≠ s := by
  intro h
  have perm := List.perm_insertionSort (fun a b : Namespace => a.nsid ≤ b.nsid)
    (s.lNamespaces ++ [ns])
  have hlen := congrArg (fun s : Subsystem => s.lNamespaces.length) h
  have hperm : (s.insertNamespace ns).length = (s.lNamespaces ++ [ns]).length := perm.length_eq
  simp [hperm] at hlen

theorem unchanged_iff (env : Surroundings) (t : AdminState)
    (placed : Placed env.device.totalLogicalPages m.subsystem.ranges)
    (hstep : Management.step env.device m a = some m') :
    Unchanged env t m a ↔ AcceptedOrFull env.device m a := by
  cases a with
  | create =>
      have unchanged : Unchanged env t m .create := by
        intro c create
        rw [AdminCommand.namespaceManagement_create create]
      exact iff_of_true unchanged trivial
  | destroy nsid => exact Iff.rfl
  | format c usedPageCount => exact Iff.rfl
  | dmaDone nsid data uninitialised =>
      obtain ⟨-, h⟩ := Option.ite_none_right_eq_some.1 hstep
      unfold Management.dmaDone at h
      split at h
      · cases h
      next created info sub hcreate =>
        cases h
        have room := created_iff placed rfl hcreate
        obtain ⟨resp, hdone, herror⟩ := AdminCommand.createDone_isError
          { env with managementData := data, uninitialised := uninitialised }
          { t with subsystem := m.subsystem } hcreate
        have unchanged : Unchanged env t m (.dmaDone nsid data uninitialised) ↔
            (resp.IsError → sub = m.subsystem) := by
          simp [Unchanged, hdone]
        rw [unchanged, herror, AcceptedOrFull, ← room]
        rcases createNamespace_cases hcreate with ⟨rfl, rfl⟩ | ⟨rfl, rfl, -⟩
        · simp
        · simp [insertNamespace_ne]

/-- In every run from `init`, whatever commands it interleaves, a create that is answered
with an error changes nothing if and only if no data that asks for room there is has
settings that are refused. -/
theorem failed_create_unchanged (env : Surroundings) (t : AdminState)
    (h : init env.device conf = .ok s) (actions : List Management.Action) :
    EachAction (Management.step env.device) (Unchanged env t) ⟨s, []⟩ actions ↔
      EachAction (Management.step env.device) (AcceptedOrFull env.device) ⟨s, []⟩ actions := by
  have kept : ∀ (m : Management) a m',
      Placed env.device.totalLogicalPages m.subsystem.ranges →
      Management.step env.device m a = some m' →
      Placed env.device.totalLogicalPages m'.subsystem.ranges :=
    fun m a m' placed hstep => placed_step placed hstep
  have start : Placed env.device.totalLogicalPages
      (Management.subsystem ⟨s, []⟩).ranges := init_placed h
  apply eachAction_congr kept _ start
  intro m a m' placed hstep
  exact unchanged_iff env t placed hstep

theorem failed_create_unchanged_small :
    EachAction (Management.step smallDevice) (Unchanged smallSurroundings afterReset)
      ⟨blank, []⟩ [.create, .dmaDone 1 (hostData 8192) (hostInformation 0)] := by
  have started : init smallDevice ⟨0, 512, hostInformation 0⟩ = .ok blank := rfl
  apply (failed_create_unchanged smallSurroundings afterReset started _).2
  exact .cons rfl trivial (.cons rfl (fun _ => by decide) trivial)

def protectedData : ManagementData := ⟨8192, 8192, 0, 1, 0⟩

/-- The settings are refused, and the namespace is there. -/
theorem refused_and_created :
    init smallDevice ⟨0, 512, hostInformation 0⟩ = .ok blank ∧
      ¬EachAction (Management.step smallDevice) (Unchanged smallSurroundings afterReset)
        ⟨blank, []⟩ [.create, .dmaDone 1 protectedData (hostInformation 0)] := by
  refine ⟨rfl, fun each => ?_⟩
  obtain ⟨-, each⟩ := each _ rfl
  obtain ⟨unchanged, -⟩ := each _ rfl
  have same := unchanged ⟨1, makeStatus false false TYPE_GENERIC_COMMAND_STATUS
    STATUS_INVALID_FIELD⟩ _ rfl (by decide)
  exact absurd (congrArg (fun s : Subsystem => s.lNamespaces.length) same) (by decide)

end Subsystem

end SimpleSSD.HIL.NVMe
