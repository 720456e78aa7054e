import SimpleSSD.HIL.NVMe.Answerable

/-!
# Responses to admin commands

The handlers differ in who answers: themselves, the function that waits for a transfer, or the
namespace a command is handed on to; some paths have none of these, and one has two.
-/

namespace SimpleSSD.HIL.NVMe

open SimpleSSD.Foundation

namespace AdminCommand

variable {env : Surroundings} {meanwhile : AdminState → AdminState} {reads : Nat}
  {c : AdminCommand} {s s' : AdminState} {handled : Handled} {resp : Response}

/-! ## Log pages and Identify -/

theorem Transfers.mono {size offset length least n m : Nat} (le : n ≤ m)
    (h : c.Transfers env n size offset length least) :
    c.Transfers env m size offset length least := by
  obtain ⟨chunks, built, rest⟩ := h
  exact ⟨chunks, DataPointer.build_mono le built Nat.one_ne_zero, rest⟩

theorem baseReady_mono {n m : Nat} {pagesize base size : Nat} {cont : Bool} (le : n ≤ m)
    (h : BaseReady env n (.ofBase pagesize base size cont)) :
    BaseReady env m (.ofBase pagesize base size cont) := by
  obtain ⟨done, read, complete⟩ := h
  have ended := (PRPList.building_readAll (PRPList.building_ofBase _ _ _ _) read).ended
    (by rw [complete]; exact Nat.one_ne_zero)
  exact ⟨done, PRPList.readAll_mono le read ended, complete⟩

theorem Answerable.mono {n m : Nat} (le : n ≤ m) (h : c.Answerable env meanwhile n s) :
    c.Answerable env meanwhile m s := by
  unfold Answerable at h ⊢
  cases op : AdminOpcode.ofCode c.opcode.toNat with
  | none => trivial
  | some opcode =>
      rw [op] at h
      cases opcode with
      | deleteIOSQueue => exact h
      | createIOSQueue =>
          rcases h with large | ⟨fits, lt, free, cq, ready⟩
          · exact .inl large
          · exact .inr ⟨fits, lt, free, cq, baseReady_mono le ready⟩
      | getLogPage =>
          obtain ⟨error, firmware, smart⟩ := h
          exact ⟨error, firmware, fun page => ⟨(smart page).1, (smart page).2.mono le⟩⟩
      | deleteIOCQueue => exact h
      | createIOCQueue =>
          rcases h with large | ⟨fits, lt, free, ready⟩
          · exact .inl large
          · exact .inr ⟨fits, lt, free, baseReady_mono le ready⟩
      | identify =>
          rcases h with beyond | ⟨identifies, fills, transfers⟩
          · exact .inl beyond
          · exact .inr ⟨identifies, fills, transfers.mono le⟩
      | abort => exact h
      | setFeatures => exact h
      | getFeatures => trivial
      | asyncEventReq => trivial
      | namespaceManagement =>
          rcases h with ⟨create, zero, all | ⟨transfers, fit⟩⟩ | delete
          · exact .inl ⟨create, zero, .inl all⟩
          · exact .inl ⟨create, zero, .inr ⟨transfers.mono le, fit⟩⟩
          · exact .inr delete
      | namespaceAttachment =>
          obtain ⟨transfers, fits, detach⟩ := h
          exact ⟨transfers.mono le, fits, detach⟩
      | formatNVM => trivial

def smallSurroundings : Surroundings where
  device := Subsystem.smallDevice
  mps := 0
  sqstride := 64
  cqstride := 16
  maxIOSQueue := 3
  maxIOCQueue := 3
  wrrHigh := 2
  wrrMedium := 2
  useWriteCache := true
  usedPageCount _ _ := 0
  getTick := 0
  formatFinishedAt _ := 0
  mem _ := 0
  managementData := Subsystem.hostData 262144
  uninitialised := Subsystem.hostInformation 0
  ctrlList _ := 0

def afterReset : AdminState where
  controller := Controller.adminQueues
  running := rfl
  subsystem := oneNamespaceSubsystem
  aggregationTime := 0
  aggregationThreshold := 0
  aggregationMap := .empty
  queueAllocated := 0

end AdminCommand

end SimpleSSD.HIL.NVMe
