import SimpleSSD.DRAM.Simple
import SimpleSSD.FTL.PageMapping
import SimpleSSD.Foundation.Forward

/-!
# Time in the flash translation layer

`ftl/ftl.cc` adds a latency to what the page mapping does.  The page mapping ends with the
latest of its flash accesses, which all begin when the request does; only a trim goes on
from the tick at which the DRAM has answered.
-/

namespace SimpleSSD.FTL

open SimpleSSD.Foundation

variable (cfg : Config) (latency : CPUFunction → Tick)

def read (req : Request cfg) (tick : Tick) (s : PageMapping) :
    Except Fault (Tick × PageMapping) := do
  let done ← PageMapping.read cfg req tick s
  .ok (cfg.timing.sum done.1 (latency .read), done.2)

def write (choices : Choices) (req : Request cfg) (tick : Tick) (s : PageMapping) :
    Except Fault (Tick × PageMapping) := do
  let done ← PageMapping.write cfg choices req tick s
  .ok (cfg.timing.sum done.1 (latency .write), done.2)

def trim (req : Request cfg) (tick : Tick) (s : PageMapping) :
    Except Fault (Tick × PageMapping) := do
  let done ← PageMapping.trim cfg req tick s
  .ok (cfg.timing.sum done.1 (latency .trim), done.2)

/-- The DRAM below answers, each access in some state of it, no matter what has gone on
there in between. -/
def OnDRAM (dram : DRAM.Config) : Prop :=
  ∀ accesses size tick, ∃ d : DRAM.SimpleDRAM,
    cfg.timing.finish accesses (.dramRead size) tick = (d.read dram size tick).1

/-- No sum of ticks is before its first one. -/
def Config.Sums : Prop := ∀ tick latency, tick ≤ cfg.timing.sum tick latency

variable {cfg}

theorem OnDRAM.le {dram : DRAM.Config} (below : OnDRAM cfg dram)
    (sums : ∀ tick latency, tick ≤ dram.sum tick latency) (size : Nat) (tick : Tick)
    (s : PageMapping) : tick ≤ (PageMapping.access cfg (.dramRead size) tick s).1 := by
  obtain ⟨d, hd⟩ := below s.accesses size tick
  change tick ≤ cfg.timing.finish s.accesses (.dramRead size) tick
  rw [hd]
  exact DRAM.SimpleDRAM.updateDelay_forward sums _ _ d

namespace PageMapping

variable (sums : cfg.Sums)

include sums in
theorem applyLatency_le (function : CPUFunction) (tick : Tick) :
    tick ≤ cfg.timing.applyLatency function tick := sums _ _

variable {req : Request cfg} {entries : Nat → Nat × Nat} {acc next : Tick × PageMapping}

theorem readUnit_forward {looked : Tick} {idx : Nat}
    (h : readUnit cfg req entries looked acc idx = .ok next) : acc.1 ≤ next.1 := by
  rcases readUnit_eq_ok h with ⟨-, rfl⟩ | ⟨blk, blk', -, -, -, read, -, rfl⟩
  · exact le_rfl
  · exact le_max_left _ _

include sums in
theorem readInternal_forward (req : Request cfg) : Forward (readInternal cfg req) := by
  intro tick s done h
  rcases readInternal_eq_ok h with ⟨-, rfl⟩ | ⟨entries, last, -, hloop, rfl⟩
  · exact le_rfl
  · have reached := foldlM_forward (fun _ _ _ step => readUnit_forward step) hloop
    exact reached.trans (applyLatency_le sums _ _)

theorem writeUnit_forward {block stamp idx : Nat} {looked : Tick} {merge sent : Bool}
    (h : writeUnit cfg req block stamp looked merge sent acc idx = .ok next) :
    acc.1 ≤ next.1 := by
  unfold writeUnit at h
  by_cases selected : req.selects idx = true
  · rw [if_pos selected] at h
    split at h
    · obtain ⟨blk, -, hdone⟩ := bind_eq_ok.1 h
      cases hdone
      exact le_max_left _ _
    · cases h
  · rw [if_neg selected] at h
    cases h
    exact le_rfl

include sums in
theorem writeInternal_forward (choices : Choices) (req : Request cfg) :
    Forward fun tick s => writeInternal cfg choices req tick true s := by
  intro tick s done h
  obtain ⟨s₁, -, h⟩ := bind_eq_ok.1 h
  obtain ⟨⟨block, s₂⟩, -, h⟩ := bind_eq_ok.1 h
  dsimp only at h
  by_cases missing : (s₂.blocks block).isNone = true
  · rw [if_pos missing] at h
    cases h
  rw [if_neg missing] at h
  obtain ⟨acc, hloop, h⟩ := bind_eq_ok.1 h
  obtain ⟨s₃, -, h⟩ := bind_eq_ok.1 h
  cases h
  have reached := foldlM_forward (fun _ _ _ step => writeUnit_forward step) hloop
  exact reached.trans (applyLatency_le sums _ _)

include sums in
theorem trimInternal_forward {dram : DRAM.Config} (below : OnDRAM cfg dram)
    (later : ∀ tick latency, tick ≤ dram.sum tick latency) (req : Request cfg) :
    Forward (trimInternal cfg req) := by
  intro tick s done h
  rcases trimInternal_eq_ok h with ⟨-, rfl⟩ | ⟨entries, last, -, -, rfl⟩
  · exact le_rfl
  · exact (below.le later _ _ _).trans (applyLatency_le sums _ _)

include sums in
theorem read_forward (req : Request cfg) : Forward (read cfg req) := by
  have inner : Forward fun tick s =>
      if 0 < req.ioFlag.count true then readInternal cfg req tick s else .ok (tick, s) := by
    split_ifs
    · exact readInternal_forward sums req
    · exact Forward.of_le fun _ _ => le_rfl
  exact inner.andThen fun _ => applyLatency_le sums _ _

include sums in
theorem write_forward (choices : Choices) (req : Request cfg) :
    Forward (write cfg choices req) := by
  have inner : Forward fun tick s =>
      if 0 < req.ioFlag.count true then writeInternal cfg choices req tick true s
      else .ok (tick, s) := by
    split_ifs
    · exact writeInternal_forward sums choices req
    · exact Forward.of_le fun _ _ => le_rfl
  exact inner.andThen fun _ => applyLatency_le sums _ _

include sums in
theorem trim_forward {dram : DRAM.Config} (below : OnDRAM cfg dram)
    (later : ∀ tick latency, tick ≤ dram.sum tick latency) (req : Request cfg) :
    Forward (trim cfg req) :=
  (trimInternal_forward sums below later req).andThen fun _ => applyLatency_le sums _ _

end PageMapping

end SimpleSSD.FTL
