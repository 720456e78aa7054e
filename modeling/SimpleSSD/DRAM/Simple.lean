import SimpleSSD.Util.Def

/-!
# The DRAM

`dram/simple.cc`, the timing of it: commands to the power model and statistics change no
tick.
-/

namespace SimpleSSD.DRAM

open SimpleSSD.Foundation

/-- The page size, and the time the interface needs for some pages.  `sum` adds up ticks. -/
structure Config where
  pageSize : Nat
  latency : Nat → Tick
  sum : Tick → Tick → Tick := add64

structure SimpleDRAM where
  lastDRAMAccess : Tick
  ignoreScheduling : Bool
  deriving DecidableEq, Repr

namespace SimpleDRAM

variable (cfg : Config)

/-- Accesses at tick 0 take no time; without scheduling they do not wait for each other. -/
def updateDelay (latency tick : Tick) (d : SimpleDRAM) : Tick × SimpleDRAM :=
  if 0 < tick then
    if d.ignoreScheduling then (cfg.sum tick latency, d)
    else
      let lastDRAMAccess :=
        if d.lastDRAMAccess ≤ tick then cfg.sum tick latency
        else cfg.sum d.lastDRAMAccess latency
      (lastDRAMAccess, { d with lastDRAMAccess := lastDRAMAccess })
  else (tick, d)

def pageCount (size : Nat) : Nat := if 0 < size then (size - 1) / cfg.pageSize + 1 else 0

def read (size : Nat) (tick : Tick) (d : SimpleDRAM) : Tick × SimpleDRAM :=
  d.updateDelay cfg (cfg.latency (pageCount cfg size)) tick

def write (size : Nat) (tick : Tick) (d : SimpleDRAM) : Tick × SimpleDRAM :=
  d.updateDelay cfg (cfg.latency (pageCount cfg size)) tick

variable {cfg}

theorem updateDelay_forward (later : ∀ tick latency, tick ≤ cfg.sum tick latency)
    (latency tick : Tick) (d : SimpleDRAM) : tick ≤ (d.updateDelay cfg latency tick).1 := by
  unfold updateDelay
  by_cases started : 0 < tick
  · rw [if_pos started]
    by_cases ignored : d.ignoreScheduling = true
    · rw [if_pos ignored]
      exact later _ _
    · rw [if_neg ignored]
      change tick ≤ ite _ _ _
      split_ifs with idle
      · exact later _ _
      · exact (not_le.1 idle).le.trans (later _ _)
  · rw [if_neg started]

end SimpleDRAM

end SimpleSSD.DRAM
