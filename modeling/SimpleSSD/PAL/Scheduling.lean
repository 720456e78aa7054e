import Mathlib.Logic.Function.Basic
import SimpleSSD.Foundation.Retry
import SimpleSSD.PAL.Config
import SimpleSSD.PAL.Timeline

/-!
# Scheduling of NAND commands

`pal/old/PAL2.cc`.  A command takes the channel for its first transfer, the die until
its last transfer has ended, and the channel again for that.  Latencies come from the
latency class that is configured.  Statistics are left out.
-/

namespace SimpleSSD.PAL

open SimpleSSD.Foundation

inductive Oper where
  | read
  | write
  | erase
  deriving DecidableEq, Repr

inductive Busy where
  | dma0
  | mem
  | dma1
  deriving DecidableEq, Repr

abbrev Latency := Nat → Oper → Busy → Nat

structure Command where
  arrived : Nat
  operation : Oper
  deriving DecidableEq, Repr

inductive NandType where
  | slc
  | mlc
  | tlc
  deriving DecidableEq, Repr

structure Parameter where
  channel : Nat
  package : Nat
  die : Nat
  dmaSpeed : Nat
  pageSize : Nat

structure PAL2 where
  channels : Nat → Timeline
  dies : Nat → Timeline

namespace PAL2

def spdiv (param : Parameter) : Nat := param.dmaSpeed / 50

def pgdiv (param : Parameter) : Nat := 16384 / param.pageSize

def chBuckets (param : Parameter) : List Nat :=
  [100000 / spdiv param,
   100000 / spdiv param + 100000 / spdiv param,
   185000000 / (pgdiv param * spdiv param),
   185000000 / (pgdiv param * spdiv param) + 100000 / spdiv param,
   1500000 / spdiv param]

/-- `Config::readUint` has no case for `NAND_FLASH_TYPE` and answers 0, whatever is configured. -/
def readFlashType : NandType := .slc

def dieBuckets (param : Parameter) : List Nat :=
  (match readFlashType with
    | .slc => [25000000, 300000000, 2000000000]
    | .mlc => [40000000, 90000000, 500000000, 1300000000, 3500000000]
    | .tlc => [58000000, 78000000, 107000000, 558000000, 2201000000, 5001000000,
        2274000000]).map fun tickLen => tickLen + 100000 / spdiv param

def new (param : Parameter) : Except Fault PAL2 :=
  if spdiv param = 0 ∨ pgdiv param = 0 then .error (.panic "SPDIV or PGDIV is 0")
  else .ok {
    channels := fun _ => .empty (chBuckets param)
    dies := fun _ => .empty (dieBuckets param) }

def CPDPBPtoDieIdx (param : Parameter) (addr : CPDPBP) : Nat :=
  addr.die + addr.package * param.die + addr.channel * param.die * param.package

/-- The latencies of one command; `anti` is what the next read will need to be sent. -/
structure Latencies where
  dma0 : Nat
  mem : Nat
  dma1 : Nat
  anti : Nat

def latencies (lat : Latency) (cmd : Command) (addr : CPDPBP) : Latencies where
  dma0 := lat addr.page cmd.operation .dma0
  mem := lat addr.page cmd.operation .mem
  dma1 := lat addr.page cmd.operation .dma1
  anti := lat addr.page .read .dma0

structure Start where
  dma0TickFrom : Nat
  tickDMA0 : Nat
  tickMEM : Nat

structure Plan extends Start where
  dma1TickFrom : Nat
  totalLat : Nat

section

variable (lat : Latencies) (ch die : Timeline)

/-- One pass of LOOP1, which looks for a start that suits the channel and the die. -/
def loop1 (dma0TickFrom : Nat) : Attempt Nat Start :=
  let dma0 := ch.earliest lat.dma0 dma0TickFrom
  let mem := die.earliest (lat.dma0 + lat.mem) dma0.2
  if mem.1 = dma0.1 then .done ⟨dma0.2, dma0.1, mem.1⟩
  else if ch.verify lat.dma0 mem.2 = dma0.1 then .done ⟨mem.2, dma0.1, mem.1⟩
  else .retry mem.2

/-- Where a search for the last transfer of a command started at `dma0TickFrom` leads. -/
def findDMA1 (dma0TickFrom : Nat) : Nat :=
  (ch.earliest (lat.dma1 + lat.anti) (dma0TickFrom + (lat.dma0 + lat.mem))).2

/-- How long the die is taken: until the last transfer has ended. -/
def totalLat (dma0TickFrom : Nat) : Nat :=
  findDMA1 lat ch dma0TickFrom + lat.dma1 + lat.anti - dma0TickFrom

/-- One pass of LOOP0, which verifies that the die stays free for so long. -/
def loop0 (fuel : Nat) (dma0TickFrom : Nat) : Option (Attempt Nat Plan) :=
  (retryLoop (fun tick => some (loop1 lat ch die tick)) fuel dma0TickFrom).map fun start =>
    let totalLat := totalLat lat ch start.dma0TickFrom
    let tickMEM := die.verify totalLat start.dma0TickFrom
    if tickMEM = start.tickMEM then
      .done { start with
        dma1TickFrom := findDMA1 lat ch start.dma0TickFrom
        totalLat := totalLat }
    else .retry tickMEM

def timeSlot (startTick duration : Nat) : Nat × Nat := (startTick, startTick + duration - 1)

structure Scheduled where
  tsDMA0 : Nat × Nat
  tsMEM : Nat × Nat
  tsDMA1 : Nat × Nat
  finished : Nat
  deriving DecidableEq

def anticipate (tmpTick : Nat) : Except Fault Timeline :=
  let next := ch.earliest (lat.anti * 2) tmpTick
  if next.2 = tmpTick then ch.insertFreeSlot (lat.anti * 2) next.2 next.1 true else .ok ch

def assign (plan : Plan) : Except Fault (Timeline × Timeline × Scheduled) := do
  let ch ← ch.insertFreeSlot lat.dma0 plan.dma0TickFrom plan.tickDMA0 false
  let dma1 := ch.earliest (lat.dma1 + lat.anti) plan.dma1TickFrom
  let ch ← ch.insertFreeSlot lat.dma1 (max dma1.2 dma1.1 + lat.anti) dma1.1 false
  let die ← die.insertFreeSlot plan.totalLat plan.dma0TickFrom plan.tickMEM false
  let tsDMA0 := timeSlot (max plan.dma0TickFrom plan.tickDMA0) lat.dma0
  let tsDMA1 := timeSlot (max dma1.2 dma1.1 + lat.anti) lat.dma1
  let tsMEM := timeSlot (max plan.dma0TickFrom plan.tickMEM) plan.totalLat
  let ch ← anticipate lat ch (max plan.dma0TickFrom plan.tickDMA0 + lat.dma0)
  .ok (ch, die, ⟨tsDMA0, tsMEM, tsDMA1, tsDMA1.2⟩)

end

def timelineScheduling (lat : Latency) (param : Parameter) (fuel : Nat) (cmd : Command)
    (addr : CPDPBP) (s : PAL2) : Option (Except Fault (PAL2 × Scheduled)) :=
  let reqCh := addr.channel
  let reqDieIdx := CPDPBPtoDieIdx param addr
  let l := latencies lat cmd addr
  let ch := s.channels reqCh
  let die := s.dies reqDieIdx
  (retryLoop (loop0 l ch die fuel) fuel cmd.arrived).map fun plan => do
    let (ch, die, scheduled) ← assign l ch die plan
    .ok (⟨Function.update s.channels reqCh ch, Function.update s.dies reqDieIdx die⟩, scheduled)

def flushFreeSlots (currentTick : Nat) (s : PAL2) : PAL2 where
  channels reqCh := (s.channels reqCh).flushFreeSlots currentTick
  dies reqDieIdx := (s.dies reqDieIdx).flushFreeSlots currentTick

structure Entry where
  addr : CPDPBP
  cmd : Command
  scheduled : Scheduled

/-- Runs of commands and flushes.  What `FlushTimeSlots` flushes is kept for statistics
only. -/
inductive Run (lat : Latency) (param : Parameter) : List Entry → PAL2 → Prop where
  | start {s} : new param = .ok s → Run lat param [] s
  | submit {log s s' scheduled} (fuel : Nat) (cmd : Command) (addr : CPDPBP) :
      Run lat param log s →
      timelineScheduling lat param fuel cmd addr s = some (.ok (s', scheduled)) →
      Run lat param (⟨addr, cmd, scheduled⟩ :: log) s'
  | flushFreeSlots {log s} (currentTick : Nat) : Run lat param log s →
      Run lat param log (s.flushFreeSlots currentTick)
  | flushTimeSlots {log s} (currentTick : Nat) : Run lat param log s → Run lat param log s

def dmaSlots (reqCh : Nat) (log : List Entry) : Slots :=
  (log.filter fun entry => entry.addr.channel = reqCh).flatMap fun entry =>
    [entry.scheduled.tsDMA1, entry.scheduled.tsDMA0]

def memSlots (param : Parameter) (reqDieIdx : Nat) (log : List Entry) : Slots :=
  (log.filter fun entry => CPDPBPtoDieIdx param entry.addr = reqDieIdx).map fun entry =>
    entry.scheduled.tsMEM

end PAL2

end SimpleSSD.PAL
