import SimpleSSD.FTL.Trimming

/-!
# Formatting a range

`PageMapping::format` drops every mapped page of a range and collects the blocks its
entries led to, whatever state these blocks are in.
-/

namespace SimpleSSD.FTL.PageMapping

open SimpleSSD.Foundation

variable (cfg : Config)

def pagesIn (range : LPNRange) (s : PageMapping) : List Nat :=
  (List.range' range.slpn (add64 range.slpn range.nlp - range.slpn)).filter fun lpn =>
    (s.table lpn).isSome

def formatUnit (entries : Nat → Nat × Nat) (acc : PageMapping × List Nat) (idx : Nat) :
    Except Fault (PageMapping × List Nat) := do
  let s ← trimUnit entries acc.1 idx
  .ok (s, acc.2 ++ [(entries idx).1])

def formatPage (acc : PageMapping × List Nat) (lpn : Nat) :
    Except Fault (PageMapping × List Nat) :=
  match acc.1.table lpn with
  | none => .ok acc
  | some entries => do
      let done ← (List.range cfg.bitsetSize).foldlM (formatUnit entries) acc
      .ok ({ done.1 with
        table := Function.update done.1.table lpn none
        host := done.1.host.trim lpn }, done.2)

def formatPages (choices : Choices) (range : LPNRange) (s : PageMapping) :
    Except Fault (PageMapping × List Nat) :=
  (choices.iterate (pagesIn range s)).foldlM (formatPage cfg) (s, [])

def format (choices : Choices) (range : LPNRange) (tick : Tick) (s : PageMapping) :
    Except Fault (Tick × PageMapping) := do
  let (s, list) ← formatPages cfg choices range s
  let done ← doGarbageCollection cfg (list.insertionSort (· ≤ ·)).dedup tick s
  .ok (cfg.timing.applyLatency .format done.1, done.2)

end SimpleSSD.FTL.PageMapping
