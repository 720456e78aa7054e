import SimpleSSD.ICL.WriteBack

/-!
# The way an eviction chooses

The policies that look for the oldest line return a way of the set.  The random policy
draws from a distribution that was built from the way size option, before a zero was
replaced by the size of a fully associative cache.
-/

namespace SimpleSSD.ICL

open SimpleSSD.Foundation

namespace Config

def Draws (cfg : Config) (draw : Nat → Nat) : Prop :=
  ∀ i, draw i < if cfg.wayOption = 0 then 2 ^ 32 else cfg.wayOption

def withDraw (cfg : Config) (draw : Nat → Nat) (h : cfg.Draws draw) : Config :=
  { cfg with draw := draw, draw_lt := h }

end Config

namespace GenericCache

variable {cfg : Config} {s : GenericCache} {tick : Tick}

/-- Whatever is drawn, an eviction takes a line of the set, and no read goes past it. -/
def ChoosesInSet (cfg : Config) : Prop :=
  ∀ draw (h : cfg.Draws draw),
    (∀ setIdx tick s,
      (evictFunction (cfg.withDraw draw h) setIdx tick s).1 < (cfg.withDraw draw h).waySize) ∧
    ∀ req tick s, ∃ done, read (cfg.withDraw draw h) req tick s = .ok done

theorem minWay_lt (key : Nat → Nat) (eligible : Nat → Bool) {size : Nat} (pos : 0 < size) :
    (minWay key eligible 0 (List.range size)).1 < size := by
  rcases minWay_spec key eligible 0 (List.range size) with start | ⟨mem, -⟩
  · rw [start]
    exact pos
  · exact List.mem_range.1 mem

theorem evictFunction_lt (pos : 0 < cfg.waySize)
    (drawn : cfg.policy = .random → ∀ i, cfg.draw i < cfg.waySize) (setIdx : Nat) (tick : Tick)
    (s : GenericCache) : (evictFunction cfg setIdx tick s).1 < cfg.waySize := by
  unfold evictFunction
  cases hpolicy : cfg.policy with
  | random => exact drawn hpolicy s.drawn
  | fifo => exact minWay_lt _ _ pos
  | leastRecentlyUsed => exact minWay_lt _ _ pos

/-! ## Reads that keep to the set -/

theorem fillLine_total (choice : ∀ setIdx tick s,
      (evictFunction cfg setIdx tick s).1 < cfg.waySize) (w : Fill) (lca : Nat) :
    ∃ w', fillLine cfg tick w lca = .ok w' := by
  unfold fillLine
  dsimp only
  split_ifs with found empty out
  · exact ⟨_, rfl⟩
  · exact ⟨_, rfl⟩
  · exact absurd (choice _ _ _) (not_lt.2 out)
  · exact ⟨_, rfl⟩

theorem fillLines_total (choice : ∀ setIdx tick s,
      (evictFunction cfg setIdx tick s).1 < cfg.waySize) (tick : Tick) (pages : List Nat)
    (w : Fill) :
    ∃ w', pages.foldlM (fillLine cfg tick) w = .ok w' := by
  induction pages generalizing w with
  | nil => exact ⟨w, rfl⟩
  | cons lca rest ih =>
      obtain ⟨mid, first⟩ := fillLine_total choice w lca
      obtain ⟨w', later⟩ := ih mid
      exact ⟨w', by rw [List.foldlM_cons, first]; exact later⟩

theorem read_total (choice : ∀ setIdx tick s,
      (evictFunction cfg setIdx tick s).1 < cfg.waySize) (req : Request) (tick : Tick)
    (s : GenericCache) : ∃ done, read cfg req tick s = .ok done := by
  have filled : ∀ slpn hit arrived tick s,
      ∃ done, fillCache cfg slpn hit arrived tick s = .ok done := by
    intro slpn hit arrived tick s
    obtain ⟨w, hw⟩ := fillLines_total choice tick (fillPages cfg slpn s)
      ⟨readAhead cfg slpn s, tick, []⟩
    exact ⟨_, bind_eq_ok.2 ⟨w, hw, rfl⟩⟩
  unfold read
  by_cases caching : cfg.useReadCaching = true
  · rw [if_pos caching]
    cases lookUp cfg req tick s with
    | hit tick s => exact ⟨_, rfl⟩
    | prefetch slpn arrived tick s =>
        obtain ⟨done, hdone⟩ := filled slpn true arrived tick s
        exact ⟨_, bind_eq_ok.2 ⟨done, hdone, rfl⟩⟩
    | miss slpn tick s =>
        obtain ⟨done, hdone⟩ := filled slpn false tick tick s
        exact ⟨_, bind_eq_ok.2 ⟨done, hdone, rfl⟩⟩
  · rw [if_neg caching]
    exact ⟨_, rfl⟩

/-! ## The exact condition -/

theorem waySize_lt (full : cfg.wayOption = 0) : cfg.waySize < 2 ^ 32 := by
  unfold Config.waySize
  rw [if_pos full]
  exact Nat.mod_lt _ (Nat.two_pow_pos 32)

theorem waySize_eq (ways : cfg.wayOption ≠ 0) : cfg.waySize = cfg.wayOption := if_neg ways

/-- A fully associative cache must not draw, and its number of lines must not vanish in
32 bits; with a way size given, every policy chooses in the set. -/
theorem choosesInSet_iff (cfg : Config) :
    ChoosesInSet cfg ↔ (cfg.wayOption = 0 →
      cfg.policy ≠ .random ∧ ¬ 2 ^ 32 ∣ max (cfg.cacheSize / cfg.lineSize) 1) := by
  constructor
  · intro inSet full
    refine ⟨fun random => ?_, fun vanishes => ?_⟩
    · -- the first draw past the set
      have allowed : cfg.Draws fun _ => cfg.waySize := by
        intro i
        rw [if_pos full]
        exact waySize_lt full
      have less := (inSet _ allowed).1 0 0 construct
      have choice : (evictFunction (cfg.withDraw _ allowed) 0 0 construct).1 = cfg.waySize := by
        unfold evictFunction
        have policy : (cfg.withDraw _ allowed).policy = .random := random
        rw [policy]
        rfl
      rw [choice] at less
      exact lt_irrefl _ less
    · have less := (inSet cfg.draw cfg.draw_lt).1 0 0 construct
      have none : cfg.waySize = 0 := by
        unfold Config.waySize
        rw [if_pos full]
        exact Nat.mod_eq_zero_of_dvd vanishes
      change _ < cfg.waySize at less
      rw [none] at less
      exact Nat.not_lt_zero _ less
  · intro within draw allowed
    have choice : ∀ setIdx tick s, (evictFunction (cfg.withDraw draw allowed) setIdx tick s).1 <
        (cfg.withDraw draw allowed).waySize := by
      by_cases full : cfg.wayOption = 0
      · obtain ⟨searches, lines⟩ := within full
        refine evictFunction_lt ?_ fun random => absurd random searches
        change 0 < cfg.waySize
        unfold Config.waySize
        rw [if_pos full]
        exact Nat.pos_of_ne_zero fun none => lines (Nat.dvd_of_mod_eq_zero none)
      · have ways : (cfg.withDraw draw allowed).waySize = cfg.wayOption := waySize_eq full
        refine evictFunction_lt ?_ fun _ i => ?_
        · rw [ways]
          exact Nat.pos_of_ne_zero full
        · rw [ways]
          exact (allowed i).trans_eq (if_neg full)
    exact ⟨choice, read_total choice⟩

/-- One line, random and fully associative: the draw 1 is past the only way. -/
def drawnLine : Config :=
  { oneLine with wayOption := 0, policy := .random, draw := fun _ => 1,
                 draw_lt := fun _ => by decide }

theorem choice_past_set : ¬ ∀ cfg : Config, ∀ setIdx tick s,
    (evictFunction cfg setIdx tick s).1 < cfg.waySize := by
  intro all
  have less := all drawnLine 0 0 construct
  revert less
  decide

end GenericCache

end SimpleSSD.ICL
