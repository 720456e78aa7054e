import SimpleSSD.Foundation.Fallible
import SimpleSSD.Util.Bitset

/-!
# Bit sets as vectors of Booleans

Variables that hold bit sets of one size, and the vectors that these stand for.  A variable that
has been moved from holds no vector until something is assigned to it.
-/

namespace SimpleSSD.BitVectors

open Foundation

/-- `dst` and `src` are variables.  The operators `&=`, `|=` and `^=` change their left operand,
`not` assigns the temporary that `~` returns. -/
inductive Op where
  | set (dst idx : Nat) (value : Bool)
  | setAll (dst : Nat)
  | reset (dst idx : Nat)
  | resetAll (dst : Nat)
  | flip (dst idx : Nat)
  | flipAll (dst : Nat)
  | and (dst src : Nat)
  | or (dst src : Nat)
  | xor (dst src : Nat)
  | not (dst src : Nat)
  | assign (dst src : Nat)
  | move (dst src : Nat)
  | copy (dst src : Nat)
  deriving DecidableEq, Repr

def store (sets : Nat → Bitset) (dst : Nat) (result : Except Fault Bitset) :
    Except Fault (Nat → Bitset) :=
  result.map (Function.update sets dst)

/-- Assignment of a variable to itself does nothing. -/
def step (sets : Nat → Bitset) : Op → Except Fault (Nat → Bitset)
  | .set dst idx value => store sets dst ((sets dst).setTo idx value)
  | .setAll dst => store sets dst (sets dst).setAll
  | .reset dst idx => store sets dst ((sets dst).reset idx)
  | .resetAll dst => store sets dst (.ok (sets dst).resetAll)
  | .flip dst idx => store sets dst ((sets dst).flipBit idx)
  | .flipAll dst => store sets dst (sets dst).flip
  | .and dst src => store sets dst ((sets dst).and (sets src))
  | .or dst src => store sets dst ((sets dst).or (sets src))
  | .xor dst src => store sets dst ((sets dst).xor (sets src))
  | .not dst src => store sets dst (sets src).not
  | .assign dst src => if dst = src then .ok sets else store sets dst (.ok (sets src).copy)
  | .move dst src =>
      if dst = src then .ok sets
      else .ok (Function.update (Function.update sets dst (sets src)) src Bitset.moved)
  | .copy dst src => store sets dst (.ok (sets src).copy)

section Vectors

variable {size : Nat}

def put (vs : Nat → Option (Vector Bool size)) (dst : Nat) (result : Option (Vector Bool size)) :
    Option (Nat → Option (Vector Bool size)) :=
  result.map fun v => Function.update vs dst (some v)

def changeAt (idx : Nat) (change : Bool → Bool) (v : Vector Bool size) :
    Option (Vector Bool size) :=
  if inside : idx < size then some (v.set idx (change v[idx])) else none

def combine (op : Bool → Bool → Bool) (v w : Option (Vector Bool size)) :
    Option (Vector Bool size) :=
  v.bind fun v => w.map fun w => v.zipWith op w

def vectorStep (vs : Nat → Option (Vector Bool size)) :
    Op → Option (Nat → Option (Vector Bool size))
  | .set dst idx value => put vs dst ((vs dst).bind (changeAt idx fun _ => value))
  | .setAll dst => put vs dst ((vs dst).map fun _ => .replicate size true)
  | .reset dst idx => put vs dst ((vs dst).bind (changeAt idx fun _ => false))
  | .resetAll dst => put vs dst ((vs dst).map fun _ => .replicate size false)
  | .flip dst idx => put vs dst ((vs dst).bind (changeAt idx (!·)))
  | .flipAll dst => put vs dst ((vs dst).map (·.map (!·)))
  | .and dst src => put vs dst (combine (· && ·) (vs dst) (vs src))
  | .or dst src => put vs dst (combine (· || ·) (vs dst) (vs src))
  | .xor dst src => put vs dst (combine (· ^^ ·) (vs dst) (vs src))
  | .not dst src => put vs dst ((vs src).map (·.map (!·)))
  | .assign dst src => put vs dst (vs src)
  | .move dst src =>
      if dst = src then (vs src).map fun _ => vs
      else (put vs dst (vs src)).map fun vs => Function.update vs src none
  | .copy dst src => put vs dst (vs src)

def Represents (b : Bitset) (v : Vector Bool size) : Prop :=
  b.Holds size fun i => v[i]?.getD false

structure Agrees (b : Bitset) (v : Vector Bool size) : Prop where
  test : ∀ idx (inside : idx < size), b.test idx = .ok v[idx]
  all : b.all = .ok (v.all id)
  any : b.any = v.any id
  none : b.none = !v.any id
  count : b.count = v.count true

def Models (sets : Nat → Bitset) (vs : Nat → Option (Vector Bool size)) : Prop :=
  ∀ var v, vs var = some v → Represents (sets var) v

variable {b b' : Bitset} {v w : Vector Bool size} {f : Nat → Bool} {sets : Nat → Bitset}
  {vs vs' : Nat → Option (Vector Bool size)}

theorem Represents.of_holds (h : b.Holds size f) (same : ∀ i (inside : i < size), f i = v[i]) :
    Represents b v := by
  apply h.congr
  intro i inside
  rw [same i inside, Vector.getElem?_eq_getElem inside, Option.getD_some]

theorem map_range_eq_toList :
    (List.range size).map (fun i => v[i]?.getD false) = v.toList := by
  apply List.ext_getElem
  · simp
  · intro i inside _
    simp at inside
    simp [inside]

theorem Represents.agrees (rep : Represents b v) (positive : 0 < size) : Agrees b v := by
  have any : b.any = v.any id := by
    rw [Bitset.Holds.any rep, ← Vector.any_toList, ← map_range_eq_toList, List.any_map]
    rfl
  constructor
  case test =>
    intro idx inside
    rw [Bitset.Holds.test rep inside, Vector.getElem?_eq_getElem inside, Option.getD_some]
  case all =>
    rw [Bitset.Holds.all rep positive, ← Vector.all_toList, ← map_range_eq_toList, List.all_map]
    rfl
  case any => exact any
  case none => rw [← any, Bitset.any, Bool.not_not]
  case count =>
    rw [Bitset.Holds.count rep, ← Vector.count_toList, ← map_range_eq_toList, List.count,
      List.countP_map]
    apply List.countP_congr
    simp

theorem represents_new : Represents (Bitset.new size) (Vector.replicate size false) :=
  .of_holds (Bitset.new_holds size) fun _ inside => (Vector.getElem_replicate inside).symm

theorem Represents.changeAt {change : Bool → Bool} {idx : Nat} {result : Except Fault Bitset}
    (step : idx < size → ∃ b', result = .ok b' ∧ b'.Holds size (Function.update
      (fun i => v[i]?.getD false) idx (change (v[idx]?.getD false))))
    (changed : changeAt idx change v = some w) : ∃ b', result = .ok b' ∧ Represents b' w := by
  obtain ⟨inside, made⟩ := Option.dite_none_right_eq_some.1 changed
  obtain rfl := Option.some.inj made
  obtain ⟨b', run, holds⟩ := step inside
  refine ⟨b', run, .of_holds holds fun i hi => ?_⟩
  rw [Vector.getElem_set, Vector.getElem?_eq_getElem inside, Option.getD_some]
  by_cases same : i = idx
  · simp [same]
  · rw [Function.update_of_ne same, if_neg (Ne.symm same), Vector.getElem?_eq_getElem hi,
      Option.getD_some]

theorem Represents.map {op : Bool → Bool} {result : Except Fault Bitset}
    (step : ∃ b', result = .ok b' ∧ b'.Holds size fun i => op (v[i]?.getD false)) :
    ∃ b', result = .ok b' ∧ Represents b' (v.map op) := by
  obtain ⟨b', run, holds⟩ := step
  refine ⟨b', run, .of_holds holds fun i hi => ?_⟩
  rw [Vector.getElem_map, Vector.getElem?_eq_getElem hi, Option.getD_some]

theorem Represents.zipWith {op : Bool → Bool → Bool} {result : Except Fault Bitset}
    (step : ∃ b', result = .ok b' ∧
      b'.Holds size fun i => op (v[i]?.getD false) (w[i]?.getD false)) :
    ∃ b', result = .ok b' ∧ Represents b' (v.zipWith op w) := by
  obtain ⟨b', run, holds⟩ := step
  refine ⟨b', run, .of_holds holds fun i hi => ?_⟩
  rw [Vector.getElem_zipWith, Vector.getElem?_eq_getElem hi, Vector.getElem?_eq_getElem hi,
    Option.getD_some, Option.getD_some]

theorem Represents.copy (rep : Represents b v) : Represents b.copy v := Bitset.Holds.copy rep

theorem Models.update {dst : Nat} (models : Models sets vs) (rep : Represents b v) :
    Models (Function.update sets dst b) (Function.update vs dst (some v)) := by
  intro var w stands
  by_cases same : var = dst
  · rw [same, Function.update_self] at stands ⊢
    obtain rfl := Option.some.inj stands
    exact rep
  · rw [Function.update_of_ne same] at stands ⊢
    exact models var w stands

theorem Models.forget {src : Nat} (models : Models sets vs) :
    Models (Function.update sets src b) (Function.update vs src none) := by
  intro var v stands
  by_cases same : var = src
  · rw [same, Function.update_self] at stands
    cases stands
  · rw [Function.update_of_ne same] at stands ⊢
    exact models var v stands

theorem combine_eq_some {op : Bool → Bool → Bool} {left right : Option (Vector Bool size)}
    {result : Vector Bool size} (made : combine op left right = some result) :
    ∃ v, left = some v ∧ ∃ w, right = some w ∧ result = v.zipWith op w := by
  obtain ⟨v, hleft, rest⟩ := Option.bind_eq_some_iff.1 made
  obtain ⟨w, hright, hresult⟩ := Option.map_eq_some_iff.1 rest
  exact ⟨v, hleft, w, hright, hresult.symm⟩

theorem Models.store {dst : Nat} {result : Except Fault Bitset}
    {vector : Option (Vector Bool size)} (models : Models sets vs)
    (run : put vs dst vector = some vs')
    (step : ∀ v, vector = some v → ∃ b, result = .ok b ∧ Represents b v) :
    ∃ sets', store sets dst result = .ok sets' ∧ Models sets' vs' := by
  obtain ⟨v, made, rfl⟩ := Option.map_eq_some_iff.1 run
  obtain ⟨b, rfl, rep⟩ := step v made
  exact ⟨_, rfl, models.update rep⟩

theorem Models.step {op : Op} (positive : 0 < size) (models : Models sets vs)
    (run : vectorStep vs op = some vs') :
    ∃ sets', step sets op = .ok sets' ∧ Models sets' vs' := by
  cases op with
  | set dst idx value =>
      refine models.store run fun w made => ?_
      obtain ⟨v, stands, changed⟩ := Option.bind_eq_some_iff.1 made
      exact Represents.changeAt (fun inside => (models dst v stands).setTo inside value) changed
  | setAll dst =>
      refine models.store run fun w made => ?_
      obtain ⟨v, stands, rfl⟩ := Option.map_eq_some_iff.1 made
      obtain ⟨b, all, holds⟩ := (models dst v stands).setAll positive
      exact ⟨b, all, .of_holds holds fun i inside => (Vector.getElem_replicate inside).symm⟩
  | reset dst idx =>
      refine models.store run fun w made => ?_
      obtain ⟨v, stands, changed⟩ := Option.bind_eq_some_iff.1 made
      exact Represents.changeAt (fun inside => (models dst v stands).reset inside) changed
  | resetAll dst =>
      refine models.store run fun w made => ?_
      obtain ⟨v, stands, rfl⟩ := Option.map_eq_some_iff.1 made
      have holds := (models dst v stands).resetAll
      exact ⟨_, rfl, .of_holds holds fun i inside => (Vector.getElem_replicate inside).symm⟩
  | flip dst idx =>
      refine models.store run fun w made => ?_
      obtain ⟨v, stands, changed⟩ := Option.bind_eq_some_iff.1 made
      exact Represents.changeAt (fun inside => (models dst v stands).flipBit inside) changed
  | flipAll dst =>
      refine models.store run fun w made => ?_
      obtain ⟨v, stands, rfl⟩ := Option.map_eq_some_iff.1 made
      exact Represents.map ((models dst v stands).flip positive)
  | and dst src =>
      refine models.store run fun result made => ?_
      obtain ⟨v, left, w, right, rfl⟩ := combine_eq_some made
      exact Represents.zipWith ((models dst v left).and (models src w right))
  | or dst src =>
      refine models.store run fun result made => ?_
      obtain ⟨v, left, w, right, rfl⟩ := combine_eq_some made
      exact Represents.zipWith ((models dst v left).or (models src w right))
  | xor dst src =>
      refine models.store run fun result made => ?_
      obtain ⟨v, left, w, right, rfl⟩ := combine_eq_some made
      exact Represents.zipWith ((models dst v left).xor (models src w right))
  | not dst src =>
      refine models.store run fun w made => ?_
      obtain ⟨v, stands, rfl⟩ := Option.map_eq_some_iff.1 made
      exact Represents.map ((models src v stands).not positive)
  | assign dst src =>
      by_cases same : dst = src
      · obtain ⟨v, stands, rfl⟩ := Option.map_eq_some_iff.1 run
        refine ⟨sets, if_pos same, ?_⟩
        rw [same, ← stands, Function.update_eq_self]
        exact models
      · rw [BitVectors.step, if_neg same]
        exact models.store run fun v stands => ⟨_, rfl, (models src v stands).copy⟩
  | move dst src =>
      by_cases same : dst = src
      · rw [vectorStep, if_pos same] at run
        obtain ⟨v, -, rfl⟩ := Option.map_eq_some_iff.1 run
        exact ⟨sets, if_pos same, models⟩
      · rw [vectorStep, if_neg same] at run
        obtain ⟨mid, first, rfl⟩ := Option.map_eq_some_iff.1 run
        obtain ⟨v, stands, rfl⟩ := Option.map_eq_some_iff.1 first
        -- the bytes change hands, and nothing is known of the set they come from
        refine ⟨_, if_neg same, ?_⟩
        exact (models.update (models src v stands)).forget
  | copy dst src =>
      exact models.store run fun v stands => ⟨_, rfl, (models src v stands).copy⟩

theorem Models.run {ops : List Op} (positive : 0 < size) (models : Models sets vs)
    (run : ops.foldlM vectorStep vs = some vs') :
    ∃ sets', ops.foldlM BitVectors.step sets = .ok sets' ∧ Models sets' vs' := by
  induction ops generalizing sets vs with
  | nil =>
      obtain rfl := Option.some.inj run
      exact ⟨sets, rfl, models⟩
  | cons op rest ih =>
      rw [List.foldlM_cons] at run
      obtain ⟨mid, first, later⟩ := Option.bind_eq_some_iff.1 run
      obtain ⟨sets₁, stepped, models₁⟩ := models.step positive first
      obtain ⟨sets₂, done, models₂⟩ := ih models₁ later
      refine ⟨sets₂, ?_, models₂⟩
      rw [List.foldlM_cons, stepped, ok_bind, done]

/-- Variables that start as new sets of one size: as long as the operations have a meaning for
vectors, the sets go through them and agree with the vectors on every question. -/
theorem sets_agree {ops : List Op} (positive : 0 < size)
    (run : ops.foldlM vectorStep (fun _ => some (Vector.replicate size false)) = some vs) :
    ∃ sets, ops.foldlM step (fun _ => Bitset.new size) = .ok sets ∧
      ∀ var v, vs var = some v → Agrees (sets var) v := by
  have start : Models (fun _ => Bitset.new size)
      (fun _ => some (Vector.replicate size false)) := by
    rintro var v stands
    obtain rfl := Option.some.inj stands
    exact represents_new
  obtain ⟨sets, done, models⟩ := start.run positive run
  exact ⟨sets, done, fun var v stands => (models var v stands).agrees positive⟩

end Vectors

private def mixed : List Op :=
  [.setAll 0, .reset 0 3, .flip 1 10, .not 2 0, .xor 2 1, .move 3 2, .assign 2 3, .flipAll 2,
    .and 0 2, .or 0 1]

/-- Two bytes, of which the second has three places. -/
theorem sets_agree_eleven :
    ∃ sets, mixed.foldlM step (fun _ => Bitset.new 11) = .ok sets ∧
      Agrees (sets 0) #v[true, true, true, false, true, true, true, true, true, true, true] := by
  have ends : (mixed.foldlM vectorStep fun _ => some (Vector.replicate 11 false)).map (· 0) =
      some (some #v[true, true, true, false, true, true, true, true, true, true, true]) := by
    decide +kernel
  obtain ⟨vs, run, stands⟩ := Option.map_eq_some_iff.1 ends
  obtain ⟨sets, done, agrees⟩ := sets_agree (by decide) run
  exact ⟨sets, done, agrees 0 _ stands⟩

end SimpleSSD.BitVectors
