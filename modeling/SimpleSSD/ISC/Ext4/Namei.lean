import Mathlib.Data.List.TakeWhile
import SimpleSSD.ISC.Ext4.NameCache

/-!
# Paths

`Ext4::namei`.  A path is walked component by component, by a pointer that goes from slash to
slash up to the NUL.  A string is the list of its characters, with a NUL behind the last.
-/

namespace SimpleSSD.ISC.Ext4.Path

open SimpleSSD.Foundation

/-- What is done with a cache of names, and may fail or take forever. -/
abbrev Searching := StateT LRURegion (ExceptT Fault Option)

def ROOT_INO : UInt64 := 2

def slash : UInt8 := 47

def dot : UInt8 := 46

def lengthFirst (comp : List UInt8) : Nat :=
  (comp.takeWhile fun c => c ≠ 0 ∧ c ≠ slash).length

theorem length_behind {comp : List UInt8}
    (some : lengthFirst (comp.dropWhile (· = slash)) ≠ 0) :
    ((comp.dropWhile (· = slash)).drop (lengthFirst (comp.dropWhile (· = slash)))).length <
      comp.length := by
  have shorter := (List.dropWhile_suffix (· = slash) (l := comp)).length_le
  have inside := (List.takeWhile_prefix (fun c => c ≠ 0 ∧ c ≠ slash)
    (l := comp.dropWhile (· = slash))).length_le
  rw [List.length_drop]
  unfold lengthFirst at some ⊢
  omega

/-- The loop over the components from `comp` on. -/
def walk (dirSearchFile : List UInt8 → UInt64 → Searching UInt64)
    (getParentInode : UInt64 → Searching UInt64) (comp : List UInt8) (inoComp : UInt64) :
    Searching UInt64 :=
  let comp' := comp.dropWhile (· = slash)
  if comp'.headD 0 = 0 then pure inoComp
  else
    let clen := lengthFirst comp'
    -- an `int`
    if 2 ^ 31 ≤ clen then throw .undefined
    else if clen = 0 then throw (.panic "clen > 0")
    else if clen < 2 ∧ comp'.headD 0 = dot then
      -- never a component of two characters
      if clen = 2 then do
        let inoComp ← getParentInode inoComp
        walk dirSearchFile getParentInode (comp'.drop clen) inoComp
      else walk dirSearchFile getParentInode (comp'.drop clen) inoComp
    else do
      let inoComp ← dirSearchFile (comp'.take clen) inoComp
      if inoComp = ERROR_INO then pure inoComp
      else walk dirSearchFile getParentInode (comp'.drop clen) inoComp
termination_by comp.length
decreasing_by
  all_goals exact length_behind ‹_›

def searchDir (vol : Volume) (frames fuel : Nat) (comp : List UInt8) (ino : UInt64) :
    Searching UInt64 := dirSearchFile vol frames fuel comp ino

def namei (vol : Volume) (frames fuel : Nat) (getParentInode : UInt64 → Searching UInt64)
    (p : List UInt8) : Searching UInt64 :=
  walk (searchDir vol frames fuel) getParentInode (p.dropWhile (· = slash)) ROOT_INO

/-! ## Components -/

def components (p : List UInt8) : List (List UInt8) :=
  (p.splitOn slash).filter fun comp => comp ≠ [] ∧ comp ≠ [dot]

def follow (dirSearchFile : List UInt8 → UInt64 → Searching UInt64) (inoComp : UInt64)
    (comp : List UInt8) : Searching UInt64 :=
  if inoComp = ERROR_INO then pure ERROR_INO else dirSearchFile comp inoComp

theorem components_append (a b : List UInt8) :
    components (a ++ slash :: b) = components a ++ components b := by
  rw [components, List.splitOn_append_cons_self, List.filter_append]
  rfl

theorem components_nil : components [] = [] := rfl

theorem components_slash (p : List UInt8) : components (slash :: p) = components p :=
  components_append [] p

theorem components_word {comp : List UInt8} (whole : slash ∉ comp) :
    components comp = if comp ≠ [] ∧ comp ≠ [dot] then [comp] else [] := by
  rw [components, List.splitOn_eq_singleton whole, List.filter_singleton]
  simp

theorem components_split {a b : List UInt8} (apart : b.headD slash = slash) :
    components (a ++ b) = components a ++ components b := by
  cases b with
  | nil => rw [components_nil, List.append_nil, List.append_nil]
  | cons c rest =>
      obtain rfl : c = slash := apart
      rw [components_append, components_slash]

theorem cstr_append {a : List UInt8} (nul : 0 ∉ a) (b : List UInt8) :
    cstr (a ++ b) = a ++ cstr b :=
  List.takeWhile_append_of_pos fun c hc => decide_eq_true fun h : c = 0 => nul (h ▸ hc)

theorem cstr_append_of_mem {a : List UInt8} (nul : 0 ∈ a) (b : List UInt8) :
    cstr (a ++ b) = cstr a := by
  induction a with
  | nil => cases nul
  | cons c rest ih =>
      rw [List.cons_append, cstr_cons, cstr_cons]
      by_cases first : c = 0
      · rw [if_pos first, if_pos first]
      · rw [if_neg first, if_neg first, ih (List.mem_of_ne_of_mem (Ne.symm first) nul)]

theorem cstr_nil : cstr [] = [] := rfl

theorem cstr_slash (s : List UInt8) : cstr (slash :: s) = slash :: cstr s :=
  (cstr_cons slash s).trans (if_neg (by decide))

theorem cstr_dot (s : List UInt8) : cstr (dot :: s) = dot :: cstr s :=
  (cstr_cons dot s).trans (if_neg (by decide))

theorem components_dot (s : List UInt8) : components (dot :: slash :: s) = components s :=
  components_append [dot] s

theorem components_dropSlashes (p : List UInt8) :
    components (cstr (p.dropWhile (· = slash))) = components (cstr p) := by
  induction p with
  | nil => rfl
  | cons c rest ih =>
      by_cases h : c = slash
      · rw [List.dropWhile_cons_of_pos (by simpa using h), ih, cstr_cons, h,
          if_neg (by decide), components_slash]
      · rw [List.dropWhile_cons_of_neg (by simpa using h)]

/-! ## The walk -/

section Walk

variable {search : List UInt8 → UInt64 → Searching UInt64}
  {getParentInode : UInt64 → Searching UInt64}

theorem foldlM_follow_error (comps : List (List UInt8)) :
    comps.foldlM (follow search) ERROR_INO = pure ERROR_INO := by
  induction comps with
  | nil => rfl
  | cons comp rest ih => rw [List.foldlM_cons, follow, if_pos rfl, pure_bind, ih]

theorem foldlM_follow_cons (comp : List UInt8) (rest : List (List UInt8)) {inoComp : UInt64}
    (found : inoComp ≠ ERROR_INO) :
    (comp :: rest).foldlM (follow search) inoComp =
      search comp inoComp >>= fun inoComp => rest.foldlM (follow search) inoComp := by
  rw [List.foldlM_cons, follow, if_neg found]

/-- Behind its slashes a string begins with the component `first`, and `rest` is behind that. -/
structure Begins (comp first rest : List UInt8) : Prop where
  split : comp.dropWhile (· = slash) = first ++ rest
  length : first.length = lengthFirst (comp.dropWhile (· = slash))
  nul : 0 ∉ first
  whole : slash ∉ first
  apart : (cstr rest).headD slash = slash

theorem exists_begins (comp : List UInt8) : ∃ first rest, Begins comp first rest := by
  refine ⟨(comp.dropWhile (· = slash)).takeWhile fun c => c ≠ 0 ∧ c ≠ slash,
    (comp.dropWhile (· = slash)).dropWhile fun c => c ≠ 0 ∧ c ≠ slash,
    List.takeWhile_append_dropWhile.symm, rfl, fun h => ?_, fun h => ?_, ?_⟩
  · simpa using List.mem_takeWhile_imp h
  · simpa using List.mem_takeWhile_imp h
  · generalize comp.dropWhile (· = slash) = comp
    cases behind : comp.dropWhile fun c => c ≠ 0 ∧ c ≠ slash with
    | nil => rfl
    | cons c rest =>
        have stops := List.head?_dropWhile_not (fun c => decide (c ≠ 0 ∧ c ≠ slash)) comp
        rw [behind] at stops
        by_cases nul : c = 0
        · rw [cstr_cons, if_pos nul]
          rfl
        · rw [cstr_cons, if_neg nul]
          simpa [nul] using stops

theorem headD_of_empty {comp : List UInt8}
    (none : lengthFirst (comp.dropWhile (· = slash)) = 0) :
    (comp.dropWhile (· = slash)).headD 0 = 0 := by
  cases rest : comp.dropWhile (· = slash) with
  | nil => rfl
  | cons c rest' =>
      have stops := List.head?_dropWhile_not (fun c => decide (c = slash)) comp
      rw [rest] at none stops
      have apart : c ≠ slash := by simpa using stops
      by_contra nul
      have nul : c ≠ 0 := nul
      rw [lengthFirst, List.takeWhile_cons_of_pos (by simp [nul, apart])] at none
      cases none

theorem cstr_of_headD {s : List UInt8} (nul : s.headD 0 = 0) : cstr s = [] := by
  cases s with
  | nil => rfl
  | cons c rest => exact (cstr_cons c rest).trans (if_pos nul)

namespace Begins

variable {comp first rest : List UInt8} (begins : Begins comp first rest)

include begins

theorem components : components (cstr comp) = components first ++ components (cstr rest) := by
  rw [← components_dropSlashes, begins.split, cstr_append begins.nul, components_split begins.apart]

theorem rest_eq : (comp.dropWhile (· = slash)).drop first.length = rest := by
  rw [begins.split, List.drop_left]

theorem shorter (some : first ≠ []) : rest.length < comp.length := by
  have more : lengthFirst (comp.dropWhile (· = slash)) ≠ 0 := by
    rw [← begins.length]
    exact (List.length_pos_iff.2 some).ne'
  have behind := length_behind more
  rwa [← begins.length, begins.rest_eq] at behind

theorem cstr_of_nil (empty : first = []) : cstr rest = [] := by
  have ends := headD_of_empty (begins.length.symm.trans (List.length_eq_zero_iff.2 empty))
  rw [begins.split, empty, List.nil_append] at ends
  exact cstr_of_headD ends

theorem walk (inoComp : UInt64) : walk search getParentInode comp inoComp =
    if first = [] then pure inoComp
    else if 2 ^ 31 ≤ first.length then throw .undefined
    else if first = [dot] then Path.walk search getParentInode rest inoComp
    else search first inoComp >>= fun inoComp =>
      if inoComp = ERROR_INO then pure inoComp
      else Path.walk search getParentInode rest inoComp := by
  have take : (comp.dropWhile (· = slash)).take first.length = first := by
    rw [begins.split, List.take_left]
  rw [Path.walk]
  dsimp only
  rw [← begins.length, take, begins.rest_eq]
  cases first with
  | nil =>
      rw [if_pos (headD_of_empty begins.length.symm), if_pos rfl]
  | cons c tail =>
      have head : (comp.dropWhile (· = slash)).headD 0 = c := by
        rw [begins.split]
        rfl
      have some : c ≠ 0 := fun h => begins.nul (h ▸ List.mem_cons_self)
      have single : (c :: tail).length < 2 ∧ c = dot ↔ c :: tail = [dot] := by
        rw [List.length_cons, Nat.succ_lt_succ_iff, Nat.lt_one_iff, List.length_eq_zero_iff,
          List.cons.injEq, and_comm]
      rw [head, if_neg some, if_neg (List.cons_ne_nil c tail)]
      refine if_congr Iff.rfl rfl ?_
      rw [if_neg (by simp), if_congr single rfl rfl]
      refine if_ctx_congr Iff.rfl (fun here => ?_) fun _ => rfl
      rw [here]
      exact if_neg (by decide)

end Begins

theorem walk_eq
    (long : ∀ comp ino, 2 ^ 31 ≤ comp.length → search comp ino = throw .undefined)
    (comp : List UInt8) {inoComp : UInt64} (found : inoComp ≠ ERROR_INO) :
    walk search getParentInode comp inoComp =
      (components (cstr comp)).foldlM (follow search) inoComp := by
  induction size : comp.length using Nat.strong_induction_on generalizing comp inoComp with
  | h n ih =>
    obtain ⟨first, rest, begins⟩ := exists_begins comp
    rw [begins.walk, begins.components, components_word begins.whole]
    by_cases empty : first = []
    · rw [if_pos empty, if_neg fun named => named.1 empty, begins.cstr_of_nil empty]
      rfl
    · have later : ∀ ino, ino ≠ ERROR_INO → walk search getParentInode rest ino =
          (components (cstr rest)).foldlM (follow search) ino := fun ino found =>
        ih _ (size ▸ begins.shorter empty) rest found rfl
      rw [if_neg empty]
      by_cases here : first = [dot]
      · rw [here, if_neg (by decide), if_pos rfl, if_neg (by decide)]
        exact later _ found
      · rw [if_neg here, if_pos (And.intro empty here), List.singleton_append,
          foldlM_follow_cons _ _ found]
        by_cases overflow : 2 ^ 31 ≤ first.length
        · rw [if_pos overflow, long _ _ overflow]
          rfl
        · rw [if_neg overflow]
          refine bind_congr fun inoComp => ?_
          by_cases lost : inoComp = ERROR_INO
          · rw [if_pos lost, lost, foldlM_follow_error]
          · rw [if_neg lost, later _ lost]

end Walk

/-! ## Every path -/

section Paths

variable (vol : Volume) (frames fuel : Nat) (getParentInode : UInt64 → Searching UInt64)

theorem searchDir_long (comp : List UInt8) (ino : UInt64) (long : 2 ^ 31 ≤ comp.length) :
    searchDir vol frames fuel comp ino = throw .undefined := by
  have overflow : szKey2 < comp.length := lt_of_lt_of_le (by decide) long
  funext nameiCache
  rw [searchDir, dirSearchFile, NameiNode.new, if_pos overflow]
  rfl

theorem namei_eq (p : List UInt8) :
    namei vol frames fuel getParentInode p =
      (components (cstr p)).foldlM (follow (searchDir vol frames fuel)) ROOT_INO := by
  rw [namei, walk_eq (searchDir_long vol frames fuel) _ (by decide), components_dropSlashes]

variable {vol frames fuel getParentInode}

theorem namei_congr {p q : List UInt8} (same : components (cstr p) = components (cstr q)) :
    namei vol frames fuel getParentInode p = namei vol frames fuel getParentInode q := by
  rw [namei_eq, namei_eq, same]

theorem namei_append_congr {b b' : List UInt8}
    (same : ∀ a, components (a ++ cstr b) = components (a ++ cstr b')) (a : List UInt8) :
    namei vol frames fuel getParentInode (a ++ b) =
      namei vol frames fuel getParentInode (a ++ b') := by
  apply namei_congr
  by_cases nul : 0 ∈ a
  · rw [cstr_append_of_mem nul, cstr_append_of_mem nul]
  · rw [cstr_append nul, cstr_append nul, same]

/-- A path is followed component by component, up to the first that is not found.  More slashes
and components that are a dot make no difference. -/
theorem namei_components (p : List UInt8) :
    namei vol frames fuel getParentInode p =
        (components (cstr p)).foldlM (follow (searchDir vol frames fuel)) ROOT_INO ∧
      namei vol frames fuel getParentInode (slash :: p) =
        namei vol frames fuel getParentInode p ∧
      namei vol frames fuel getParentInode (p ++ [slash]) =
        namei vol frames fuel getParentInode p ∧
      (∀ q, namei vol frames fuel getParentInode (p ++ slash :: slash :: q) =
        namei vol frames fuel getParentInode (p ++ slash :: q)) ∧
      (∀ q, namei vol frames fuel getParentInode (p ++ slash :: dot :: slash :: q) =
        namei vol frames fuel getParentInode (p ++ slash :: q)) ∧
      namei vol frames fuel getParentInode (dot :: slash :: p) =
        namei vol frames fuel getParentInode p ∧
      namei vol frames fuel getParentInode (p ++ [slash, dot]) =
        namei vol frames fuel getParentInode p := by
  refine ⟨namei_eq vol frames fuel _ p, namei_congr ?_, ?_, fun q => ?_, fun q => ?_,
    namei_congr ?_, ?_⟩
  · rw [cstr_slash, components_slash]
  · nth_rewrite 2 [← List.append_nil p]
    refine namei_append_congr (fun a => ?_) p
    rw [cstr_slash, components_append, cstr_nil, components_nil, List.append_nil, List.append_nil]
  · refine namei_append_congr (fun a => ?_) p
    rw [cstr_slash, cstr_slash, components_append, components_append, components_slash]
  · refine namei_append_congr (fun a => ?_) p
    rw [cstr_slash, cstr_dot, cstr_slash, components_append, components_append, components_dot]
  · rw [cstr_dot, cstr_slash, components_dot]
  · nth_rewrite 2 [← List.append_nil p]
    refine namei_append_congr (fun a => ?_) p
    rw [cstr_slash, cstr_dot, components_append, cstr_nil, List.append_nil]
    exact List.append_nil _

end Paths

end SimpleSSD.ISC.Ext4.Path
