import SimpleSSD.ISC.Ext4.Directory

/-!
# The cache of names

The cells hold their nodes, and the comparison tells the nodes of different names in a
directory apart.
-/

namespace SimpleSSD.ISC.Ext4

open SimpleSSD.Foundation

/-! ## Characters -/

theorem cstr_cons (c : UInt8) (s : List UInt8) :
    cstr (c :: s) = if c = 0 then [] else c :: cstr s := by
  by_cases nul : c = 0 <;> simp [cstr, nul]

theorem cstr_append_zeros {s : List UInt8} (h : 0 ∉ s) (n : Nat) :
    cstr (s ++ List.replicate n 0) = s := by
  induction s with
  | nil => cases n <;> simp [cstr, List.replicate_succ]
  | cons c rest ih =>
      rw [List.mem_cons, not_or] at h
      rw [List.cons_append, cstr_cons, if_neg (Ne.symm h.1), ih h.2]

theorem cstr_of_ne_zero {s : List UInt8} (h : 0 ∉ s) : cstr s = s := by
  have zeros := cstr_append_zeros h 0
  rwa [List.replicate_zero, List.append_nil] at zeros

theorem strncmp_eq_zero_iff {n : Nat} {a b : List UInt8} (ha : n ≤ a.length) (hb : n ≤ b.length) :
    strncmp n a b = 0 ↔ cstr (a.take n) = cstr (b.take n) := by
  induction n generalizing a b with
  | zero => simp [strncmp]
  | succ n ih =>
      match a, b, ha, hb with
      | x :: as, y :: bs, ha, hb =>
          rw [strncmp, List.take_succ_cons, List.take_succ_cons, cstr_cons, cstr_cons]
          by_cases same : x = y
          · subst same
            by_cases nul : x = 0
            · simp [nul]
            · simp [nul, ih (Nat.le_of_succ_le_succ ha) (Nat.le_of_succ_le_succ hb)]
          · have apart : x.toNat ≠ y.toNat := fun h => same (UInt8.toNat.inj h)
            have differ : (x.toNat : Int) - y.toNat ≠ 0 := by omega
            rw [if_pos same]
            simp only [differ, false_iff]
            by_cases nul : x = 0
            · simp [nul, show ¬ y = 0 from fun h => same (nul.trans h.symm)]
            · by_cases nul' : y = 0 <;> simp [nul, nul', same]

/-! ## Cells -/

theorem leValue_of_bytes {byte : Nat → UInt8} {k n ofs : Nat}
    (h : ∀ i < k, byte (ofs + i) = .ofNat (n / 256 ^ i)) : leValue byte ofs k = n % 256 ^ k := by
  induction k generalizing n ofs with
  | zero => simp [leValue, Nat.mod_one]
  | succ k ih =>
      have first : (byte ofs).toNat = n % 256 := by
        have low := h 0 (Nat.succ_pos k)
        rw [Nat.add_zero, pow_zero, Nat.div_one] at low
        rw [low, UInt8.toNat_ofNat']
      have later : leValue byte (ofs + 1) k = n / 256 % 256 ^ k := by
        apply ih
        intro i hi
        rw [Nat.add_right_comm, Nat.add_assoc, h (i + 1) (Nat.succ_lt_succ hi), Nat.pow_succ',
          Nat.div_div_eq_div_mul]
      rw [leValue, first, later, Nat.pow_succ', Nat.mod_mul]

theorem ofNat_leValue {byte : Nat → UInt8} {n : UInt64} {ofs : Nat}
    (h : ∀ i < 8, byte (ofs + i) = leByte n i) : UInt64.ofNat (leValue byte ofs 8) = n := by
  rw [leValue_of_bytes h]
  apply UInt64.toNat.inj
  rw [UInt64.toNat_ofNat']
  have bound := n.toNat_lt
  omega

theorem NameiNode.ofCell_toCell (node : NameiNode) : ofCell node.toCell = node := by
  obtain ⟨diri, name, inode⟩ := node
  unfold ofCell
  simp only [mk.injEq]
  refine ⟨ofNat_leValue fun i hi => ?_, funext fun i => ?_, ofNat_leValue fun i hi => ?_⟩
  · rw [dif_pos (show 0 + i < szNode by unfold szNode; omega), toCell]
    simp [hi]
  · have hi := i.isLt
    rw [dif_pos (show 8 + i.val < szNode by unfold szNode; omega), toCell]
    simp
  · rw [dif_pos (show 8 + szKey2 + i < szNode by unfold szNode; omega), toCell,
      if_neg (by simp; omega), dif_neg (by simp; omega), Nat.add_sub_cancel_left]

/-! ## Keys -/

def NameiNode.key (node : NameiNode) : UInt64 × List UInt8 :=
  (node.diri, cstr ((List.ofFn node.name).take 255))

theorem NameiNode.cmp_eq_zero_iff (a b : NameiNode) : a.cmp b = 0 ↔ a.key = b.key := by
  have long : ∀ name : Fin szKey2 → UInt8, 255 ≤ (List.ofFn name).length := by
    intro name
    rw [List.length_ofFn]
    decide
  have names := strncmp_eq_zero_iff (long a.name) (long b.name)
  unfold cmp key
  rw [Prod.mk.injEq, ← names]
  by_cases same : a.diri = b.diri
  · simp [same]
  · by_cases lt : a.diri < b.diri <;> simp [same, lt]

theorem namei_cmp (cell : Fin szNode → UInt8) (dat : NameiNode) :
    namei.cmp cell dat = 0 ↔ (NameiNode.ofCell cell).key = dat.key := by
  simp only [namei, NameiNode.cmp_eq_zero_iff]

def nameiFormat : Format NameiNode (UInt64 × List UInt8) UInt64 where
  toRegion := namei
  key := NameiNode.key
  value := NameiNode.inode
  keyAt cell := (NameiNode.ofCell cell).key
  valueAt cell := (NameiNode.ofCell cell).inode
  cmp_eq_zero := namei_cmp
  keyAt_cpin _ dat := congrArg NameiNode.key dat.ofCell_toCell
  valueAt_cpin _ dat := congrArg NameiNode.inode dat.ofCell_toCell
  key_cpout _ _ := rfl
  value_cpout _ _ := rfl

def nodeOf (di : UInt64) (n : List UInt8) (ino : UInt64) : NameiNode :=
  ⟨di, fun i => n.getD i 0, ino⟩

theorem NameiNode.new_eq {n : List UInt8} {nl : Nat} (short : nl ≤ szKey2) (di ino : UInt64) :
    NameiNode.new di n nl ino = .ok (nodeOf di n ino) := if_neg (by omega)

theorem nodeOf_key_take {n : List UInt8} (nul : 0 ∉ n) (di ino : UInt64) :
    (nodeOf di n ino).key = (di, n.take 255) := by
  have padded : (List.ofFn fun i : Fin szKey2 => n.getD i 0).take 255 =
      n.take 255 ++ List.replicate (255 - n.length) 0 := by
    apply List.ext_getElem
    · rw [List.length_take, List.length_ofFn, List.length_append, List.length_replicate,
        List.length_take, szKey2]
      omega
    · intro i h _
      have lt : i < 255 := by
        rw [List.length_take] at h
        omega
      rw [List.getElem_take, List.getElem_ofFn]
      by_cases inside : i < n.length
      · rw [List.getElem_append_left (by rw [List.length_take]; omega)]
        simp [inside]
      · rw [List.getElem_append_right (by rw [List.length_take]; omega)]
        simp [inside]
  have nulTake : 0 ∉ n.take 255 := fun h => nul (List.mem_of_mem_take h)
  unfold NameiNode.key nodeOf
  dsimp only
  rw [padded, cstr_append_zeros nulTake]

theorem nodeOf_key {n : List UInt8} (nul : 0 ∉ n) (short : n.length ≤ 255) (di ino : UInt64) :
    (nodeOf di n ino).key = (di, n) := by
  rw [nodeOf_key_take nul, List.take_of_length_le short]

/-! ## Accesses -/

section Accesses

variable {nameiCache : LRURegion} {accesses : List (LRURegion.Access NameiNode)}

theorem inv_of_run (run : LRURegion.run namei accesses = .ok nameiCache) :
    LRURegion.Inv nameiFormat accesses.reverse nameiCache := by
  obtain ⟨same, run', inv⟩ := LRURegion.run_total (show 0 < nameiFormat.nmem by decide)
    (show 0 < nameiFormat.unit by decide) accesses
  obtain rfl := Except.ok.inj (run'.symm.trans run)
  exact inv

theorem run_write (run : LRURegion.run namei accesses = .ok nameiCache) (dat : NameiNode) :
    ∃ nameiCache', nameiCache.write namei dat = .ok (0, nameiCache') ∧
      LRURegion.run namei (accesses ++ [.write dat]) = .ok nameiCache' := by
  obtain ⟨nameiCache', written, -⟩ : ∃ nameiCache',
      nameiCache.write namei dat = .ok (0, nameiCache') ∧
        LRURegion.Inv nameiFormat (.write dat :: accesses.reverse) nameiCache' :=
    LRURegion.write_total (inv_of_run run) (show 0 < nameiFormat.nmem by decide)
      (show 0 < nameiFormat.unit by decide) dat
  refine ⟨nameiCache', written, ?_⟩
  rw [LRURegion.run, List.foldlM_append, bind_eq_ok]
  refine ⟨nameiCache, run, ?_⟩
  rw [List.foldlM_cons, LRURegion.access, written]
  rfl

theorem run_read (run : LRURegion.run namei accesses = .ok nameiCache) (dat : NameiNode) :
    LRURegion.run namei (accesses ++ [.read dat]) = .ok (nameiCache.read namei dat).2.2 := by
  rw [LRURegion.run, List.foldlM_append, bind_eq_ok]
  exact ⟨nameiCache, run, rfl⟩

def Cached (nameiCache : LRURegion) : Prop :=
  ∃ accesses, LRURegion.run namei accesses = .ok nameiCache

theorem cached_init : Cached (LRURegion.init namei) := ⟨[], List.foldlM_nil⟩

theorem Cached.write (h : Cached nameiCache) (dat : NameiNode) :
    ∃ nameiCache', nameiCache.write namei dat = .ok (0, nameiCache') ∧ Cached nameiCache' := by
  obtain ⟨accesses, run⟩ := h
  obtain ⟨nameiCache', written, run'⟩ := run_write run dat
  exact ⟨nameiCache', written, _, run'⟩

end Accesses

end SimpleSSD.ISC.Ext4
