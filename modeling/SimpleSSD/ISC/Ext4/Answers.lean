import SimpleSSD.ISC.Ext4.DirectoryBlocks

/-!
# Answers of the cache

The loop of `dirSearchFile` puts each entry into the cache.  What the cache gives for a name is
then the last entry that has it.
-/

namespace SimpleSSD.ISC.Ext4

open SimpleSSD.Foundation

/-! ## One entry -/

section Visit

variable {buf : Buffer} {ofs next : Nat} {e : DirEntry}

theorem sameStr_eq {s tgName : List UInt8} (stands : Listed (fun i c => buf.byte i = c) ofs s)
    (inside : ofs + s.length ≤ buf.size) (nul : 0 ∉ s) (length : tgName.length = s.length) :
    buf.sameStr tgName ofs = .ok (decide (s = tgName)) := by
  induction s generalizing ofs tgName with
  | nil =>
      rw [List.length_nil, List.length_eq_zero_iff] at length
      rw [length]
      rfl
  | cons c rest ih =>
      obtain ⟨first, stands⟩ := stands
      rw [List.mem_cons, not_or] at nul
      rw [List.length_cons] at inside length
      cases tgName with
      | nil => cases length
      | cons d tgRest =>
          rw [Buffer.sameStr, if_pos (by omega), first]
          by_cases same : c = d
          · subst same
            rw [if_neg (not_not_intro rfl), if_neg (Ne.symm nul.1),
              ih stands (by omega) nul.2 (Nat.succ.inj length)]
            simp
          · rw [if_pos same]
            simp [same]

theorem EntryAt.matchName (h : EntryAt buf ofs e next) (inside : next ≤ buf.size)
    (nul : 0 ∉ e.name) (tgName : List UInt8) :
    Ext4.matchName buf tgName e.name.length (ofs + 8) = .ok (decide (e.name = tgName)) := by
  have long := h.long
  have reach := h.next
  unfold Ext4.matchName
  by_cases length : tgName.length = e.name.length
  · rw [if_pos length, sameStr_eq h.stands (by omega) nul length]
  · have differ : e.name ≠ tgName := fun same => length (same ▸ rfl)
    rw [if_neg length, decide_eq_false differ]

theorem EntryAt.short (h : EntryAt buf ofs e next) : e.name.length ≤ 255 := by
  have lt := nameLenAt_lt buf ofs
  rw [h.nameLen] at lt
  omega

/-- A visit keeps the inode of the name searched for, and puts the entry into the cache. -/
theorem EntryAt.visit (h : EntryAt buf ofs e next) (inside : next ≤ buf.size) (nul : 0 ∉ e.name)
    (tgName : List UInt8) (dirIno : UInt64) {s : Search}
    {accesses : List (LRURegion.Access NameiNode)}
    (run : LRURegion.run namei accesses = .ok s.nameiCache) :
    ∃ nameiCache', visitEntry tgName dirIno buf s ofs =
        .ok (.go ⟨if e.name = tgName then .ofNat e.inode else s.inode, nameiCache'⟩ next) ∧
      LRURegion.run namei (accesses ++ [.write (nodeOf dirIno e.name (.ofNat e.inode))]) =
        .ok nameiCache' := by
  have long := h.long
  have reach := h.next
  obtain ⟨nameiCache', written, run'⟩ := run_write run (nodeOf dirIno e.name (.ofNat e.inode))
  refine ⟨nameiCache', ?_, run'⟩
  rw [visitEntry, direntInode_eq (by omega), ok_bind, direntNameLen_eq (by omega), ok_bind,
    direntRecLen_eq (by omega), ok_bind, if_neg (by omega), h.nameLen,
    h.matchName inside nul tgName, ok_bind, str_listed h.stands (by omega),
    cstr_of_ne_zero nul, ok_bind, h.inode,
    NameiNode.new_eq (le_trans h.short (by decide)), ok_bind, written, ok_bind, reach]
  simp

end Visit

/-! ## The cache behind a scan -/

section Fill

variable {dirIno : UInt64} {seen : List DirEntry} {s : Search} {tgName : List UInt8}
  {accesses : List (LRURegion.Access NameiNode)}

def writes (dirIno : UInt64) (entries : List DirEntry) : List (LRURegion.Access NameiNode) :=
  entries.map fun e => .write (nodeOf dirIno e.name (.ofNat e.inode))

/-- What the loop has behind some entries: the last inode of the name, and the entries in the
cache. -/
structure Filled (tgName : List UInt8) (dirIno : UInt64)
    (accesses : List (LRURegion.Access NameiNode)) (seen : List DirEntry) (s : Search) :
    Prop where
  inode : s.inode = .ofNat (lastInode seen tgName)
  cache : LRURegion.run namei (accesses ++ writes dirIno seen) = .ok s.nameiCache

theorem filled_scan {buf : Buffer} {entries : List DirEntry} {nameiCache : LRURegion}
    (row : InRow buf.size (EntryAt buf) 0 entries) (nul : ∀ e ∈ entries, 0 ∉ e.name)
    (run : LRURegion.run namei accesses = .ok nameiCache) (tgName : List UInt8)
    (dirIno : UInt64) :
    ∃ fuel s, scan buf.size (visitEntry tgName dirIno buf) fuel ⟨ERROR_INO, nameiCache⟩ 0 =
        some (.ok s) ∧ Filled tgName dirIno accesses entries s := by
  have nulRow : InRow buf.size (fun ofs e next => EntryAt buf ofs e next ∧ 0 ∉ e.name) 0
      entries := row.imp fun e he ofs next h => ⟨h, nul e he⟩
  refine scan_row (Filled tgName dirIno accesses) ?_ nulRow ⟨rfl, ?_⟩
  · rintro seen s ofs e next ⟨inode, cache⟩ inside ⟨entry, nulFree⟩
    obtain ⟨nameiCache', visited, run'⟩ := entry.visit inside nulFree tgName dirIno cache
    refine ⟨_, visited, ?_, ?_⟩
    · rw [lastInode_append, inode]
      by_cases same : e.name = tgName <;> simp [same]
    · rw [writes, List.map_append, ← List.append_assoc]
      exact run'
  · rw [writes, List.map_nil, List.append_nil]
    exact run

/-- What was written last under a key, behind the entries of a directory: the last one of the
name, or what was there before. -/
theorem lastWritten_writes (history : List (LRURegion.Access NameiNode)) (di : UInt64)
    (name : List UInt8)
    (keys : ∀ e ∈ seen, (nodeOf dirIno e.name (.ofNat e.inode)).key = (dirIno, e.name)) :
    (di = dirIno ∧ LRURegion.lastWritten nameiFormat (di, name)
        ((writes dirIno seen).reverse ++ history) = some (.ofNat (lastInode seen name))) ∨
    (LRURegion.lastWritten nameiFormat (di, name) ((writes dirIno seen).reverse ++ history) =
        LRURegion.lastWritten nameiFormat (di, name) history ∧
      (LRURegion.Live nameiFormat ((writes dirIno seen).reverse ++ history) (di, name) →
        LRURegion.Live nameiFormat history (di, name))) := by
  induction seen using List.reverseRecOn with
  | nil => exact .inr ⟨rfl, id⟩
  | append_singleton seen e ih =>
      have key := keys e (List.mem_append_right _ (List.mem_singleton_self e))
      have before := ih fun e' he' => keys e' (List.mem_append_left _ he')
      have later : (writes dirIno (seen ++ [e])).reverse ++ history =
          .write (nodeOf dirIno e.name (.ofNat e.inode)) ::
            ((writes dirIno seen).reverse ++ history) := by
        simp [writes]
      have last : ∀ k, LRURegion.lastWritten nameiFormat k
          (.write (nodeOf dirIno e.name (.ofNat e.inode)) ::
            ((writes dirIno seen).reverse ++ history)) =
          if (dirIno, e.name) = k then some (.ofNat e.inode)
          else LRURegion.lastWritten nameiFormat k ((writes dirIno seen).reverse ++ history) := by
        intro k
        rw [← key]
        rfl
      rw [later, last, lastInode_append]
      by_cases same : (dirIno, e.name) = (di, name)
      · obtain ⟨rfl, rfl⟩ := Prod.mk.inj same
        exact .inl ⟨rfl, by simp⟩
      · rw [if_neg same]
        rcases before with ⟨here, held⟩ | ⟨held, live⟩
        · have differ : e.name ≠ name := fun h => same (by rw [here, h])
          exact .inl ⟨here, by rw [held, if_neg differ]⟩
        · refine .inr ⟨held, fun liveLater => live ?_⟩
          exact LRURegion.live_of_write (fun h => same (key.symm.trans h)) liveLater

end Fill

/-! ## Answers -/

/-- Whatever the cache gives for a name is the answer for the directories `dirs`. -/
def Sound (dirs : UInt64 → List DirEntry) (nameiCache : LRURegion) : Prop :=
  Cached nameiCache ∧ ∀ di (name : Name),
    (nameiCache.read namei (nodeOf di name.chars ERROR_INO)).1 ≠ -ENOENT →
      (nameiCache.read namei (nodeOf di name.chars ERROR_INO)).2.1.inode =
        .ofNat (lookup (dirs di) name.chars)

section Answers

variable {dirs : UInt64 → List DirEntry} {nameiCache : LRURegion}
  {accesses : List (LRURegion.Access NameiNode)} {dirIno : UInt64}

/-- Keys that are live have their answers as the last values. -/
def Right (dirs : UInt64 → List DirEntry) (history : List (LRURegion.Access NameiNode)) : Prop :=
  ∀ di (name : Name), LRURegion.Live nameiFormat history (di, name.chars) →
    LRURegion.lastWritten nameiFormat (di, name.chars) history =
      some (.ofNat (lookup (dirs di) name.chars))

theorem Name.key (name : Name) (di ino : UInt64) :
    nameiFormat.key (nodeOf di name.chars ino) = (di, name.chars) :=
  nodeOf_key name.nul name.short di ino

theorem read_cases (run : LRURegion.run namei accesses = .ok nameiCache) (dat : NameiNode) :
    (¬ LRURegion.Live nameiFormat accesses.reverse (nameiFormat.key dat) ∧
      nameiCache.read namei dat = (-ENOENT, dat, nameiCache)) ∨
    (LRURegion.Live nameiFormat accesses.reverse (nameiFormat.key dat) ∧
      (nameiCache.read namei dat).1 = 0 ∧
      LRURegion.lastWritten nameiFormat (nameiFormat.key dat) accesses.reverse =
        some (nameiCache.read namei dat).2.1.inode) := by
  have inv := inv_of_run run
  by_cases live : LRURegion.Live nameiFormat accesses.reverse (nameiFormat.key dat)
  · obtain ⟨ofs, -, read, -, written⟩ := LRURegion.read_of_live inv live
    have read' : nameiCache.read namei dat = _ := read
    refine .inr ⟨live, ?_, ?_⟩
    · rw [read']
    · rw [read']
      exact written
  · exact .inl ⟨live, LRURegion.read_of_not_live inv live⟩

theorem sound_iff_right (run : LRURegion.run namei accesses = .ok nameiCache) :
    Sound dirs nameiCache ↔ Right dirs accesses.reverse := by
  constructor
  · rintro ⟨-, sound⟩ di name live
    rw [← name.key di ERROR_INO] at live ⊢
    rcases read_cases run (nodeOf di name.chars ERROR_INO) with ⟨dead, -⟩ | ⟨-, status, written⟩
    · exact absurd live dead
    · rw [written]
      have hit : (nameiCache.read namei (nodeOf di name.chars ERROR_INO)).1 ≠ -ENOENT := by
        rw [status]
        decide
      rw [sound di name hit]
  · intro right
    refine ⟨⟨accesses, run⟩, fun di name status => ?_⟩
    rcases read_cases run (nodeOf di name.chars ERROR_INO) with ⟨-, missed⟩ | ⟨live, -, written⟩
    · rw [missed] at status
      exact absurd rfl status
    · rw [name.key] at live written
      exact Option.some.inj (written.symm.trans (right di name live))

/-- A cache that gives answers still does so behind the entries of a directory whose last
entry of each name is the answer. -/
theorem right_writes (right : Right dirs accesses.reverse)
    (short : ∀ e ∈ dirs dirIno, e.name.length ≤ 255) (nul : ∀ e ∈ dirs dirIno, 0 ∉ e.name)
    (last : ∀ name, lastInode (dirs dirIno) name = lookup (dirs dirIno) name) :
    Right dirs (accesses ++ writes dirIno (dirs dirIno)).reverse := by
  intro di name live
  rw [List.reverse_append] at live ⊢
  have keys : ∀ e ∈ dirs dirIno, (nodeOf dirIno e.name (.ofNat e.inode)).key =
      (dirIno, e.name) := fun e he => nodeOf_key (nul e he) (short e he) _ _
  rcases lastWritten_writes accesses.reverse di name.chars keys with ⟨rfl, held⟩ | ⟨held, before⟩
  · rw [held, last]
  · rw [held, right di name (before live)]

theorem right_read (right : Right dirs accesses.reverse) (dat : NameiNode) :
    Right dirs (accesses ++ [LRURegion.Access.read dat]).reverse := by
  intro di name live
  rw [List.reverse_append] at live ⊢
  exact right di name (LRURegion.live_of_read live)

theorem exists_sound_live (dirs : UInt64 → List DirEntry) (di : UInt64) (name : Name) :
    ∃ accesses nameiCache, LRURegion.run namei accesses = .ok nameiCache ∧ Sound dirs nameiCache ∧
      LRURegion.Live nameiFormat accesses.reverse (di, name.chars) := by
  let dat := nodeOf di name.chars (.ofNat (lookup (dirs di) name.chars))
  have start : LRURegion.run namei [] = .ok (LRURegion.init namei) := List.foldlM_nil
  obtain ⟨nameiCache, -, run⟩ := run_write start dat
  have key : nameiFormat.key dat = (di, name.chars) := name.key di _
  refine ⟨_, nameiCache, run, (sound_iff_right run).2 fun di' name' live => ?_, ?_⟩
  · by_cases same : (di, name.chars) = (di', name'.chars)
    · obtain ⟨rfl, chars⟩ := Prod.mk.inj same
      rw [← same, ← key, ← chars]
      exact if_pos rfl
    · have before := LRURegion.live_of_write (fun h => same (key.symm.trans h)) live
      cases before.1
  · rw [← key]
    exact LRURegion.live_write (show 0 < nameiFormat.nmem by decide) []

theorem sound_init (dirs : UInt64 → List DirEntry) : Sound dirs (LRURegion.init namei) := by
  refine ⟨cached_init, fun di name status => ?_⟩
  exact absurd rfl status

end Answers

end SimpleSSD.ISC.Ext4
