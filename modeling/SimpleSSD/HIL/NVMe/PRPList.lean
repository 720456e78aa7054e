import Mathlib.Data.List.Induction
import SimpleSSD.Foundation.Fallible
import SimpleSSD.Util.Def

/-!
# PRP lists

`hil/nvme/dma.cc`.  A command names the pages of its buffer by two pointers; when the
buffer is large, the second one points to a list of pages in host memory, and a list that
does not fit its page goes on in another one.  A list page is read by DMA, so decoding
goes on each time such a read ends.
-/

namespace SimpleSSD.HIL.NVMe

open SimpleSSD.Foundation

def memoryPageSize (mps : Nat) : Nat := 2 ^ (mps + 12)

structure PRP where
  addr : Nat
  size : Nat
  deriving DecidableEq, Repr

structure DMAInitContext where
  base : Nat
  totalSize : Nat
  currentSize : Nat
  deriving DecidableEq, Repr

/-- `initialized` counts the calls of the function that is waiting for the list. -/
structure PRPList where
  prpList : List PRP
  pagesize : Nat
  callCounter : Nat
  reading : Option DMAInitContext
  initialized : Nat
  deriving DecidableEq, Repr

namespace PRPList

def getPRPSize (pagesize addr : Nat) : Nat := pagesize - (addr &&& (pagesize - 1))

def getPRPListFromPRP (base size : Nat) (s : PRPList) : PRPList :=
  { s with
    callCounter := s.callCounter + 1
    reading := some ⟨base, size, getPRPSize s.pagesize base⟩ }

/-- What is read: one entry for each 8 bytes, from a memory given by its 8-byte words. -/
def buffer (mem : Nat → Nat) (base currentSize : Nat) : List Nat :=
  (List.range ((currentSize + 7) / 8)).map fun i => mem (base + 8 * i)

def readEntries (pagesize totalSize : Nat) :
    List Nat → Nat → List PRP → Except Fault (Nat × List PRP)
  | [], currentSize, prpList => .ok (currentSize, prpList)
  | listPRP :: rest, currentSize, prpList =>
      if listPRP = 0 then .error (.panic "prp_list: Invalid PRP in PRP List")
      else
        let listPRPSize := getPRPSize pagesize listPRP
        if totalSize ≤ currentSize + listPRPSize then
          .ok (currentSize + listPRPSize, prpList ++ [⟨listPRP, listPRPSize⟩])
        else
          readEntries pagesize totalSize rest (currentSize + listPRPSize)
            (prpList ++ [⟨listPRP, listPRPSize⟩])

/-- The list ends but size is not full: the last item is a pointer of another list. -/
def nextList (remaining : Nat) (s : PRPList) : Except Fault PRPList :=
  match s.prpList.getLast? with
  | none => .error .undefined
  | some listPRP =>
      .ok (getPRPListFromPRP listPRP.addr remaining { s with prpList := s.prpList.dropLast })

def initFunction (s : PRPList) : PRPList :=
  if s.callCounter = 0 then { s with initialized := s.initialized + 1 } else s

def doRead (mem : Nat → Nat) (pContext : DMAInitContext) (s : PRPList) : Except Fault PRPList := do
  let (currentSize, prpList) ← readEntries s.pagesize pContext.totalSize
    (buffer mem pContext.base pContext.currentSize) 0 s.prpList
  let s := { s with callCounter := s.callCounter - 1, reading := none, prpList := prpList }
  if currentSize < pContext.totalSize then
    .map initFunction (nextList (pContext.totalSize - currentSize) s)
  else .ok (initFunction s)

def readAll (mem : Nat → Nat) : Nat → PRPList → Except Fault PRPList
  | 0, s => .ok s
  | fuel + 1, s =>
      match s.reading with
      | none => .ok s
      | some pContext => doRead mem pContext s >>= readAll mem fuel

def start (pagesize : Nat) (prpList : List PRP) : PRPList where
  prpList := prpList
  pagesize := pagesize
  callCounter := 0
  reading := none
  initialized := 0

def immediate (pagesize size : Nat) (prpList : List PRP) : Except Fault PRPList :=
  if (prpList.map PRP.size).sum < size then .error (.panic "prp_list: Invalid DPTR size")
  else .ok { start pagesize prpList with initialized := 1 }

def new (pagesize prp1 prp2 totalSize : Nat) : Except Fault PRPList :=
  let prp1Size := getPRPSize pagesize prp1
  let prp2Size := getPRPSize pagesize prp2
  let both := [⟨prp1, prp1Size⟩, ⟨prp2, prp2Size⟩]
  let list := getPRPListFromPRP prp2 (totalSize - prp1Size) (start pagesize [⟨prp1, prp1Size⟩])
  if totalSize ≤ pagesize then
    if totalSize ≤ prp1Size then .ok { start pagesize [⟨prp1, totalSize⟩] with initialized := 1 }
    else immediate pagesize totalSize both
  else if totalSize ≤ pagesize * 2 then
    if prp1Size = pagesize then immediate pagesize totalSize both else .ok list
  else .ok list

/-- Every list page takes at least one byte off what is left, so there are no more list
pages than bytes. -/
def build (mem : Nat → Nat) (pagesize prp1 prp2 totalSize : Nat) : Except Fault PRPList :=
  new pagesize prp1 prp2 totalSize >>= readAll mem totalSize

end PRPList

/-! ## Encoding -/

def capacity (pagesize base : Nat) : Nat := (pagesize - base % pagesize) / 8

def Held (mem : Nat → Nat) (base : Nat) (entries : List Nat) : Prop :=
  (List.range entries.length).map (fun i => mem (base + 8 * i)) = entries

/-- The list of `pages` starts at `base`.  A page of the list that cannot hold what is
left ends with a pointer to the next one. -/
inductive Listed (mem : Nat → Nat) (pagesize : Nat) : Nat → List Nat → List Nat → Prop
  | last {base : Nat} {pages : List Nat} (aligned : base % 8 = 0)
      (fits : pages.length ≤ capacity pagesize base) (held : Held mem base pages) :
      Listed mem pagesize base pages [base]
  | chain {base next : Nat} {front rest lists : List Nat} (aligned : base % 8 = 0)
      (full : front.length + 1 = capacity pagesize base) (more : 2 ≤ rest.length)
      (held : Held mem base (front ++ [next])) (page : next % pagesize = 0)
      (listed : Listed mem pagesize next rest lists) :
      Listed mem pagesize base (front ++ rest) (base :: lists)

/-- A buffer of `size` bytes on `pages`, the first of which may start anywhere, and the
list pages its encoding takes. -/
inductive Encodes (mem : Nat → Nat) (pagesize size prp1 prp2 : Nat) : List Nat → List Nat → Prop
  | one (fits : size ≤ pagesize - prp1 % pagesize) : Encodes mem pagesize size prp1 prp2 [prp1] []
  | two (long : pagesize - prp1 % pagesize < size)
      (fits : size ≤ pagesize - prp1 % pagesize + pagesize) (aligned : prp2 % pagesize = 0) :
      Encodes mem pagesize size prp1 prp2 [prp1, prp2] []
  | list {pages lists : List Nat} (many : 2 ≤ pages.length)
      (aligned : ∀ page ∈ pages, page % pagesize = 0)
      (long : pagesize - prp1 % pagesize + pagesize * (pages.length - 1) < size)
      (fits : size ≤ pagesize - prp1 % pagesize + pagesize * pages.length)
      (listed : Listed mem pagesize prp2 pages lists) :
      Encodes mem pagesize size prp1 prp2 (prp1 :: pages) lists

/-- The list is complete, names the pages in order, is large enough and has no pointer to
a list page in it. -/
structure Decodes (size : Nat) (pages lists : List Nat) (s : PRPList) : Prop where
  ended : s.reading = none ∧ s.initialized = 1
  addresses : s.prpList.map PRP.addr = pages
  covers : size ≤ (s.prpList.map PRP.size).sum
  noPointer : ∀ list ∈ lists, list ∉ pages → list ∉ s.prpList.map PRP.addr

/-- Two pages are told apart from a list by the size alone, unless the second page starts
with its own address; lists take one page and name no page 0. -/
def Supported (mem : Nat → Nat) (pagesize size prp1 prp2 : Nat) (pages lists : List Nat) : Prop :=
  match pages with
  | [_] => True
  | [_, _] => size ≤ pagesize ∨ prp1 % pagesize = 0 ∨ (mem prp2 = prp2 ∧ prp2 ≠ 0)
  | _ => lists.length = 1 ∧ 0 ∉ pages.tail

/-! ## Reading a list page -/

namespace PRPList

variable {mem : Nat → Nat} {mps base total currentSize currentSize' : Nat} {entries : List Nat}
  {prpList prpList' : List PRP}

theorem memoryPageSize_pos (mps : Nat) : 0 < memoryPageSize mps := Nat.two_pow_pos _

theorem dvd_memoryPageSize (mps : Nat) : 4096 ∣ memoryPageSize mps :=
  ⟨2 ^ mps, by rw [memoryPageSize, Nat.pow_add, Nat.mul_comm]⟩

theorem getPRPSize_eq (mps addr : Nat) :
    getPRPSize (memoryPageSize mps) addr = memoryPageSize mps - addr % memoryPageSize mps := by
  rw [getPRPSize, memoryPageSize, Nat.and_two_pow_sub_one_eq_mod]

theorem getPRPSize_pos (mps addr : Nat) : 0 < getPRPSize (memoryPageSize mps) addr := by
  rw [getPRPSize_eq]
  exact Nat.sub_pos_of_lt (Nat.mod_lt _ (memoryPageSize_pos mps))

theorem getPRPSize_of_aligned {addr : Nat} (aligned : addr % memoryPageSize mps = 0) :
    getPRPSize (memoryPageSize mps) addr = memoryPageSize mps := by
  rw [getPRPSize_eq, aligned, Nat.sub_zero]

theorem length_buffer (mem : Nat → Nat) (mps : Nat) (aligned : base % 8 = 0) :
    (buffer mem base (getPRPSize (memoryPageSize mps) base)).length =
      capacity (memoryPageSize mps) base := by
  obtain ⟨k, hk⟩ := dvd_memoryPageSize mps
  have hmod : base % memoryPageSize mps % 8 = 0 := by
    rw [Nat.mod_mod_of_dvd base ⟨512 * k, by rw [hk]; omega⟩, aligned]
  have hlt := Nat.mod_lt base (memoryPageSize_pos mps)
  rw [buffer, List.length_map, List.length_range, getPRPSize_eq, capacity]
  omega

theorem buffer_of_held (held : Held mem base entries)
    (fits : entries.length ≤ (currentSize + 7) / 8) :
    ∃ more, buffer mem base currentSize = entries ++ more := by
  obtain ⟨k, hk⟩ := Nat.exists_eq_add_of_le fits
  rw [buffer, hk, List.range_add, List.map_append, held]
  exact ⟨_, rfl⟩

theorem readEntries_cons {pagesize listPRP : Nat} {rest : List Nat}
    (h : readEntries pagesize total (listPRP :: rest) currentSize prpList =
      .ok (currentSize', prpList')) :
    listPRP ≠ 0 ∧
      ((total ≤ currentSize + getPRPSize pagesize listPRP ∧
        currentSize' = currentSize + getPRPSize pagesize listPRP ∧
        prpList' = prpList ++ [⟨listPRP, getPRPSize pagesize listPRP⟩]) ∨
      (currentSize + getPRPSize pagesize listPRP < total ∧
        readEntries pagesize total rest (currentSize + getPRPSize pagesize listPRP)
          (prpList ++ [⟨listPRP, getPRPSize pagesize listPRP⟩]) =
            .ok (currentSize', prpList'))) := by
  rw [readEntries] at h
  by_cases hzero : listPRP = 0
  · rw [if_pos hzero] at h
    cases h
  · rw [if_neg hzero] at h
    by_cases hlast : total ≤ currentSize + getPRPSize pagesize listPRP
    · simp only [if_pos hlast] at h
      cases h
      exact ⟨hzero, .inl ⟨hlast, rfl, rfl⟩⟩
    · simp only [if_neg hlast] at h
      exact ⟨hzero, .inr ⟨not_le.1 hlast, h⟩⟩

theorem readEntries_addr {pagesize : Nat}
    (h : readEntries pagesize total entries currentSize prpList = .ok (currentSize', prpList')) :
    ∃ n ≤ entries.length,
      prpList'.map PRP.addr = prpList.map PRP.addr ++ entries.take n ∧
        (currentSize' < total → n = entries.length) := by
  induction entries generalizing currentSize prpList with
  | nil =>
      cases h
      exact ⟨0, le_rfl, by simp, fun _ => rfl⟩
  | cons listPRP rest ih =>
      rcases readEntries_cons h with ⟨-, ⟨hlast, rfl, rfl⟩ | ⟨-, hrest⟩⟩
      · exact ⟨1, by simp, by simp, fun hlt => absurd hlast (not_le.2 hlt)⟩
      · obtain ⟨n, hle, haddr, hall⟩ := ih hrest
        exact ⟨n + 1, by simpa using hle, by simp [haddr], fun hlt => by simp [hall hlt]⟩

theorem le_readEntries {pagesize : Nat}
    (h : readEntries pagesize total entries currentSize prpList = .ok (currentSize', prpList')) :
    currentSize ≤ currentSize' := by
  induction entries generalizing currentSize prpList with
  | nil =>
      cases h
      exact le_rfl
  | cons listPRP rest ih =>
      rcases readEntries_cons h with ⟨-, ⟨-, rfl, -⟩ | ⟨-, hrest⟩⟩
      · exact Nat.le_add_right _ _
      · exact (Nat.le_add_right _ _).trans (ih hrest)

theorem lt_readEntries (nonempty : entries ≠ [])
    (h : readEntries (memoryPageSize mps) total entries currentSize prpList =
      .ok (currentSize', prpList')) : currentSize < currentSize' := by
  obtain ⟨listPRP, rest, rfl⟩ := List.exists_cons_of_ne_nil nonempty
  have hpos := getPRPSize_pos mps listPRP
  rcases readEntries_cons h with ⟨-, ⟨-, rfl, -⟩ | ⟨-, hrest⟩⟩
  · omega
  · have hle := le_readEntries hrest
    omega

def page (mps addr : Nat) : PRP := ⟨addr, memoryPageSize mps⟩

variable {front more : List Nat}

theorem readEntries_front (total currentSize : Nat) (more : List Nat) (prpList : List PRP)
    (aligned : ∀ addr ∈ front, addr % memoryPageSize mps = 0)
    (below : currentSize + memoryPageSize mps * front.length < total) :
    (0 ∈ front ∧ ∃ fault, readEntries (memoryPageSize mps) total (front ++ more) currentSize
      prpList = .error fault) ∨
    (0 ∉ front ∧ readEntries (memoryPageSize mps) total (front ++ more) currentSize prpList =
      readEntries (memoryPageSize mps) total more
        (currentSize + memoryPageSize mps * front.length) (prpList ++ front.map (page mps))) := by
  induction front generalizing currentSize prpList with
  | nil => exact .inr ⟨by simp, by simp⟩
  | cons addr rest ih =>
      obtain ⟨haddr, hrest⟩ := List.forall_mem_cons.1 aligned
      rw [List.length_cons, Nat.mul_succ] at below
      rw [List.cons_append, readEntries]
      by_cases hzero : addr = 0
      · rw [if_pos hzero]
        exact .inl ⟨by simp [hzero], _, rfl⟩
      · rw [if_neg hzero]
        simp only [getPRPSize_of_aligned haddr]
        rw [if_neg (by omega)]
        rcases ih (currentSize + memoryPageSize mps) (prpList ++ [⟨addr, memoryPageSize mps⟩])
          hrest (by omega) with ⟨hmem, hfault⟩ | ⟨hmem, hok⟩
        · exact .inl ⟨List.mem_cons_of_mem _ hmem, hfault⟩
        · refine .inr ⟨by simp [hmem, eq_comm, hzero], ?_⟩
          rw [hok, List.length_cons, Nat.mul_succ, List.map_cons, List.append_assoc, Nat.add_assoc,
            Nat.add_comm (memoryPageSize mps) (memoryPageSize mps * rest.length)]
          rfl

theorem readEntries_enough (aligned : ∀ addr ∈ front, addr % memoryPageSize mps = 0)
    (below : currentSize < total) (enough : total ≤ currentSize + memoryPageSize mps * front.length)
    (h : readEntries (memoryPageSize mps) total (front ++ more) currentSize prpList =
      .ok (currentSize', prpList')) :
    total ≤ currentSize' ∧ prpList'.length ≤ prpList.length + front.length := by
  induction front generalizing currentSize prpList with
  | nil =>
      simp only [List.length_nil, Nat.mul_zero] at enough
      omega
  | cons addr rest ih =>
      obtain ⟨haddr, hrest⟩ := List.forall_mem_cons.1 aligned
      rw [List.length_cons, Nat.mul_succ] at enough
      rw [List.cons_append, readEntries] at h
      by_cases hzero : addr = 0
      · rw [if_pos hzero] at h
        cases h
      · rw [if_neg hzero] at h
        simp only [getPRPSize_of_aligned haddr] at h
        by_cases hlast : total ≤ currentSize + memoryPageSize mps
        · rw [if_pos hlast] at h
          obtain ⟨rfl, rfl⟩ := Prod.mk.inj (Except.ok.inj h)
          exact ⟨hlast, by simp⟩
        · rw [if_neg hlast] at h
          obtain ⟨hle, hlen⟩ := ih hrest (by omega) (by omega) h
          refine ⟨hle, ?_⟩
          simp only [List.length_append, List.length_cons, List.length_nil] at hlen ⊢
          omega

/-! ## Reads of list pages -/

variable {pContext : DMAInitContext} {s s' : PRPList} {fuel : Nat}

@[simp] theorem initFunction_prpList (s : PRPList) : (initFunction s).prpList = s.prpList := by
  unfold initFunction
  split <;> rfl

@[simp] theorem initFunction_reading (s : PRPList) : (initFunction s).reading = s.reading := by
  unfold initFunction
  split <;> rfl

@[simp] theorem initFunction_pagesize (s : PRPList) : (initFunction s).pagesize = s.pagesize := by
  unfold initFunction
  split <;> rfl

theorem doRead_eq_ok (h : doRead mem pContext s = .ok s') :
    s'.pagesize = s.pagesize ∧ ∃ currentSize prpList,
      readEntries s.pagesize pContext.totalSize
        (buffer mem pContext.base pContext.currentSize) 0 s.prpList = .ok (currentSize, prpList) ∧
      ((pContext.totalSize ≤ currentSize ∧ s'.reading = none ∧ s'.prpList = prpList) ∨
        (currentSize < pContext.totalSize ∧ s'.prpList = prpList.dropLast ∧
          ∃ listPRP, prpList.getLast? = some listPRP ∧ s'.reading = some ⟨listPRP.addr,
            pContext.totalSize - currentSize, getPRPSize s.pagesize listPRP.addr⟩)) := by
  obtain ⟨⟨currentSize, prpList⟩, hread, hrest⟩ := bind_eq_ok.1 h
  by_cases hmore : currentSize < pContext.totalSize
  · simp only [if_pos hmore, nextList] at hrest
    cases hlast : prpList.getLast? with
    | none =>
        rw [hlast] at hrest
        cases hrest
    | some listPRP =>
        rw [hlast] at hrest
        cases hrest
        exact ⟨by simp [getPRPListFromPRP], currentSize, prpList, hread,
          .inr ⟨hmore, by simp [getPRPListFromPRP], listPRP, hlast, by simp [getPRPListFromPRP]⟩⟩
  · simp only [if_neg hmore] at hrest
    cases hrest
    exact ⟨by simp, currentSize, prpList, hread, .inl ⟨not_lt.1 hmore, by simp, by simp⟩⟩

/-- What is still to be read is a page of entries for some bytes. -/
structure Reads (mps : Nat) (s : PRPList) : Prop where
  pagesize : s.pagesize = memoryPageSize mps
  reading : ∀ pContext, s.reading = some pContext → 0 < pContext.totalSize ∧
    pContext.currentSize = getPRPSize (memoryPageSize mps) pContext.base

theorem buffer_ne_nil (mem : Nat → Nat) (base : Nat) (positive : 0 < currentSize) :
    buffer mem base currentSize ≠ [] := by
  rw [buffer, ne_eq, List.map_eq_nil_iff, List.range_eq_nil]
  omega

theorem doRead_reads (reads : Reads mps s) (reading : s.reading = some pContext)
    (h : doRead mem pContext s = .ok s') :
    Reads mps s' ∧ s.prpList.map PRP.addr <+: s'.prpList.map PRP.addr ∧
      ∀ pContext', s'.reading = some pContext' → pContext'.totalSize < pContext.totalSize := by
  obtain ⟨hpositive, hsize⟩ := reads.reading pContext reading
  obtain ⟨hpagesize, currentSize, prpList, hread, hend⟩ := doRead_eq_ok h
  have hnonempty := buffer_ne_nil mem pContext.base
    (hsize ▸ getPRPSize_pos mps pContext.base : 0 < pContext.currentSize)
  rw [reads.pagesize] at hread hpagesize hend
  have hlt := lt_readEntries hnonempty hread
  obtain ⟨n, hle, haddr, hall⟩ := readEntries_addr hread
  rcases hend with ⟨-, hnone, hlist⟩ | ⟨hmore, hlist, listPRP, -, hsome⟩
  · refine ⟨⟨hpagesize, by simp [hnone]⟩, ?_, by simp [hnone]⟩
    rw [hlist, haddr]
    exact List.prefix_append _ _
  · refine ⟨⟨hpagesize, ?_⟩, ?_, ?_⟩
    · intro pContext' hcontext
      rw [hsome] at hcontext
      cases hcontext
      exact ⟨Nat.sub_pos_of_lt hmore, rfl⟩
    · rw [hlist, List.map_dropLast, haddr, hall hmore, List.take_length,
        List.dropLast_append_of_ne_nil hnonempty]
      exact List.prefix_append _ _
    · intro pContext' hcontext
      rw [hsome] at hcontext
      cases hcontext
      simp only
      omega

theorem readAll_of_ended (mem : Nat → Nat) (ended : s.reading = none) (fuel : Nat) :
    readAll mem fuel s = .ok s := by
  cases fuel with
  | zero => rfl
  | succ fuel => simp only [readAll, ended]

theorem readAll_of_reading (reading : s.reading = some pContext) :
    readAll mem (fuel + 1) s = doRead mem pContext s >>= readAll mem fuel := by
  simp only [readAll, reading]

theorem exists_doRead (reading : s.reading = some pContext) (h : readAll mem fuel s = .ok s')
    (ended : s'.reading = none) :
    ∃ s₁ rest, doRead mem pContext s = .ok s₁ ∧ readAll mem rest s₁ = .ok s' := by
  cases fuel with
  | zero =>
      cases h
      rw [reading] at ended
      cases ended
  | succ fuel =>
      rw [readAll_of_reading reading] at h
      obtain ⟨s₁, hread, hrest⟩ := bind_eq_ok.1 h
      exact ⟨s₁, fuel, hread, hrest⟩

theorem eq_of_ended (ended : s.reading = none) (h : readAll mem fuel s = .ok s') : s' = s := by
  rw [readAll_of_ended mem ended] at h
  cases h
  rfl

theorem readAll_prefix (reads : Reads mps s) (h : readAll mem fuel s = .ok s') :
    s.prpList.map PRP.addr <+: s'.prpList.map PRP.addr := by
  induction fuel generalizing s with
  | zero =>
      cases h
      exact List.prefix_rfl
  | succ fuel ih =>
      cases hreading : s.reading with
      | none =>
          exact eq_of_ended hreading h ▸ List.prefix_rfl
      | some pContext =>
          rw [readAll_of_reading hreading] at h
          obtain ⟨s₁, hread, hrest⟩ := bind_eq_ok.1 h
          obtain ⟨reads₁, hprefix, -⟩ := doRead_reads reads hreading hread
          exact hprefix.trans (ih reads₁ hrest)

theorem readAll_ends (reads : Reads mps s)
    (enough : ∀ pContext, s.reading = some pContext → pContext.totalSize ≤ fuel)
    (h : readAll mem fuel s = .ok s') : s'.reading = none := by
  induction fuel generalizing s with
  | zero =>
      cases h
      cases hreading : s'.reading with
      | none => rfl
      | some pContext =>
          have hpositive := (reads.reading pContext hreading).1
          have hle := enough pContext hreading
          omega
  | succ fuel ih =>
      cases hreading : s.reading with
      | none => rwa [eq_of_ended hreading h]
      | some pContext =>
          rw [readAll_of_reading hreading] at h
          obtain ⟨s₁, hread, hrest⟩ := bind_eq_ok.1 h
          obtain ⟨reads₁, -, hless⟩ := doRead_reads reads hreading hread
          refine ih reads₁ (fun pContext' hcontext => ?_) hrest
          have hlt := hless pContext' hcontext
          have hle := enough pContext hreading
          omega

/-! ## Lists -/

variable {pages lists : List Nat} {remaining : Nat}

theorem doRead_last (aligned : ∀ addr ∈ pages, addr % memoryPageSize mps = 0)
    (nonzero : 0 ∉ pages) (long : memoryPageSize mps * (pages.length - 1) < remaining)
    (enough : remaining ≤ memoryPageSize mps * pages.length)
    (read : ∃ more, buffer mem base currentSize = pages ++ more)
    (pagesize : s.pagesize = memoryPageSize mps) :
    doRead mem ⟨base, remaining, currentSize⟩ s = .ok (initFunction { s with
      callCounter := s.callCounter - 1
      reading := none
      prpList := s.prpList ++ pages.map (page mps) }) := by
  obtain ⟨more, hbuffer⟩ := read
  cases pages using List.reverseRecOn with
  | nil =>
      simp only [List.length_nil, Nat.mul_zero] at enough
      omega
  | append_singleton front last =>
      obtain ⟨hfront, hlast⟩ := List.forall_mem_append.1 aligned
      have halign : last % memoryPageSize mps = 0 := hlast last (List.mem_singleton.2 rfl)
      simp only [List.length_append, List.length_singleton, Nat.add_sub_cancel,
        Nat.mul_succ] at long enough
      have hread : readEntries s.pagesize remaining (buffer mem base currentSize) 0 s.prpList =
          .ok (memoryPageSize mps * front.length + memoryPageSize mps,
            s.prpList ++ (front ++ [last]).map (page mps)) := by
        rw [pagesize, hbuffer, List.append_assoc]
        rcases readEntries_front remaining 0 ([last] ++ more) s.prpList hfront (by omega) with
            ⟨hmem, -⟩ | ⟨-, hok⟩
        · exact absurd (List.mem_append_left _ hmem) nonzero
        · rw [hok, List.singleton_append, readEntries,
            if_neg fun hzero => nonzero (by simp [hzero])]
          simp only [getPRPSize_of_aligned halign]
          rw [if_pos (by omega)]
          simp [page]
      unfold doRead
      rw [hread]
      change (if _ < remaining then _ else _) = _
      rw [if_neg (by omega)]

theorem doRead_chain {next : Nat} (aligned : ∀ addr ∈ front, addr % memoryPageSize mps = 0)
    (page : next % memoryPageSize mps = 0)
    (long : memoryPageSize mps * front.length + memoryPageSize mps < remaining)
    (read : buffer mem base currentSize = front ++ [next])
    (pagesize : s.pagesize = memoryPageSize mps)
    (h : doRead mem ⟨base, remaining, currentSize⟩ s = .ok s') :
    s'.prpList = s.prpList ++ front.map (PRPList.page mps) ∧
      s'.reading = some ⟨next, remaining - (memoryPageSize mps * front.length + memoryPageSize mps),
        getPRPSize (memoryPageSize mps) next⟩ := by
  obtain ⟨-, currentSize', prpList, hread, hend⟩ := doRead_eq_ok h
  rw [pagesize] at hread hend
  simp only [read] at hread
  rcases readEntries_front remaining 0 [next] s.prpList aligned (by omega) with
    ⟨-, fault, herror⟩ | ⟨-, hok⟩
  · rw [herror] at hread
    cases hread
  · rw [hok, readEntries] at hread
    by_cases hzero : next = 0
    · rw [if_pos hzero] at hread
      cases hread
    · rw [if_neg hzero] at hread
      simp only [getPRPSize_of_aligned page] at hread
      rw [if_neg (by omega), readEntries] at hread
      obtain ⟨rfl, rfl⟩ := Prod.mk.inj (Except.ok.inj hread)
      rcases hend with ⟨hle, -⟩ | ⟨-, hlist, listPRP, hlast, hreading⟩
      · simp only at hle
        omega
      · rw [List.dropLast_concat] at hlist
        rw [List.getLast?_concat] at hlast
        cases hlast
        refine ⟨hlist, ?_⟩
        rw [hreading, Nat.zero_add]

theorem doRead_enough (aligned : ∀ addr ∈ front, addr % memoryPageSize mps = 0)
    (positive : 0 < remaining) (enough : remaining ≤ memoryPageSize mps * front.length)
    (read : ∃ more, buffer mem base currentSize = front ++ more)
    (pagesize : s.pagesize = memoryPageSize mps)
    (h : doRead mem ⟨base, remaining, currentSize⟩ s = .ok s') :
    s'.reading = none ∧ s'.prpList.length ≤ s.prpList.length + front.length := by
  obtain ⟨more, hbuffer⟩ := read
  obtain ⟨-, currentSize', prpList, hread, hend⟩ := doRead_eq_ok h
  simp only [pagesize, hbuffer] at hread
  obtain ⟨hle, hlen⟩ := readEntries_enough aligned positive (by omega) hread
  rcases hend with ⟨-, hnone, hlist⟩ | ⟨hmore, -⟩
  · exact ⟨hnone, by rw [hlist]; exact hlen⟩
  · exact absurd hle (not_le.2 hmore)

theorem buffer_of_fits (held : Held mem base entries) (aligned : base % 8 = 0)
    (fits : entries.length ≤ capacity (memoryPageSize mps) base) :
    ∃ more, buffer mem base (getPRPSize (memoryPageSize mps) base) = entries ++ more := by
  refine buffer_of_held held ?_
  have hlength := length_buffer mem mps aligned
  rw [buffer, List.length_map, List.length_range] at hlength
  omega

theorem buffer_of_full (held : Held mem base entries) (aligned : base % 8 = 0)
    (full : entries.length = capacity (memoryPageSize mps) base) :
    buffer mem base (getPRPSize (memoryPageSize mps) base) = entries := by
  obtain ⟨more, hbuffer⟩ := buffer_of_fits held aligned full.le
  have hlength := length_buffer mem mps aligned
  rw [hbuffer, List.length_append] at hlength
  rw [hbuffer, List.length_eq_zero_iff.1 (by omega : more.length = 0), List.append_nil]

theorem readAll_short (listed : Listed mem (memoryPageSize mps) base pages lists)
    (aligned : ∀ addr ∈ pages, addr % memoryPageSize mps = 0) (positive : 0 < remaining)
    (short : remaining ≤ memoryPageSize mps * (pages.length - 1))
    (pagesize : s.pagesize = memoryPageSize mps)
    (reading : s.reading = some ⟨base, remaining, getPRPSize (memoryPageSize mps) base⟩)
    (h : readAll mem fuel s = .ok s') (ended : s'.reading = none) :
    s'.prpList.length < s.prpList.length + pages.length := by
  obtain ⟨s₁, rest, hread, hrest⟩ := exists_doRead reading h ended
  induction listed generalizing remaining s s₁ rest fuel with
  | @last base pages base_aligned fits held =>
      obtain ⟨more, hbuffer⟩ := buffer_of_fits held base_aligned fits
      cases pages using List.reverseRecOn with
      | nil =>
          simp only [List.length_nil, Nat.zero_sub, Nat.mul_zero] at short
          omega
      | append_singleton front last =>
          simp only [List.length_append, List.length_singleton, Nat.add_sub_cancel] at short ⊢
          rw [List.append_assoc] at hbuffer
          obtain ⟨hnone, hlen⟩ := doRead_enough (List.forall_mem_append.1 aligned).1 positive short
            ⟨_, hbuffer⟩ pagesize hread
          rw [eq_of_ended hnone hrest]
          omega
  | @chain base next front others lists base_aligned full more held next_page listed ih =>
      obtain ⟨hfront, hothers⟩ := List.forall_mem_append.1 aligned
      have hbuffer := buffer_of_full held base_aligned (by simpa using full)
      rw [List.length_append] at short ⊢
      by_cases enough : remaining ≤ memoryPageSize mps * (front ++ [next]).length
      · obtain ⟨hnone, hlen⟩ := doRead_enough
          (List.forall_mem_append.2 ⟨hfront, by simpa using next_page⟩) positive enough
          ⟨[], by rw [hbuffer, List.append_nil]⟩ pagesize hread
        rw [eq_of_ended hnone hrest]
        simp only [List.length_append, List.length_singleton] at hlen
        omega
      · simp only [List.length_append, List.length_singleton, Nat.mul_succ, not_le] at enough
        obtain ⟨hlist, hreading⟩ := doRead_chain hfront next_page enough hbuffer pagesize hread
        obtain ⟨s₂, rest', hread', hrest'⟩ := exists_doRead hreading hrest ended
        have hsucc : front.length + others.length - 1 = front.length + 1 + (others.length - 2) := by
          omega
        have hpred : others.length - 1 = 1 + (others.length - 2) := by omega
        rw [hsucc, Nat.mul_add, Nat.mul_succ] at short
        have hshort : remaining - (memoryPageSize mps * front.length + memoryPageSize mps) ≤
            memoryPageSize mps * (others.length - 1) := by
          rw [hpred, Nat.mul_add]
          omega
        have hlt := ih hothers (Nat.sub_pos_of_lt enough) hshort
          ((doRead_eq_ok hread).1.trans pagesize) hreading hrest s₂ rest' hread' hrest'
        rw [hlist, List.length_append, List.length_map] at hlt
        omega

theorem doRead_zero (aligned : ∀ addr ∈ pages, addr % memoryPageSize mps = 0) (zero : 0 ∈ pages)
    (long : memoryPageSize mps * (pages.length - 1) < remaining)
    (read : ∃ more, buffer mem base currentSize = pages ++ more)
    (pagesize : s.pagesize = memoryPageSize mps) :
    doRead mem ⟨base, remaining, currentSize⟩ s ≠ .ok s' := by
  intro h
  obtain ⟨more, hbuffer⟩ := read
  obtain ⟨-, currentSize', prpList, hread, -⟩ := doRead_eq_ok h
  simp only [pagesize, hbuffer] at hread
  cases pages using List.reverseRecOn with
  | nil => cases zero
  | append_singleton front last =>
      simp only [List.length_append, List.length_singleton, Nat.add_sub_cancel] at long
      rw [List.append_assoc] at hread
      rcases readEntries_front remaining 0 ([last] ++ more) s.prpList
        (List.forall_mem_append.1 aligned).1 (by omega) with ⟨-, fault, herror⟩ | ⟨hmem, hok⟩
      · rw [herror] at hread
        cases hread
      · have hlast : last = 0 := by
          rcases List.mem_append.1 zero with hzero | hzero
          · exact absurd hzero hmem
          · exact (List.mem_singleton.1 hzero).symm
        rw [hok, hlast, List.singleton_append, readEntries, if_pos rfl] at hread
        cases hread

/-! ## Commands -/

variable {size prp1 prp2 : Nat}

theorem immediate_decodes (aligned : prp2 % memoryPageSize mps = 0)
    (fits : size ≤ memoryPageSize mps - prp1 % memoryPageSize mps + memoryPageSize mps) :
    ∃ s, immediate (memoryPageSize mps) size [⟨prp1, getPRPSize (memoryPageSize mps) prp1⟩,
      ⟨prp2, getPRPSize (memoryPageSize mps) prp2⟩] = .ok s ∧ Decodes size [prp1, prp2] [] s := by
  have hsum : size ≤ getPRPSize (memoryPageSize mps) prp1 +
      getPRPSize (memoryPageSize mps) prp2 := by
    rwa [getPRPSize_of_aligned aligned, getPRPSize_eq]
  refine ⟨_, if_neg (by simpa using hsum), ⟨rfl, rfl⟩, rfl, by simpa [start] using hsum, by simp⟩

def listed (mps size prp1 prp2 : Nat) : PRPList :=
  getPRPListFromPRP prp2 (size - getPRPSize (memoryPageSize mps) prp1)
    (start (memoryPageSize mps) [⟨prp1, getPRPSize (memoryPageSize mps) prp1⟩])

theorem listed_reading (mps size prp1 prp2 : Nat) : (listed mps size prp1 prp2).reading =
    some ⟨prp2, size - getPRPSize (memoryPageSize mps) prp1,
      getPRPSize (memoryPageSize mps) prp2⟩ := rfl

theorem listed_reads (long : getPRPSize (memoryPageSize mps) prp1 < size) :
    Reads mps (listed mps size prp1 prp2) where
  pagesize := rfl
  reading := by
    intro pContext hcontext
    cases hcontext
    exact ⟨Nat.sub_pos_of_lt long, rfl⟩

theorem new_of_long (long : memoryPageSize mps < size)
    (list : size ≤ memoryPageSize mps * 2 → prp1 % memoryPageSize mps ≠ 0) :
    new (memoryPageSize mps) prp1 prp2 size = .ok (listed mps size prp1 prp2) := by
  unfold new
  simp only
  rw [if_neg (not_le.2 long)]
  by_cases hle : size ≤ memoryPageSize mps * 2
  · have hlt := Nat.mod_lt prp1 (memoryPageSize_pos mps)
    have hne := list hle
    rw [if_pos hle, if_neg (by rw [getPRPSize_eq]; omega)]
    rfl
  · rw [if_neg hle]
    rfl

theorem new_cases (h : new (memoryPageSize mps) prp1 prp2 size = .ok s) :
    (s.reading = none ∧ s.initialized = 1) ∨
      (memoryPageSize mps < size ∧ s = listed mps size prp1 prp2) := by
  unfold new immediate at h
  dsimp only at h
  split_ifs at h with hpage hone hsum htwo hfull hsum
  · cases h
    exact .inl ⟨rfl, rfl⟩
  · cases h
    exact .inl ⟨rfl, rfl⟩
  · cases h
    exact .inl ⟨rfl, rfl⟩
  · cases h
    exact .inr ⟨not_le.1 hpage, rfl⟩
  · cases h
    exact .inr ⟨not_le.1 hpage, rfl⟩

/-- A read is on its way, or the function that waits has been called once. -/
def Waits (s : PRPList) : Prop :=
  s.callCounter = (if s.reading.isSome then 1 else 0) ∧
    s.initialized = if s.reading.isSome then 0 else 1

theorem Waits.doRead (waits : s.Waits) (reading : s.reading = some pContext)
    (h : doRead mem pContext s = .ok s') : s'.Waits := by
  rw [Waits, reading] at waits
  obtain ⟨⟨currentSize, prpList⟩, -, hrest⟩ := bind_eq_ok.1 h
  dsimp only at hrest
  split at hrest
  · obtain ⟨s₁, hnext, rfl⟩ := map_eq_ok.1 hrest
    unfold nextList at hnext
    split at hnext
    · cases hnext
    · cases hnext
      simp [Waits, initFunction, getPRPListFromPRP, waits]
  · cases hrest
    simp [Waits, initFunction, waits]

theorem Waits.readAll (waits : s.Waits) (h : readAll mem fuel s = .ok s') : s'.Waits := by
  induction fuel generalizing s with
  | zero =>
      cases h
      exact waits
  | succ fuel ih =>
      cases reading : s.reading with
      | none => exact eq_of_ended reading h ▸ waits
      | some pContext =>
          rw [readAll_of_reading reading] at h
          obtain ⟨s₁, hread, hrest⟩ := bind_eq_ok.1 h
          exact ih (waits.doRead reading hread) hrest

/-- Whatever the memory holds, decoding comes to an end, and the function that waits for the list
is called once. -/
theorem build_ends (h : build mem (memoryPageSize mps) prp1 prp2 size = .ok s) :
    s.reading = none ∧ s.initialized = 1 := by
  obtain ⟨s₀, hnew, hread⟩ := bind_eq_ok.1 h
  rcases new_cases hnew with ended | ⟨long, rfl⟩
  · rw [eq_of_ended ended.1 hread]
    exact ended
  · have less : memoryPageSize mps - _ ≤ memoryPageSize mps :=
      Nat.sub_le _ (prp1 &&& (memoryPageSize mps - 1))
    have positive := less.trans_lt long
    have ended : s.reading = none := by
      refine readAll_ends (listed_reads positive) ?_ hread
      intro pContext hcontext
      cases hcontext
      exact Nat.sub_le _ _
    have waits : (listed mps size prp1 prp2).Waits := ⟨rfl, rfl⟩
    have called := (waits.readAll hread).2
    rw [ended] at called
    exact ⟨ended, called⟩

/-- A list page that names itself. -/
theorem build_ends_circle : ∃ s,
    build (fun _ => 12280) (memoryPageSize 0) 4096 12280 12288 = .ok s ∧
      s.reading = none ∧ s.initialized = 1 := by
  have returns : (build (fun _ => 12280) (memoryPageSize 0) 4096 12280 12288).isOk = true := by
    decide +kernel
  obtain ⟨s, run⟩ := exists_of_isOk returns
  exact ⟨s, run, build_ends run⟩

theorem listed_decodes (aligned : ∀ addr ∈ pages, addr % memoryPageSize mps = 0)
    (nonzero : 0 ∉ pages) (first : getPRPSize (memoryPageSize mps) prp1 < size)
    (long : getPRPSize (memoryPageSize mps) prp1 + memoryPageSize mps * (pages.length - 1) < size)
    (enough : size ≤ getPRPSize (memoryPageSize mps) prp1 + memoryPageSize mps * pages.length)
    (read : ∃ more, buffer mem prp2 (getPRPSize (memoryPageSize mps) prp2) = pages ++ more) :
    ∃ s, readAll mem size (listed mps size prp1 prp2) = .ok s ∧
      Decodes size (prp1 :: pages) lists s := by
  obtain ⟨fuel, rfl⟩ : ∃ fuel, size = fuel + 1 := ⟨size - 1, by omega⟩
  have haddr : (pages.map (page mps)).map PRP.addr = pages := by
    rw [List.map_map]
    exact List.map_id pages
  have hsize : ((pages.map (page mps)).map PRP.size).sum = memoryPageSize mps * pages.length := by
    have hconst : PRP.size ∘ page mps = fun _ => memoryPageSize mps := rfl
    rw [List.map_map, hconst, List.map_const', List.sum_replicate_nat, Nat.mul_comm]
  rw [readAll_of_reading (listed_reading mps (fuel + 1) prp1 prp2),
    doRead_last aligned nonzero (by omega) (by omega) read rfl]
  have hlist : ((initFunction { listed mps (fuel + 1) prp1 prp2 with
      callCounter := (listed mps (fuel + 1) prp1 prp2).callCounter - 1
      reading := none
      prpList := (listed mps (fuel + 1) prp1 prp2).prpList ++ pages.map (page mps) }).prpList.map
        PRP.addr) = prp1 :: pages := by
    rw [initFunction_prpList, List.map_append, haddr]
    rfl
  refine ⟨_, readAll_of_ended mem (by simp) fuel, ⟨by simp, rfl⟩, hlist, ?_, ?_⟩
  · rw [initFunction_prpList, List.map_append, List.sum_append, hsize]
    exact enough
  · intro list _ hmem
    rwa [hlist]

theorem build_one (mem : Nat → Nat)
    (fits : size ≤ memoryPageSize mps - prp1 % memoryPageSize mps) :
    ∃ s, build mem (memoryPageSize mps) prp1 prp2 size = .ok s ∧ Decodes size [prp1] [] s := by
  have hnew : new (memoryPageSize mps) prp1 prp2 size =
      .ok { start (memoryPageSize mps) [⟨prp1, size⟩] with initialized := 1 } := by
    unfold new
    simp only
    rw [if_pos (by omega), if_pos (by rwa [getPRPSize_eq])]
  refine ⟨_, bind_eq_ok.2 ⟨_, hnew, readAll_of_ended mem rfl size⟩, ⟨rfl, rfl⟩, rfl, ?_, by simp⟩
  simp [start]

theorem build_two (mem : Nat → Nat) (long : memoryPageSize mps - prp1 % memoryPageSize mps < size)
    (fits : size ≤ memoryPageSize mps - prp1 % memoryPageSize mps + memoryPageSize mps)
    (aligned : prp2 % memoryPageSize mps = 0)
    (direct : size ≤ memoryPageSize mps ∨ prp1 % memoryPageSize mps = 0) :
    ∃ s, build mem (memoryPageSize mps) prp1 prp2 size = .ok s ∧
      Decodes size [prp1, prp2] [] s := by
  obtain ⟨s, hok, decodes⟩ := immediate_decodes aligned fits
  have hnew : new (memoryPageSize mps) prp1 prp2 size = .ok s := by
    unfold new
    simp only
    by_cases hpage : size ≤ memoryPageSize mps
    · rw [if_pos hpage, if_neg (by rw [getPRPSize_eq]; omega), hok]
    · have hzero := direct.resolve_left hpage
      rw [if_neg hpage, if_pos (by omega), if_pos (getPRPSize_of_aligned hzero), hok]
  exact ⟨s, bind_eq_ok.2 ⟨s, hnew, readAll_of_ended mem decodes.ended.1 size⟩, decodes⟩

theorem buffer_of_aligned (mem : Nat → Nat) (aligned : base % memoryPageSize mps = 0) :
    ∃ second more, buffer mem base (getPRPSize (memoryPageSize mps) base) =
      mem base :: second :: more := by
  obtain ⟨k, hk⟩ := dvd_memoryPageSize mps
  have hpos := memoryPageSize_pos mps
  obtain ⟨n, hn⟩ := Nat.exists_eq_add_of_le (by omega : 2 ≤ (memoryPageSize mps + 7) / 8)
  rw [getPRPSize_of_aligned aligned, buffer, hn, List.range_add]
  exact ⟨_, _, rfl⟩

/-- The second page is read as a list, and what it starts with is taken for a page. -/
theorem listed_second (aligned : prp2 % memoryPageSize mps = 0)
    (first : getPRPSize (memoryPageSize mps) prp1 < size)
    (h : readAll mem size (listed mps size prp1 prp2) = .ok s) (ended : s.reading = none) :
    mem prp2 ≠ 0 ∧ [prp1, mem prp2] <+: s.prpList.map PRP.addr := by
  obtain ⟨s₁, rest, hread, hrest⟩ := exists_doRead (listed_reading mps size prp1 prp2) h ended
  obtain ⟨reads₁, -, hless⟩ :=
    doRead_reads (listed_reads first) (listed_reading mps size prp1 prp2) hread
  have hprefix := readAll_prefix reads₁ hrest
  obtain ⟨-, currentSize, prpList, hentries, hend⟩ := doRead_eq_ok hread
  obtain ⟨second, more, hbuffer⟩ := buffer_of_aligned mem aligned
  have hpagesize : (listed mps size prp1 prp2).pagesize = memoryPageSize mps := rfl
  simp only [hbuffer, hpagesize] at hentries
  obtain ⟨hzero, hcases⟩ := readEntries_cons hentries
  refine ⟨hzero, List.IsPrefix.trans ?_ hprefix⟩
  rcases hcases with ⟨hlast, rfl, rfl⟩ | ⟨-, hrest⟩
  · rcases hend with ⟨-, -, hlist⟩ | ⟨hmore, -⟩
    · rw [hlist]
      exact List.prefix_rfl
    · exact absurd hlast (not_le.2 hmore)
  · obtain ⟨n, -, haddr, hall⟩ := readEntries_addr hrest
    rcases hend with ⟨-, -, hlist⟩ | ⟨hmore, hlist, -⟩
    · rw [hlist, haddr]
      exact List.prefix_append _ _
    · rw [hlist, List.map_dropLast, haddr, hall hmore, List.take_length,
        List.dropLast_append_of_ne_nil (by simp)]
      exact List.prefix_append _ _

theorem chain_not_decodes {next : Nat} {rest : List Nat}
    (aligned : ∀ addr ∈ front, addr % memoryPageSize mps = 0)
    (aligned' : ∀ addr ∈ rest, addr % memoryPageSize mps = 0) (more : 2 ≤ rest.length)
    (read : buffer mem prp2 (getPRPSize (memoryPageSize mps) prp2) = front ++ [next])
    (page : next % memoryPageSize mps = 0) (list : Listed mem (memoryPageSize mps) next rest lists)
    (long : getPRPSize (memoryPageSize mps) prp1 +
      memoryPageSize mps * ((front ++ rest).length - 1) < size)
    (fits : size ≤ getPRPSize (memoryPageSize mps) prp1 +
      memoryPageSize mps * (front ++ rest).length)
    (h : readAll mem size (listed mps size prp1 prp2) = .ok s) {all : List Nat} :
    ¬Decodes size (prp1 :: (front ++ rest)) all s := by
  intro decodes
  have hlength : (front ++ rest).length = front.length + 1 + (rest.length - 1) := by
    rw [List.length_append]
    omega
  have hbefore : (front ++ rest).length - 1 = front.length + 1 + (rest.length - 2) := by omega
  rw [hbefore, Nat.mul_add, Nat.mul_succ] at long
  rw [hlength, Nat.mul_add, Nat.mul_succ] at fits
  obtain ⟨s₁, fuel, hread, hrest⟩ :=
    exists_doRead (listed_reading mps size prp1 prp2) h decodes.ended.1
  obtain ⟨hlist, hreading⟩ := doRead_chain aligned page (by omega) read rfl hread
  have hshort := readAll_short list aligned' (by omega) (by omega) (doRead_eq_ok hread).1 hreading
    hrest decodes.ended.1
  have haddr := congrArg List.length decodes.addresses
  rw [hlist, List.length_append, List.length_map] at hshort
  rw [List.length_map, List.length_cons, List.length_append] at haddr
  have hone : (listed mps size prp1 prp2).prpList.length = 1 := rfl
  omega

theorem supported_list (many : 2 ≤ pages.length) {pagesize : Nat} :
    Supported mem pagesize size prp1 prp2 (prp1 :: pages) lists ↔ lists.length = 1 ∧ 0 ∉ pages := by
  obtain ⟨first, others, rfl⟩ := List.exists_cons_of_ne_nil (List.ne_nil_of_length_pos
    (by omega : 0 < pages.length))
  obtain ⟨second, others, rfl⟩ := List.exists_cons_of_ne_nil (List.ne_nil_of_length_pos
    (Nat.le_of_succ_le_succ many))
  exact Iff.rfl

/-- Decoding agrees with the encoding exactly where the code supports it. -/
theorem decodes_iff {mem : Nat → Nat} {mps size prp1 prp2 : Nat} {pages lists : List Nat}
    (encodes : Encodes mem (memoryPageSize mps) size prp1 prp2 pages lists) :
    (∃ s, build mem (memoryPageSize mps) prp1 prp2 size = .ok s ∧ Decodes size pages lists s) ↔
      Supported mem (memoryPageSize mps) size prp1 prp2 pages lists := by
  cases encodes with
  | one fits => exact iff_of_true (build_one mem fits) trivial
  | two long fits aligned =>
      by_cases direct : size ≤ memoryPageSize mps ∨ prp1 % memoryPageSize mps = 0
      · exact iff_of_true (build_two mem long fits aligned direct)
          (direct.imp_right fun h => .inl h)
      · obtain ⟨hlong, hoffset⟩ := not_or.1 direct
        have hfirst : getPRPSize (memoryPageSize mps) prp1 < size := by rwa [getPRPSize_eq]
        have hbuild : build mem (memoryPageSize mps) prp1 prp2 size =
            readAll mem size (listed mps size prp1 prp2) := by
          rw [build, new_of_long (not_le.1 hlong) fun _ => hoffset]
          rfl
        rw [hbuild]
        constructor
        · rintro ⟨s, hok, decodes⟩
          obtain ⟨hzero, hprefix⟩ := listed_second aligned hfirst hok decodes.ended.1
          rw [decodes.addresses] at hprefix
          have heq := hprefix.eq_of_length rfl
          simp only [List.cons.injEq, true_and, and_true] at heq
          exact .inr (.inr ⟨heq, heq ▸ hzero⟩)
        · intro supported
          obtain ⟨hself, hzero⟩ := (supported.resolve_left hlong).resolve_left hoffset
          obtain ⟨second, more, hbuffer⟩ := buffer_of_aligned mem aligned
          rw [hself] at hbuffer
          rw [← getPRPSize_eq] at fits
          refine listed_decodes (by simpa using aligned) (by simpa [eq_comm] using hzero) hfirst
            (by simpa using hfirst) (by simpa using fits) ⟨_, hbuffer⟩
  | @list pages lists many aligned long fits list =>
      rw [← getPRPSize_eq] at long fits
      have hmore : memoryPageSize mps ≤ memoryPageSize mps * (pages.length - 1) :=
        Nat.le_mul_of_pos_right _ (by omega)
      have hfirst : getPRPSize (memoryPageSize mps) prp1 < size := by omega
      have hpage := getPRPSize_eq mps prp1
      have hmod := Nat.mod_lt prp1 (memoryPageSize_pos mps)
      have hbuild : build mem (memoryPageSize mps) prp1 prp2 size =
          readAll mem size (listed mps size prp1 prp2) := by
        rw [build, new_of_long (by omega) fun hle => by omega]
        rfl
      rw [hbuild, supported_list many]
      cases list with
      | last base_aligned fits' held =>
          have hbuffer := buffer_of_fits held base_aligned fits'
          constructor
          · rintro ⟨s, hok, decodes⟩
            refine ⟨rfl, fun hzero => ?_⟩
            obtain ⟨s₁, rest, hread, -⟩ :=
              exists_doRead (listed_reading mps size prp1 prp2) hok decodes.ended.1
            exact doRead_zero aligned hzero (by omega) hbuffer rfl hread
          · rintro ⟨-, hzero⟩
            exact listed_decodes aligned hzero hfirst long fits hbuffer
      | @chain _ next front rest lists base_aligned full more held next_page list =>
          have hbuffer := buffer_of_full held base_aligned (by simpa using full)
          obtain ⟨hfront, hrest⟩ := List.forall_mem_append.1 aligned
          refine iff_of_false ?_ ?_
          · rintro ⟨s, hok, decodes⟩
            exact chain_not_decodes hfront hrest more hbuffer next_page list long fits hok decodes
          · rintro ⟨hone, -⟩
            rw [List.length_eq_zero_iff.1 (Nat.succ.inj hone)] at list
            cases list

def threePages (addr : Nat) : Nat :=
  if addr = 8192 then 20480 else if addr = 8200 then 24576 else 0

theorem decodes_three_pages : ∃ s, build threePages (memoryPageSize 0) 4096 8192 12288 = .ok s ∧
    Decodes 12288 [4096, 20480, 24576] [8192] s := by
  have held : Held threePages 8192 [20480, 24576] := rfl
  exact (decodes_iff (.list (by decide) (by decide) (by decide) (by decide)
    (.last (by decide) (by decide) held))).2 ⟨rfl, by decide⟩

/-- 7680 bytes from the middle of a page on: the second page is empty, and is taken for a
list with no entry. -/
theorem two_pages_not_decoded :
    Encodes (fun _ => 0) (memoryPageSize 0) 7680 4608 12288 [4608, 12288] [] ∧
      ¬∃ s, build (fun _ => 0) (memoryPageSize 0) 4608 12288 7680 = .ok s ∧
        Decodes 7680 [4608, 12288] [] s := by
  refine ⟨.two (by decide) (by decide) (by decide), ?_⟩
  rintro ⟨s, hok, decodes⟩
  obtain ⟨s₀, hnew, hread⟩ := bind_eq_ok.1 hok
  rw [new_of_long (by decide) fun _ => by decide] at hnew
  cases hnew
  exact (listed_second (by decide) (by rw [getPRPSize_eq]; decide) hread decodes.ended.1).1 rfl

end PRPList

end SimpleSSD.HIL.NVMe
