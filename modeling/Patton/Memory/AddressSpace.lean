import Patton.Memory.Allocators
import Patton.Memory.PageFree

/-!
# Histories of the address space

Any number of page allocators and large page allocators, for elements of any type, get their
pages from the operating system, which answers to every call as it likes, and from which
others get pages as well. Blocks are allocated and deallocated in any order, and in between
everybody writes wherever he likes. A page that is mapped belongs to others, or to a live
allocation, or it has been left behind: who frees large pages leaves behind those pages of
the last large page that the data does not reach. The books are kept as an equation between
multisets, so that no page is counted twice.
-/

namespace Patton.Memory

open ByteMemory RoundUp

def PageAllocator.deallocate (os : Os) (T : ElementType) (s : Machine) (ptr n : ℕ) :
    Machine × Except Failure Unit :=
  pageFree os s ptr (n * T.sizeofT % 2 ^ 64)

def LargePageAllocator.deallocate (os : Os) (T : ElementType) (s : Machine) (ptr n : ℕ) :
    Machine × Except Failure Unit :=
  largePageFree os s ptr (n * T.sizeofT % 2 ^ 64)

namespace AddressSpace

/-- The two kinds of pages -/
inductive PageKind
  | page
  | largePage

/-- The size that a block is rounded up to. -/
def PageKind.granule (os : Os) : PageKind → ℕ
  | .page => os.pageSize
  | .largePage => os.largePageSize

/-- `allocate` of the allocator for these pages, on Linux -/
def PageKind.allocate (os : Os) (T : ElementType) (s : Machine) (n : ℕ) :
    PageKind → Machine × Except Failure ℕ
  | .page => PageAllocator.allocate .linux os T s n
  | .largePage => LargePageAllocator.allocate os T s n

/-- `deallocate` of the allocator for these pages -/
def PageKind.deallocate (os : Os) (T : ElementType) (s : Machine) (ptr n : ℕ) :
    PageKind → Machine × Except Failure Unit
  | .page => PageAllocator.deallocate os T s ptr n
  | .largePage => LargePageAllocator.deallocate os T s ptr n

/-- What `allocate` has been called with and has returned, and the memory as it has left
it. -/
structure Allocation where
  kind : PageKind
  T : ElementType
  n : ℕ
  ptr : ℕ
  m : Memory

namespace Allocation

variable (os : Os) (a : Allocation)

def size : ℕ := a.n * a.T.sizeofT

/-- The size of the mapping -/
def len : ℕ := roundUp a.size (a.kind.granule os)

def pages : Finset ℕ := Memory.pages os.pageSize a.ptr (a.len os)

/-- The pages of the mapping that `munmap` does not reach when it is given the size of the
data. -/
def leftBehind : Finset ℕ := a.pages os \ Memory.pages os.pageSize a.ptr a.size

def trap : Set ℕ :=
  Set.Ico (a.ptr + a.size) (a.ptr + a.size + trapSize a.size (a.len os))

/-- Somebody has written into the trap, and not what has been there. -/
def Overwritten (m : Memory) : Prop := ∃ x ∈ a.trap os, m x ≠ a.m x

end Allocation

/-- The machine, the pages of others, the live allocations, and those that have been
deallocated. -/
structure State where
  machine : Machine
  foreign : Finset ℕ
  live : List Allocation
  freed : List Allocation

/-- What happens next: a call of `allocate`, with the answers of the operating system; a call
of `deallocate` for the `k`-th live allocation; a write to the memory; others obtain pages or
hand pages back. -/
inductive Op
  | allocate (kind : PageKind) (T : ElementType) (n : ℕ) (answers : Os)
  | deallocate (k : ℕ) (answers : Os)
  | write (m : Memory)
  | obtain (q : Finset ℕ)
  | handBack (q : Finset ℕ)

/-- An exception of `allocate` is caught by the caller; `deallocate` must not throw. -/
def Op.exec (s : State) : Op → Except Failure State
  | .allocate kind T n answers =>
      match kind.allocate answers T s.machine n with
      | (machine, .error _) => .ok { s with machine := machine }
      | (machine, .ok ptr) =>
          .ok { s with machine := machine, live := ⟨kind, T, n, ptr, machine.memory⟩ :: s.live }
  | .deallocate k answers =>
      match s.live[k]? with
      | none => .ok s
      | some a =>
          match a.kind.deallocate answers a.T s.machine a.ptr a.n with
          | (_, .error e) => .error e
          | (machine, .ok ()) => .ok { s with
              machine := machine, live := s.live.eraseIdx k, freed := a :: s.freed }
  | .write m => .ok { s with machine := { s.machine with memory := m } }
  | .obtain q => .ok { s with
      machine := { s.machine with mapped := s.machine.mapped ∪ q }, foreign := s.foreign ∪ q }
  | .handBack q => .ok { s with
      machine := { s.machine with mapped := s.machine.mapped \ q }, foreign := s.foreign \ q }

/-- The same machine as `os`, with other answers. -/
structure SameSizes (os answers : Os) : Prop where
  pageSize_eq : answers.pageSize = os.pageSize
  largePageSize_eq : answers.largePageSize = os.largePageSize

/-- The operating system maps pages only that are not mapped yet, live allocations are
deallocated, and others hand back their own. -/
def Op.Allowed (os : Os) (s : State) : Op → Prop
  | .allocate _ _ _ answers => SameSizes os answers ∧ ∀ len data, answers.mmap len = .ok data →
      Disjoint s.machine.mapped (pages os.pageSize data len)
  | .deallocate k answers => SameSizes os answers ∧ k < s.live.length
  | .write _ => True
  | .obtain q => Disjoint s.machine.mapped q
  | .handBack q => q ⊆ s.foreign

/-- The states that can be reached from one in which all pages are those of others. -/
inductive Reachable (os : Os) : State → Prop
  | initial (machine : Machine) : Reachable os ⟨machine, machine.mapped, [], []⟩
  | op {s s' : State} {op : Op} : Reachable os s → op.Allowed os s → op.exec s = .ok s' →
      Reachable os s'

/-- What `allocate` has checked, and what it has set. -/
structure Allocation.Valid (os : Os) (a : Allocation) : Prop where
  size_pos : 0 < a.size
  size_lt : a.size < 2 ^ 64
  granule_pos : 0 < a.kind.granule os
  len_le : a.len os ≤ sizeMax
  dvd : os.pageSize ∣ a.ptr
  trap : checkOutOfBoundsWriteTrap a.m a.ptr a.size (a.len os) = true

/-- The mapped pages, each of them once: those of others, those of the live allocations, and
those that have been left behind. -/
structure Inv (os : Os) (s : State) : Prop where
  live : ∀ a ∈ s.live, a.Valid os
  freed : ∀ a ∈ s.freed, a.Valid os
  mapped : s.machine.mapped.val = s.foreign.val +
    (s.live.map fun a => (a.pages os).val).sum +
    (s.freed.map fun a => (a.leftBehind os).val).sum

variable {os answers : Os} {s s' : State} {a : Allocation} {m m' : Memory} {k n len data : ℕ}
  {kind : PageKind} {T : ElementType} {op : Op} {machine : Machine} {q : Finset ℕ}

theorem nbData_cases (T : ElementType) (n : ℕ) : nbData T n = .error .badAlloc ∨
    n * T.sizeofT < 2 ^ 64 ∧ nbData T n = .ok (n * T.sizeofT) := by
  rw [nbData]
  split
  · exact .inl rfl
  · next h =>
      have hlt : n * T.sizeofT < sizeMax := by
        have hmul : (n + 1) * T.sizeofT ≤ sizeMax :=
          (Nat.mul_le_mul_right _ (not_le.1 h)).trans (Nat.div_mul_le_self _ _)
        have hpos := T.sizeofT_pos
        rw [Nat.succ_mul] at hmul
        omega
      have hlt' : n * T.sizeofT < 2 ^ 64 := hlt.trans (by decide)
      exact .inr ⟨hlt', by rw [Nat.mod_eq_of_lt hlt']⟩

/-- An exception which leaves the mapped pages and the memory as they are. -/
def Throws (s : Machine) (result : Machine × Except Failure ℕ) : Prop :=
  ∃ s' e, result = (s', .error e) ∧ s'.mapped = s.mapped ∧ s'.memory = s.memory

/-- A new mapping with its trap -/
def Maps (os : Os) (s : Machine) (size len : ℕ) (result : Machine × Except Failure ℕ) : Prop :=
  ∃ s' data, os.mmap len = .ok data ∧ result = (s', .ok data) ∧
    s'.mapped = s.mapped ∪ pages os.pageSize data len ∧
    s'.memory = setOutOfBoundsWriteTrap s.memory data size len

/-- The calls of the operating system: a failure of `mmap` becomes one of `madvise`, which
rejects `MAP_FAILED`. -/
theorem mapAndAdvise_cases {advice : Advice} {size : ℕ} (hfailed : ¬ os.pageSize ∣ mapFailed)
    (hfree : ∀ data, os.mmap len = .ok data →
      Disjoint machine.mapped (pages os.pageSize data len)) :
    Throws machine (mapAndAdvise os (some advice) machine size len) ∨
      Maps os machine size len (mapAndAdvise os (some advice) machine size len) := by
  cases hmmap : os.mmap len with
  | error e =>
      have hnull : mapFailed ≠ nullptr := by decide
      have hadvise := os.madvise_unaligned advice mapFailed len hfailed
      refine .inl ⟨{ machine with errno := EINVAL }, .systemError EINVAL, ?_, rfl, rfl⟩
      simp [mapAndAdvise, Os.callMmap, Os.callMadvise, Os.callMunmap, hmmap, hnull, hadvise,
        hfailed]
  | ok data =>
      obtain ⟨hdvd, hnull, -⟩ := os.mmap_ok len data hmmap
      have hlen : len ≠ 0 := by
        rintro rfl
        exact os.mmap_zero data hmmap
      cases hadvise : os.madvise advice data len with
      | none =>
          refine .inr ⟨Machine.setTrap { machine with
            mapped := machine.mapped ∪ pages os.pageSize data len } data size len, data, hmmap, ?_,
            rfl, rfl⟩
          simp [mapAndAdvise, Os.callMmap, Os.callMadvise, hmmap, hnull, hadvise]
      | some e =>
          have hrestored : (machine.mapped ∪ pages os.pageSize data len) \
              pages os.pageSize data len = machine.mapped := by
            rw [Finset.union_sdiff_right, Finset.sdiff_eq_self_of_disjoint (hfree data hmmap)]
          refine .inl ⟨{ machine with errno := e }, .systemError e, ?_, rfl, rfl⟩
          simp [mapAndAdvise, Os.callMmap, Os.callMadvise, Os.callMunmap, hmmap, hnull, hadvise,
            hdvd, hlen, hrestored]

/-- The size is rounded up before. -/
theorem tryCeili_mapAndAdvise_cases {advice : Advice} {size granule : ℕ} (hpos : 0 < granule)
    (hfailed : ¬ os.pageSize ∣ mapFailed)
    (hfree : ∀ len data, os.mmap len = .ok data →
      Disjoint machine.mapped (pages os.pageSize data len))
    {result : Machine × Except Failure ℕ}
    (hresult : result = if (tryCeili size granule).ec ≠ .none then (machine, .error .badAlloc)
      else mapAndAdvise os (some advice) machine size (tryCeili size granule).value) :
    Throws machine result ∨
      roundUp size granule ≤ sizeMax ∧ Maps os machine size (roundUp size granule) result := by
  rw [tryCeili_eq hpos] at hresult
  by_cases hle : roundUp size granule ≤ sizeMax
  · rw [checked_of_le hle, if_neg (by simp)] at hresult
    rw [hresult]
    exact (mapAndAdvise_cases hfailed (hfree _)).imp_right fun hmaps => ⟨hle, hmaps⟩
  · rw [checked_of_lt (not_le.1 hle), if_pos (by decide)] at hresult
    exact .inl ⟨machine, .badAlloc, hresult, rfl, rfl⟩

/-- `allocate` throws, or it maps the size rounded up. -/
theorem allocate_cases (hfailed : ¬ os.pageSize ∣ mapFailed)
    (hfree : ∀ len data, os.mmap len = .ok data →
      Disjoint machine.mapped (pages os.pageSize data len)) :
    Throws machine (kind.allocate os T machine n) ∨
      n * T.sizeofT < 2 ^ 64 ∧ 0 < kind.granule os ∧
      roundUp (n * T.sizeofT) (kind.granule os) ≤ sizeMax ∧
      Maps os machine (n * T.sizeofT) (roundUp (n * T.sizeofT) (kind.granule os))
        (kind.allocate os T machine n) := by
  rcases nbData_cases T n with hdata | ⟨hlt, hdata⟩
  · refine .inl ⟨machine, .badAlloc, ?_, rfl, rfl⟩
    cases kind with
    | page => rw [PageKind.allocate, PageAllocator.allocate, hdata]
    | largePage => rw [PageKind.allocate, LargePageAllocator.allocate, hdata]
  · cases kind with
    | page =>
        have hpos := os.pageSize_pos
        have hresult : PageKind.page.allocate os T machine n =
            if (tryCeili (n * T.sizeofT) os.pageSize).ec ≠ .none then (machine, .error .badAlloc)
            else mapAndAdvise os (some .noHugePage) machine (n * T.sizeofT)
              (tryCeili (n * T.sizeofT) os.pageSize).value := by
          rw [PageKind.allocate, PageAllocator.allocate, hdata]
          exact if_neg hpos.ne'
        exact (tryCeili_mapAndAdvise_cases hpos hfailed hfree hresult).imp_right
          fun hmaps => ⟨hlt, hpos, hmaps⟩
    | largePage =>
        rcases Nat.eq_zero_or_pos os.largePageSize with hzero | hpos
        · refine .inl ⟨machine, .notSupported, ?_, rfl, rfl⟩
          rw [PageKind.allocate, LargePageAllocator.allocate, hdata]
          exact if_neg (not_not.2 hzero)
        · have hresult : PageKind.largePage.allocate os T machine n =
              if (tryCeili (n * T.sizeofT) os.largePageSize).ec ≠ .none then
                (machine, .error .badAlloc)
              else mapAndAdvise os (some .hugePage) machine (n * T.sizeofT)
                (tryCeili (n * T.sizeofT) os.largePageSize).value := by
            rw [PageKind.allocate, LargePageAllocator.allocate, hdata]
            exact if_pos hpos.ne'
          exact (tryCeili_mapAndAdvise_cases hpos hfailed hfree hresult).imp_right
            fun hmaps => ⟨hlt, hpos, hmaps⟩

/-- Only a write changes the memory in pages that are mapped. -/
def Frame (os : Os) (s : State) (op : Op) (s' : State) : Prop :=
  (∀ m, op ≠ .write m) → ∀ x, x / os.pageSize ∈ s.machine.mapped →
    s'.machine.memory x = s.machine.memory x

/-- The trap of the allocation that is deallocated has been overwritten. -/
def Op.Fails (os : Os) (s : State) (op : Op) : Prop :=
  ∃ k answers a, op = .deallocate k answers ∧ s.live[k]? = some a ∧
    a.Overwritten os s.machine.memory

/-- An operation has been carried out, and the invariant is kept. -/
structure Kept (os : Os) (s : State) (op : Op) (s' : State) : Prop where
  exec : op.exec s = .ok s'
  inv : Inv os s'
  frame : Frame os s op s'

theorem SameSizes.granule_eq (h : SameSizes os answers) (kind : PageKind) :
    kind.granule answers = kind.granule os := by
  cases kind with
  | page => exact h.pageSize_eq
  | largePage => exact h.largePageSize_eq

theorem pageSize_dvd_granule (kind : PageKind) : os.pageSize ∣ kind.granule os := by
  cases kind with
  | page => exact dvd_rfl
  | largePage => exact os.pageSize_dvd

theorem val_union_of_disjoint {p q : Finset ℕ} (h : Disjoint p q) :
    (p ∪ q).val = p.val + q.val := by
  rw [Finset.union_val]
  exact Multiset.add_eq_union_iff_disjoint.2 (Finset.disjoint_val.2 h) |>.symm

theorem val_sdiff_of_eq_add {p q : Finset ℕ} {t : Multiset ℕ} (h : p.val = q.val + t) :
    (p \ q).val = t := by
  rw [Finset.sdiff_val, h, add_tsub_cancel_left]

theorem val_eq_add_sdiff {p q : Finset ℕ} (h : q ⊆ p) : p.val = q.val + (p \ q).val := by
  rw [Finset.sdiff_val, add_tsub_cancel_of_le (Finset.val_le_iff.2 h)]

/-- A byte of a block lies in a page of it. -/
theorem div_mem_pages {x : ℕ} (hle : data ≤ x) (hlt : x < data + len) :
    x / os.pageSize ∈ pages os.pageSize data len := by
  have hpos := os.pageSize_pos
  rw [mem_pages hpos]
  exact ⟨(Nat.div_mul_le_self x _).trans_lt hlt, hle.trans_lt (Nat.lt_div_mul_add hpos |>.trans_eq
    (Nat.succ_mul _ _).symm)⟩

theorem Inv.allocate (h : Inv os s) (hpage : ¬ os.pageSize ∣ mapFailed)
    (hsizes : SameSizes os answers) (hfree : ∀ len data, answers.mmap len = .ok data →
      Disjoint s.machine.mapped (pages os.pageSize data len)) :
    ∃ s', Kept os s (.allocate kind T n answers) s' := by
  have hcases := @allocate_cases answers n kind T s.machine (by rwa [hsizes.pageSize_eq])
    (by rwa [hsizes.pageSize_eq])
  rw [Maps, hsizes.pageSize_eq, hsizes.granule_eq] at hcases
  rcases hcases with ⟨machine, e, hresult, hmapped, hmemory⟩ |
    ⟨hlt, hpos, hle, machine, data, hmmap, hresult, hmapped, hmemory⟩
  · refine ⟨{ s with machine := machine }, ?_, ⟨h.live, h.freed, ?_⟩, fun _ x _ => ?_⟩
    · rw [Op.exec, hresult]
    · exact (congrArg Finset.val hmapped).trans h.mapped
    · exact congrFun hmemory x
  have hdisjoint := hfree _ _ hmmap
  obtain ⟨hdvd, -, -⟩ := answers.mmap_ok _ _ hmmap
  rw [hsizes.pageSize_eq] at hdvd
  have hsize : 0 < n * T.sizeofT := by
    refine Nat.pos_of_ne_zero fun hzero => ?_
    rw [hzero, roundUp_zero] at hmmap
    exact answers.mmap_zero _ hmmap
  refine ⟨{ s with machine := machine, live := ⟨kind, T, n, data, machine.memory⟩ :: s.live },
    ?_, ⟨?_, h.freed, ?_⟩, fun _ x hx => ?_⟩
  · rw [Op.exec, hresult]
  · refine List.forall_mem_cons.2 ⟨⟨hsize, hlt, hpos, hle, hdvd, ?_⟩, h.live⟩
    exact (checkOutOfBoundsWriteTrap_iff (m := s.machine.memory)).2 fun x _ _ => congrFun hmemory x
  · have hval := congrArg Finset.val hmapped
    rw [val_union_of_disjoint hdisjoint, h.mapped] at hval
    refine hval.trans ?_
    rw [List.map_cons, List.sum_cons, Allocation.pages, Allocation.len, Allocation.size]
    abel
  · -- the trap lies in the new pages
    refine (congrFun hmemory x).trans (setOutOfBoundsWriteTrap_of_outside ?_)
    by_contra hin
    rw [not_or, not_lt, not_le] at hin
    have htrap := trapSize_le (n * T.sizeofT) (roundUp (n * T.sizeofT) (kind.granule os))
    have hround := le_roundUp hpos (n * T.sizeofT)
    exact Finset.disjoint_left.1 hdisjoint hx (div_mem_pages (by omega) (by omega))

/-- `deallocate` checks the trap, and then unmaps the pages that the data reaches. -/
theorem Allocation.Valid.deallocate_eq (h : a.Valid os) (hsizes : SameSizes os answers)
    (machine : Machine) : a.kind.deallocate answers a.T machine a.ptr a.n =
      if checkOutOfBoundsWriteTrap machine.memory a.ptr a.size (a.len os) then
        ({ machine with mapped := machine.mapped \ Memory.pages os.pageSize a.ptr a.size }, .ok ())
      else (machine, .error .failFast) := by
  have hsize : a.n * a.T.sizeofT % 2 ^ 64 = a.size := Nat.mod_eq_of_lt h.size_lt
  have heq : a.kind.deallocate answers a.T machine a.ptr a.n =
      checkAndUnmap answers (a.kind.granule os) machine a.ptr a.size := by
    rw [← hsizes.granule_eq, ← hsize]
    cases a.kind <;> rfl
  have hmunmap : answers.callMunmap machine a.ptr a.size =
      ({ machine with mapped := machine.mapped \ Memory.pages os.pageSize a.ptr a.size }, 0) := by
    rw [Os.callMunmap, hsizes.pageSize_eq, if_pos ⟨h.dvd, h.size_pos.ne'⟩]
  have hceil : tryCeili a.size (a.kind.granule os) = ⟨a.len os, .none⟩ :=
    (tryCeili_eq h.granule_pos _).trans (checked_of_le h.len_le)
  rw [heq, checkAndUnmap, hceil, if_neg (by simp)]
  by_cases hcheck : checkOutOfBoundsWriteTrap machine.memory a.ptr a.size (a.len os) = true
  · simp [hcheck, hmunmap]
  · simp [hcheck]

theorem Allocation.Valid.check_iff (h : a.Valid os) (m : Memory) :
    checkOutOfBoundsWriteTrap m a.ptr a.size (a.len os) = true ↔ ¬ a.Overwritten os m := by
  have htrap := (checkOutOfBoundsWriteTrap_iff (m := a.m)).1 h.trap
  rw [checkOutOfBoundsWriteTrap_iff (m := a.m)]
  simp only [Allocation.Overwritten, Allocation.trap, Set.mem_Ico, not_exists, not_and, not_not,
    and_imp]
  refine forall_congr' fun x => forall_congr' fun hle => forall_congr' fun hlt => ?_
  rw [← htrap x hle hlt]

theorem Inv.exec_eq_failFast (h : Inv os s) (hop : op.Allowed os s) (hfails : op.Fails os s) :
    op.exec s = .error .failFast := by
  obtain ⟨k, answers, a, rfl, hk, htrap⟩ := hfails
  have hvalid := h.live a (List.mem_of_getElem? hk)
  have hcheck := mt (hvalid.check_iff s.machine.memory).1 (not_not.2 htrap)
  simp only [Op.exec, hk, hvalid.deallocate_eq hop.1, if_neg hcheck]

/-- The pages that the data reaches are pages of the block. -/
theorem Allocation.Valid.pages_size_subset (h : a.Valid os) :
    Memory.pages os.pageSize a.ptr a.size ⊆ a.pages os := by
  rw [Allocation.pages, pages_eq h.dvd, pages_eq h.dvd]
  refine Finset.Ico_subset_Ico_right (Nat.add_le_add_left ?_ _)
  exact (gc_mul_ceilDiv os.pageSize_pos).monotone_l (le_roundUp h.granule_pos _)

theorem Inv.deallocate (h : Inv os s) (hsizes : SameSizes os answers) (hk : k < s.live.length)
    (htrap : ¬ s.live[k].Overwritten os s.machine.memory) :
    ∃ s', Kept os s (.deallocate k answers) s' := by
  have hvalid := h.live _ (List.getElem_mem hk)
  have hcheck := (hvalid.check_iff s.machine.memory).2 htrap
  have hperm : s.live.Perm (s.live[k] :: s.live.eraseIdx k) :=
    (List.getElem_cons_eraseIdx_perm hk).symm
  refine ⟨{ s with
    machine := { s.machine with
      mapped := s.machine.mapped \ pages os.pageSize s.live[k].ptr s.live[k].size }
    live := s.live.eraseIdx k
    freed := s.live[k] :: s.freed }, ?_, ⟨?_, ?_, ?_⟩, fun _ _ _ => rfl⟩
  · simp only [Op.exec, List.getElem?_eq_getElem hk, hvalid.deallocate_eq hsizes, if_pos hcheck]
  · exact fun a ha => h.live a (List.mem_of_mem_eraseIdx ha)
  · exact List.forall_mem_cons.2 ⟨hvalid, h.freed⟩
  · have hsum := (hperm.map fun a => (a.pages os).val).sum_eq
    have hsplit := val_eq_add_sdiff hvalid.pages_size_subset
    rw [List.map_cons, List.sum_cons, hsplit] at hsum
    refine val_sdiff_of_eq_add ?_
    rw [h.mapped, hsum, List.map_cons, List.sum_cons, Allocation.leftBehind]
    abel

theorem Inv.foreign_subset (h : Inv os s) : s.foreign ⊆ s.machine.mapped := by
  rw [← Finset.val_le_iff, h.mapped, Multiset.add_assoc]
  exact Multiset.le_add_right _ _

/-- Every operation that does not fail is carried out. -/
theorem Inv.exec (h : Inv os s) (hpage : ¬ os.pageSize ∣ mapFailed) (hop : op.Allowed os s)
    (hfails : ¬ op.Fails os s) : ∃ s', Kept os s op s' := by
  cases op with
  | allocate kind T n answers => exact h.allocate hpage hop.1 hop.2
  | deallocate k answers =>
      refine h.deallocate hop.1 hop.2 fun htrap => hfails ?_
      exact ⟨k, answers, _, rfl, List.getElem?_eq_getElem hop.2, htrap⟩
  | write m => exact ⟨_, rfl, ⟨h.live, h.freed, h.mapped⟩, fun hne => absurd rfl (hne m)⟩
  | obtain q =>
      refine ⟨_, rfl, ⟨h.live, h.freed, ?_⟩, fun _ _ _ => rfl⟩
      rw [val_union_of_disjoint hop, val_union_of_disjoint (hop.mono_left h.foreign_subset),
        h.mapped]
      abel
  | handBack q =>
      refine ⟨_, rfl, ⟨h.live, h.freed, ?_⟩, fun _ _ _ => rfl⟩
      refine val_sdiff_of_eq_add ?_
      rw [h.mapped, val_eq_add_sdiff hop]
      abel

theorem Reachable.inv (h : Reachable os s) (hpage : ¬ os.pageSize ∣ mapFailed) : Inv os s := by
  induction h with
  | initial machine => exact ⟨by simp, by simp, by simp⟩
  | @op s s' op _ hop hexec ih =>
      have hfails : ¬ op.Fails os s := by
        intro hfails
        rw [ih.exec_eq_failFast hop hfails] at hexec
        cases hexec
      obtain ⟨s₁, hkept⟩ := ih.exec hpage hop hfails
      obtain rfl := Except.ok.inj (hkept.exec.symm.trans hexec)
      exact hkept.inv

section

variable {l : List Allocation} {f : Allocation → Finset ℕ} {page : ℕ}

theorem mem_sum_val_iff : page ∈ (l.map fun a => (f a).val).sum ↔ ∃ a ∈ l, page ∈ f a := by
  induction l with
  | nil => simp
  | cons a l ih => simp [ih]

theorem card_sum_val : (l.map fun a => (f a).val).sum.card = (l.map fun a => (f a).card).sum := by
  induction l with
  | nil => rfl
  | cons a l ih => simp [ih]

end

theorem Allocation.Valid.dvd_len (h : a.Valid os) : os.pageSize ∣ a.len os :=
  (pageSize_dvd_granule a.kind).trans (dvd_roundUp _ _)

theorem Allocation.Valid.card_pages (h : a.Valid os) :
    (a.pages os).card * os.pageSize = a.len os := by
  obtain ⟨k, hk⟩ := h.dvd_len
  have hceil : (os.pageSize * k) ⌈/⌉ os.pageSize = k := smul_ceilDiv os.pageSize_pos k
  rw [Allocation.pages, pages_eq h.dvd, Nat.card_Ico, Nat.add_sub_cancel_left, hk, hceil,
    Nat.mul_comm]

/-- What is left behind of a block: its size is not the one that `munmap` rounds up to. -/
theorem Allocation.Valid.card_leftBehind (h : a.Valid os) :
    (a.leftBehind os).card * os.pageSize = a.len os - roundUp a.size os.pageSize := by
  have hreached : (Memory.pages os.pageSize a.ptr a.size).card * os.pageSize =
      roundUp a.size os.pageSize := by
    rw [pages_eq h.dvd, Nat.card_Ico, Nat.add_sub_cancel_left, roundUp]
  rw [Allocation.leftBehind, Finset.card_sdiff_of_subset h.pages_size_subset, Nat.sub_mul,
    h.card_pages, hreached]

/-- The mapped bytes: those of others, those of the blocks, and those left behind. -/
theorem Inv.card_mapped_mul (h : Inv os s) : s.machine.mapped.card * os.pageSize =
    s.foreign.card * os.pageSize + (s.live.map fun a => a.len os).sum +
      (s.freed.map fun a => a.len os - roundUp a.size os.pageSize).sum := by
  have hcard := congrArg Multiset.card h.mapped
  rw [Multiset.card_add, Multiset.card_add, card_sum_val, card_sum_val] at hcard
  have hlive : (s.live.map fun a => (a.pages os).card * os.pageSize) =
      s.live.map fun a => a.len os := List.map_congr_left fun a ha => (h.live a ha).card_pages
  have hfreed : (s.freed.map fun a => (a.leftBehind os).card * os.pageSize) =
      s.freed.map fun a => a.len os - roundUp a.size os.pageSize :=
    List.map_congr_left fun a ha => (h.freed a ha).card_leftBehind
  rw [Finset.card_def, hcard, Nat.add_mul, Nat.add_mul, ← List.sum_map_mul_right,
    ← List.sum_map_mul_right, hlive, hfreed]
  rfl

/-- What holds in every state that can be reached: of all that can be done next, only the
deallocation of an allocation whose trap has been overwritten fails; nothing but a write
changes the memory in mapped pages; the blocks of the allocations begin at pages, have room
for the data, and are mapped and apart from each other; a page is mapped only for somebody, or
because it has been left behind, and so many bytes have been left behind as the rounding to
large pages adds; and when there is no allocation any more, the pages of others are all that
is mapped if and only if the data has always reached the last page of its block. -/
structure Safe (os : Os) (s : State) : Prop where
  failFast : ∀ op : Op, op.Allowed os s → op.Fails os s → op.exec s = .error .failFast
  exec : ∀ op : Op, op.Allowed os s → ¬ op.Fails os s → ∃ s', op.exec s = .ok s' ∧ Frame os s op s'
  block : ∀ a ∈ s.live, os.pageSize ∣ a.ptr ∧ a.size ≤ a.len os ∧ a.pages os ⊆ s.machine.mapped
  apart : s.live.Pairwise fun a a' => Disjoint (a.pages os) (a'.pages os)
  mem_mapped_iff : ∀ page, page ∈ s.machine.mapped ↔ page ∈ s.foreign ∨
    (∃ a ∈ s.live, page ∈ a.pages os) ∨ ∃ a ∈ s.freed, page ∈ a.leftBehind os
  card_mapped_mul : s.machine.mapped.card * os.pageSize =
    s.foreign.card * os.pageSize + (s.live.map fun a => a.len os).sum +
      (s.freed.map fun a => a.len os - roundUp a.size os.pageSize).sum
  settled : s.live = [] → (s.machine.mapped = s.foreign ↔
    ∀ a ∈ s.freed, roundUp a.size os.pageSize = a.len os)

theorem Inv.mem_mapped_iff (h : Inv os s) (page : ℕ) :
    page ∈ s.machine.mapped ↔ page ∈ s.foreign ∨
      (∃ a ∈ s.live, page ∈ a.pages os) ∨ ∃ a ∈ s.freed, page ∈ a.leftBehind os := by
  rw [← Finset.mem_val, h.mapped, Multiset.mem_add, Multiset.mem_add, mem_sum_val_iff,
    mem_sum_val_iff, Finset.mem_val, or_assoc]

end AddressSpace

end Patton.Memory
