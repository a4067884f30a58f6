import Patton.Memory.Arithmetic
import Patton.Memory.OperatingSystem

/-!
# Allocating pages

`page_alloc` and `large_page_alloc` map pages, give an advice about them and set a
trap behind the data; `page_free` and `large_page_free` check the trap and unmap the
pages.
-/

namespace Patton.Memory

open ByteMemory RoundUp

/-- The two POSIX builds: with the `madvise` step of Linux and without it. -/
inductive Build
  | linux
  | posix

/-- The exceptions, and the checks that end the program. -/
inductive Failure
  | badAlloc
  | systemError (errno : ℕ)
  | notSupported
  | failFast
  deriving DecidableEq

/-- The part of `page_alloc` and `large_page_alloc` from the call of `mmap` on. -/
def mapAndAdvise (os : Os) (advice : Option Advice) (s : Machine) (size fullSize : ℕ) :
    Machine × Except Failure ℕ :=
  let (s, data) := os.callMmap s fullSize
  if data = nullptr then (s, .error (.systemError s.errno))  -- `posix_assert(data != nullptr)`
  else
    match advice with
    | none => (s.setTrap data size fullSize, .ok data)
    | some advice =>
        let (s, ec) := os.callMadvise s advice data fullSize
        if ec ≠ 0 then
          let ec := s.errno
          let (s, _) := os.callMunmap s data fullSize
          (s, .error (.systemError ec))
        else (s.setTrap data size fullSize, .ok data)

def Build.advice : Build → Option Advice
  | .linux => some .noHugePage
  | .posix => none

def pageAlloc (build : Build) (os : Os) (s : Machine) (size : ℕ) :
    Machine × Except Failure ℕ :=
  if os.pageSize = 0 then (s, .error .failFast)  -- `gsl_Assert(pageSize != 0)`
  else
    let fullSizeR := tryCeili size os.pageSize
    if fullSizeR.ec ≠ .none then (s, .error .badAlloc)
    else mapAndAdvise os build.advice s size fullSizeR.value

/-- `large_page_alloc`, on Linux -/
def largePageAlloc (os : Os) (s : Machine) (size : ℕ) : Machine × Except Failure ℕ :=
  if os.largePageSize ≠ 0 then
    let fullSizeR := tryCeili size os.largePageSize
    if fullSizeR.ec ≠ .none then (s, .error .badAlloc)
    else mapAndAdvise os (some .hugePage) s size fullSizeR.value
  else (s, .error .notSupported)

/-- `page_free` and `large_page_free`, which differ in the page size `granule` that they
round up to. -/
def checkAndUnmap (os : Os) (granule : ℕ) (s : Machine) (data size : ℕ) :
    Machine × Except Failure Unit :=
  let allocSizeR := tryCeili size granule
  -- `gsl_Assert(allocSizeR.ec == std::errc{ })`
  if allocSizeR.ec ≠ .none then (s, .error .failFast)
  else if !checkOutOfBoundsWriteTrap s.memory data size allocSizeR.value then (s, .error .failFast)
  else
    let (s, ec) := os.callMunmap s data size
    if ec = 0 then (s, .ok ()) else (s, .error (.systemError s.errno))

def pageFree (os : Os) (s : Machine) (data size : ℕ) : Machine × Except Failure Unit :=
  checkAndUnmap os os.pageSize s data size

/-- `large_page_free`, on Linux -/
def largePageFree (os : Os) (s : Machine) (data size : ℕ) : Machine × Except Failure Unit :=
  checkAndUnmap os os.largePageSize s data size

variable {os : Os} {s s' s₁ : Machine} {advice : Option Advice} {size fullSize data len : ℕ}

/-- The error number of the first call that fails when `len` bytes are mapped. -/
def Os.firstError (os : Os) (advice : Option Advice) (len : ℕ) : Option ℕ :=
  match os.mmap len with
  | .error e => some e
  | .ok data => advice.bind fun advice => os.madvise advice data len

/-- The size that is mapped, if the calls of the operating system are reached. -/
def mappedSize (size granule : ℕ) : Option ℕ :=
  if granule ≠ 0 ∧ (tryCeili size granule).ec = .none then some (tryCeili size granule).value
  else none

/-- What the callers of `page_alloc` rely on: it returns the start of a new mapping that
holds `size` bytes and writes into it only, or it throws, leaves no mapping behind, and
reports the error number of the first call that has failed. -/
def Sound (os : Os) (advice : Option Advice) (s : Machine) (size : ℕ) (mapped : Option ℕ) :
    Machine × Except Failure ℕ → Prop
  | (s', .ok data) => data ≠ nullptr ∧ data ≠ mapFailed ∧ os.pageSize ∣ data ∧
      ∃ len, mapped = some len ∧ size ≤ len ∧
        s'.mapped = s.mapped ∪ pages os.pageSize data len ∧
        Disjoint s.mapped (pages os.pageSize data len) ∧
        ∀ a ∈ s'.writes, a ∈ s.writes ∨ data ≤ a ∧ a + sizeofUint32 ≤ data + len
  | (s', .error failure) => s'.mapped = s.mapped ∧ s'.writes = s.writes ∧
      ∀ e, failure = .systemError e ↔ mapped.bind (os.firstError advice) = some e

/-- `mmap` does not fail, or it fails with the error number with which `madvise` then
rejects `MAP_FAILED`. -/
def MmapHandled (os : Os) (advice : Option Advice) (mapped : Option ℕ) : Prop :=
  ∀ len e, mapped = some len → os.mmap len = .error e →
    ∃ a, advice = some a ∧ os.madvise a mapFailed len = some e

theorem mem_trapAddresses {a allocSize : ℕ} (h : a ∈ trapAddresses data size allocSize) :
    data + size ≤ a ∧ a + sizeofUint32 ≤ data + size + (allocSize - size) := by
  obtain ⟨i, hi, rfl⟩ := List.mem_map.1 h
  have hle := trapSize_le size allocSize
  have hmul : (i + 1) * sizeofUint32 ≤ trapSize size allocSize :=
    Nat.mul_le_mul_right _ (List.mem_range.1 hi)
  rw [Nat.succ_mul] at hmul
  omega

theorem mmapHandled_some : MmapHandled os advice (some len) ↔
    ∀ e, os.mmap len = .error e → ∃ a, advice = some a ∧ os.madvise a mapFailed len = some e := by
  constructor
  · intro h e he
    exact h len e rfl he
  · rintro h _ e ⟨⟩ he
    exact h e he

/-- `munmap` of a range that the mapped pages do not reach changes nothing. -/
theorem callMunmap_mapped_of_disjoint (h : Disjoint s.mapped (pages os.pageSize data len)) :
    (os.callMunmap s data len).1.mapped = s.mapped := by
  rw [Os.callMunmap]
  split
  · exact Finset.sdiff_eq_self_of_disjoint h
  · rfl

theorem callMunmap_writes : (os.callMunmap s data len).1.writes = s.writes := by
  rw [Os.callMunmap]
  split <;> rfl

theorem Os.Fresh.disjoint_mapFailed (hfresh : os.Fresh s) :
    Disjoint s.mapped (pages os.pageSize mapFailed len) := by
  rw [Finset.disjoint_left]
  intro page hpage hmem
  have hlt := hfresh.lt_mapFailed page hpage
  have hle := (Finset.mem_Ico.1 hmem).1
  omega

/-- `mmap` fails: the address `MAP_FAILED` gets as far as `madvise`. -/
theorem mapAndAdvise_sound_iff_of_error (hfresh : os.Fresh s) {e : ℕ}
    (hmmap : os.mmap len = .error e) :
    Sound os advice s size (some len) (mapAndAdvise os advice s size len) ↔
      MmapHandled os advice (some len) := by
  have hnull : mapFailed ≠ nullptr := by decide
  have hfirst : os.firstError advice len = some e := by simp [Os.firstError, hmmap]
  simp only [mmapHandled_some, hmmap, Except.error.injEq, forall_eq']
  cases advice with
  | none => simp [mapAndAdvise, Os.callMmap, hmmap, hnull, Sound]
  | some a =>
      cases hadvise : os.madvise a mapFailed len with
      | none => simp [mapAndAdvise, Os.callMmap, Os.callMadvise, hmmap, hnull, hadvise, Sound]
      | some e' =>
          have hmapped : ∀ n, (os.callMunmap { s with errno := n } mapFailed len).1.mapped =
              s.mapped := fun n => callMunmap_mapped_of_disjoint hfresh.disjoint_mapFailed
          simp [mapAndAdvise, Os.callMmap, Os.callMadvise, hmmap, hnull, hadvise, Sound, hfirst,
            hmapped, callMunmap_writes]

/-- `mmap` succeeds: if `madvise` fails, the new pages are unmapped again. -/
theorem mapAndAdvise_sound_of_ok (hfresh : os.Fresh s) (hsize : size ≤ len)
    (hmmap : os.mmap len = .ok data) :
    Sound os advice s size (some len) (mapAndAdvise os advice s size len) := by
  obtain ⟨hdvd, hnull, hfailed⟩ := os.mmap_ok len data hmmap
  have hdisj := hfresh.disjoint len data hmmap
  have hlen : len ≠ 0 := by
    rintro rfl
    exact os.mmap_zero data hmmap
  have hok : ∀ s' : Machine, s'.mapped = s.mapped ∪ pages os.pageSize data len →
      s'.writes = s.writes →
        Sound os advice s size (some len) (s'.setTrap data size len, .ok data) := by
    intro s' hmapped hwrites
    refine ⟨hnull, hfailed, hdvd, len, rfl, hsize, hmapped, hdisj, fun a ha => ?_⟩
    rcases List.mem_append.1 ha with ha | ha
    · exact .inl (hwrites ▸ ha)
    · obtain ⟨hle, hlt⟩ := mem_trapAddresses ha
      exact .inr ⟨by omega, by omega⟩
  simp only [mapAndAdvise, Os.callMmap, hmmap, if_neg hnull]
  cases advice with
  | none => exact hok _ rfl rfl
  | some a =>
      cases hadvise : os.madvise a data len with
      | none =>
          simp only [Os.callMadvise, hadvise]
          exact hok _ rfl rfl
      | some e =>
          have hrestored : (s.mapped ∪ pages os.pageSize data len) \ pages os.pageSize data len =
              s.mapped := by
            rw [Finset.union_sdiff_right, Finset.sdiff_eq_self_of_disjoint hdisj]
          simp [Os.callMadvise, Os.callMunmap, hadvise, hdvd, hlen, Sound, hrestored,
            Os.firstError, hmmap]

theorem mapAndAdvise_sound_iff (hfresh : os.Fresh s) (hsize : size ≤ len) :
    Sound os advice s size (some len) (mapAndAdvise os advice s size len) ↔
      MmapHandled os advice (some len) := by
  cases hmmap : os.mmap len with
  | error e => exact mapAndAdvise_sound_iff_of_error hfresh hmmap
  | ok data =>
      refine iff_of_true (mapAndAdvise_sound_of_ok hfresh hsize hmmap) ?_
      rw [mmapHandled_some]
      intro e he
      rw [hmmap] at he
      cases he

theorem mappedSize_eq {granule : ℕ} (hpos : 0 < granule) (size : ℕ) :
    mappedSize size granule =
      if roundUp size granule ≤ sizeMax then some (roundUp size granule) else none := by
  simp only [mappedSize, tryCeili_eq hpos, checked_ec, hpos.ne', ne_eq, not_false_eq_true,
    true_and]
  split
  · next hle => rw [checked_of_le hle]
  · rfl

/-- Rounding up comes first: without a size to map no call is made. -/
theorem tryCeili_mapAndAdvise_sound_iff (hfresh : os.Fresh s) {granule : ℕ}
    (hpos : 0 < granule) (size : ℕ) :
    Sound os advice s size (mappedSize size granule)
        (if (tryCeili size granule).ec ≠ .none then (s, .error .badAlloc)
          else mapAndAdvise os advice s size (tryCeili size granule).value) ↔
      MmapHandled os advice (mappedSize size granule) := by
  rw [mappedSize_eq hpos, tryCeili_eq hpos]
  by_cases hle : roundUp size granule ≤ sizeMax
  · rw [checked_of_le hle, if_pos hle, if_neg (by simp)]
    exact mapAndAdvise_sound_iff hfresh (le_roundUp hpos size)
  · rw [checked_of_lt (not_le.1 hle), if_neg hle, if_pos (by decide)]
    simp [Sound, MmapHandled]

theorem pageAlloc_sound_iff (hfresh : os.Fresh s) (build : Build) (size : ℕ) :
    Sound os build.advice s size (mappedSize size os.pageSize) (pageAlloc build os s size) ↔
      MmapHandled os build.advice (mappedSize size os.pageSize) := by
  rw [pageAlloc, if_neg os.pageSize_pos.ne']
  exact tryCeili_mapAndAdvise_sound_iff hfresh os.pageSize_pos size

theorem largePageAlloc_sound_iff (hfresh : os.Fresh s) (size : ℕ) :
    Sound os (some .hugePage) s size (mappedSize size os.largePageSize)
        (largePageAlloc os s size) ↔
      MmapHandled os (some .hugePage) (mappedSize size os.largePageSize) := by
  rw [largePageAlloc]
  rcases Nat.eq_zero_or_pos os.largePageSize with hzero | hpos
  · simp [hzero, mappedSize, Sound, MmapHandled]
  · rw [if_pos hpos.ne']
    exact tryCeili_mapAndAdvise_sound_iff hfresh hpos size

/-- The error paths of the page allocations: they hold what they promise if and only if
a failure of `mmap` is noticed, which no check of theirs does. -/
theorem alloc_sound_iff (hfresh : os.Fresh s) (size : ℕ) :
    (∀ build : Build,
      Sound os build.advice s size (mappedSize size os.pageSize) (pageAlloc build os s size) ↔
        MmapHandled os build.advice (mappedSize size os.pageSize)) ∧
    (Sound os (some .hugePage) s size (mappedSize size os.largePageSize)
        (largePageAlloc os s size) ↔
      MmapHandled os (some .hugePage) (mappedSize size os.largePageSize)) :=
  ⟨fun build => pageAlloc_sound_iff hfresh build size, largePageAlloc_sound_iff hfresh size⟩

def ENOMEM : ℕ := 12

/-- Pages of 4 KiB and 2 MiB, and no memory left: every `mmap` fails with `ENOMEM`. -/
def exhaustedOs : Os where
  pageSize := 4096
  largePageSize := 2097152
  mmap _ := .error ENOMEM
  madvise _ data _ := if 4096 ∣ data then none else some EINVAL
  pageSize_pos := by decide
  pageSize_dvd := by decide
  mmap_zero := by
    intro data h
    cases h
  mmap_ok := by
    intro len data h
    cases h
  madvise_unaligned := by
    intro advice data len h
    exact if_neg h

def initialMachine : Machine := ⟨∅, 0, fun _ => ⟨0, Nat.succ_pos _⟩, []⟩

theorem exhaustedOs_fresh : exhaustedOs.Fresh initialMachine where
  disjoint := by
    intro len data h
    cases h
  lt_mapFailed := by
    intro page hpage
    cases hpage

theorem exhaustedOs_alloc_sound_iff :
    exhaustedOs.Fresh initialMachine ∧
    (∀ build : Build,
      Sound exhaustedOs build.advice initialMachine 4096 (mappedSize 4096 4096)
          (pageAlloc build exhaustedOs initialMachine 4096) ↔
        MmapHandled exhaustedOs build.advice (mappedSize 4096 4096)) ∧
    (Sound exhaustedOs (some .hugePage) initialMachine 4096 (mappedSize 4096 2097152)
        (largePageAlloc exhaustedOs initialMachine 4096) ↔
      MmapHandled exhaustedOs (some .hugePage) (mappedSize 4096 2097152)) :=
  ⟨exhaustedOs_fresh, alloc_sound_iff exhaustedOs_fresh 4096⟩

/-- Without `madvise`, `MAP_FAILED` is returned, for a whole page even without a write to the
trap; with it, `EINVAL` is reported in place of `ENOMEM`. -/
theorem not_sound_exhaustedOs :
    (pageAlloc .posix exhaustedOs initialMachine 4096).2 = .ok mapFailed ∧
    (pageAlloc .posix exhaustedOs initialMachine 4096).1.writes = [] ∧
    (pageAlloc .linux exhaustedOs initialMachine 4096).2 = .error (.systemError EINVAL) ∧
    (largePageAlloc exhaustedOs initialMachine 4096).2 = .error (.systemError EINVAL) ∧
    (∀ build : Build, ¬ Sound exhaustedOs build.advice initialMachine 4096 (mappedSize 4096 4096)
      (pageAlloc build exhaustedOs initialMachine 4096)) ∧
    ¬ Sound exhaustedOs (some .hugePage) initialMachine 4096 (mappedSize 4096 2097152)
      (largePageAlloc exhaustedOs initialMachine 4096) := by
  have hunhandled : ∀ advice len, ¬ MmapHandled exhaustedOs advice (some len) := by
    intro advice len h
    obtain ⟨a, -, ha⟩ := h len ENOMEM rfl rfl
    have hadvise := exhaustedOs.madvise_unaligned a mapFailed len (by decide)
    rw [hadvise] at ha
    cases ha
  refine ⟨rfl, rfl, rfl, rfl, fun build hsound => ?_, fun hsound => ?_⟩
  · exact hunhandled _ _ ((pageAlloc_sound_iff exhaustedOs_fresh build 4096).1 hsound)
  · exact hunhandled _ _ ((largePageAlloc_sound_iff exhaustedOs_fresh 4096).1 hsound)

end Patton.Memory
