import Patton.Library.RoundUp
import Patton.Memory.Trap

/-!
# Mapping pages

The operating system as far as the page allocators use it. Its answers to `mmap`
and `madvise` are parameters which obey what POSIX and Linux document; `munmap`
unmaps every page that the given range intersects. A failing call stores an error
number in `errno`.
-/

namespace Patton.Memory

open ByteMemory

def nullptr : ℕ := 0

/-- `MAP_FAILED`, i.e. `(void*)-1` -/
def mapFailed : ℕ := 2 ^ 64 - 1

def EINVAL : ℕ := 22

inductive Advice
  | hugePage
  | noHugePage

/-- The page sizes and the answers of the operating system: `mmap` answers with an
address or an error number, `madvise` with an error number unless it succeeds. -/
structure Os where
  pageSize : ℕ
  largePageSize : ℕ
  mmap : ℕ → Except ℕ ℕ
  madvise : Advice → ℕ → ℕ → Option ℕ
  pageSize_pos : 0 < pageSize
  pageSize_dvd : pageSize ∣ largePageSize
  mmap_zero : ∀ data, mmap 0 ≠ .ok data
  mmap_ok : ∀ len data, mmap len = .ok data →
    pageSize ∣ data ∧ data ≠ nullptr ∧ data ≠ mapFailed
  madvise_unaligned : ∀ advice data len, ¬ pageSize ∣ data →
    madvise advice data len = some EINVAL

/-- The mapped pages, `errno`, the memory, and the addresses of the words that have
been written to it. -/
structure Machine where
  mapped : Finset ℕ
  errno : ℕ
  memory : Memory
  writes : List ℕ

/-- The pages that intersect the `len` bytes from address `data` on. -/
def pages (pageSize data len : ℕ) : Finset ℕ :=
  Finset.Ico (data / pageSize) ((data + len) ⌈/⌉ pageSize)

namespace Os

variable (os : Os)

/-- The call of `mmap`: the new state and what is returned. -/
def callMmap (s : Machine) (len : ℕ) : Machine × ℕ :=
  match os.mmap len with
  | .ok data => ({ s with mapped := s.mapped ∪ pages os.pageSize data len }, data)
  | .error e => ({ s with errno := e }, mapFailed)

def callMadvise (s : Machine) (advice : Advice) (data len : ℕ) : Machine × ℤ :=
  match os.madvise advice data len with
  | none => (s, 0)
  | some e => ({ s with errno := e }, -1)

def callMunmap (s : Machine) (data len : ℕ) : Machine × ℤ :=
  if os.pageSize ∣ data ∧ len ≠ 0 then
    ({ s with mapped := s.mapped \ pages os.pageSize data len }, 0)
  else ({ s with errno := EINVAL }, -1)

/-- A new mapping does not overlap the pages which are mapped in `s`, and none of these
reaches the address `MAP_FAILED`. -/
structure Fresh (s : Machine) : Prop where
  disjoint : ∀ len data, os.mmap len = .ok data →
    Disjoint s.mapped (pages os.pageSize data len)
  lt_mapFailed : ∀ page ∈ s.mapped, page < mapFailed / os.pageSize

end Os

/-- The call of `set_out_of_bounds_write_trap` -/
def Machine.setTrap (s : Machine) (data size allocSize : ℕ) : Machine :=
  { s with
    memory := setOutOfBoundsWriteTrap s.memory data size allocSize
    writes := s.writes ++ trapAddresses data size allocSize }

variable {os : Os} {s : Machine} {P data len page : ℕ}

theorem mem_pages (hP : 0 < P) :
    page ∈ pages P data len ↔ page * P < data + len ∧ data < (page + 1) * P := by
  have hlast : page < (data + len) ⌈/⌉ P ↔ page * P < data + len := by
    rw [← not_le, ceilDiv_le_iff_le_mul hP, not_le, Nat.mul_comm]
  rw [pages, Finset.mem_Ico, ← Nat.lt_succ_iff, Nat.div_lt_iff_lt_mul hP, hlast, and_comm]

end Patton.Memory
