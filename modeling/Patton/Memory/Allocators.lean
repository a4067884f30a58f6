import Patton.Memory.AlignedAllocatorAdaptor
import Patton.Memory.Alignment
import Patton.Memory.PageFree

/-!
# The allocators

The allocators of the library and what they promise: an address that `allocate`
returns has every alignment that the member `provides_static_alignment` claims.
-/

namespace Patton.Memory

open RoundUp

/-- `sizeof(T)` and `alignof(T)` -/
structure ElementType where
  sizeofT : ℕ
  alignofT : ℕ
  sizeofT_pos : 0 < sizeofT
  alignofT_eq : ∃ k < 61, alignofT = 2 ^ k

theorem ElementType.alignofT_lt (T : ElementType) : T.alignofT < 2 ^ 64 := by
  obtain ⟨k, hk, heq⟩ := T.alignofT_eq
  rw [heq]
  exact Nat.pow_lt_pow_right (by omega) (by omega)

/-- What the library sees of an allocator type: its member `provides_static_alignment`,
if it has one, and the addresses that its member `allocate` may return. -/
structure Allocator where
  member : Option (ℕ → Bool)
  returned : Set ℕ

variable (hw : Hardware) (maxAlign : ℕ)

/-- `aligned_allocator_traits<A>::provides_static_alignment`; `maxAlign` is
`alignof(std::max_align_t)`. -/
def Allocator.providesStaticAlignment (A : Allocator) (a : ℕ) : Bool :=
  match A.member with
  | some provides => provides a
  | none => Memory.providesStaticAlignment hw maxAlign a

/-- An allocator keeps what it promises. -/
def Allocator.Honest (A : Allocator) : Prop :=
  ∀ r < 2 ^ 64, A.providesStaticAlignment hw maxAlign r = true →
    ∀ ptr ∈ A.returned, alignmentInBytes hw r ∣ ptr

/-- The check and the product with which every `allocate(n)` begins. -/
def nbData (T : ElementType) (n : ℕ) : Except Failure ℕ :=
  if n ≥ sizeMax / T.sizeofT then .error .badAlloc else .ok (n * T.sizeofT % 2 ^ 64)

/-- `aligned_allocator::allocate`; `operatorNew` is `::operator new`, which gets a size
and an alignment. -/
def AlignedAllocator.allocate (T : ElementType) (alignment : ℕ)
    (operatorNew : ℕ → ℕ → Except Failure ℕ) (n : ℕ) : Except Failure ℕ :=
  let a := alignmentInBytes hw (alignment ||| T.alignofT)
  (nbData T n).bind fun nbData => operatorNew nbData a

def alignedAllocator (T : ElementType) (alignment : ℕ)
    (operatorNew : ℕ → ℕ → Except Failure ℕ) : Allocator where
  member := some (providesStaticAlignment hw (alignment ||| T.alignofT))
  returned := {ptr | ∃ n, AlignedAllocator.allocate hw T alignment operatorNew n = .ok ptr}

def PageAllocator.allocate (build : Build) (os : Os) (T : ElementType) (s : Machine) (n : ℕ) :
    Machine × Except Failure ℕ :=
  match nbData T n with
  | .error e => (s, .error e)
  | .ok nbData => pageAlloc build os s nbData

def LargePageAllocator.allocate (os : Os) (T : ElementType) (s : Machine) (n : ℕ) :
    Machine × Except Failure ℕ :=
  match nbData T n with
  | .error e => (s, .error e)
  | .ok nbData => largePageAlloc os s nbData

/-- If `mmap` is called for `size` bytes, it returns the address of a page. -/
def Os.MapsAligned (os : Os) (granule : ℕ) (s : Machine) (size : ℕ) : Prop :=
  ∀ len, mappedSize size granule = some len → os.pageSize ∣ (os.callMmap s len).2

/-- `page_allocator`, as long as `mmap` returns addresses of pages -/
def pageAllocator (build : Build) (os : Os) (T : ElementType) : Allocator where
  member := some (providesStaticAlignment hw pageAlignment)
  returned := {ptr | ∃ s n s', (∀ size, nbData T n = .ok size → os.MapsAligned os.pageSize s size) ∧
    PageAllocator.allocate build os T s n = (s', .ok ptr)}

/-- `large_page_allocator`, as long as `mmap` returns addresses of pages -/
def largePageAllocator (os : Os) (T : ElementType) : Allocator where
  member := some (providesStaticAlignment hw pageAlignment)
  returned := {ptr | ∃ s n s',
    (∀ size, nbData T n = .ok size → os.MapsAligned os.largePageSize s size) ∧
    LargePageAllocator.allocate os T s n = (s', .ok ptr)}

variable {hw maxAlign} {os : Os} {s s' : Machine} {T : ElementType} {alignment a size ptr : ℕ}

theorem ElementType.or_alignofT_lt (h : alignment < 2 ^ 64) : alignment ||| T.alignofT < 2 ^ 64 :=
  Nat.or_lt_two_pow h T.alignofT_lt

theorem alignmentInBytes_eq_two_pow (h : a < 2 ^ 64) :
    ∃ k < 8 * 8, alignmentInBytes hw a = 2 ^ k := by
  refine ⟨_, ?_, alignmentInBytes_eq hw.belowFlags h⟩
  have hbasic := log2_lt_of_lt ((Nat.mod_lt a (Nat.two_pow_pos 61)).trans (by decide))
  have hspecial : (specialSizes hw (flags a)).log2 < 64 :=
    log2_lt_of_lt ((specialSizes_lt hw.belowFlags _).trans (by decide))
  exact max_lt hbasic hspecial

variable (hw) in
/-- The parameters of the adaptor's own specialisation. -/
def adaptorOf (T : ElementType) (alignment : ℕ) (h : alignment < 2 ^ 64) :
    AlignedAllocatorAdaptor where
  sizeofPtr := 8
  sizeofT := T.sizeofT
  alignment := alignmentInBytes hw (alignment ||| T.alignofT)
  sizeofPtr_pos := Nat.succ_pos _
  sizeofT_pos := T.sizeofT_pos
  alignment_eq := alignmentInBytes_eq_two_pow (ElementType.or_alignofT_lt h)

variable (hw maxAlign) in
/-- `aligned_allocator_adaptor`: it inherits `A` as it is, if `A` provides the alignment
statically, and else aligns the blocks of the allocator of bytes, whatever they are. -/
def alignedAllocatorAdaptor (T : ElementType) (alignment : ℕ) (h : alignment < 2 ^ 64)
    (A : Allocator) : Allocator :=
  if !A.providesStaticAlignment hw maxAlign (alignment ||| T.alignofT) then
    { member := some (providesStaticAlignment hw alignment)
      returned := {ptr | ∃ byteAllocate n m m',
        (adaptorOf hw T alignment h).allocate byteAllocate n m = .ok ptr m'} }
  else A

theorem mapAndAdvise_data {advice : Option Advice} {len : ℕ}
    (h : mapAndAdvise os advice s size len = (s', .ok ptr)) : ptr = (os.callMmap s len).2 := by
  simp only [mapAndAdvise] at h
  split at h
  · cases h
  · split at h
    · obtain ⟨-, hptr⟩ := Prod.mk.inj h
      exact (Except.ok.inj hptr).symm
    · split at h
      · cases h
      · obtain ⟨-, hptr⟩ := Prod.mk.inj h
        exact (Except.ok.inj hptr).symm

/-- A page allocation returns what `mmap` has returned. -/
theorem pageSize_dvd_of_pageAlloc {build : Build}
    (hmmap : os.MapsAligned os.pageSize s size)
    (h : pageAlloc build os s size = (s', .ok ptr)) : os.pageSize ∣ ptr := by
  rw [pageAlloc, if_neg os.pageSize_pos.ne'] at h
  dsimp only at h
  split at h
  · cases h
  · next hec =>
      rw [mapAndAdvise_data h]
      exact hmmap _ (if_pos ⟨os.pageSize_pos.ne', not_not.1 hec⟩)

theorem pageSize_dvd_of_largePageAlloc (hmmap : os.MapsAligned os.largePageSize s size)
    (h : largePageAlloc os s size = (s', .ok ptr)) : os.pageSize ∣ ptr := by
  rw [largePageAlloc] at h
  split at h
  · next hlarge =>
      dsimp only at h
      split at h
      · cases h
      · next hec =>
          rw [mapAndAdvise_data h]
          exact hmmap _ (if_pos ⟨hlarge, not_not.1 hec⟩)
  · cases h

/-- Every address that the adaptor's own specialisation returns is rounded up. -/
theorem AlignedAllocatorAdaptor.dvd_of_allocate {ad : AlignedAllocatorAdaptor}
    {byteAllocate : ℕ → ℕ} {n : ℕ} {m m' : ByteMemory.Memory}
    (h : ad.allocate byteAllocate n m = .ok ptr m') : ad.alignment ∣ ptr := by
  simp only [AlignedAllocatorAdaptor.allocate, stdAlign] at h
  split at h
  · cases h
  · split at h
    · cases h
    · split at h
      · split at h
        · obtain ⟨rfl, -⟩ := AllocateResult.ok.inj h
          exact dvd_roundUp _ _
        · cases h
      · rw [if_neg (by simp)] at h
        cases h

theorem honest_alignedAllocator {operatorNew : ℕ → ℕ → Except Failure ℕ}
    (h : alignment < 2 ^ 64)
    (hnew : ∀ size a ptr, operatorNew size a = .ok ptr → a ∣ ptr) :
    (alignedAllocator hw T alignment operatorNew).Honest hw maxAlign := by
  rintro r hr hprovides ptr ⟨n, hptr⟩
  refine (alignmentInBytes_dvd_of_static (ElementType.or_alignofT_lt h) hr hprovides).trans ?_
  rw [AlignedAllocator.allocate] at hptr
  cases hdata : nbData T n with
  | error e =>
      rw [hdata] at hptr
      cases hptr
  | ok size =>
      rw [hdata] at hptr
      exact hnew size _ ptr hptr

/-- A page whose size is a power of two has the alignment that its flag stands for. -/
theorem alignmentInBytes_pageAlignment (hpage : ∃ k, hw.pageSize = 2 ^ k) :
    alignmentInBytes hw pageAlignment = hw.pageSize := by
  obtain ⟨k, hk⟩ := hpage
  have hbasic : pageAlignment % 2 ^ 61 = 0 := by decide
  have hflags : flags pageAlignment = 2 := by decide
  rw [alignmentInBytes_eq hw.belowFlags (by decide), hbasic, hflags, log2_specialSizes, hk]
  simp

theorem honest_pageAllocator {build : Build} (hpage : ∃ k, hw.pageSize = 2 ^ k)
    (hos : os.pageSize = hw.pageSize) :
    (pageAllocator hw build os T).Honest hw maxAlign := by
  rintro r hr hprovides ptr ⟨s, n, s', hmmap, hptr⟩
  refine (alignmentInBytes_dvd_of_static (by decide) hr hprovides).trans ?_
  rw [alignmentInBytes_pageAlignment hpage, ← hos]
  rw [PageAllocator.allocate] at hptr
  cases hdata : nbData T n with
  | error e =>
      rw [hdata] at hptr
      cases hptr
  | ok size =>
      rw [hdata] at hptr
      exact pageSize_dvd_of_pageAlloc (hmmap size hdata) hptr

theorem honest_largePageAllocator (hpage : ∃ k, hw.pageSize = 2 ^ k)
    (hos : os.pageSize = hw.pageSize) :
    (largePageAllocator hw os T).Honest hw maxAlign := by
  rintro r hr hprovides ptr ⟨s, n, s', hmmap, hptr⟩
  refine (alignmentInBytes_dvd_of_static (by decide) hr hprovides).trans ?_
  rw [alignmentInBytes_pageAlignment hpage, ← hos]
  rw [LargePageAllocator.allocate] at hptr
  cases hdata : nbData T n with
  | error e =>
      rw [hdata] at hptr
      cases hptr
  | ok size =>
      rw [hdata] at hptr
      exact pageSize_dvd_of_largePageAlloc (hmmap size hdata) hptr

/-- In both specialisations the adaptor returns addresses with the alignment it is for. -/
theorem dvd_of_mem_adaptor {A : Allocator} (h : alignment < 2 ^ 64) (hA : A.Honest hw maxAlign)
    (hptr : ptr ∈ (alignedAllocatorAdaptor hw maxAlign T alignment h A).returned) :
    alignmentInBytes hw (alignment ||| T.alignofT) ∣ ptr := by
  rw [alignedAllocatorAdaptor] at hptr
  split at hptr
  · obtain ⟨byteAllocate, n, m, m', hok⟩ := hptr
    exact AlignedAllocatorAdaptor.dvd_of_allocate hok
  · next hprovides =>
      exact hA _ (ElementType.or_alignofT_lt h) (by simpa using hprovides) ptr hptr

theorem honest_adaptor {A : Allocator} (h : alignment < 2 ^ 64) (hA : A.Honest hw maxAlign) :
    (alignedAllocatorAdaptor hw maxAlign T alignment h A).Honest hw maxAlign := by
  intro r hr hprovides ptr hptr
  have hdvd := dvd_of_mem_adaptor h hA hptr
  rw [alignedAllocatorAdaptor] at hprovides hptr
  split at hprovides
  · refine (alignmentInBytes_dvd_of_static h hr hprovides).trans ?_
    exact (alignmentInBytes_dvd_or hw.belowFlags h T.alignofT_lt).trans hdvd
  · next hstatic =>
      rw [if_neg hstatic] at hptr
      exact hA r hr hprovides ptr hptr

/-- The static query implies the dynamic one, and the allocators keep what their static
query promises; those that map pages do so if the size of a page is a power of two. -/
theorem alignment_queries_sound (hw : Hardware) (maxAlign : ℕ) :
    (∀ p < 2 ^ 64, ∀ r < 2 ^ 64, providesStaticAlignment hw p r = true →
      providesDynamicAlignment hw p r = true) ∧
    (∀ T : ElementType, ∀ alignment < 2 ^ 64, ∀ operatorNew : ℕ → ℕ → Except Failure ℕ,
      (∀ size a ptr, operatorNew size a = .ok ptr → a ∣ ptr) →
        (alignedAllocator hw T alignment operatorNew).Honest hw maxAlign) ∧
    ((∃ k, hw.pageSize = 2 ^ k) → ∀ T : ElementType, ∀ os : Os, os.pageSize = hw.pageSize →
      (∀ build, (pageAllocator hw build os T).Honest hw maxAlign) ∧
        (largePageAllocator hw os T).Honest hw maxAlign) ∧
    ∀ T : ElementType, ∀ alignment, ∀ h : alignment < 2 ^ 64, ∀ A : Allocator,
      A.Honest hw maxAlign →
        (alignedAllocatorAdaptor hw maxAlign T alignment h A).Honest hw maxAlign ∧
        ∀ ptr ∈ (alignedAllocatorAdaptor hw maxAlign T alignment h A).returned,
          alignmentInBytes hw (alignment ||| T.alignofT) ∣ ptr := by
  refine ⟨fun p hp r hr => providesDynamicAlignment_of_static hp hr, ?_, ?_, ?_⟩
  · intro T alignment h operatorNew hnew
    exact honest_alignedAllocator h hnew
  · intro hpage T os hos
    exact ⟨fun build => honest_pageAllocator hpage hos, honest_largePageAllocator hpage hos⟩
  · intro T alignment h A hA
    exact ⟨honest_adaptor h hA, fun ptr hptr => dvd_of_mem_adaptor h hA hptr⟩

/-- Cache lines of 64 bytes, and three of them to a page. -/
def threeLineHardware : Hardware where
  interferenceSize := 64
  cacheLineSize := 64
  pageSize := 192
  largePageSize := 384
  interferenceSize_le := by decide
  pageSize_pos := by decide
  cacheLineSize_dvd := by decide
  pageSize_dvd := by decide
  pageSize_lt := by decide
  largePageSize_lt := by decide

/-- The operating system on it, which maps the second page. -/
def threeLineOs : Os where
  pageSize := 192
  largePageSize := 384
  mmap len := if len = 0 then .error EINVAL else .ok 192
  madvise _ data _ := if 192 ∣ data then none else some EINVAL
  pageSize_pos := by decide
  pageSize_dvd := by decide
  mmap_zero := by
    intro data h
    cases h
  mmap_ok := by
    intro len data h
    split at h
    · cases h
    · cases h
      decide
  madvise_unaligned := by
    intro advice data len h
    exact if_neg h

/-- `char` -/
def charType : ElementType := ⟨1, 1, by decide, 0, by decide, by decide⟩

/-- The page at 192 is not aligned to the 128 bytes that the flag for pages stands for. -/
theorem not_honest_threeLineHardware :
    threeLineOs.pageSize = threeLineHardware.pageSize ∧
    providesStaticAlignment threeLineHardware pageAlignment pageAlignment = true ∧
    alignmentInBytes threeLineHardware pageAlignment = 128 ∧
    ¬ (pageAllocator threeLineHardware .linux threeLineOs charType).Honest
      threeLineHardware 16 ∧
    ¬ (largePageAllocator threeLineHardware threeLineOs charType).Honest
      threeLineHardware 16 := by
  have hmmap : ∀ granule, (∃ len ≠ 0, mappedSize 1 granule = some len) →
      ∀ size, nbData charType 1 = .ok size →
        threeLineOs.MapsAligned granule initialMachine size := by
    rintro granule ⟨len, hpos, hmapped⟩ size ⟨⟩ _ hlen
    obtain rfl := Option.some.inj (hmapped.symm.trans hlen)
    simp [Os.callMmap, threeLineOs, hpos]
  refine ⟨rfl, by decide, by decide, fun hhonest => ?_, fun hhonest => ?_⟩
  · have hdvd : 128 ∣ 192 := hhonest pageAlignment (by decide) (by decide) 192
      ⟨initialMachine, 1, _, hmmap 192 ⟨192, by decide, rfl⟩, rfl⟩
    exact absurd hdvd (by decide)
  · have hdvd : 128 ∣ 192 := hhonest pageAlignment (by decide) (by decide) 192
      ⟨initialMachine, 1, _, hmmap 384 ⟨384, by decide, rfl⟩, rfl⟩
    exact absurd hdvd (by decide)

/-- Cache lines of 64 bytes, pages of 4 KiB and 2 MiB. -/
def commonHardware : Hardware where
  interferenceSize := 64
  cacheLineSize := 64
  pageSize := 4096
  largePageSize := 2097152
  interferenceSize_le := by decide
  pageSize_pos := ampleOs.pageSize_pos
  cacheLineSize_dvd := by decide
  pageSize_dvd := ampleOs.pageSize_dvd
  pageSize_lt := by decide
  largePageSize_lt := by decide

/-- Every conjunct at this hardware, for an `operator new` that rounds up. -/
theorem common_alignment_queries_sound :
    providesDynamicAlignment commonHardware pageAlignment cacheLineAlignment = true ∧
    (alignedAllocator commonHardware charType cacheLineAlignment
      fun size a => .ok (roundUp size a)).Honest commonHardware 16 ∧
    (pageAllocator commonHardware .linux ampleOs charType).Honest commonHardware 16 ∧
    (alignedAllocatorAdaptor commonHardware 16 charType cacheLineAlignment (by decide)
      (alignedAllocator commonHardware charType 1
        fun size a => .ok (roundUp size a))).Honest commonHardware 16 := by
  obtain ⟨hdynamic, haligned, hpages, hadaptor⟩ := alignment_queries_sound commonHardware 16
  have hnew : ∀ size a ptr, (fun size a => (.ok (roundUp size a) : Except Failure ℕ)) size a =
      .ok ptr → a ∣ ptr := by
    rintro size a _ ⟨⟩
    exact dvd_roundUp size a
  exact ⟨hdynamic _ (by decide) _ (by decide) (by decide),
    haligned charType _ (by decide) _ hnew,
    (hpages ⟨12, by decide⟩ charType ampleOs rfl).1 .linux,
    (hadaptor charType _ (by decide) _ (haligned charType 1 (by decide) _ hnew)).1⟩

end Patton.Memory
