import Patton.Library.RoundUp
import Patton.Memory.Trap

/-!
# The aligned allocator adaptor

The adaptor asks an allocator of bytes for a larger block, returns an aligned
pointer into it, and keeps a trap and the pointer to the block behind the data.
-/

namespace Patton.Memory

open ByteMemory RoundUp

/-- The parameters of `aligned_allocator_adaptor_base<T, Alignment, A, true>`: the size
of a pointer and of `std::size_t`, `sizeof(T)`, and
`alignment_in_bytes(Alignment | alignof(T))`. -/
structure AlignedAllocatorAdaptor where
  sizeofPtr : ℕ
  sizeofT : ℕ
  alignment : ℕ
  sizeofPtr_pos : 0 < sizeofPtr
  sizeofT_pos : 0 < sizeofT
  alignment_eq : ∃ k < 8 * sizeofPtr, alignment = 2 ^ k

inductive AllocateResult
  | badAlloc
  | failFast  -- `gsl_Expects(alignResult != nullptr && nbAlloc >= nbData + sizeof(void*))`
  | ok (ptr : ℕ) (m : Memory)

/-- The outcome of `deallocate`: the call of the underlying allocator's `deallocate`. -/
inductive DeallocateResult
  | failFast  -- `gsl_FailFast()`
  | ok (mem nbAlloc : ℕ)

/-- `std::align`: the aligned pointer and the space left, or the null pointer. -/
def stdAlign (alignment size ptr space : ℕ) : ℕ × ℕ :=
  let aligned := roundUp ptr alignment
  if size ≤ space ∧ aligned - ptr ≤ space - size then (aligned, space - (aligned - ptr))
  else (0, space)

namespace AlignedAllocatorAdaptor

variable (ad : AlignedAllocatorAdaptor)

/-- The number of values of `std::size_t`. -/
def modulus : ℕ := 256 ^ ad.sizeofPtr

def nbData (n : ℕ) : ℕ := n * ad.sizeofT % ad.modulus

def nbAlloc (n : ℕ) : ℕ :=
  (ad.nbData n + ad.alignment + ad.sizeofPtr - 1 + 2 * sizeofUint32) % ad.modulus

/-- `allocate`; `byteAllocate` is what the underlying allocator returns. -/
def allocate (byteAllocate : ℕ → ℕ) (n : ℕ) (m : Memory) : AllocateResult :=
  if n ≥ (ad.modulus - 1) / ad.sizeofT then .badAlloc
  else if ad.nbAlloc n < ad.nbData n then .badAlloc
  else
    let mem := byteAllocate (ad.nbAlloc n)
    let (alignResult, space) :=
      stdAlign ad.alignment (ad.nbData n + ad.sizeofPtr) mem (ad.nbAlloc n)
    if alignResult ≠ 0 ∧ space ≥ ad.nbData n + ad.sizeofPtr then
      let m := store m (alignResult + ad.nbData n + 2 * sizeofUint32) (encode ad.sizeofPtr mem)
      .ok alignResult (setOutOfBoundsWriteTrap m alignResult (ad.nbData n)
        (ad.nbData n + 2 * sizeofUint32))
    else .failFast

def deallocate (ptr n : ℕ) (m : Memory) : DeallocateResult :=
  let mem := decode (load m (ptr + ad.nbData n + 2 * sizeofUint32) ad.sizeofPtr)
  if checkOutOfBoundsWriteTrap m ptr (ad.nbData n) (ad.nbData n + 2 * sizeofUint32) then
    .ok mem (ad.nbAlloc n)
  else .failFast

variable {ad} {byteAllocate : ℕ → ℕ} {n x ptr : ℕ} {m m' : Memory}

theorem alignment_pos : 0 < ad.alignment := by
  obtain ⟨k, -, hk⟩ := ad.alignment_eq
  rw [hk]
  exact Nat.two_pow_pos k

/-- The padding of an allocation fits into `std::size_t`. -/
theorem padding_lt : ad.alignment + ad.sizeofPtr - 1 + 2 * sizeofUint32 < ad.modulus := by
  obtain ⟨k, hk, ha⟩ := ad.alignment_eq
  have hpos := ad.sizeofPtr_pos
  obtain ⟨w, hw⟩ : ∃ w, ad.sizeofPtr = w + 1 := ⟨ad.sizeofPtr - 1, by omega⟩
  have hmodulus : ad.modulus = 256 * 256 ^ w := by rw [modulus, hw, pow_succ']
  have hpow : w < 256 ^ w := Nat.lt_pow_self (by omega)
  have hle : ad.alignment ≤ 2 ^ (8 * w + 7) := by
    rw [ha]
    exact Nat.pow_le_pow_right (by omega) (by omega)
  have hsplit : 2 ^ (8 * w + 7) = 128 * 256 ^ w := by
    rw [pow_add, pow_mul, Nat.mul_comm]
    rfl
  rw [sizeofUint32]
  omega

theorem nbData_eq (h : n < (ad.modulus - 1) / ad.sizeofT) :
    ad.nbData n = n * ad.sizeofT ∧ n * ad.sizeofT < ad.modulus := by
  have hmul := (Nat.le_div_iff_mul_le ad.sizeofT_pos).1 (Nat.succ_le_of_lt h)
  rw [Nat.succ_mul] at hmul
  have hpos := ad.sizeofT_pos
  have hlt : n * ad.sizeofT < ad.modulus := by omega
  exact ⟨Nat.mod_eq_of_lt hlt, hlt⟩

/-- The size of the block in exact arithmetic. -/
def totalSize (ad : AlignedAllocatorAdaptor) (n : ℕ) : ℕ :=
  n * ad.sizeofT + ad.alignment + ad.sizeofPtr - 1 + 2 * sizeofUint32

/-- The comparison with the size of the data detects the overflow. -/
theorem nbAlloc_lt_nbData (h : n < (ad.modulus - 1) / ad.sizeofT) :
    ad.nbAlloc n < ad.nbData n ↔ ad.modulus ≤ ad.totalSize n := by
  obtain ⟨hdata, hlt⟩ := nbData_eq h
  have hpad := @padding_lt ad
  have hpos := @alignment_pos ad
  rw [nbAlloc, hdata, totalSize]
  by_cases hfit : n * ad.sizeofT + ad.alignment + ad.sizeofPtr - 1 + 2 * sizeofUint32 < ad.modulus
  · rw [Nat.mod_eq_of_lt hfit]
    omega
  · rw [Nat.mod_eq_sub_mod (by omega), Nat.mod_eq_of_lt (by omega)]
    omega

theorem nbAlloc_eq (h : n < (ad.modulus - 1) / ad.sizeofT) (hfit : ad.totalSize n < ad.modulus) :
    ad.nbAlloc n = ad.totalSize n := by
  rw [nbAlloc, (nbData_eq h).1]
  exact Nat.mod_eq_of_lt hfit

/-- The bytes from address `addr` on. -/
def area (addr size : ℕ) : Set ℕ := Set.Ico addr (addr + size)

theorem trapSize_eq (size : ℕ) : trapSize size (size + 2 * sizeofUint32) = 2 * sizeofUint32 := by
  rw [trapSize, trapCount, Nat.add_sub_cancel_left]
  decide

/-- `allocate` returns the first aligned address of the block. -/
theorem allocate_eq_ok (h : n < (ad.modulus - 1) / ad.sizeofT)
    (hfit : ad.totalSize n < ad.modulus) (hmem : 0 < byteAllocate (ad.nbAlloc n)) :
    ad.allocate byteAllocate n m = .ok (roundUp (byteAllocate (ad.nbAlloc n)) ad.alignment)
      (setOutOfBoundsWriteTrap (store m (roundUp (byteAllocate (ad.nbAlloc n)) ad.alignment +
          ad.nbData n + 2 * sizeofUint32) (encode ad.sizeofPtr (byteAllocate (ad.nbAlloc n))))
        (roundUp (byteAllocate (ad.nbAlloc n)) ad.alignment) (ad.nbData n)
        (ad.nbData n + 2 * sizeofUint32)) := by
  have hle := le_roundUp (@alignment_pos ad) (byteAllocate (ad.nbAlloc n))
  have hlt := roundUp_lt (@alignment_pos ad) (byteAllocate (ad.nbAlloc n))
  have halloc := nbAlloc_eq h hfit
  obtain ⟨hdata, -⟩ := nbData_eq h
  have hpos := ad.sizeofPtr_pos
  rw [totalSize, sizeofUint32] at halloc
  have halign : stdAlign ad.alignment (ad.nbData n + ad.sizeofPtr) (byteAllocate (ad.nbAlloc n))
      (ad.nbAlloc n) = (roundUp (byteAllocate (ad.nbAlloc n)) ad.alignment, ad.nbAlloc n -
        (roundUp (byteAllocate (ad.nbAlloc n)) ad.alignment - byteAllocate (ad.nbAlloc n))) :=
    if_pos (by omega)
  simp only [allocate, halign]
  rw [if_neg (by omega), if_neg (by rw [nbAlloc_lt_nbData h]; omega), if_pos (by omega)]

variable (ad) in
def dataArea (ptr n : ℕ) : Set ℕ := area ptr (n * ad.sizeofT)

variable (ad) in
def trapArea (ptr n : ℕ) : Set ℕ := area (ptr + n * ad.sizeofT) (2 * sizeofUint32)

variable (ad) in
/-- The place where the pointer to the block is stored. -/
def pointerArea (ptr n : ℕ) : Set ℕ :=
  area (ptr + n * ad.sizeofT + 2 * sizeofUint32) ad.sizeofPtr

variable (ad) in
/-- An allocation lies in the block at `mem`, and its parts do not overlap. -/
structure Layout (mem ptr n : ℕ) : Prop where
  dvd : ad.alignment ∣ ptr
  data_subset : ad.dataArea ptr n ⊆ area mem (ad.nbAlloc n)
  trap_subset : ad.trapArea ptr n ⊆ area mem (ad.nbAlloc n)
  pointer_subset : ad.pointerArea ptr n ⊆ area mem (ad.nbAlloc n)
  data_trap : Disjoint (ad.dataArea ptr n) (ad.trapArea ptr n)
  data_pointer : Disjoint (ad.dataArea ptr n) (ad.pointerArea ptr n)
  trap_pointer : Disjoint (ad.trapArea ptr n) (ad.pointerArea ptr n)

/-- The first aligned address leaves enough room, with no byte to spare in the worst
case. -/
theorem layout_roundUp (h : n < (ad.modulus - 1) / ad.sizeofT)
    (hfit : ad.totalSize n < ad.modulus) (mem : ℕ) :
    ad.Layout mem (roundUp mem ad.alignment) n := by
  have hle := le_roundUp (@alignment_pos ad) mem
  have hlt := roundUp_lt (@alignment_pos ad) mem
  have halloc := nbAlloc_eq h hfit
  have hpos := ad.sizeofPtr_pos
  rw [totalSize] at halloc
  exact {
    dvd := dvd_roundUp _ _
    data_subset := Set.Ico_subset_Ico (by omega) (by omega)
    trap_subset := Set.Ico_subset_Ico (by omega) (by omega)
    pointer_subset := Set.Ico_subset_Ico (by omega) (by omega)
    data_trap := Set.Ico_disjoint_Ico.2 (by omega)
    data_pointer := Set.Ico_disjoint_Ico.2 (by omega)
    trap_pointer := Set.Ico_disjoint_Ico.2 (by omega) }

/-- `deallocate` reads the pointer to the block back if its bytes are intact. -/
theorem deallocate_of_pointer (m₁ : Memory) {m₂ : Memory} {mem : ℕ}
    (h : n < (ad.modulus - 1) / ad.sizeofT) (hmem : mem < ad.modulus)
    (hptr : ∀ x ∈ ad.pointerArea ptr n, m₂ x =
      store m₁ (ptr + ad.nbData n + 2 * sizeofUint32) (encode ad.sizeofPtr mem) x) :
    ad.deallocate ptr n m₂ =
      if checkOutOfBoundsWriteTrap m₂ ptr (ad.nbData n) (ad.nbData n + 2 * sizeofUint32) then
        .ok mem (ad.nbAlloc n)
      else .failFast := by
  have hload : load m₂ (ptr + ad.nbData n + 2 * sizeofUint32) ad.sizeofPtr =
      encode ad.sizeofPtr mem := by
    have hstore := load_store m₁ (ptr + ad.nbData n + 2 * sizeofUint32) (encode ad.sizeofPtr mem)
    rw [length_encode] at hstore
    rw [← hstore, load_eq_load]
    intro i hi
    refine hptr _ ?_
    rw [(nbData_eq h).1, pointerArea, area, Set.mem_Ico]
    omega
  simp only [deallocate, hload, decode_encode hmem]

/-- The check tells whether the trap area is intact. -/
theorem check_iff (m₁ : Memory) {m₂ : Memory} (h : n < (ad.modulus - 1) / ad.sizeofT) :
    checkOutOfBoundsWriteTrap m₂ ptr (ad.nbData n) (ad.nbData n + 2 * sizeofUint32) ↔
      ∀ x ∈ ad.trapArea ptr n, m₂ x = setOutOfBoundsWriteTrap m₁ ptr (ad.nbData n)
        (ad.nbData n + 2 * sizeofUint32) x := by
  rw [@checkOutOfBoundsWriteTrap_iff m₁ m₂, trapSize_eq, (nbData_eq h).1]
  simp only [trapArea, area, Set.mem_Ico, and_imp]

/-- `allocate` throws exactly if a size does not fit, and otherwise returns an aligned
pointer such that the data, the trap and the pointer to the block lie side by side in
the block. `deallocate` hands the block back if only data has been written, and fails
fast if the trap has been. -/
theorem allocate_deallocate (ad : AlignedAllocatorAdaptor) (byteAllocate : ℕ → ℕ) (n : ℕ)
    (m : Memory) (hmem : 0 < byteAllocate (ad.nbAlloc n))
    (hwrap : byteAllocate (ad.nbAlloc n) + ad.nbAlloc n ≤ ad.modulus) :
    (ad.allocate byteAllocate n m = .badAlloc ↔
      (ad.modulus - 1) / ad.sizeofT ≤ n ∨ ad.modulus ≤ ad.totalSize n) ∧
    ad.allocate byteAllocate n m ≠ .failFast ∧
    ∀ ptr m₁, ad.allocate byteAllocate n m = .ok ptr m₁ →
      ad.Layout (byteAllocate (ad.nbAlloc n)) ptr n ∧
      (∀ m₂ : Memory, (∀ x ∉ ad.dataArea ptr n, m₂ x = m₁ x) →
        ad.deallocate ptr n m₂ = .ok (byteAllocate (ad.nbAlloc n)) (ad.nbAlloc n)) ∧
      ∀ m₂ : Memory, (∀ x ∈ ad.pointerArea ptr n, m₂ x = m₁ x) →
        (∃ x ∈ ad.trapArea ptr n, m₂ x ≠ m₁ x) → ad.deallocate ptr n m₂ = .failFast := by
  by_cases hlarge : (ad.modulus - 1) / ad.sizeofT ≤ n
  · have hbad : ad.allocate byteAllocate n m = .badAlloc := if_pos hlarge
    simp [hbad, hlarge]
  by_cases hfit : ad.modulus ≤ ad.totalSize n
  · have hbad : ad.allocate byteAllocate n m = .badAlloc := by
      rw [allocate, if_neg hlarge, if_pos ((nbAlloc_lt_nbData (by omega)).2 hfit)]
    simp [hbad, hfit]
  rw [not_le] at hlarge hfit
  rw [allocate_eq_ok hlarge hfit hmem]
  refine ⟨by simp [hlarge, hfit], by simp, ?_⟩
  rintro ptr m₁ hok
  obtain ⟨rfl, rfl⟩ : roundUp (byteAllocate (ad.nbAlloc n)) ad.alignment = ptr ∧ _ = m₁ := by
    simpa using hok
  have hlayout := layout_roundUp hlarge hfit (byteAllocate (ad.nbAlloc n))
  have hmod : byteAllocate (ad.nbAlloc n) < ad.modulus := by
    have halloc := nbAlloc_eq hlarge hfit
    rw [totalSize, sizeofUint32] at halloc
    omega
  -- the trap does not touch the pointer to the block
  have hset : ∀ x ∈ ad.pointerArea (roundUp (byteAllocate (ad.nbAlloc n)) ad.alignment) n,
      ∀ m₁ : Memory, setOutOfBoundsWriteTrap m₁
        (roundUp (byteAllocate (ad.nbAlloc n)) ad.alignment) (ad.nbData n)
        (ad.nbData n + 2 * sizeofUint32) x = m₁ x := by
    intro x hx m₁
    rw [pointerArea, area, Set.mem_Ico] at hx
    refine setOutOfBoundsWriteTrap_of_outside (.inr ?_)
    rw [trapSize_eq, (nbData_eq hlarge).1]
    omega
  refine ⟨hlayout, fun m₂ hm₂ => ?_, fun m₂ hptr ⟨x, hx, hne⟩ => ?_⟩
  · rw [deallocate_of_pointer m hlarge hmod]
    · refine if_pos ((check_iff _ hlarge).2 fun x hx => hm₂ x ?_)
      exact fun hdata => Set.disjoint_left.1 hlayout.data_trap hdata hx
    · intro x hx
      rw [hm₂ x fun hdata => Set.disjoint_left.1 hlayout.data_pointer hdata hx, hset x hx]
  · rw [deallocate_of_pointer m hlarge hmod]
    · exact if_neg fun hcheck => hne ((check_iff _ hlarge).1 hcheck x hx)
    · intro x hx
      rw [hptr x hx, hset x hx]

/-- Ten elements of 24 bytes with the alignment of a cache line. -/
def lineAdaptor : AlignedAllocatorAdaptor where
  sizeofPtr := 8
  sizeofT := 24
  alignment := 64
  sizeofPtr_pos := by decide
  sizeofT_pos := by decide
  alignment_eq := ⟨6, by decide, by decide⟩

theorem line_allocate_deallocate : ∃ ptr m,
    lineAdaptor.allocate (fun _ => 1000) 10 (fun _ => 0) = .ok ptr m ∧
      lineAdaptor.deallocate ptr 10 m = .ok 1000 319 := by
  obtain ⟨hbad, hfail, hok⟩ :=
    allocate_deallocate lineAdaptor (fun _ => 1000) 10 (fun _ => 0) (by decide) (by decide)
  cases hresult : lineAdaptor.allocate (fun _ => 1000) 10 (fun _ => 0) with
  | badAlloc => exact absurd (hbad.1 hresult) (by decide)
  | failFast => exact absurd hresult hfail
  | ok ptr m => exact ⟨ptr, m, rfl, (hok ptr m hresult).2.1 m fun _ _ => rfl⟩

end AlignedAllocatorAdaptor

end Patton.Memory
