import Patton.Buffer.Construction

/-!
# The aligned buffer

`aligned_buffer` keeps its elements in one block of an allocator, at a distance that is
a multiple of the alignment.
-/

namespace Patton.Buffer

open ForLoop Ledger Memory RoundUp

/-- `aligned_buffer`; `alloc` is its base class. -/
structure AlignedBuffer (α : Type*) where
  alloc : α
  data : ℕ
  size : ℕ
  bytesPerElement : ℕ
  deriving DecidableEq

structure AlignedBufferIterator where
  data : ℕ
  index : ℕ
  bytesPerElement : ℕ

variable {α : Type*} (hw : HardwareSizes) (T : ElementType) (alignment : ℕ)

namespace AlignedBuffer

def computeBytesPerElement : Except Exception ℕ :=
  let bytesPerElementR := tryCeili T.sizeofT (alignmentInBytes hw (alignment ||| T.alignofT))
  if bytesPerElementR.ec ≠ .none then .error .badAlloc else .ok bytesPerElementR.value

/-- `construct_aligned_buffer`, in its two versions; the one for types that claim not to
throw is `noexcept`. -/
def constructAlignedBuffer (nothrow : Bool) (throws : ℕ → Bool) (data size bytesPerElement : ℕ)
    (s : Progress α) : Option (Except (Progress α) (Progress α)) :=
  let d := toPtrdiff bytesPerElement
  let e := toPtrdiff (size * bytesPerElement % 2 ^ 64)
  if nothrow then
    match ptrdiffLoop d e (fun i => construct throws (byteAddress data i)) s with
    | some (.ok s) => some (.ok { s with numElementsConstructed := size })
    | _ => none
  else
    ptrdiffLoop d e (fun i => constructAndCount throws (byteAddress data i)) s

def destroyAlignedBuffer (data size bytesPerElement : ℕ) : Option (List (Event α)) :=
  let d := toPtrdiff bytesPerElement
  let e := toPtrdiff (size * bytesPerElement % 2 ^ 64)
  match ptrdiffLoop d e (fun i => destroy (byteAddress data i)) [] with
  | some (.ok events) => some events
  | _ => none

def internalConstructor (c : Call α) (size : ℕ) : Result α (AlignedBuffer α) :=
  match computeBytesPerElement hw T alignment with
  | .error e => some ([], .error e)
  | .ok bytesPerElement =>
      if size = 0 then some ([], .ok ⟨c.alloc, nullptr, size, bytesPerElement⟩)
      else
        let numBytesR := tryMultiplyUnsigned size bytesPerElement
        if numBytesR.ec ≠ .none then some ([], .error .badAlloc)
        else
          let numBytes := numBytesR.value
          match c.allocate numBytes with
          | none => some ([], .error .fromAllocate)
          | some data =>
              match constructAlignedBuffer c.nothrow c.throws data size bytesPerElement
                ⟨[.acquire (.block c.alloc data numBytes)], c.uninitialized⟩ with
              | none => none
              | some (.ok s) => some (s.events, .ok ⟨c.alloc, data, size, bytesPerElement⟩)
              | some (.error s) =>
                  -- the transaction is rolled back
                  match destroyAlignedBuffer data s.numElementsConstructed bytesPerElement with
                  | none => none
                  | some destroyed => some (s.events ++ destroyed ++
                      [.release (.block c.alloc data (size * bytesPerElement % 2 ^ 64))],
                      .error .fromConstruct)

def destroyAndFree (b : AlignedBuffer α) : Option (List (Event α)) :=
  match destroyAlignedBuffer b.data b.size b.bytesPerElement with
  | none => none
  | some destroyed => some (destroyed ++
      [.release (.block b.alloc b.data (b.size * b.bytesPerElement % 2 ^ 64))])

/-- The move constructor: the new object and what is left of the old one. The base class
is not mentioned, so that its default constructor is called. -/
def moveConstructor (defaultAlloc : α) (rhs : AlignedBuffer α) :
    AlignedBuffer α × AlignedBuffer α :=
  (⟨defaultAlloc, rhs.data, rhs.size, rhs.bytesPerElement⟩,
    { rhs with data := nullptr, size := 0 })

/-- The move assignment from another object -/
def moveAssignment (b rhs : AlignedBuffer α) :
    Option (List (Event α) × AlignedBuffer α × AlignedBuffer α) :=
  match if b.data ≠ nullptr then destroyAndFree b else some [] with
  | none => none
  | some events => some (events,
      { b with data := rhs.data, size := rhs.size, bytesPerElement := rhs.bytesPerElement },
      { rhs with data := nullptr, size := 0, bytesPerElement := 0 })

def selfMoveAssignment (b : AlignedBuffer α) : Option (List (Event α) × AlignedBuffer α) :=
  some ([], b)

def destructor (b : AlignedBuffer α) : Option (List (Event α)) :=
  if b.data ≠ nullptr then destroyAndFree b else some []

/-- `operator []`, which expects `i < size_` -/
def get (b : AlignedBuffer α) (i : ℕ) : Option ℕ :=
  if i < b.size then some (b.data + i * b.bytesPerElement % 2 ^ 64) else none

def begin (b : AlignedBuffer α) : AlignedBufferIterator := ⟨b.data, 0, b.bytesPerElement⟩

end AlignedBuffer

namespace AlignedBufferIterator

/-- `operator +` -/
def add (it : AlignedBufferIterator) (d : ℤ) : AlignedBufferIterator :=
  { it with index := addIndex it.index d }

/-- `operator *` -/
def deref (it : AlignedBufferIterator) : ℕ := it.data + it.index * it.bytesPerElement % 2 ^ 64

/-- `operator []` -/
def get (it : AlignedBufferIterator) (d : ℤ) : ℕ :=
  it.data + addIndex it.index d * it.bytesPerElement % 2 ^ 64

end AlignedBufferIterator

/-- The address of element `i`, in exact arithmetic. -/
def elementAddress (data d i : ℕ) : ℕ := data + i * d

theorem byteAddress_eq_elementAddress (data d k : ℕ) :
    byteAddress data (0 + (k : ℤ) * d) = elementAddress data d k := by
  have hi : 0 + (k : ℤ) * d = (k * d : ℕ) := by simp
  rw [hi, byteAddress_natCast, elementAddress]

namespace AlignedBuffer

variable {throws : ℕ → Bool} {nothrow : Bool} {data size d k m n : ℕ} {s : Progress α}

theorem iterations_destroy (data d m : ℕ) :
    iterations (fun i => destroy (byteAddress data i)) (d : ℤ) 0 m ([] : List (Event α)) =
      some (.ok (destroyed (addresses (elementAddress data d) m))) := by
  refine iterations_eq_ok
    (f := fun k => destroyed (addresses (elementAddress data d) k)) fun k _ => ?_
  rw [byteAddress_eq_elementAddress, destroy_destroyed]

/-- The loop that destroys runs over whole elements. -/
theorem destroyAlignedBuffer_eq (hd : 0 < d) (hdmax : (d : ℤ) ≤ ptrdiffMax)
    (h : ((m * d : ℕ) : ℤ) ≤ ptrdiffMax) (hn : n * d % 2 ^ 64 = m * d) :
    destroyAlignedBuffer data n d =
      some (destroyed (addresses (elementAddress data d) m) : List (Event α)) := by
  simp only [destroyAlignedBuffer]
  rw [hn, toPtrdiff_of_le hdmax, toPtrdiff_of_le h, ptrdiffLoop_eq hd h, iterations_destroy]

/-- All the elements of a buffer are destroyed, and its block is deallocated. -/
theorem destroyAndFree_eq (b : AlignedBuffer α) (hpos : 0 < b.bytesPerElement)
    (hle : (b.bytesPerElement : ℤ) ≤ ptrdiffMax)
    (hmul : ((b.size * b.bytesPerElement : ℕ) : ℤ) ≤ ptrdiffMax) :
    destroyAndFree b =
      some (destroyed (addresses (elementAddress b.data b.bytesPerElement) b.size) ++
        [.release (.block b.alloc b.data (b.size * b.bytesPerElement))]) := by
  rw [destroyAndFree, destroyAlignedBuffer_eq hpos hle hmul (mod_eq_of_le_ptrdiffMax hmul),
    mod_eq_of_le_ptrdiffMax hmul]

/-- If it ends at all, then after a whole number of elements. -/
theorem exists_of_destroyAlignedBuffer_eq_some (hdmax : (d : ℤ) ≤ ptrdiffMax)
    {events : List (Event α)} (h : destroyAlignedBuffer data n d = some events) :
    ∃ m : ℕ, toPtrdiff (n * d % 2 ^ 64) = (m * d : ℕ) ∧
      events = destroyed (addresses (elementAddress data d) m) := by
  simp only [destroyAlignedBuffer] at h
  rw [toPtrdiff_of_le hdmax] at h
  split at h
  · next events' hloop =>
      obtain ⟨m, he, hr⟩ := exists_of_ptrdiffLoop_eq_some (fun i s => ⟨_, rfl⟩) hloop
      have hevents := (iterations_destroy data d m).symm.trans hr
      simp only [Option.some.injEq, Except.ok.injEq] at h hevents
      exact ⟨m, he, by rw [← h, ← hevents]⟩
  · cases h

theorem constructAlignedBuffer_of_not_throws (hd : 0 < d) (hdmax : (d : ℤ) ≤ ptrdiffMax)
    (h : ((size * d : ℕ) : ℤ) ≤ ptrdiffMax) (hs : s.numElementsConstructed ≤ sizeMax)
    (hthrows : ∀ i < size, throws (elementAddress data d i) = false) :
    ∃ n, constructAlignedBuffer nothrow throws data size d s =
      some (.ok (progressAt s (elementAddress data d) size n)) := by
  simp only [constructAlignedBuffer]
  rw [mod_eq_of_le_ptrdiffMax h, toPtrdiff_of_le hdmax, toPtrdiff_of_le h, ptrdiffLoop_eq hd h,
    ptrdiffLoop_eq hd h]
  cases nothrow with
  | true =>
      have hloop : iterations (fun i => construct throws (byteAddress data i)) d 0 size
          (progressAt s (elementAddress data d) 0 s.numElementsConstructed) =
            some (.ok (progressAt s (elementAddress data d) size s.numElementsConstructed)) := by
        refine iterations_eq_ok
          (f := fun k => progressAt s (elementAddress data d) k s.numElementsConstructed)
          fun k hk => ?_
        rw [byteAddress_eq_elementAddress, construct_progressAt (hthrows k hk)]
      rw [progressAt_zero] at hloop
      rw [if_pos rfl, hloop]
      exact ⟨size, rfl⟩
  | false =>
      have hloop : iterations (fun i => constructAndCount throws (byteAddress data i)) d 0 size
          (progressAt s (elementAddress data d) 0 ((s.numElementsConstructed + 0) % 2 ^ 64)) =
            some (.ok (progressAt s (elementAddress data d) size
              ((s.numElementsConstructed + size) % 2 ^ 64))) := by
        refine iterations_eq_ok (f := fun k => progressAt s (elementAddress data d) k
          ((s.numElementsConstructed + k) % 2 ^ 64)) fun k hk => ?_
        rw [byteAddress_eq_elementAddress, constructAndCount_progressAt (hthrows k hk)]
      rw [Nat.add_zero, mod_eq_of_le_sizeMax hs, progressAt_zero] at hloop
      rw [if_neg (by simp), hloop]
      exact ⟨_, rfl⟩

/-- If the call for element `k` throws, the elements before it are there, and they have
been counted from whatever the counter held. -/
theorem constructAlignedBuffer_of_throws (hd : 0 < d) (hdmax : (d : ℤ) ≤ ptrdiffMax)
    (h : ((size * d : ℕ) : ℤ) ≤ ptrdiffMax) (hs : s.numElementsConstructed ≤ sizeMax)
    (hk : k < size) (hthrows : ThrowsAt throws (elementAddress data d) k) :
    constructAlignedBuffer false throws data size d s =
      some (.error (progressAt s (elementAddress data d) k
        ((s.numElementsConstructed + k) % 2 ^ 64))) := by
  have hloop : iterations (fun i => constructAndCount throws (byteAddress data i)) d 0 size
      (progressAt s (elementAddress data d) 0 ((s.numElementsConstructed + 0) % 2 ^ 64)) =
        some (.error (progressAt s (elementAddress data d) k
          ((s.numElementsConstructed + k) % 2 ^ 64))) := by
    refine iterations_eq_error (f := fun k => progressAt s (elementAddress data d) k
      ((s.numElementsConstructed + k) % 2 ^ 64)) hk (fun j hj => ?_) ?_
    · rw [byteAddress_eq_elementAddress, constructAndCount_progressAt (hthrows.not_throws j hj)]
    · rw [byteAddress_eq_elementAddress, constructAndCount_of_throws hthrows.throws]
  rw [Nat.add_zero, mod_eq_of_le_sizeMax hs, progressAt_zero] at hloop
  simp only [constructAlignedBuffer]
  rw [mod_eq_of_le_ptrdiffMax h, toPtrdiff_of_le hdmax, toPtrdiff_of_le h, if_neg (by simp),
    ptrdiffLoop_eq hd h, hloop]

variable {hw T alignment} {c : Call α}

variable (hw T alignment) in
/-- `sizeof(T)` rounded up to the alignment, in exact arithmetic. -/
def stride : ℕ := roundUp T.sizeofT (alignmentInBytes hw (alignment ||| T.alignofT))

theorem stride_pos : 0 < stride hw T alignment :=
  roundUp_pos (alignmentInBytes_pos _) T.sizeofT_pos

theorem computeBytesPerElement_eq : computeBytesPerElement hw T alignment =
    if stride hw T alignment ≤ sizeMax then .ok (stride hw T alignment) else .error .badAlloc := by
  simp only [computeBytesPerElement]
  rw [tryCeili_eq (alignmentInBytes_pos _), stride]
  split
  · next hec => rw [if_neg (fun hle => hec (checked_ec.2 hle))]
  · next hec =>
      have hle := checked_ec.1 (not_not.1 hec)
      rw [if_pos hle, checked_of_le hle]

/-- The constructor has got a block. -/
structure Allocated (c : Call α) (d size data : ℕ) : Prop where
  size_pos : 0 < size
  allocate_eq : c.allocate (size * d) = some data

theorem Allocated.mul_le (h : Allocated c d size data) : ((size * d : ℕ) : ℤ) ≤ ptrdiffMax :=
  c.allocate_le _ _ h.allocate_eq

theorem Allocated.le (h : Allocated c d size data) : (d : ℤ) ≤ ptrdiffMax := by
  have hle : d ≤ size * d := Nat.le_mul_of_pos_left d h.size_pos
  have hmul := h.mul_le
  omega

theorem Allocated.mul_le_of_lt (h : Allocated c d size data) (hk : k < size) :
    ((k * d : ℕ) : ℤ) ≤ ptrdiffMax := by
  have hle : k * d ≤ size * d := Nat.mul_le_mul_right _ hk.le
  have hsize := h.mul_le
  omega

variable (hw T alignment) in
def startOf (c : Call α) (size data : ℕ) : Progress α :=
  ⟨[.acquire (.block c.alloc data (size * stride hw T alignment))], c.uninitialized⟩

theorem internalConstructor_of_allocated (h : Allocated c (stride hw T alignment) size data) :
    internalConstructor hw T alignment c size =
      match constructAlignedBuffer c.nothrow c.throws data size (stride hw T alignment)
        (startOf hw T alignment c size data) with
      | none => none
      | some (.ok s) => some (s.events, .ok ⟨c.alloc, data, size, stride hw T alignment⟩)
      | some (.error s) =>
          match destroyAlignedBuffer data s.numElementsConstructed (stride hw T alignment) with
          | none => none
          | some destroyed => some (s.events ++ destroyed ++
              [.release (.block c.alloc data (size * stride hw T alignment))],
              .error .fromConstruct) := by
  have hmul := h.mul_le
  have hle := h.le
  rw [ptrdiffMax] at hmul hle
  have hstride : stride hw T alignment ≤ sizeMax := by
    rw [sizeMax]
    omega
  have hbytes : size * stride hw T alignment ≤ sizeMax := by
    rw [sizeMax]
    omega
  simp only [internalConstructor]
  rw [computeBytesPerElement_eq, if_pos hstride]
  simp only [tryMultiplyUnsigned_eq, checked_of_le hbytes, h.allocate_eq,
    mod_eq_of_le_sizeMax hbytes]
  rw [if_neg h.size_pos.ne', if_neg (by simp)]
  rfl

/-- No call of `construct` throws: nothing is destroyed, and the block is kept. -/
theorem internalConstructor_of_not_throws (h : Allocated c (stride hw T alignment) size data)
    (hthrows : ∀ i < size, c.throws (elementAddress data (stride hw T alignment) i) = false) :
    internalConstructor hw T alignment c size =
      some (acquisition c data (size * stride hw T alignment)
          (addresses (elementAddress data (stride hw T alignment)) size),
        .ok ⟨c.alloc, data, size, stride hw T alignment⟩) := by
  obtain ⟨n, hn⟩ : ∃ n, constructAlignedBuffer c.nothrow c.throws data size
      (stride hw T alignment) (startOf hw T alignment c size data) = some (.ok (progressAt
        (startOf hw T alignment c size data) (elementAddress data (stride hw T alignment))
          size n)) :=
    constructAlignedBuffer_of_not_throws stride_pos h.le h.mul_le c.uninitialized_le hthrows
  rw [internalConstructor_of_allocated h, hn]
  rfl

/-- The rollback destroys as many elements as the counter says. -/
theorem internalConstructor_of_throws (h : Allocated c (stride hw T alignment) size data)
    (hnothrow : c.nothrow = false) (hk : k < size)
    (hthrows : ThrowsAt c.throws (elementAddress data (stride hw T alignment)) k) :
    internalConstructor hw T alignment c size =
      match destroyAlignedBuffer data ((c.uninitialized + k) % 2 ^ 64) (stride hw T alignment) with
      | none => none
      | some destruction => some (acquisition c data (size * stride hw T alignment)
            (addresses (elementAddress data (stride hw T alignment)) k) ++ destruction ++
              [.release (.block c.alloc data (size * stride hw T alignment))],
          .error .fromConstruct) := by
  have hloop : constructAlignedBuffer false c.throws data size (stride hw T alignment)
      (startOf hw T alignment c size data) = some (.error (progressAt
        (startOf hw T alignment c size data) (elementAddress data (stride hw T alignment)) k
          ((c.uninitialized + k) % 2 ^ 64))) :=
    constructAlignedBuffer_of_throws stride_pos h.le h.mul_le c.uninitialized_le hk hthrows
  rw [internalConstructor_of_allocated h, hnothrow, hloop]
  rfl

/-- The counter, with what it held before, gives the end of the rollback. -/
theorem mul_mod_eq_iff {g : ℕ} (h : ((k * d : ℕ) : ℤ) ≤ ptrdiffMax) :
    (g + k) % 2 ^ 64 * d % 2 ^ 64 = k * d ↔ g * d % 2 ^ 64 = 0 := by
  have hmul : (g + k) % 2 ^ 64 * d % 2 ^ 64 = (g * d + k * d) % 2 ^ 64 := by
    rw [Nat.mod_mul_mod, Nat.add_mul]
  rw [ptrdiffMax] at h
  rw [hmul]
  omega

theorem eq_of_toPtrdiff_eq {x : ℕ} (hx : x < 2 ^ 64) (h : toPtrdiff x = (n : ℤ)) : x = n := by
  rw [toPtrdiff] at h
  split at h <;> omega

theorem internalConstructor_eq_undone (h : Allocated c (stride hw T alignment) size data)
    (hnothrow : c.nothrow = false) (hk : k < size)
    (hthrows : ThrowsAt c.throws (elementAddress data (stride hw T alignment)) k)
    (hmod : c.uninitialized * stride hw T alignment % 2 ^ 64 = 0) :
    internalConstructor hw T alignment c size =
      undone c data (size * stride hw T alignment)
        (addresses (elementAddress data (stride hw T alignment)) k) := by
  have hmul := h.mul_le_of_lt hk
  rw [internalConstructor_of_throws h hnothrow hk hthrows,
    destroyAlignedBuffer_eq stride_pos h.le hmul ((mul_mod_eq_iff hmul).2 hmod)]
  rfl

/-- The rollback undoes the construction if and only if the uninitialised counter adds
nothing to the byte offset at which it ends. -/
theorem rolledBack_iff (h : Allocated c (stride hw T alignment) size data)
    (hnothrow : c.nothrow = false) (hk : k < size)
    (hthrows : ThrowsAt c.throws (elementAddress data (stride hw T alignment)) k) :
    RolledBack c data (size * stride hw T alignment)
        (elementAddress data (stride hw T alignment)) k
        (internalConstructor hw T alignment c size) ↔
      c.uninitialized * stride hw T alignment % 2 ^ 64 = 0 := by
  constructor
  · rw [internalConstructor_of_throws h hnothrow hk hthrows, ← mul_mod_eq_iff (h.mul_le_of_lt hk)]
    rintro ⟨destruction, hperm, heq⟩
    cases hdestroy : destroyAlignedBuffer (α := α) data ((c.uninitialized + k) % 2 ^ 64)
        (stride hw T alignment) with
    | none =>
        rw [hdestroy] at heq
        cases heq
    | some events =>
        obtain ⟨m, hm, rfl⟩ := exists_of_destroyAlignedBuffer_eq_some h.le hdestroy
        rw [hdestroy] at heq
        have hevents : destroyed (addresses (elementAddress data (stride hw T alignment)) m) =
            destruction := by
          simpa using heq
        have hlen := hperm.length_eq
        rw [← hevents] at hlen
        have hmk : m = k := by simpa using hlen
        rw [hmk] at hm
        exact eq_of_toPtrdiff_eq (Nat.mod_lt _ (by omega)) hm
  · intro hmod
    rw [internalConstructor_eq_undone h hnothrow hk hthrows hmod]
    exact rolledBack_undone _ _ _ _ _

/-- Once there is a block: if nothing throws, the elements are constructed and the buffer
keeps the block. If the call for element `k` throws, everything is undone if and only if
the uninitialised counter does no harm. -/
theorem construction_iff (h : Allocated c (stride hw T alignment) size data) :
    ((∀ i < size, c.throws (elementAddress data (stride hw T alignment) i) = false) →
      internalConstructor hw T alignment c size =
        some (acquisition c data (size * stride hw T alignment)
            (addresses (elementAddress data (stride hw T alignment)) size),
          .ok ⟨c.alloc, data, size, stride hw T alignment⟩)) ∧
    (c.nothrow = false → ∀ k < size,
      ThrowsAt c.throws (elementAddress data (stride hw T alignment)) k →
        (RolledBack c data (size * stride hw T alignment)
            (elementAddress data (stride hw T alignment)) k
            (internalConstructor hw T alignment c size) ↔
          c.uninitialized * stride hw T alignment % 2 ^ 64 = 0)) :=
  ⟨internalConstructor_of_not_throws h,
    fun hnothrow _ hk hthrows => rolledBack_iff h hnothrow hk hthrows⟩

/-- A call whose elements throw, and whose counter happens to hold `g`. -/
def throwingCall (g : ℕ) (h : g ≤ sizeMax) : Call Unit := sampleCall () (fun _ => true) g h

theorem throwingCall_allocated (g : ℕ) (h : g ≤ sizeMax) :
    Allocated (throwingCall g h) 4 1 4096 := ⟨by decide, rfl⟩

theorem throwingCall_throwsAt (g : ℕ) (h : g ≤ sizeMax) :
    ThrowsAt (throwingCall g h).throws (elementAddress 4096 4) 0 :=
  ⟨by simp, rfl⟩

/-- A counter that starts with one: the element which has not been constructed is
destroyed. -/
theorem not_rolledBack_throwingCall :
    internalConstructor commonHardware intType 4 (throwingCall 1 (by decide)) 1 =
      some ([.acquire (.block () 4096 4), .release (.element 4096), .release (.block () 4096 4)],
        .error .fromConstruct) ∧
    ¬ RolledBack (throwingCall 1 (by decide)) 4096 4 (elementAddress 4096 4) 0
      (internalConstructor commonHardware intType 4 (throwingCall 1 (by decide)) 1) := by
  refine ⟨rfl, fun h => ?_⟩
  have hmod : 1 * 4 % 2 ^ 64 = 0 := (rolledBack_iff (throwingCall_allocated 1 (by decide)) rfl
    Nat.one_pos (throwingCall_throwsAt 1 (by decide))).1 h
  exact absurd hmod (by decide)

/-- The second of three elements throws. Everything is undone although the counter has not
started with zero, as the number of bytes wraps around; with another counter it is not. -/
theorem sampleCall_construction_iff :
    RolledBack (sampleCall () (· == 4100) (2 ^ 62) (by decide)) 4096 12 (elementAddress 4096 4) 1
        (internalConstructor commonHardware intType 4
          (sampleCall () (· == 4100) (2 ^ 62) (by decide)) 3) ∧
      ¬ RolledBack (sampleCall () (· == 4100) 1 (by decide)) 4096 12 (elementAddress 4096 4) 1
        (internalConstructor commonHardware intType 4
          (sampleCall () (· == 4100) 1 (by decide)) 3) := by
  have halloc : ∀ g (h : g ≤ sizeMax), Allocated (sampleCall () (· == 4100) g h) 4 3 4096 :=
    fun _ _ => ⟨by decide, rfl⟩
  have hthrows : ThrowsAt (· == 4100) (elementAddress 4096 4) 1 := ⟨by decide, by decide⟩
  have hiff : ∀ g (h : g ≤ sizeMax),
      RolledBack (sampleCall () (· == 4100) g h) 4096 12 (elementAddress 4096 4) 1
        (internalConstructor commonHardware intType 4 (sampleCall () (· == 4100) g h) 3) ↔
          g * 4 % 2 ^ 64 = 0 :=
    fun g h => (@construction_iff _ commonHardware intType 4 _ _ _ (halloc g h)).2 rfl 1
      (by decide) hthrows
  exact ⟨(hiff (2 ^ 62) _).2 (by decide), fun h => absurd ((hiff 1 _).1 h) (by decide)⟩

end AlignedBuffer

end Patton.Buffer
