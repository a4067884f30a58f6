import Patton.Buffer.Construction

/-!
# The aligned row buffer

`aligned_row_buffer` keeps the rows of a matrix in one block of an allocator, at a
distance that is a multiple of the alignment. The elements of a row are contiguous.
-/

namespace Patton.Buffer

open ForLoop Ledger Memory RoundUp

/-- `aligned_row_buffer`; `alloc` is its base class. -/
structure AlignedRowBuffer (α : Type*) where
  alloc : α
  data : ℕ
  rows : ℕ
  cols : ℕ
  bytesPerRow : ℕ
  deriving DecidableEq

structure AlignedRowBufferIterator where
  data : ℕ
  index : ℕ
  cols : ℕ
  bytesPerRow : ℕ

variable {α : Type*} (hw : HardwareSizes) (T : ElementType) (alignment : ℕ)

namespace AlignedRowBuffer

/-- The byte offset `i + j * sizeof(T)`, which is computed in `std::size_t`. -/
def elementOffset (i j : ℤ) : ℤ := (i + j * T.sizeofT) % 2 ^ 64

/-- The loop over the columns of the row at offset `i`. -/
def columnLoop {σ : Type*} (data cols : ℕ) (body : ℕ → σ → Option (Except σ σ)) (i : ℤ) (s : σ) :
    Option (Except σ σ) :=
  let ncols := toPtrdiff cols
  ptrdiffLoop 1 ncols (fun j => body (byteAddress data (elementOffset T i j))) s

/-- The two loops over rows and columns, which four functions have in common. -/
def rowLoops {σ : Type*} (data rows cols bytesPerRow : ℕ)
    (body : ℕ → σ → Option (Except σ σ)) (s : σ) : Option (Except σ σ) :=
  let d := toPtrdiff bytesPerRow
  let e := toPtrdiff (rows * bytesPerRow % 2 ^ 64)
  ptrdiffLoop d e (columnLoop T data cols body) s

/-- `construct_aligned_row_buffer`, in its two versions; the one for types that claim not
to throw is `noexcept`. -/
def constructAlignedRowBuffer (nothrow : Bool) (throws : ℕ → Bool)
    (data rows cols bytesPerRow : ℕ) (s : Progress α) :
    Option (Except (Progress α) (Progress α)) :=
  if nothrow then
    match rowLoops T data rows cols bytesPerRow (construct throws) s with
    | some (.ok s) => some (.ok { s with numElementsConstructed := rows * cols % 2 ^ 64 })
    | _ => none
  else
    rowLoops T data rows cols bytesPerRow (constructAndCount throws)
      { s with numElementsConstructed := 0 }

/-- `destroy_aligned_row_buffer`, for all the elements -/
def destroyAlignedRowBuffer (data rows cols bytesPerRow : ℕ) : Option (List (Event α)) :=
  match rowLoops T data rows cols bytesPerRow destroy [] with
  | some (.ok events) => some events
  | _ => none

def destroyAndCount (addr : ℕ) (s : Progress α) : Option (Except (Progress α) (Progress α)) :=
  if s.numElementsConstructed = 0 then some (.error s)  -- `return`
  else
    let numElementsConstructed := s.numElementsConstructed - 1
    some (.ok ⟨s.events ++ [.release (.element addr)], numElementsConstructed⟩)

/-- `destroy_aligned_row_buffer`, for the elements that have been constructed -/
def destroyConstructed (data rows cols bytesPerRow numElementsConstructed : ℕ) :
    Option (List (Event α)) :=
  match rowLoops T data rows cols bytesPerRow destroyAndCount ⟨[], numElementsConstructed⟩ with
  | some (.ok s) => some s.events
  | some (.error s) => some s.events
  | none => none

def internalConstructor (c : Call α) (rows cols : ℕ) : Result α (AlignedRowBuffer α) :=
  let rawBytesPerRowR := tryMultiplyUnsigned T.sizeofT cols
  let bytesPerRowR :=
    tryCeili rawBytesPerRowR.value (alignmentInBytes hw (alignment ||| T.alignofT))
  let numBytesR := tryMultiplyUnsigned rows bytesPerRowR.value
  if rawBytesPerRowR.ec ≠ .none ∨ bytesPerRowR.ec ≠ .none ∨ numBytesR.ec ≠ .none then
    some ([], .error .badAlloc)
  else
    let bytesPerRow := bytesPerRowR.value
    if rows = 0 ∨ cols = 0 then some ([], .ok ⟨c.alloc, nullptr, rows, cols, bytesPerRow⟩)
    else
      let numBytes := numBytesR.value
      match c.allocate numBytes with
      | none => some ([], .error .fromAllocate)
      | some data =>
          match constructAlignedRowBuffer T c.nothrow c.throws data rows cols bytesPerRow
            ⟨[.acquire (.block c.alloc data numBytes)], c.uninitialized⟩ with
          | none => none
          | some (.ok s) => some (s.events, .ok ⟨c.alloc, data, rows, cols, bytesPerRow⟩)
          | some (.error s) =>
              -- the transaction is rolled back
              match destroyConstructed T data rows cols bytesPerRow s.numElementsConstructed with
              | none => none
              | some destruction => some (s.events ++ destruction ++
                  [.release (.block c.alloc data (rows * bytesPerRow % 2 ^ 64))],
                  .error .fromConstruct)

def destroyAndFree (b : AlignedRowBuffer α) : Option (List (Event α)) :=
  match destroyAlignedRowBuffer T b.data b.rows b.cols b.bytesPerRow with
  | none => none
  | some destruction => some (destruction ++
      [.release (.block b.alloc b.data (b.rows * b.bytesPerRow % 2 ^ 64))])

/-- The move constructor: the new object and what is left of the old one. The base class
is not mentioned, so that its default constructor is called. -/
def moveConstructor (defaultAlloc : α) (rhs : AlignedRowBuffer α) :
    AlignedRowBuffer α × AlignedRowBuffer α :=
  (⟨defaultAlloc, rhs.data, rhs.rows, rhs.cols, rhs.bytesPerRow⟩,
    { rhs with data := nullptr, rows := 0, cols := 0, bytesPerRow := 0 })

/-- The statements of the move assignment from another object -/
def moveAssignmentStatements (b rhs : AlignedRowBuffer α) :
    Option (List (Event α) × AlignedRowBuffer α × AlignedRowBuffer α) :=
  match if b.data ≠ nullptr then destroyAndFree T b else some [] with
  | none => none
  | some events => some (events,
      { b with data := rhs.data, rows := rhs.rows, cols := rhs.cols,
               bytesPerRow := rhs.bytesPerRow },
      { rhs with data := nullptr, rows := 0, cols := 0, bytesPerRow := 0 })

/-- The move assignment from another object. It flows off its end without a `return`
statement, so that its behaviour is undefined; an implementation which is `lenient` lets
it return all the same. -/
def moveAssignment (lenient : Bool) (b rhs : AlignedRowBuffer α) :
    Option (List (Event α) × AlignedRowBuffer α × AlignedRowBuffer α) :=
  if lenient then moveAssignmentStatements T b rhs else none

/-- The move assignment from the object itself, which flows off its end as well -/
def selfMoveAssignment (lenient : Bool) (b : AlignedRowBuffer α) :
    Option (List (Event α) × AlignedRowBuffer α) :=
  if lenient then some ([], b) else none

def destructor (b : AlignedRowBuffer α) : Option (List (Event α)) :=
  if b.data ≠ nullptr then destroyAndFree T b else some []

/-- `operator []`, which expects `i < rows_`: the data and the size of a span -/
def get (b : AlignedRowBuffer α) (i : ℕ) : Option (ℕ × ℕ) :=
  if i < b.rows then some (b.data + i * b.bytesPerRow % 2 ^ 64, b.cols) else none

def begin (b : AlignedRowBuffer α) : AlignedRowBufferIterator :=
  ⟨b.data, 0, b.cols, b.bytesPerRow⟩

end AlignedRowBuffer

namespace AlignedRowBufferIterator

/-- `operator +` -/
def add (it : AlignedRowBufferIterator) (d : ℤ) : AlignedRowBufferIterator :=
  { it with index := addIndex it.index d }

/-- `operator *` -/
def deref (it : AlignedRowBufferIterator) : ℕ × ℕ :=
  (it.data + it.index * it.bytesPerRow % 2 ^ 64, it.cols)

/-- `operator []` -/
def get (it : AlignedRowBufferIterator) (d : ℤ) : ℕ × ℕ :=
  (it.data + addIndex it.index d * it.bytesPerRow % 2 ^ 64, it.cols)

end AlignedRowBufferIterator

namespace AlignedRowBuffer

/-- The address of the element at position `p` in row-major order. -/
def positionAddress (data d cols p : ℕ) : ℕ := data + p / cols * d + p % cols * T.sizeofT

variable {T} {σ : Type*} {data rows cols d k r j : ℕ} {body : ℕ → σ → Option (Except σ σ)}
  {f : ℕ → σ} {s' : σ}

/-- A block of rows, each with room for its elements. -/
structure Fits (T : ElementType) (rows cols d : ℕ) : Prop where
  rows_pos : 0 < rows
  cols_pos : 0 < cols
  cols_le : T.sizeofT * cols ≤ d
  mul_le : ((rows * d : ℕ) : ℤ) ≤ ptrdiffMax

theorem Fits.pos (h : Fits T rows cols d) : 0 < d :=
  (Nat.mul_pos T.sizeofT_pos h.cols_pos).trans_le h.cols_le

theorem Fits.le (h : Fits T rows cols d) : (d : ℤ) ≤ ptrdiffMax := by
  have hle : d ≤ rows * d := Nat.le_mul_of_pos_left d h.rows_pos
  have hmul := h.mul_le
  omega

theorem Fits.cols_le_ptrdiffMax (h : Fits T rows cols d) : (cols : ℤ) ≤ ptrdiffMax := by
  have hle : cols ≤ T.sizeofT * cols := Nat.le_mul_of_pos_left cols T.sizeofT_pos
  have hcols := h.cols_le
  have hd := h.le
  omega

/-- The end of an element lies in its row. -/
theorem Fits.column_le (h : Fits T rows cols d) (hj : j < cols) :
    j * T.sizeofT + T.sizeofT ≤ d := by
  have hrow : (j + 1) * T.sizeofT ≤ cols * T.sizeofT := Nat.mul_le_mul_right _ hj
  have hcols := h.cols_le
  rw [Nat.mul_comm] at hcols
  rw [Nat.succ_mul] at hrow
  omega

theorem Fits.offset_le (h : Fits T rows cols d) (hr : r < rows) (hj : j < cols) :
    r * d + j * T.sizeofT + T.sizeofT ≤ rows * d := by
  have hblock : (r + 1) * d ≤ rows * d := Nat.mul_le_mul_right _ hr
  have hcolumn := h.column_le hj
  rw [Nat.succ_mul] at hblock
  omega

theorem byteAddress_eq_positionAddress (h : Fits T rows cols d) (hr : r < rows) (hj : j < cols) :
    byteAddress data (elementOffset T (0 + r * d) (0 + j * 1)) =
      positionAddress T data d cols (r * cols + j) := by
  have hoff := h.offset_le hr hj
  have hmul := h.mul_le
  rw [ptrdiffMax] at hmul
  have hsum : elementOffset T (0 + r * d) (0 + j * 1) = (r * d + j * T.sizeofT : ℕ) := by
    rw [elementOffset, zero_add, zero_add, mul_one, Int.emod_eq_of_lt] <;> push_cast <;> omega
  have hdiv : (r * cols + j) / cols = r := by
    rw [Nat.add_comm, Nat.add_mul_div_right _ _ h.cols_pos, Nat.div_eq_of_lt hj, Nat.zero_add]
  have hmod : (r * cols + j) % cols = j := by
    rw [Nat.add_comm, Nat.add_mul_mod_self_right, Nat.mod_eq_of_lt hj]
  rw [hsum, byteAddress_natCast, positionAddress, hdiv, hmod, Nat.add_assoc]

theorem position_lt (hr : r < rows) (hj : j < cols) : r * cols + j < rows * cols := by
  have hle : (r + 1) * cols ≤ rows * cols := Nat.mul_le_mul_right _ hr
  rw [Nat.succ_mul] at hle
  omega

/-- The loop over the columns of a row makes `cols` iterations. -/
theorem columnLoop_eq_iterations (h : Fits T rows cols d) (i : ℤ) (s : σ) :
    columnLoop T data cols body i s =
      iterations (fun j => body (byteAddress data (elementOffset T i j))) 1 0 cols s := by
  have hcols := h.cols_le_ptrdiffMax
  have hmul : ((cols * 1 : ℕ) : ℤ) = cols := by rw [Nat.mul_one]
  rw [columnLoop, toPtrdiff_of_le hcols, ← hmul]
  exact ptrdiffLoop_eq Nat.one_pos (hmul ▸ hcols)

theorem columnLoop_eq_ok (h : Fits T rows cols d) (hr : r < rows)
    (hf : ∀ j < cols, body (positionAddress T data d cols (r * cols + j)) (f (r * cols + j)) =
      some (.ok (f (r * cols + j + 1)))) :
    columnLoop T data cols body (0 + r * d) (f (r * cols)) =
      some (.ok (f ((r + 1) * cols))) := by
  rw [columnLoop_eq_iterations h, Nat.succ_mul]
  refine iterations_eq_ok (f := fun j => f (r * cols + j)) fun j hj => ?_
  rw [byteAddress_eq_positionAddress h hr hj, hf j hj]
  rfl

/-- The loop over the columns is left at position `r * cols + k`. -/
theorem columnLoop_eq_error (h : Fits T rows cols d) (hr : r < rows) (hk : k < cols)
    (hf : ∀ j < k, body (positionAddress T data d cols (r * cols + j)) (f (r * cols + j)) =
      some (.ok (f (r * cols + j + 1))))
    (hleft : body (positionAddress T data d cols (r * cols + k)) (f (r * cols + k)) =
      some (.error s')) :
    columnLoop T data cols body (0 + r * d) (f (r * cols)) = some (.error s') := by
  rw [columnLoop_eq_iterations h]
  refine iterations_eq_error (f := fun j => f (r * cols + j)) hk (fun j hj => ?_) ?_
  · rw [byteAddress_eq_positionAddress h hr (hj.trans hk), hf j hj]
    rfl
  · rw [byteAddress_eq_positionAddress h hr hk, hleft]

theorem rowLoops_eq_iterations (h : Fits T rows cols d) (s : σ) :
    rowLoops T data rows cols d body s =
      iterations (columnLoop T data cols body) d 0 rows s := by
  rw [rowLoops, mod_eq_of_le_ptrdiffMax h.mul_le, toPtrdiff_of_le h.le, toPtrdiff_of_le h.mul_le,
    ptrdiffLoop_eq h.pos h.mul_le]

/-- The loops go through the positions in row-major order. -/
theorem rowLoops_eq_ok (h : Fits T rows cols d)
    (hf : ∀ p < rows * cols, body (positionAddress T data d cols p) (f p) =
      some (.ok (f (p + 1)))) :
    rowLoops T data rows cols d body (f 0) = some (.ok (f (rows * cols))) := by
  have hloop : iterations (columnLoop T data cols body) d 0 rows (f (0 * cols)) =
      some (.ok (f (rows * cols))) :=
    iterations_eq_ok (f := fun r => f (r * cols)) fun r hr =>
      columnLoop_eq_ok h hr fun j hj => hf _ (position_lt hr hj)
  rw [Nat.zero_mul] at hloop
  rw [rowLoops_eq_iterations h, hloop]

/-- The loops are left at position `k`. -/
theorem rowLoops_eq_error (h : Fits T rows cols d) (hk : k < rows * cols)
    (hf : ∀ p < k, body (positionAddress T data d cols p) (f p) = some (.ok (f (p + 1))))
    (hleft : body (positionAddress T data d cols k) (f k) = some (.error s')) :
    rowLoops T data rows cols d body (f 0) = some (.error s') := by
  have hr : k / cols < rows := (Nat.div_lt_iff_lt_mul h.cols_pos).2 hk
  have hc : k % cols < cols := Nat.mod_lt _ h.cols_pos
  have hsplit : k / cols * cols + k % cols = k := Nat.div_add_mod' k cols
  have hloop : iterations (columnLoop T data cols body) d 0 rows (f (0 * cols)) =
      some (.error s') := by
    refine iterations_eq_error (f := fun r => f (r * cols)) hr (fun r hrk => ?_) ?_
    · refine columnLoop_eq_ok h (hrk.trans hr) fun j hj => hf _ ?_
      have hlt := position_lt hrk hj
      omega
    · refine columnLoop_eq_error h hr hc (fun j hj => hf _ (by omega)) ?_
      rw [hsplit, hleft]
  rw [Nat.zero_mul] at hloop
  rw [rowLoops_eq_iterations h, hloop]

variable {throws : ℕ → Bool} {nothrow : Bool} {s : Progress α}

theorem destroyAlignedRowBuffer_eq (h : Fits T rows cols d) :
    destroyAlignedRowBuffer T data rows cols d =
      some (destroyed (addresses (positionAddress T data d cols) (rows * cols)) :
        List (Event α)) := by
  have hloop : rowLoops T data rows cols d destroy ([] : List (Event α)) = some (.ok (destroyed
      (addresses (positionAddress T data d cols) (rows * cols)))) :=
    rowLoops_eq_ok h (f := fun p => destroyed (addresses (positionAddress T data d cols) p))
      fun p _ => destroy_destroyed (positionAddress T data d cols) p
  rw [destroyAlignedRowBuffer, hloop]

/-- All the elements of a buffer are destroyed, and its block is deallocated. -/
theorem destroyAndFree_eq (b : AlignedRowBuffer α) (h : Fits T b.rows b.cols b.bytesPerRow) :
    destroyAndFree T b = some (destroyed (addresses
        (positionAddress T b.data b.bytesPerRow b.cols) (b.rows * b.cols)) ++
      [.release (.block b.alloc b.data (b.rows * b.bytesPerRow))]) := by
  rw [destroyAndFree, destroyAlignedRowBuffer_eq h, mod_eq_of_le_ptrdiffMax h.mul_le]

/-- The countdown destroys the elements in the order in which they have been counted. -/
theorem destroyConstructed_eq (h : Fits T rows cols d) (hk : k < rows * cols) :
    destroyConstructed T data rows cols d k =
      some (destroyed (addresses (positionAddress T data d cols) k) : List (Event α)) := by
  have hloop : rowLoops T data rows cols d destroyAndCount (⟨[], k - 0⟩ : Progress α) =
      some (.error ⟨destroyed (addresses (positionAddress T data d cols) k), k - k⟩) := by
    refine rowLoops_eq_error h (f := fun p => (⟨destroyed (addresses
      (positionAddress T data d cols) p), k - p⟩ : Progress α)) hk (fun p hp => ?_) ?_
    · rw [destroyAndCount, if_neg (Nat.sub_ne_zero_of_lt hp), addresses_succ, destroyed_append]
      rfl
    · rw [destroyAndCount, if_pos (Nat.sub_self k)]
  rw [Nat.sub_zero] at hloop
  rw [destroyConstructed, hloop]

/-- The version that counts starts with the assignment `numElementsConstructed = 0`. -/
theorem progressAt_start (s : Progress α) (addr : ℕ → ℕ) :
    progressAt s addr 0 ((0 + 0) % 2 ^ 64) = { s with numElementsConstructed := 0 } := by
  simp [progressAt, addresses, constructed]

theorem constructAlignedRowBuffer_of_not_throws (h : Fits T rows cols d)
    (hthrows : ∀ p < rows * cols, throws (positionAddress T data d cols p) = false) :
    ∃ n, constructAlignedRowBuffer T nothrow throws data rows cols d s =
      some (.ok (progressAt s (positionAddress T data d cols) (rows * cols) n)) := by
  rw [constructAlignedRowBuffer]
  cases nothrow with
  | true =>
      have hloop : rowLoops T data rows cols d (construct throws)
          (progressAt s (positionAddress T data d cols) 0 s.numElementsConstructed) =
            some (.ok (progressAt s (positionAddress T data d cols) (rows * cols)
              s.numElementsConstructed)) :=
        rowLoops_eq_ok h (f := fun p => progressAt s (positionAddress T data d cols) p
          s.numElementsConstructed) fun p hp => construct_progressAt (hthrows p hp)
      rw [progressAt_zero] at hloop
      rw [if_pos rfl, hloop]
      exact ⟨_, rfl⟩
  | false =>
      have hloop : rowLoops T data rows cols d (constructAndCount throws)
          (progressAt s (positionAddress T data d cols) 0 ((0 + 0) % 2 ^ 64)) =
            some (.ok (progressAt s (positionAddress T data d cols) (rows * cols)
              ((0 + rows * cols) % 2 ^ 64))) :=
        rowLoops_eq_ok h (f := fun p => progressAt s (positionAddress T data d cols) p
          ((0 + p) % 2 ^ 64)) fun p hp => constructAndCount_progressAt (hthrows p hp)
      rw [progressAt_start] at hloop
      rw [if_neg (by simp), hloop]
      exact ⟨_, rfl⟩

/-- If the call for position `k` throws, the elements before it are there, and they have
been counted. -/
theorem constructAlignedRowBuffer_of_throws (h : Fits T rows cols d) (hk : k < rows * cols)
    (hthrows : ThrowsAt throws (positionAddress T data d cols) k) :
    constructAlignedRowBuffer T false throws data rows cols d s =
      some (.error (progressAt s (positionAddress T data d cols) k (k % 2 ^ 64))) := by
  have hloop : rowLoops T data rows cols d (constructAndCount throws)
      (progressAt s (positionAddress T data d cols) 0 ((0 + 0) % 2 ^ 64)) =
        some (.error (progressAt s (positionAddress T data d cols) k ((0 + k) % 2 ^ 64))) :=
    rowLoops_eq_error h (f := fun p => progressAt s (positionAddress T data d cols) p
      ((0 + p) % 2 ^ 64)) hk
      (fun p hp => constructAndCount_progressAt (hthrows.not_throws p hp))
      (constructAndCount_of_throws hthrows.throws)
  rw [progressAt_start, Nat.zero_add] at hloop
  rw [constructAlignedRowBuffer, if_neg (by simp), hloop]

variable {hw alignment} {c : Call α}

variable (hw T alignment) in
/-- The size of a row rounded up to the alignment, in exact arithmetic. -/
def rowStride (cols : ℕ) : ℕ :=
  roundUp (T.sizeofT * cols) (alignmentInBytes hw (alignment ||| T.alignofT))

/-- The constructor has got a block. -/
structure Allocated (c : Call α) (rows cols d data : ℕ) : Prop where
  rows_pos : 0 < rows
  cols_pos : 0 < cols
  allocate_eq : c.allocate (rows * d) = some data

theorem Allocated.fits (h : Allocated c rows cols (rowStride hw T alignment cols) data) :
    Fits T rows cols (rowStride hw T alignment cols) where
  rows_pos := h.rows_pos
  cols_pos := h.cols_pos
  cols_le := le_roundUp (alignmentInBytes_pos _) _
  mul_le := c.allocate_le _ _ h.allocate_eq

variable (hw T alignment) in
def startOf (c : Call α) (rows cols data : ℕ) : Progress α :=
  ⟨[.acquire (.block c.alloc data (rows * rowStride hw T alignment cols))], c.uninitialized⟩

theorem internalConstructor_of_allocated
    (h : Allocated c rows cols (rowStride hw T alignment cols) data) :
    internalConstructor hw T alignment c rows cols =
      match constructAlignedRowBuffer T c.nothrow c.throws data rows cols
        (rowStride hw T alignment cols) (startOf hw T alignment c rows cols data) with
      | none => none
      | some (.ok s) =>
          some (s.events, .ok ⟨c.alloc, data, rows, cols, rowStride hw T alignment cols⟩)
      | some (.error s) =>
          match destroyConstructed T data rows cols (rowStride hw T alignment cols)
            s.numElementsConstructed with
          | none => none
          | some destruction => some (s.events ++ destruction ++
              [.release (.block c.alloc data (rows * rowStride hw T alignment cols))],
              .error .fromConstruct) := by
  have hmul := h.fits.mul_le
  have hle := h.fits.le
  have hcols := h.fits.cols_le
  rw [ptrdiffMax] at hmul hle
  have hbytes : rows * rowStride hw T alignment cols ≤ sizeMax := by
    rw [sizeMax]
    omega
  have hstride : rowStride hw T alignment cols ≤ sizeMax := by
    rw [sizeMax]
    omega
  have hraw : T.sizeofT * cols ≤ sizeMax := hcols.trans hstride
  have hceil : tryCeili (T.sizeofT * cols) (alignmentInBytes hw (alignment ||| T.alignofT)) =
      ⟨rowStride hw T alignment cols, .none⟩ := by
    rw [tryCeili_eq (alignmentInBytes_pos _)]
    exact checked_of_le hstride
  simp only [internalConstructor, tryMultiplyUnsigned_eq, checked_of_le hraw, hceil,
    checked_of_le hbytes, h.allocate_eq, mod_eq_of_le_sizeMax hbytes]
  rw [if_neg (by simp), if_neg (by simp [h.rows_pos.ne', h.cols_pos.ne'])]
  rfl

/-- No call of `construct` throws: nothing is destroyed, and the block is kept. -/
theorem internalConstructor_of_not_throws
    (h : Allocated c rows cols (rowStride hw T alignment cols) data)
    (hthrows : ∀ p < rows * cols,
      c.throws (positionAddress T data (rowStride hw T alignment cols) cols p) = false) :
    internalConstructor hw T alignment c rows cols =
      some (acquisition c data (rows * rowStride hw T alignment cols)
          (addresses (positionAddress T data (rowStride hw T alignment cols) cols) (rows * cols)),
        .ok ⟨c.alloc, data, rows, cols, rowStride hw T alignment cols⟩) := by
  obtain ⟨n, hn⟩ : ∃ n, constructAlignedRowBuffer T c.nothrow c.throws data rows cols
      (rowStride hw T alignment cols) (startOf hw T alignment c rows cols data) =
        some (.ok (progressAt (startOf hw T alignment c rows cols data)
          (positionAddress T data (rowStride hw T alignment cols) cols) (rows * cols) n)) :=
    constructAlignedRowBuffer_of_not_throws h.fits hthrows
  rw [internalConstructor_of_allocated h, hn]
  rfl

/-- The call of `construct` for position `k` throws: everything is undone. -/
theorem internalConstructor_eq_undone
    (h : Allocated c rows cols (rowStride hw T alignment cols) data)
    (hnothrow : c.nothrow = false) (hk : k < rows * cols)
    (hthrows : ThrowsAt c.throws
      (positionAddress T data (rowStride hw T alignment cols) cols) k) :
    internalConstructor hw T alignment c rows cols =
      undone c data (rows * rowStride hw T alignment cols)
        (addresses (positionAddress T data (rowStride hw T alignment cols) cols) k) := by
  have hloop : constructAlignedRowBuffer T false c.throws data rows cols
      (rowStride hw T alignment cols) (startOf hw T alignment c rows cols data) =
        some (.error (progressAt (startOf hw T alignment c rows cols data)
          (positionAddress T data (rowStride hw T alignment cols) cols) k (k % 2 ^ 64))) :=
    constructAlignedRowBuffer_of_throws h.fits hk hthrows
  have hcount : k % 2 ^ 64 = k := by
    have hpos := T.sizeofT_pos
    have hfits := h.fits.mul_le
    have hcols : rows * cols ≤ rows * rowStride hw T alignment cols :=
      Nat.mul_le_mul_left _ ((Nat.le_mul_of_pos_left cols hpos).trans h.fits.cols_le)
    rw [ptrdiffMax] at hfits
    exact Nat.mod_eq_of_lt (by omega)
  rw [internalConstructor_of_allocated h, hnothrow, hloop, hcount]
  simp only [progressAt]
  rw [destroyConstructed_eq h.fits hk]
  rfl

theorem destructor_eq (h : Allocated c rows cols (rowStride hw T alignment cols) data) :
    destructor T ⟨c.alloc, data, rows, cols, rowStride hw T alignment cols⟩ =
      some (destroyed (addresses (positionAddress T data (rowStride hw T alignment cols) cols)
        (rows * cols)) ++
          [.release (.block c.alloc data (rows * rowStride hw T alignment cols))]) := by
  have hpos : 0 < rows * rowStride hw T alignment cols := Nat.mul_pos h.rows_pos h.fits.pos
  have hdata := c.allocate_ne_nullptr _ _ hpos h.allocate_eq
  rw [destructor, if_pos hdata, destroyAndFree_eq _ h.fits]

/-- Once there is a block: if the call for some position throws, everything is undone; if
nothing throws, the destructor undoes everything. -/
theorem construction_balanced (h : Allocated c rows cols (rowStride hw T alignment cols) data) :
    (c.nothrow = false → ∀ k < rows * cols,
      ThrowsAt c.throws (positionAddress T data (rowStride hw T alignment cols) cols) k →
        RolledBack c data (rows * rowStride hw T alignment cols)
          (positionAddress T data (rowStride hw T alignment cols) cols) k
          (internalConstructor hw T alignment c rows cols)) ∧
    ((∀ p < rows * cols,
        c.throws (positionAddress T data (rowStride hw T alignment cols) cols p) = false) →
      ∃ b, internalConstructor hw T alignment c rows cols =
          some (acquisition c data (rows * rowStride hw T alignment cols) (addresses
            (positionAddress T data (rowStride hw T alignment cols) cols) (rows * cols)),
            .ok b) ∧
        destructor T b = some (destroyed (addresses
          (positionAddress T data (rowStride hw T alignment cols) cols) (rows * cols)) ++
            [.release (.block c.alloc data (rows * rowStride hw T alignment cols))])) := by
  refine ⟨fun hnothrow k hk hthrows => ?_, fun hthrows => ?_⟩
  · rw [internalConstructor_eq_undone h hnothrow hk hthrows]
    exact rolledBack_undone _ _ _ _ _
  · exact ⟨_, internalConstructor_of_not_throws h hthrows, destructor_eq h⟩

/-- Two rows of three elements in 32 bytes; the call for the second element of the second
row throws, or no call does. -/
theorem sampleCall_construction_balanced :
    RolledBack (sampleCall () (· == 4116) 0 (by decide)) 4096 32
      (positionAddress intType 4096 16 3) 4
      (internalConstructor commonHardware intType 16
        (sampleCall () (· == 4116) 0 (by decide)) 2 3) ∧
    ∃ b, internalConstructor commonHardware intType 16
        (sampleCall () (fun _ => false) 0 (by decide)) 2 3 =
          some (acquisition (sampleCall () (fun _ => false) 0 (by decide)) 4096 32
            [4096, 4100, 4104, 4112, 4116, 4120], .ok b) ∧
      destructor intType b = some (destroyed [4096, 4100, 4104, 4112, 4116, 4120] ++
        [.release (.block () 4096 32)]) := by
  have hstride : rowStride commonHardware intType 16 3 = 16 := by decide
  have halloc : ∀ throws, Allocated (sampleCall () throws 0 (by decide)) 2 3
      (rowStride commonHardware intType 16 3) 4096 := by
    intro throws
    rw [hstride]
    exact ⟨by decide, by decide, rfl⟩
  constructor
  · have hthrows := (construction_balanced (halloc (· == 4116))).1 rfl 4 (by decide)
    rw [hstride] at hthrows
    exact hthrows ⟨by decide, by decide⟩
  · have hthrows := (construction_balanced (halloc fun _ => false)).2 fun _ _ => rfl
    rw [hstride] at hthrows
    exact hthrows

end AlignedRowBuffer

end Patton.Buffer
