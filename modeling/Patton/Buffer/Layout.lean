import Patton.Buffer.AlignedBuffer
import Patton.Buffer.AlignedRowBuffer

/-!
# The layout of the buffers

The constructors, the loops, the accessors and the iterators of both buffers agree on
where an element is, and the elements have room in their block.
-/

namespace Patton.Buffer

open Memory RoundUp AlignedAllocatorAdaptor

variable {α : Type*} {hw : HardwareSizes} {T : ElementType} {alignment : ℕ} {c : Call α}

/-- The `m` elements of `sizeofT` bytes lie in their block, and they do not overlap. -/
structure LaidOut (sizeofT data numBytes m : ℕ) (addr : ℕ → ℕ) : Prop where
  subset : ∀ i < m, area (addr i) sizeofT ⊆ area data numBytes
  disjoint : ∀ i < m, ∀ j < m, i ≠ j → Disjoint (area (addr i) sizeofT) (area (addr j) sizeofT)

/-- It is enough that each element ends before the next one. -/
theorem LaidOut.of_le {sizeofT data numBytes m : ℕ} {addr : ℕ → ℕ}
    (hfirst : ∀ i < m, data ≤ addr i) (hlast : ∀ i < m, addr i + sizeofT ≤ data + numBytes)
    (hnext : ∀ i j, i < j → j < m → addr i + sizeofT ≤ addr j) :
    LaidOut sizeofT data numBytes m addr where
  subset i hi := Set.Ico_subset_Ico (hfirst i hi) (hlast i hi)
  disjoint i hi j hj hij := by
    rcases Nat.lt_or_gt_of_ne hij with hlt | hlt
    · have hle := hnext i j hlt hj
      exact Set.Ico_disjoint_Ico.2 (by omega)
    · have hle := hnext j i hlt hi
      exact Set.Ico_disjoint_Ico.2 (by omega)

variable (hw T alignment) in
/-- The alignment of the elements, or of the rows. -/
def bufferAlignment : ℕ := alignmentInBytes hw (alignment ||| T.alignofT)

namespace AlignedBuffer

variable {size data i : ℕ}

/-- What the constructor makes of sizes that do not fit, and only of them. -/
theorem badAlloc_iff :
    (∃ es, internalConstructor hw T alignment c size = some (es, .error .badAlloc)) ↔
      sizeMax < stride hw T alignment ∨ sizeMax < size * stride hw T alignment := by
  simp only [internalConstructor, computeBytesPerElement_eq]
  by_cases hstride : stride hw T alignment ≤ sizeMax
  · simp only [if_pos hstride, tryMultiplyUnsigned_eq]
    rcases Nat.eq_zero_or_pos size with rfl | hpos
    · simp [hstride]
    by_cases hbytes : size * stride hw T alignment ≤ sizeMax
    · have hnot : ¬ (sizeMax < stride hw T alignment ∨
          sizeMax < size * stride hw T alignment) := by omega
      refine iff_of_false (fun hbad => ?_) hnot
      obtain ⟨es, hes⟩ := hbad
      rw [if_neg hpos.ne', checked_of_le hbytes, if_neg (by simp)] at hes
      split at hes
      · cases hes
      · split at hes
        · cases hes
        · cases hes
        · split at hes <;> cases hes
    · rw [checked_of_lt (not_le.1 hbytes), if_neg hpos.ne', if_pos (by simp)]
      simp [not_le.1 hbytes]
  · simp [hstride, not_le.1 hstride]

theorem laidOut (data size : ℕ) :
    LaidOut T.sizeofT data (size * stride hw T alignment) size
      (elementAddress data (stride hw T alignment)) := by
  have hle : T.sizeofT ≤ stride hw T alignment := le_roundUp (alignmentInBytes_pos _) _
  have hnext : ∀ i j, i < j → elementAddress data (stride hw T alignment) i + T.sizeofT ≤
      elementAddress data (stride hw T alignment) j := by
    intro i j hij
    have hmul : (i + 1) * stride hw T alignment ≤ j * stride hw T alignment :=
      Nat.mul_le_mul_right _ hij
    rw [Nat.succ_mul] at hmul
    rw [elementAddress, elementAddress]
    omega
  exact LaidOut.of_le (fun i _ => Nat.le_add_right _ _) (fun i hi => hnext i size hi)
    (fun i j hij _ => hnext i j hij)

theorem dvd_elementAddress (hdata : bufferAlignment hw T alignment ∣ data) (i : ℕ) :
    bufferAlignment hw T alignment ∣ elementAddress data (stride hw T alignment) i :=
  hdata.add ((dvd_roundUp _ _).mul_left i)

theorem accessors_eq (b : AlignedBuffer α) (hpos : 0 < b.bytesPerElement)
    (hmul : ((b.size * b.bytesPerElement : ℕ) : ℤ) ≤ ptrdiffMax) (hi : i < b.size) :
    b.get i = some (elementAddress b.data b.bytesPerElement i) ∧
    (b.begin.add (toPtrdiff i)).deref = elementAddress b.data b.bytesPerElement i ∧
    b.begin.get (toPtrdiff i) = elementAddress b.data b.bytesPerElement i := by
  have hle : i * b.bytesPerElement ≤ b.size * b.bytesPerElement := Nat.mul_le_mul_right _ hi.le
  have hoff : ((i * b.bytesPerElement : ℕ) : ℤ) ≤ ptrdiffMax := by omega
  have hindex := addIndex_zero (le_of_mul_le hpos hoff)
  refine ⟨?_, ?_, ?_⟩
  · rw [get, if_pos hi, mod_eq_of_le_ptrdiffMax hoff, elementAddress]
  · simp only [AlignedBufferIterator.add, AlignedBufferIterator.deref, begin]
    rw [hindex, mod_eq_of_le_ptrdiffMax hoff, elementAddress]
  · simp only [AlignedBufferIterator.get, begin]
    rw [hindex, mod_eq_of_le_ptrdiffMax hoff, elementAddress]

end AlignedBuffer

namespace AlignedRowBuffer

variable {rows cols data i j p d : ℕ}

/-- After an overflow the constructor goes on with zeros, but it checks all the results. -/
theorem badAlloc_iff :
    (∃ es, internalConstructor hw T alignment c rows cols = some (es, .error .badAlloc)) ↔
      sizeMax < T.sizeofT * cols ∨ sizeMax < rowStride hw T alignment cols ∨
        sizeMax < rows * rowStride hw T alignment cols := by
  have hpos := @alignmentInBytes_pos hw (alignment ||| T.alignofT)
  simp only [internalConstructor, tryMultiplyUnsigned_eq]
  by_cases hraw : T.sizeofT * cols ≤ sizeMax
  · have hceil : tryCeili (T.sizeofT * cols) (alignmentInBytes hw (alignment ||| T.alignofT)) =
        checked (rowStride hw T alignment cols) := tryCeili_eq hpos _
    rw [checked_of_le hraw, hceil]
    by_cases hstride : rowStride hw T alignment cols ≤ sizeMax
    · rw [checked_of_le hstride]
      by_cases hbytes : rows * rowStride hw T alignment cols ≤ sizeMax
      · rw [checked_of_le hbytes, if_neg (by simp)]
        refine iff_of_false (fun hbad => ?_) (by omega)
        obtain ⟨es, hes⟩ := hbad
        split at hes
        · cases hes
        · split at hes
          · cases hes
          · split at hes
            · cases hes
            · cases hes
            · split at hes <;> cases hes
      · rw [checked_of_lt (not_le.1 hbytes), if_pos (by simp)]
        simp [not_le.1 hbytes]
    · rw [checked_of_lt (not_le.1 hstride), if_pos (by simp)]
      simp [not_le.1 hstride]
  · rw [checked_of_lt (not_le.1 hraw), if_pos (by simp)]
    simp [not_le.1 hraw]

theorem positionAddress_eq (hj : j < cols) (d : ℕ) :
    positionAddress T data d cols (i * cols + j) = data + i * d + j * T.sizeofT := by
  have hpos : 0 < cols := by omega
  rw [positionAddress, Nat.add_comm (i * cols), Nat.add_mul_div_right _ _ hpos,
    Nat.div_eq_of_lt hj, Nat.zero_add, Nat.add_mul_mod_self_right, Nat.mod_eq_of_lt hj]

/-- An element ends before the next one, in its row or in a later one. -/
theorem positionAddress_add_le {q : ℕ} (h : Fits T rows cols d) (hpq : p < q) :
    positionAddress T data d cols p + T.sizeofT ≤ positionAddress T data d cols q := by
  have hp := Nat.mod_lt p h.cols_pos
  have hcolumn := h.column_le hp
  rw [positionAddress, positionAddress]
  rcases Nat.lt_or_eq_of_le (Nat.div_le_div_right (c := cols) hpq.le) with hrow | hrow
  · have hblock : (p / cols + 1) * d ≤ q / cols * d := Nat.mul_le_mul_right _ hrow
    rw [Nat.succ_mul] at hblock
    omega
  · have hlt : p % cols < q % cols := by
      have hpdiv := Nat.div_add_mod p cols
      have hqdiv := Nat.div_add_mod q cols
      rw [hrow] at hpdiv
      omega
    have hmul : (p % cols + 1) * T.sizeofT ≤ q % cols * T.sizeofT := Nat.mul_le_mul_right _ hlt
    rw [Nat.succ_mul] at hmul
    rw [hrow]
    omega

theorem laidOut (h : Fits T rows cols d) (data : ℕ) :
    LaidOut T.sizeofT data (rows * d) (rows * cols) (positionAddress T data d cols) := by
  refine LaidOut.of_le (fun p _ => ?_) (fun p hp => ?_) (fun p q hpq _ =>
    positionAddress_add_le h hpq)
  · rw [positionAddress, Nat.add_assoc]
    exact Nat.le_add_right _ _
  · have hoff := h.offset_le ((Nat.div_lt_iff_lt_mul h.cols_pos).2 hp) (Nat.mod_lt p h.cols_pos)
    rw [positionAddress]
    omega

theorem dvd_rowAddress (hdata : bufferAlignment hw T alignment ∣ data) (i : ℕ) :
    bufferAlignment hw T alignment ∣ data + i * rowStride hw T alignment cols :=
  hdata.add ((dvd_roundUp _ _).mul_left i)

theorem accessors_eq (b : AlignedRowBuffer α) (hpos : 0 < b.bytesPerRow)
    (hmul : ((b.rows * b.bytesPerRow : ℕ) : ℤ) ≤ ptrdiffMax) (hi : i < b.rows) :
    b.get i = some (b.data + i * b.bytesPerRow, b.cols) ∧
    (b.begin.add (toPtrdiff i)).deref = (b.data + i * b.bytesPerRow, b.cols) ∧
    b.begin.get (toPtrdiff i) = (b.data + i * b.bytesPerRow, b.cols) := by
  have hle : i * b.bytesPerRow ≤ b.rows * b.bytesPerRow := Nat.mul_le_mul_right _ hi.le
  have hoff : ((i * b.bytesPerRow : ℕ) : ℤ) ≤ ptrdiffMax := by omega
  have hindex := addIndex_zero (le_of_mul_le hpos hoff)
  refine ⟨?_, ?_, ?_⟩
  · rw [get, if_pos hi, mod_eq_of_le_ptrdiffMax hoff]
  · simp only [AlignedRowBufferIterator.add, AlignedRowBufferIterator.deref, begin]
    rw [hindex, mod_eq_of_le_ptrdiffMax hoff]
  · simp only [AlignedRowBufferIterator.get, begin]
    rw [hindex, mod_eq_of_le_ptrdiffMax hoff]

end AlignedRowBuffer

/-- The layout of an `aligned_buffer` with `size` elements at a distance of `d` bytes:
which sizes are rejected, and for a block that the allocator returns, where the elements
are, that construction and destruction visit just them, and that the accessors agree. -/
structure AlignedBufferLayout (hw : HardwareSizes) (T : ElementType) (alignment : ℕ) (c : Call α)
    (size d : ℕ) : Prop where
  badAlloc_iff : (∃ es, AlignedBuffer.internalConstructor hw T alignment c size =
    some (es, .error .badAlloc)) ↔ sizeMax < d ∨ sizeMax < size * d
  aligned : ∀ data, c.allocate (size * d) = some data →
    ∀ i < size, bufferAlignment hw T alignment ∣ elementAddress data d i
  laidOut : ∀ data, LaidOut T.sizeofT data (size * d) size (elementAddress data d)
  visited : ∀ data, 0 < size → c.allocate (size * d) = some data →
    (∀ i < size, c.throws (elementAddress data d i) = false) →
    ∃ b : AlignedBuffer α,
      AlignedBuffer.internalConstructor hw T alignment c size =
        some (acquisition c data (size * d) (addresses (elementAddress data d) size), .ok b) ∧
      b.destroyAndFree = some (destroyed (addresses (elementAddress data d) size) ++
        [.release (.block c.alloc data (size * d))]) ∧
      ∀ i < size, b.get i = some (elementAddress data d i) ∧
        (b.begin.add (toPtrdiff i)).deref = elementAddress data d i ∧
        b.begin.get (toPtrdiff i) = elementAddress data d i

/-- The layout of an `aligned_row_buffer` with rows at a distance of `d` bytes. -/
structure AlignedRowBufferLayout (hw : HardwareSizes) (T : ElementType) (alignment : ℕ) (c : Call α)
    (rows cols d : ℕ) : Prop where
  badAlloc_iff : (∃ es, AlignedRowBuffer.internalConstructor hw T alignment c rows cols =
    some (es, .error .badAlloc)) ↔
      sizeMax < T.sizeofT * cols ∨ sizeMax < d ∨ sizeMax < rows * d
  aligned : ∀ data, c.allocate (rows * d) = some data →
    ∀ i < rows, bufferAlignment hw T alignment ∣ data + i * d
  contiguous : ∀ data, ∀ i < rows, ∀ j < cols,
    AlignedRowBuffer.positionAddress T data d cols (i * cols + j) =
      data + i * d + j * T.sizeofT
  laidOut : ∀ data, 0 < rows → 0 < cols → c.allocate (rows * d) = some data →
    LaidOut T.sizeofT data (rows * d) (rows * cols)
      (AlignedRowBuffer.positionAddress T data d cols)
  visited : ∀ data, 0 < rows → 0 < cols → c.allocate (rows * d) = some data →
    (∀ p < rows * cols,
      c.throws (AlignedRowBuffer.positionAddress T data d cols p) = false) →
    ∃ b : AlignedRowBuffer α,
      AlignedRowBuffer.internalConstructor hw T alignment c rows cols =
        some (acquisition c data (rows * d) (addresses
          (AlignedRowBuffer.positionAddress T data d cols) (rows * cols)), .ok b) ∧
      b.destroyAndFree T = some (destroyed (addresses
          (AlignedRowBuffer.positionAddress T data d cols) (rows * cols)) ++
        [.release (.block c.alloc data (rows * d))]) ∧
      ∀ i < rows, b.get i = some (data + i * d, cols) ∧
        (b.begin.add (toPtrdiff i)).deref = (data + i * d, cols) ∧
        b.begin.get (toPtrdiff i) = (data + i * d, cols)

theorem alignedBufferLayout
    (halign : ∀ n p, c.allocate n = some p → bufferAlignment hw T alignment ∣ p) (size : ℕ) :
    AlignedBufferLayout hw T alignment c size (AlignedBuffer.stride hw T alignment) where
  badAlloc_iff := AlignedBuffer.badAlloc_iff
  aligned data hdata i _ := AlignedBuffer.dvd_elementAddress (halign _ _ hdata) i
  laidOut data := AlignedBuffer.laidOut data size
  visited data hsize hdata hthrows := by
    have halloc : AlignedBuffer.Allocated c (AlignedBuffer.stride hw T alignment) size data :=
      ⟨hsize, hdata⟩
    refine ⟨_, AlignedBuffer.internalConstructor_of_not_throws halloc hthrows,
      AlignedBuffer.destroyAndFree_eq _ AlignedBuffer.stride_pos halloc.le halloc.mul_le,
      fun i hi => ?_⟩
    exact AlignedBuffer.accessors_eq ⟨c.alloc, data, size, AlignedBuffer.stride hw T alignment⟩
      AlignedBuffer.stride_pos halloc.mul_le hi

theorem alignedRowBufferLayout
    (halign : ∀ n p, c.allocate n = some p → bufferAlignment hw T alignment ∣ p)
    (rows cols : ℕ) :
    AlignedRowBufferLayout hw T alignment c rows cols
      (AlignedRowBuffer.rowStride hw T alignment cols) where
  badAlloc_iff := AlignedRowBuffer.badAlloc_iff
  aligned data hdata i _ := AlignedRowBuffer.dvd_rowAddress (halign _ _ hdata) i
  contiguous data i _ j hj := AlignedRowBuffer.positionAddress_eq hj _
  laidOut data hrows hcols hdata := by
    have halloc : AlignedRowBuffer.Allocated c rows cols
        (AlignedRowBuffer.rowStride hw T alignment cols) data := ⟨hrows, hcols, hdata⟩
    exact AlignedRowBuffer.laidOut halloc.fits data
  visited data hrows hcols hdata hthrows := by
    have halloc : AlignedRowBuffer.Allocated c rows cols
        (AlignedRowBuffer.rowStride hw T alignment cols) data := ⟨hrows, hcols, hdata⟩
    refine ⟨_, AlignedRowBuffer.internalConstructor_of_not_throws halloc hthrows,
      AlignedRowBuffer.destroyAndFree_eq _ halloc.fits, fun i hi => ?_⟩
    exact AlignedRowBuffer.accessors_eq
      ⟨c.alloc, data, rows, cols, AlignedRowBuffer.rowStride hw T alignment cols⟩
      halloc.fits.pos halloc.fits.mul_le hi

/-- Both buffers reject exactly the sizes that do not fit, and lay out the others. -/
theorem buffer_layout
    (halign : ∀ n p, c.allocate n = some p → bufferAlignment hw T alignment ∣ p) :
    (∀ size, AlignedBufferLayout hw T alignment c size (AlignedBuffer.stride hw T alignment)) ∧
    ∀ rows cols, AlignedRowBufferLayout hw T alignment c rows cols
      (AlignedRowBuffer.rowStride hw T alignment cols) :=
  ⟨alignedBufferLayout halign, alignedRowBufferLayout halign⟩

theorem sampleCall_buffer_layout :
    AlignedBufferLayout commonHardware intType 16 (sampleCall () (fun _ => false) 0 (by decide)) 5
      (AlignedBuffer.stride commonHardware intType 16) ∧
    AlignedRowBufferLayout commonHardware intType 16
      (sampleCall () (fun _ => false) 0 (by decide)) 2 3
      (AlignedRowBuffer.rowStride commonHardware intType 16 3) := by
  have halign : ∀ n p, (sampleCall () (fun _ => false) 0 (by decide)).allocate n = some p →
      bufferAlignment commonHardware intType 16 ∣ p := by
    intro n p hp
    simp only [sampleCall] at hp
    split at hp
    · cases hp
      decide
    · cases hp
  exact ⟨(buffer_layout halign).1 5, (buffer_layout halign).2 2 3⟩

end Patton.Buffer
