import Patton.Buffer.Layout
import Patton.Library.RandomAccess

/-!
# The iterators of the buffers

An iterator keeps an unsigned index, which wraps around when it is moved. Still no algorithm
makes a difference between the iterators of a buffer and positions that are any integers, as
long as it only compares what lies in the buffer and looks at elements that exist.
-/

namespace Patton.Buffer

open Memory RandomAccess

/-- The difference of two indices, converted to `std::ptrdiff_t` -/
def subIndex (index index' : ℕ) : ℤ := toPtrdiff (((index : ℤ) - index') % 2 ^ 64).toNat

/-- An index after `++`, `--`, `+=` or `-=` -/
def moveIndex (index : ℕ) : Move → ℕ
  | .inc => addIndex index 1
  | .dec => addIndex index (-1)
  | .add d => addIndex index d
  | .sub d => addIndex index (-d)

namespace AlignedBufferIterator

variable (it rhs : AlignedBufferIterator)

/-- `operator ++`, `--`, `+=` and `-=` -/
def move (m : Move) : AlignedBufferIterator := { it with index := moveIndex it.index m }

/-- `operator ==`, which expects iterators of one buffer -/
def equal : Option Bool := if it.data = rhs.data then some (it.index = rhs.index) else none

/-- `operator <`, from `operator <=>` -/
def less : Option Bool := if it.data = rhs.data then some (it.index < rhs.index) else none

def difference : ℤ := subIndex it.index rhs.index

end AlignedBufferIterator

def AlignedBuffer.end_ {α : Type*} (b : AlignedBuffer α) : AlignedBufferIterator :=
  ⟨b.data, b.size, b.bytesPerElement⟩

/-- The iterators of `aligned_buffer`, which show the address of an element -/
def alignedBufferIterators : Cursors AlignedBufferIterator ℕ where
  move m it := it.move m
  equal := AlignedBufferIterator.equal
  less := AlignedBufferIterator.less
  difference it rhs := some (it.difference rhs)
  deref it := some it.deref
  subscript it d := some (it.get d)

namespace AlignedRowBufferIterator

variable (it rhs : AlignedRowBufferIterator)

@[inherit_doc AlignedBufferIterator.move]
def move (m : Move) : AlignedRowBufferIterator := { it with index := moveIndex it.index m }

@[inherit_doc AlignedBufferIterator.equal]
def equal : Option Bool := if it.data = rhs.data then some (it.index = rhs.index) else none

@[inherit_doc AlignedBufferIterator.less]
def less : Option Bool := if it.data = rhs.data then some (it.index < rhs.index) else none

def difference : ℤ := subIndex it.index rhs.index

end AlignedRowBufferIterator

def AlignedRowBuffer.end_ {α : Type*} (b : AlignedRowBuffer α) : AlignedRowBufferIterator :=
  ⟨b.data, b.rows, b.cols, b.bytesPerRow⟩

/-- The iterators of `aligned_row_buffer`, which show the data and the size of a row -/
def alignedRowBufferIterators : Cursors AlignedRowBufferIterator (ℕ × ℕ) where
  move m it := it.move m
  equal := AlignedRowBufferIterator.equal
  less := AlignedRowBufferIterator.less
  difference it rhs := some (it.difference rhs)
  deref it := some it.deref
  subscript it d := some (it.get d)

/-- An index is a position modulo the number of values of `std::size_t`. -/
def Tracks (i : ℤ) (index : ℕ) : Prop := (index : ℤ) = i % 2 ^ 64

variable {i i' d : ℤ} {index index' size : ℕ}

theorem Tracks.addIndex (h : Tracks i index) (d : ℤ) : Tracks (i + d) (addIndex index d) := by
  rw [Tracks] at *
  rw [Buffer.addIndex]
  omega

theorem Tracks.move (h : Tracks i index) (m : Move) :
    Tracks (i + m.amount) (moveIndex index m) := by
  cases m <;> exact h.addIndex _

/-- In the buffer, the index is the position. -/
theorem Tracks.eq (h : Tracks i index) (hsize : (size : ℤ) ≤ ptrdiffMax)
    (hi : 0 ≤ i ∧ i ≤ size) : (index : ℤ) = i := by
  rw [Tracks] at h
  rw [ptrdiffMax] at hsize
  omega

theorem subIndex_eq (hsize : (size : ℤ) ≤ ptrdiffMax) (h : index ≤ size) (h' : index' ≤ size) :
    subIndex index index' = (index : ℤ) - index' := by
  rw [ptrdiffMax] at hsize
  rw [subIndex, toPtrdiff]
  split <;> omega

theorem subIndex_le (index index' : ℕ) : subIndex index index' ≤ ptrdiffMax := by
  rw [subIndex, toPtrdiff, ptrdiffMax]
  split <;> omega

theorem Tracks.subIndex (h : Tracks i index) (h' : Tracks i' index')
    (hsize : (size : ℤ) ≤ ptrdiffMax) (hi : (0 ≤ i ∧ i ≤ size) ∧ 0 ≤ i' ∧ i' ≤ size) :
    subIndex index index' = i - i' := by
  have heq := h.eq hsize hi.1
  have heq' := h'.eq hsize hi.2
  rw [subIndex_eq hsize (by omega) (by omega), heq, heq']

/-- An element is where its index says. -/
theorem Tracks.mul_mod {data stride : ℕ} (h : Tracks i index)
    (hsize : (size : ℤ) ≤ ptrdiffMax) (hmul : ((size * stride : ℕ) : ℤ) ≤ ptrdiffMax)
    (hi : 0 ≤ i ∧ i < size) :
    data + index * stride % 2 ^ 64 = data + i.toNat * stride := by
  have heq := h.eq hsize ⟨hi.1, hi.2.le⟩
  obtain rfl : index = i.toNat := by omega
  have hle : i.toNat * stride ≤ size * stride := Nat.mul_le_mul_right _ (by omega)
  rw [mod_eq_of_le_ptrdiffMax (by omega)]

/-- The iterator at a position of a buffer -/
structure AlignedBufferIterator.At (data d : ℕ) (i : ℤ) (it : AlignedBufferIterator) : Prop where
  data_eq : it.data = data
  bytesPerElement_eq : it.bytesPerElement = d
  tracks : Tracks i it.index

@[inherit_doc AlignedBufferIterator.At]
structure AlignedRowBufferIterator.At (data cols d : ℕ) (i : ℤ) (it : AlignedRowBufferIterator) :
    Prop where
  data_eq : it.data = data
  cols_eq : it.cols = cols
  bytesPerRow_eq : it.bytesPerRow = d
  tracks : Tracks i it.index

theorem alignedBufferIterators_represent {data d size : ℕ} (hsize : (size : ℤ) ≤ ptrdiffMax)
    (hmul : ((size * d : ℕ) : ℤ) ≤ ptrdiffMax) :
    Represents (positions size (elementAddress data d)) alignedBufferIterators
      (AlignedBufferIterator.At data d) where
  move := fun m i it h => ⟨h.data_eq, h.bytesPerElement_eq, h.tracks.move m⟩
  equal := by
    intro i it i' it' b h h' hb
    obtain ⟨hi, rfl⟩ := positions_equal_eq_some.1 hb
    have heq := h.tracks.eq hsize hi.1
    have heq' := h'.tracks.eq hsize hi.2
    refine (if_pos (h.data_eq.trans h'.data_eq.symm)).trans (congrArg some ?_)
    exact decide_eq_decide.2 (by omega)
  less := by
    intro i it i' it' b h h' hb
    obtain ⟨hi, rfl⟩ := positions_less_eq_some.1 hb
    have heq := h.tracks.eq hsize hi.1
    have heq' := h'.tracks.eq hsize hi.2
    refine (if_pos (h.data_eq.trans h'.data_eq.symm)).trans (congrArg some ?_)
    exact decide_eq_decide.2 (by omega)
  difference := by
    intro i it i' it' e h h' he
    obtain ⟨hi, rfl⟩ := positions_difference_eq_some.1 he
    exact congrArg some (h.tracks.subIndex h'.tracks hsize hi)
  deref := by
    intro i it e h he
    obtain ⟨hi, rfl⟩ := positions_deref_eq_some.1 he
    refine congrArg some ?_
    rw [AlignedBufferIterator.deref, h.data_eq, h.bytesPerElement_eq]
    exact h.tracks.mul_mod hsize hmul hi
  subscript := by
    intro i it k e h he
    obtain ⟨hi, rfl⟩ := positions_subscript_eq_some.1 he
    refine congrArg some ?_
    rw [AlignedBufferIterator.get, h.data_eq, h.bytesPerElement_eq]
    exact (h.tracks.addIndex k).mul_mod hsize hmul hi

theorem alignedRowBufferIterators_represent {data cols d rows : ℕ}
    (hrows : (rows : ℤ) ≤ ptrdiffMax) (hmul : ((rows * d : ℕ) : ℤ) ≤ ptrdiffMax) :
    Represents (positions rows fun i => (data + i * d, cols)) alignedRowBufferIterators
      (AlignedRowBufferIterator.At data cols d) where
  move := fun m i it h => ⟨h.data_eq, h.cols_eq, h.bytesPerRow_eq, h.tracks.move m⟩
  equal := by
    intro i it i' it' b h h' hb
    obtain ⟨hi, rfl⟩ := positions_equal_eq_some.1 hb
    have heq := h.tracks.eq hrows hi.1
    have heq' := h'.tracks.eq hrows hi.2
    refine (if_pos (h.data_eq.trans h'.data_eq.symm)).trans (congrArg some ?_)
    exact decide_eq_decide.2 (by omega)
  less := by
    intro i it i' it' b h h' hb
    obtain ⟨hi, rfl⟩ := positions_less_eq_some.1 hb
    have heq := h.tracks.eq hrows hi.1
    have heq' := h'.tracks.eq hrows hi.2
    refine (if_pos (h.data_eq.trans h'.data_eq.symm)).trans (congrArg some ?_)
    exact decide_eq_decide.2 (by omega)
  difference := by
    intro i it i' it' e h h' he
    obtain ⟨hi, rfl⟩ := positions_difference_eq_some.1 he
    exact congrArg some (h.tracks.subIndex h'.tracks hrows hi)
  deref := by
    intro i it e h he
    obtain ⟨hi, rfl⟩ := positions_deref_eq_some.1 he
    refine congrArg some (Prod.ext ?_ h.cols_eq)
    simp only [AlignedRowBufferIterator.deref, h.data_eq, h.bytesPerRow_eq]
    exact h.tracks.mul_mod hrows hmul hi
  subscript := by
    intro i it k e h he
    obtain ⟨hi, rfl⟩ := positions_subscript_eq_some.1 he
    refine congrArg some (Prod.ext ?_ h.cols_eq)
    simp only [AlignedRowBufferIterator.get, h.data_eq, h.bytesPerRow_eq]
    exact (h.tracks.addIndex k).mul_mod hrows hmul hi

variable {α : Type*} {hw : HardwareSizes} {T : ElementType} {alignment : ℕ} {c : Call α}
  {es : List (Event α)}

/-- What an algorithm makes of the positions of a sequence, it makes of the iterators from
`first` to `last`, too; and a loop from `first` to `last` visits the elements in order. -/
structure Iterates {I ε : Type} (iterators : Cursors I ε) (first last : I) (size : ℕ)
    (elem : ℕ → ε) : Prop where
  eval : ∀ (β : Type) (p : Algorithm ε β) (a : β),
    (positions size elem).eval p (bounds 0 (size : ℤ)) = some a →
      iterators.eval p (bounds first last) = some a
  forEach : iterators.eval (forEach (size + 1) []) (bounds first last) =
    some (some ((List.range size).map elem))

theorem Iterates.of_represents {I ε : Type} {iterators : Cursors I ε} {first last : I}
    {elem : ℕ → ε} {R : ℤ → I → Prop} (h : Represents (positions size elem) iterators R)
    (hfirst : R 0 first) (hlast : R size last) : Iterates iterators first last size elem := by
  have hbounds : ∀ r, R (bounds 0 (size : ℤ) r) (bounds first last r) :=
    update_represents (fun _ => hfirst) hlast 1
  exact ⟨fun β p a ha => h.eval p hbounds ha, h.eval _ hbounds (eval_forEach size elem)⟩

theorem tracks_natCast (hsize : (size : ℤ) ≤ ptrdiffMax) : Tracks (size : ℤ) size := by
  rw [ptrdiffMax] at hsize
  rw [Tracks]
  omega

namespace AlignedBuffer

/-- The sizes of a buffer are values of `std::ptrdiff_t`. -/
structure Sized (b : AlignedBuffer α) : Prop where
  size_le : (b.size : ℤ) ≤ ptrdiffMax
  mul_le : ((b.size * b.bytesPerElement : ℕ) : ℤ) ≤ ptrdiffMax

theorem sized_of_size_eq {b : AlignedBuffer α} (h : b.size = 0) : b.Sized := by
  refine ⟨?_, ?_⟩ <;> rw [h, ptrdiffMax] <;> omega

/-- A block that has been allocated is not larger than that. -/
theorem sized_of_internalConstructor {b : AlignedBuffer α}
    (h : internalConstructor hw T alignment c size = some (es, .ok b)) : b.Sized := by
  simp only [internalConstructor, computeBytesPerElement_eq, tryMultiplyUnsigned_eq] at h
  split at h
  · cases h
  · next d hd =>
      split at hd
      · cases hd
        by_cases hzero : size = 0
        · rw [if_pos hzero] at h
          cases h
          exact sized_of_size_eq hzero
        by_cases hbytes : size * stride hw T alignment ≤ sizeMax
        · rw [if_neg hzero, checked_of_le hbytes, if_neg (by simp)] at h
          split at h
          · cases h
          · next data hdata =>
              have hmul := c.allocate_le _ _ hdata
              have hle : (size : ℤ) ≤ ptrdiffMax := le_of_mul_le stride_pos hmul
              split at h
              · cases h
              · cases h
                exact ⟨hle, hmul⟩
              · split at h <;> cases h
        · rw [if_neg hzero, checked_of_lt (not_le.1 hbytes), if_pos (by simp)] at h
          cases h
      · cases hd

variable (hw T alignment) in
/-- The buffers that there can be: constructed ones, and what moves make of them. -/
inductive Obtained : AlignedBuffer α → Prop
  | default (alloc : α) : Obtained ⟨alloc, nullptr, 0, 0⟩
  | construct {c : Call α} {size : ℕ} {es : List (Event α)} {b : AlignedBuffer α}
      (h : internalConstructor hw T alignment c size = some (es, .ok b)) : Obtained b
  | moveConstruct {b : AlignedBuffer α} (h : Obtained b) (alloc : α) :
      Obtained (moveConstructor alloc b).1
  | movedFrom {b : AlignedBuffer α} (h : Obtained b) (alloc : α) :
      Obtained (moveConstructor alloc b).2
  | moveAssign {es : List (Event α)} {b rhs b' rhs' : AlignedBuffer α} (hrhs : Obtained rhs)
      (h : moveAssignment b rhs = some (es, b', rhs')) : Obtained b'
  | assignedFrom {es : List (Event α)} {b rhs b' rhs' : AlignedBuffer α} (hrhs : Obtained rhs)
      (h : moveAssignment b rhs = some (es, b', rhs')) : Obtained rhs'

theorem Sized.moveAssignment {b rhs b' rhs' : AlignedBuffer α} (hrhs : rhs.Sized)
    (h : moveAssignment b rhs = some (es, b', rhs')) : b'.Sized ∧ rhs'.Sized := by
  rw [AlignedBuffer.moveAssignment] at h
  split at h
  · cases h
  · cases h
    exact ⟨⟨hrhs.size_le, hrhs.mul_le⟩, sized_of_size_eq rfl⟩

theorem Obtained.sized {b : AlignedBuffer α} (h : Obtained hw T alignment b) : b.Sized := by
  induction h with
  | default alloc => exact sized_of_size_eq rfl
  | construct h => exact sized_of_internalConstructor h
  | moveConstruct _ alloc ih => exact ⟨ih.size_le, ih.mul_le⟩
  | movedFrom _ alloc _ => exact sized_of_size_eq rfl
  | moveAssign _ h ih => exact (ih.moveAssignment h).1
  | assignedFrom _ h ih => exact (ih.moveAssignment h).2

theorem Sized.iterates {b : AlignedBuffer α} (h : b.Sized) :
    Iterates alignedBufferIterators b.begin b.end_ b.size
      (elementAddress b.data b.bytesPerElement) :=
  .of_represents (alignedBufferIterators_represent h.size_le h.mul_le) ⟨rfl, rfl, rfl⟩
    ⟨rfl, rfl, tracks_natCast h.size_le⟩

end AlignedBuffer

namespace AlignedRowBuffer

/-- The size of a buffer with columns is a value of `std::ptrdiff_t`. Rows without columns do
not need a block, so that there may be more of them. -/
structure Sized (b : AlignedRowBuffer α) : Prop where
  rows_le : b.cols ≠ 0 → (b.rows : ℤ) ≤ ptrdiffMax
  mul_le : ((b.rows * b.bytesPerRow : ℕ) : ℤ) ≤ ptrdiffMax

theorem sized_of_rows_eq {b : AlignedRowBuffer α} (h : b.rows = 0) : b.Sized := by
  refine ⟨fun _ => ?_, ?_⟩ <;> rw [h, ptrdiffMax] <;> omega

theorem sized_of_internalConstructor {b : AlignedRowBuffer α} {rows cols : ℕ}
    (h : internalConstructor hw T alignment c rows cols = some (es, .ok b)) : b.Sized := by
  have hceil : ∀ x, tryCeili x (alignmentInBytes hw (alignment ||| T.alignofT)) = checked _ :=
    tryCeili_eq (alignmentInBytes_pos _)
  simp only [internalConstructor, tryMultiplyUnsigned_eq, hceil] at h
  split at h
  · cases h
  · next hec =>
      simp only [ne_eq, not_or, not_not] at hec
      split at h
      · next hzero =>
          cases h
          rcases hzero with rfl | rfl
          · exact sized_of_rows_eq rfl
          · refine ⟨fun hcols => absurd rfl hcols, ?_⟩
            rw [ptrdiffMax]
            simp [checked, sizeMax]
      · next hzero =>
          split at h
          · cases h
          · next data hdata =>
              have hmul := c.allocate_le _ _ hdata
              rw [checked_of_le (checked_ec.1 hec.2.2)] at hmul
              split at h
              · cases h
              · cases h
                refine ⟨fun _ => le_of_mul_le ?_ hmul, hmul⟩
                -- a row that is not empty takes up room
                rw [checked_of_le (checked_ec.1 hec.2.1), checked_of_le (checked_ec.1 hec.1)]
                exact RoundUp.roundUp_pos (alignmentInBytes_pos _)
                  (Nat.mul_pos T.sizeofT_pos (Nat.pos_of_ne_zero (not_or.1 hzero).2))
              · split at h <;> cases h

variable (hw T alignment) in
@[inherit_doc AlignedBuffer.Obtained]
inductive Obtained : AlignedRowBuffer α → Prop
  | default (alloc : α) : Obtained ⟨alloc, nullptr, 0, 0, 0⟩
  | construct {c : Call α} {rows cols : ℕ} {es : List (Event α)} {b : AlignedRowBuffer α}
      (h : internalConstructor hw T alignment c rows cols = some (es, .ok b)) : Obtained b
  | moveConstruct {b : AlignedRowBuffer α} (h : Obtained b) (alloc : α) :
      Obtained (moveConstructor alloc b).1
  | movedFrom {b : AlignedRowBuffer α} (h : Obtained b) (alloc : α) :
      Obtained (moveConstructor alloc b).2
  | moveAssign {es : List (Event α)} {b rhs b' rhs' : AlignedRowBuffer α} (hrhs : Obtained rhs)
      (h : moveAssignmentStatements T b rhs = some (es, b', rhs')) : Obtained b'
  | assignedFrom {es : List (Event α)} {b rhs b' rhs' : AlignedRowBuffer α} (hrhs : Obtained rhs)
      (h : moveAssignmentStatements T b rhs = some (es, b', rhs')) : Obtained rhs'

theorem Sized.moveAssignmentStatements {b rhs b' rhs' : AlignedRowBuffer α} (hrhs : rhs.Sized)
    (h : moveAssignmentStatements T b rhs = some (es, b', rhs')) : b'.Sized ∧ rhs'.Sized := by
  rw [AlignedRowBuffer.moveAssignmentStatements] at h
  split at h
  · cases h
  · cases h
    exact ⟨⟨hrhs.rows_le, hrhs.mul_le⟩, sized_of_rows_eq rfl⟩

theorem Obtained.sized {b : AlignedRowBuffer α} (h : Obtained hw T alignment b) : b.Sized := by
  induction h with
  | default alloc => exact sized_of_rows_eq rfl
  | construct h => exact sized_of_internalConstructor h
  | moveConstruct _ alloc ih => exact ⟨ih.rows_le, ih.mul_le⟩
  | movedFrom _ alloc _ => exact sized_of_rows_eq rfl
  | moveAssign _ h ih => exact (ih.moveAssignmentStatements h).1
  | assignedFrom _ h ih => exact (ih.moveAssignmentStatements h).2

/-- The iterators are as good as positions if and only if each difference of them is a value
of `std::ptrdiff_t`. -/
theorem Sized.iterates_iff {b : AlignedRowBuffer α} (h : b.Sized) :
    Iterates alignedRowBufferIterators b.begin b.end_ b.rows
      (fun i => (b.data + i * b.bytesPerRow, b.cols)) ↔ (b.rows : ℤ) ≤ ptrdiffMax := by
  refine ⟨fun hiterates => ?_, fun hrows => ?_⟩
  · have hrow : (positions b.rows fun i => (b.data + i * b.bytesPerRow, b.cols)).eval
        (.difference 1 0 .ret) (bounds 0 (b.rows : ℤ)) = some (b.rows : ℤ) := by
      simp [Cursors.eval, positions, bounds]
    have hend := hiterates.eval ℤ (.difference 1 0 .ret) b.rows hrow
    have hdifference : subIndex b.rows 0 = b.rows := Option.some.inj hend
    rw [← hdifference]
    exact subIndex_le b.rows 0
  · exact .of_represents (alignedRowBufferIterators_represent hrows h.mul_le)
      ⟨rfl, rfl, rfl, rfl⟩ ⟨rfl, rfl, rfl, tracks_natCast hrows⟩

end AlignedRowBuffer

/-- From `begin` to `end`, the iterators of a buffer are as good as positions. The exception
are rows without columns if there are more of them than `std::ptrdiff_t` can count. -/
theorem buffer_iterators :
    (∀ b : AlignedBuffer α, AlignedBuffer.Obtained hw T alignment b →
      Iterates alignedBufferIterators b.begin b.end_ b.size
        (elementAddress b.data b.bytesPerElement)) ∧
    ∀ b : AlignedRowBuffer α, AlignedRowBuffer.Obtained hw T alignment b →
      (Iterates alignedRowBufferIterators b.begin b.end_ b.rows
        (fun i => (b.data + i * b.bytesPerRow, b.cols)) ↔ (b.rows : ℤ) ≤ ptrdiffMax) ∧
      (b.cols ≠ 0 → (b.rows : ℤ) ≤ ptrdiffMax) :=
  ⟨fun _ h => h.sized.iterates, fun _ h => ⟨h.sized.iterates_iff, h.sized.rows_le⟩⟩

/-- A loop over three elements of 4 bytes with an alignment of 16, in a buffer that has been
moved, one over two rows of three elements, and too many rows without columns -/
theorem sampleCall_buffer_iterators :
    alignedBufferIterators.eval (forEach 4 [])
        (bounds (AlignedBufferIterator.mk 4096 0 16) ⟨4096, 3, 16⟩) =
      some (some [4096, 4112, 4128]) ∧
    alignedRowBufferIterators.eval (forEach 3 [])
        (bounds (AlignedRowBufferIterator.mk 4096 0 3 16) ⟨4096, 2, 3, 16⟩) =
      some (some [(4096, 3), (4112, 3)]) ∧
    ¬ Iterates alignedRowBufferIterators ⟨nullptr, 0, 0, 0⟩ ⟨nullptr, 2 ^ 63, 0, 0⟩ (2 ^ 63)
      (fun _ => (nullptr, 0)) := by
  have hconstruct : AlignedBuffer.internalConstructor commonHardware intType 16
      (sampleCall () (fun _ => false) 0 (by decide)) 3 = some (_, .ok ⟨(), 4096, 3, 16⟩) := rfl
  have hrows : AlignedRowBuffer.internalConstructor commonHardware intType 16
      (sampleCall () (fun _ => false) 0 (by decide)) 2 3 =
        some (_, .ok ⟨(), 4096, 2, 3, 16⟩) := rfl
  have hempty : AlignedRowBuffer.internalConstructor commonHardware intType 16
      (sampleCall () (fun _ => false) 0 (by decide)) (2 ^ 63) 0 =
        some (_, .ok ⟨(), nullptr, 2 ^ 63, 0, 0⟩) := rfl
  refine ⟨?_, ?_, ?_⟩
  · exact (buffer_iterators.1 _
      ((AlignedBuffer.Obtained.construct hconstruct).moveConstruct ())).forEach
  · obtain ⟨hiff, hle⟩ := buffer_iterators.2 _ (AlignedRowBuffer.Obtained.construct hrows)
    exact (hiff.2 (hle (by decide))).forEach
  · obtain ⟨hiff, _⟩ := buffer_iterators.2 _ (AlignedRowBuffer.Obtained.construct hempty)
    exact fun h => absurd (hiff.1 h) (by decide)

end Patton.Buffer
