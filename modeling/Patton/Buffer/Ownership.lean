import Patton.Buffer.AlignedBuffer
import Patton.Buffer.AlignedRowBuffer
import Patton.Library.ObjectHistory

/-!
# Ownership across moves

The two buffers as classes of objects that own a block and the elements in it. A move
constructor leaves the allocator behind, so that a history only gives each block back to
the allocator it is from if moves take place between equal allocators.
-/

namespace Patton.Buffer

open Ledger Memory ObjectHistory

variable {α β : Type*}

/-- The arguments of the constructors: the allocator that the base class makes by default,
an allocator, or sizes together with an allocator, which is default-constructed, too, for the
constructors that do not get one. -/
inductive ConstructorArgs (α κ : Type*)
  | default (defaultAlloc : α)
  | fromAllocator (alloc : α)
  | sized (c : Call α) (size : κ)

/-- A block, with the addresses of the elements in it; there is none if `data` is null. -/
structure Holding (α : Type*) where
  alloc : α
  data : ℕ
  numBytes : ℕ
  addrs : List ℕ

def elements (addrs : List ℕ) : Multiset (Resource α) :=
  (addrs.map Resource.element : List (Resource α))

namespace Holding

def resources (b : Holding α) : Multiset (Resource α) :=
  if b.data = nullptr then 0
  else .block b.alloc b.data b.numBytes ::ₘ elements b.addrs

def releases (b : Holding α) : List (Event α) :=
  if b.data ≠ nullptr then destroyed b.addrs ++ [.release (.block b.alloc b.data b.numBytes)]
  else []

variable {b b' emptied : Holding α}

theorem resources_of_data_eq (h : b.data = nullptr) : b.resources = 0 := if_pos h

theorem resources_of_data_ne (h : b.data ≠ nullptr) :
    b.resources = .block b.alloc b.data b.numBytes ::ₘ elements b.addrs := if_neg h

theorem releases_of_data_eq (h : b.data = nullptr) : b.releases = [] := if_neg (not_not.2 h)

theorem releases_of_data_ne (h : b.data ≠ nullptr) :
    b.releases = destroyed b.addrs ++ [.release (.block b.alloc b.data b.numBytes)] := if_pos h

/-- A block may pass to another buffer if the allocators are equal. -/
theorem resources_add (halloc : b.data ≠ nullptr → b.alloc = b'.alloc) (hdata : b'.data = b.data)
    (hbytes : b'.numBytes = b.numBytes) (haddrs : b'.addrs = b.addrs)
    (hempty : emptied.data = nullptr) : b'.resources + emptied.resources = b.resources := by
  rw [resources_of_data_eq hempty, add_zero, resources, resources, hdata, hbytes, haddrs]
  by_cases h : b.data = nullptr
  · rw [if_pos h, if_pos h]
  · rw [if_neg h, if_neg h, halloc h]

section Events

variable [DecidableEq α] {alloc : α} {data numBytes : ℕ} {addrs : List ℕ}

theorem run_constructed (m : Multiset (Resource α)) (addrs : List ℕ) :
    Ledger.run m (constructed addrs) = some (elements addrs + m) := by
  have hmap : (constructed addrs : List (Event α)) =
      (addrs.map Resource.element).map Ledger.Event.acquire := by
    rw [constructed, List.map_map]
    rfl
  rw [hmap, run_map_acquire, elements]

theorem run_destroyed (m : Multiset (Resource α)) (addrs : List ℕ) :
    Ledger.run (elements addrs + m) (destroyed addrs) = some m := by
  have hmap : (destroyed addrs : List (Event α)) =
      (addrs.map Resource.element).map Ledger.Event.release := by
    rw [destroyed, List.map_map]
    rfl
  rw [hmap, elements, run_map_release]

/-- What a buffer holds is given back. -/
theorem run_releases (b : Holding α) : Ledger.run b.resources b.releases = some 0 := by
  by_cases h : b.data = nullptr
  · rw [resources_of_data_eq h, releases_of_data_eq h, run_nil]
  · have hsum : b.resources = elements b.addrs + {.block b.alloc b.data b.numBytes} := by
      rw [resources_of_data_ne h, ← Multiset.singleton_add, add_comm]
    rw [hsum, releases_of_data_ne h, run_append_of_eq (run_destroyed _ _), ← Multiset.cons_zero,
      run_release, run_nil]

theorem run_acquires (hdata : data ≠ nullptr) :
    Ledger.run 0 (.acquire (.block alloc data numBytes) :: constructed addrs) =
      some (resources ⟨alloc, data, numBytes, addrs⟩) := by
  rw [run_acquire, run_constructed, resources_of_data_ne hdata, Multiset.add_cons, add_zero]

/-- The elements may be destroyed in any order. -/
theorem run_undone {addrs' : List ℕ} (hdata : data ≠ nullptr) (h : addrs.Perm addrs') :
    Ledger.run 0 (.acquire (.block alloc data numBytes) :: constructed addrs ++
      (destroyed addrs' ++ [.release (.block alloc data numBytes)])) = some 0 := by
  have hreleases := run_releases ⟨alloc, data, numBytes, addrs'⟩
  rw [releases_of_data_ne hdata, resources_of_data_ne hdata, elements,
    ← Multiset.coe_eq_coe.2 (h.map _)] at hreleases
  rw [run_append_of_eq (run_acquires hdata), resources_of_data_ne hdata]
  exact hreleases

end Events

end Holding

theorem run_undone [DecidableEq α] {c : Call α} {data numBytes : ℕ} {addrs : List ℕ}
    (hdata : data ≠ nullptr) :
    Ledger.run 0 (acquisition c data numBytes addrs ++ destroyed addrs ++
      [.release (.block c.alloc data numBytes)]) = some 0 := by
  rw [List.append_assoc]
  exact Holding.run_undone hdata (List.Perm.refl addrs)

/-- A constructor acquires what the new object holds, or nothing if it throws. -/
def Constructs [DecidableEq α] (valid : β → Prop) (holding : β → Holding α) (r : Result α β) :
    Prop :=
  (∃ es e, r = some (es, .error e) ∧ Ledger.run 0 es = some 0) ∨
    ∃ es b, r = some (es, .ok b) ∧ valid b ∧ Ledger.run 0 es = some (holding b).resources

theorem Constructs.toOption [DecidableEq α] {valid : β → Prop} {holding : β → Holding α}
    {r : Result α β} (h : Constructs valid holding r) :
    (∃ es, r.map (fun r => (r.1, r.2.toOption)) = some (es, none) ∧ Ledger.run 0 es = some 0) ∨
    ∃ es b m, r.map (fun r => (r.1, r.2.toOption)) = some (es, some b) ∧ valid b ∧
      (∀ t ∈ m, False) ∧ Ledger.run 0 es = some ((holding b).resources + m) := by
  rcases h with ⟨es, e, rfl, hrun⟩ | ⟨es, b, rfl, hvalid, hrun⟩
  · exact .inl ⟨es, rfl, hrun⟩
  · exact .inr ⟨es, b, 0, rfl, hvalid, by simp, by rw [hrun, add_zero]⟩

namespace AlignedBuffer

/-- `aligned_buffer` as a class. The allocator that the base class makes by default may be
another one each time. -/
def objectClass (hw : HardwareSizes) (T : ElementType) (alignment : ℕ) :
    ObjectClass (Resource α) (AlignedBuffer α) (ConstructorArgs α ℕ) α where
  construct
    | .default defaultAlloc => some ([], some ⟨defaultAlloc, nullptr, 0, 0⟩)
    | .fromAllocator alloc => some ([], some ⟨alloc, nullptr, 0, 0⟩)
    | .sized c size => (internalConstructor hw T alignment c size).map fun r => (r.1, r.2.toOption)
  moveConstruct defaultAlloc rhs := some ([], moveConstructor defaultAlloc rhs)
  moveAssign := moveAssignment
  selfMoveAssign := selfMoveAssignment
  destruct := destructor

/-- The size of a buffer which has a block is the size of the block. -/
def Valid (b : AlignedBuffer α) : Prop :=
  b.data ≠ nullptr → 0 < b.bytesPerElement ∧ (b.bytesPerElement : ℤ) ≤ ptrdiffMax ∧
    ((b.size * b.bytesPerElement : ℕ) : ℤ) ≤ ptrdiffMax

/-- What a buffer has to destroy and deallocate. -/
def holding (b : AlignedBuffer α) : Holding α :=
  ⟨b.alloc, b.data, b.size * b.bytesPerElement,
    addresses (elementAddress b.data b.bytesPerElement) b.size⟩

/-- Construction does not throw, or the uninitialised counter does no harm. -/
def ConstructsWell (hw : HardwareSizes) (T : ElementType) (alignment : ℕ) (c : Call α)
    (size : ℕ) : Prop :=
  ∀ data, c.allocate (size * stride hw T alignment) = some data →
    (∀ i < size, c.throws (elementAddress data (stride hw T alignment) i) = false) ∨
    c.nothrow = false ∧ c.uninitialized * stride hw T alignment % 2 ^ 64 = 0

/-- The conditions: constructors that throw do no harm, and a block only moves between
equal allocators. -/
def guard (hw : HardwareSizes) (T : ElementType) (alignment : ℕ) :
    Guard (AlignedBuffer α) (ConstructorArgs α ℕ) α where
  construct
    | .sized c size => ConstructsWell hw T alignment c size
    | _ => True
  moveConstruct defaultAlloc rhs := rhs.data ≠ nullptr → rhs.alloc = defaultAlloc
  moveAssign b rhs := rhs.data ≠ nullptr → rhs.alloc = b.alloc
  selfMoveAssign _ := True

variable {hw : HardwareSizes} {T : ElementType} {alignment : ℕ} {c : Call α} {size data : ℕ}
  {b : AlignedBuffer α}

theorem internalConstructor_cases (hw : HardwareSizes) (T : ElementType) (alignment : ℕ)
    (c : Call α) (size : ℕ) :
    (∃ e, internalConstructor hw T alignment c size = some ([], .error e)) ∨
    (∃ b, internalConstructor hw T alignment c size = some ([], .ok b) ∧ b.data = nullptr) ∨
    ∃ data, Allocated c (stride hw T alignment) size data := by
  simp only [internalConstructor, computeBytesPerElement_eq]
  by_cases hstride : stride hw T alignment ≤ sizeMax
  · rw [if_pos hstride]
    dsimp only
    rcases Nat.eq_zero_or_pos size with rfl | hpos
    · exact .inr (.inl ⟨_, if_pos rfl, rfl⟩)
    rw [if_neg hpos.ne', tryMultiplyUnsigned_eq]
    by_cases hbytes : size * stride hw T alignment ≤ sizeMax
    · rw [checked_of_le hbytes, if_neg (by simp)]
      cases halloc : c.allocate (size * stride hw T alignment) with
      | none => exact .inl ⟨_, rfl⟩
      | some data => exact .inr (.inr ⟨data, hpos, halloc⟩)
    · rw [checked_of_lt (not_le.1 hbytes), if_pos (by simp)]
      exact .inl ⟨_, rfl⟩
  · rw [if_neg hstride]
    exact .inl ⟨_, rfl⟩

theorem Allocated.data_ne (h : Allocated c (stride hw T alignment) size data) : data ≠ nullptr :=
  c.allocate_ne_nullptr _ _ (Nat.mul_pos h.size_pos stride_pos) h.allocate_eq

theorem valid_of_data_eq (h : b.data = nullptr) : b.Valid := fun hne => absurd h hne

theorem destructor_eq_releases (hb : b.Valid) : b.destructor = some b.holding.releases := by
  rw [destructor]
  by_cases hdata : b.data = nullptr
  · rw [if_neg (not_not.2 hdata), Holding.releases_of_data_eq hdata]
  · obtain ⟨hpos, hle, hmul⟩ := hb hdata
    rw [if_pos hdata, destroyAndFree_eq b hpos hle hmul, Holding.releases_of_data_ne hdata]
    rfl

theorem moveAssignment_eq (hb : b.Valid) (rhs : AlignedBuffer α) :
    moveAssignment b rhs = some (b.holding.releases,
      ⟨b.alloc, rhs.data, rhs.size, rhs.bytesPerElement⟩, ⟨rhs.alloc, nullptr, 0, 0⟩) := by
  have hdestructor := destructor_eq_releases hb
  rw [destructor] at hdestructor
  rw [moveAssignment, hdestructor]

theorem constructs_internalConstructor [DecidableEq α] (h : ConstructsWell hw T alignment c size) :
    Constructs Valid holding (internalConstructor hw T alignment c size) := by
  rcases internalConstructor_cases hw T alignment c size with
    ⟨e, he⟩ | ⟨b, hb, hdata⟩ | ⟨data, halloc⟩
  · exact .inl ⟨[], e, he, run_nil _⟩
  · refine .inr ⟨[], b, hb, valid_of_data_eq hdata, ?_⟩
    rw [Holding.resources_of_data_eq hdata, run_nil]
  · by_cases hthrows : ∀ i < size,
        c.throws (elementAddress data (stride hw T alignment) i) = false
    · exact .inr ⟨_, _, internalConstructor_of_not_throws halloc hthrows,
        fun _ => ⟨stride_pos, halloc.le, halloc.mul_le⟩, Holding.run_acquires halloc.data_ne⟩
    · obtain ⟨hnothrow, hmod⟩ := (h data halloc.allocate_eq).resolve_left hthrows
      obtain ⟨k, hk, hat⟩ := exists_throwsAt hthrows
      exact .inl ⟨_, _, internalConstructor_eq_undone halloc hnothrow hk hat hmod,
        run_undone halloc.data_ne⟩

/-- Under the conditions, the special member functions pass on what they own. -/
theorem sound [DecidableEq α] (hw : HardwareSizes) (T : ElementType) (alignment : ℕ) :
    Sound (objectClass hw T alignment) (AlignedBuffer.guard hw T alignment) Valid
      (fun b : AlignedBuffer α => b.holding.resources) (fun _ => False) where
  construct args hargs := by
    cases args with
    | default alloc => exact .inr ⟨[], _, 0, rfl, valid_of_data_eq rfl, by simp, rfl⟩
    | fromAllocator alloc => exact .inr ⟨[], _, 0, rfl, valid_of_data_eq rfl, by simp, rfl⟩
    | sized c size => exact (constructs_internalConstructor hargs).toOption
  moveConstruct defaultAlloc rhs hrhs hg := by
    have hmoved : (moveConstructor defaultAlloc rhs).1.holding.resources +
        (moveConstructor defaultAlloc rhs).2.holding.resources = rhs.holding.resources :=
      Holding.resources_add hg rfl rfl rfl rfl
    exact ⟨[], _, _, rfl, hrhs, valid_of_data_eq rfl, congrArg some hmoved.symm⟩
  moveAssign b rhs hb hrhs hg := by
    have hmoved : Holding.resources (holding ⟨b.alloc, rhs.data, rhs.size, rhs.bytesPerElement⟩) +
        Holding.resources (holding ⟨rhs.alloc, nullptr, 0, 0⟩) = rhs.holding.resources :=
      Holding.resources_add hg rfl rfl rfl rfl
    refine ⟨_, _, _, moveAssignment_eq hb rhs, hrhs, valid_of_data_eq rfl, ?_⟩
    rw [hmoved, run_add _ (Holding.run_releases b.holding), zero_add]
  selfMoveAssign b hb _ := ⟨[], b, rfl, hb, run_nil _⟩
  destruct b hb := ⟨_, destructor_eq_releases hb, Holding.run_releases b.holding⟩

end AlignedBuffer

namespace AlignedRowBuffer

/-- `aligned_row_buffer` as a class; its sizes are rows and columns. -/
def objectClass (hw : HardwareSizes) (T : ElementType) (alignment : ℕ) (lenient : Bool) :
    ObjectClass (Resource α) (AlignedRowBuffer α) (ConstructorArgs α (ℕ × ℕ)) α where
  construct
    | .default defaultAlloc => some ([], some ⟨defaultAlloc, nullptr, 0, 0, 0⟩)
    | .fromAllocator alloc => some ([], some ⟨alloc, nullptr, 0, 0, 0⟩)
    | .sized c (rows, cols) =>
        (internalConstructor hw T alignment c rows cols).map fun r => (r.1, r.2.toOption)
  moveConstruct defaultAlloc rhs := some ([], moveConstructor defaultAlloc rhs)
  moveAssign := moveAssignment T lenient
  selfMoveAssign := selfMoveAssignment lenient
  destruct := destructor T

/-- The rows and columns of a buffer which has a block fit the block. -/
def Valid (T : ElementType) (b : AlignedRowBuffer α) : Prop :=
  b.data ≠ nullptr → Fits T b.rows b.cols b.bytesPerRow

/-- What a buffer has to destroy and deallocate. -/
def holding (T : ElementType) (b : AlignedRowBuffer α) : Holding α :=
  ⟨b.alloc, b.data, b.rows * b.bytesPerRow,
    addresses (positionAddress T b.data b.bytesPerRow b.cols) (b.rows * b.cols)⟩

/-- Construction does not throw, or the constructor is prepared for it. -/
def ConstructsWell (hw : HardwareSizes) (T : ElementType) (alignment : ℕ) (c : Call α)
    (rows cols : ℕ) : Prop :=
  ∀ data, c.allocate (rows * rowStride hw T alignment cols) = some data →
    (∀ p < rows * cols,
      c.throws (positionAddress T data (rowStride hw T alignment cols) cols p) = false) ∨
    c.nothrow = false

/-- The conditions: constructors that throw have not been declared `noexcept`, a block only
moves between equal allocators, and the missing `return` does no harm. -/
def guard (hw : HardwareSizes) (T : ElementType) (alignment : ℕ) (lenient : Bool) :
    Guard (AlignedRowBuffer α) (ConstructorArgs α (ℕ × ℕ)) α where
  construct
    | .sized c (rows, cols) => ConstructsWell hw T alignment c rows cols
    | _ => True
  moveConstruct defaultAlloc rhs := rhs.data ≠ nullptr → rhs.alloc = defaultAlloc
  moveAssign b rhs := lenient = true ∧ (rhs.data ≠ nullptr → rhs.alloc = b.alloc)
  selfMoveAssign _ := lenient = true

variable {hw : HardwareSizes} {T : ElementType} {alignment : ℕ} {lenient : Bool} {c : Call α}
  {rows cols data : ℕ} {b : AlignedRowBuffer α}

theorem internalConstructor_cases (hw : HardwareSizes) (T : ElementType) (alignment : ℕ)
    (c : Call α) (rows cols : ℕ) :
    (∃ e, internalConstructor hw T alignment c rows cols = some ([], .error e)) ∨
    (∃ b, internalConstructor hw T alignment c rows cols = some ([], .ok b) ∧ b.data = nullptr) ∨
    ∃ data, Allocated c rows cols (rowStride hw T alignment cols) data := by
  simp only [internalConstructor, tryMultiplyUnsigned_eq]
  by_cases hraw : T.sizeofT * cols ≤ sizeMax
  · rw [checked_of_le hraw, tryCeili_eq (alignmentInBytes_pos _)]
    by_cases hstride : rowStride hw T alignment cols ≤ sizeMax
    · rw [rowStride] at hstride
      rw [checked_of_le hstride]
      dsimp only
      by_cases hbytes : rows * rowStride hw T alignment cols ≤ sizeMax
      · rw [rowStride] at hbytes
        rw [checked_of_le hbytes, if_neg (by simp)]
        by_cases hempty : rows = 0 ∨ cols = 0
        · exact .inr (.inl ⟨_, if_pos hempty, rfl⟩)
        rw [if_neg hempty]
        obtain ⟨hrows, hcols⟩ := not_or.1 hempty
        cases halloc : c.allocate (rows * rowStride hw T alignment cols) with
        | none =>
            rw [rowStride] at halloc
            rw [halloc]
            exact .inl ⟨_, rfl⟩
        | some data =>
            exact .inr (.inr ⟨data, Nat.pos_of_ne_zero hrows, Nat.pos_of_ne_zero hcols, halloc⟩)
      · rw [rowStride] at hbytes
        rw [checked_of_lt (not_le.1 hbytes), if_pos (by simp)]
        exact .inl ⟨_, rfl⟩
    · rw [rowStride] at hstride
      rw [checked_of_lt (not_le.1 hstride), if_pos (by simp)]
      exact .inl ⟨_, rfl⟩
  · rw [checked_of_lt (not_le.1 hraw), if_pos (by simp)]
    exact .inl ⟨_, rfl⟩

theorem Allocated.data_ne (h : Allocated c rows cols (rowStride hw T alignment cols) data) :
    data ≠ nullptr :=
  c.allocate_ne_nullptr _ _ (Nat.mul_pos h.rows_pos h.fits.pos) h.allocate_eq

theorem valid_of_data_eq (h : b.data = nullptr) : b.Valid T := fun hne => absurd h hne

theorem destructor_eq_releases (hb : b.Valid T) :
    destructor T b = some (b.holding T).releases := by
  rw [destructor]
  by_cases hdata : b.data = nullptr
  · rw [if_neg (not_not.2 hdata), Holding.releases_of_data_eq hdata]
  · rw [if_pos hdata, destroyAndFree_eq b (hb hdata), Holding.releases_of_data_ne hdata]
    rfl

theorem moveAssignmentStatements_eq (hb : b.Valid T) (rhs : AlignedRowBuffer α) :
    moveAssignmentStatements T b rhs = some ((b.holding T).releases,
      ⟨b.alloc, rhs.data, rhs.rows, rhs.cols, rhs.bytesPerRow⟩,
      ⟨rhs.alloc, nullptr, 0, 0, 0⟩) := by
  have hdestructor := destructor_eq_releases hb
  rw [destructor] at hdestructor
  rw [moveAssignmentStatements, hdestructor]

theorem constructs_internalConstructor [DecidableEq α]
    (h : ConstructsWell hw T alignment c rows cols) :
    Constructs (Valid T) (holding T) (internalConstructor hw T alignment c rows cols) := by
  rcases internalConstructor_cases hw T alignment c rows cols with
    ⟨e, he⟩ | ⟨b, hb, hdata⟩ | ⟨data, halloc⟩
  · exact .inl ⟨[], e, he, run_nil _⟩
  · refine .inr ⟨[], b, hb, valid_of_data_eq hdata, ?_⟩
    rw [Holding.resources_of_data_eq hdata, run_nil]
  · by_cases hthrows : ∀ p < rows * cols,
        c.throws (positionAddress T data (rowStride hw T alignment cols) cols p) = false
    · exact .inr ⟨_, _, internalConstructor_of_not_throws halloc hthrows, fun _ => halloc.fits,
        Holding.run_acquires halloc.data_ne⟩
    · have hnothrow := (h data halloc.allocate_eq).resolve_left hthrows
      obtain ⟨k, hk, hat⟩ := exists_throwsAt hthrows
      exact .inl ⟨_, _, internalConstructor_eq_undone halloc hnothrow hk hat,
        run_undone halloc.data_ne⟩

/-- Under the conditions, the special member functions pass on what they own. -/
theorem sound [DecidableEq α] (hw : HardwareSizes) (T : ElementType) (alignment : ℕ)
    (lenient : Bool) :
    Sound (objectClass hw T alignment lenient) (AlignedRowBuffer.guard hw T alignment lenient)
      (Valid T) (fun b : AlignedRowBuffer α => (b.holding T).resources) (fun _ => False) where
  construct args hargs := by
    cases args with
    | default alloc => exact .inr ⟨[], _, 0, rfl, valid_of_data_eq rfl, by simp, rfl⟩
    | fromAllocator alloc => exact .inr ⟨[], _, 0, rfl, valid_of_data_eq rfl, by simp, rfl⟩
    | sized c size => exact (constructs_internalConstructor hargs).toOption
  moveConstruct defaultAlloc rhs hrhs hg := by
    have hmoved : ((moveConstructor defaultAlloc rhs).1.holding T).resources +
        ((moveConstructor defaultAlloc rhs).2.holding T).resources = (rhs.holding T).resources :=
      Holding.resources_add hg rfl rfl rfl rfl
    exact ⟨[], _, _, rfl, hrhs, valid_of_data_eq rfl, congrArg some hmoved.symm⟩
  moveAssign b rhs hb hrhs hg := by
    have hmoved : Holding.resources (holding T ⟨b.alloc, rhs.data, rhs.rows, rhs.cols,
        rhs.bytesPerRow⟩) + Holding.resources (holding T ⟨rhs.alloc, nullptr, 0, 0, 0⟩) =
          (rhs.holding T).resources := Holding.resources_add hg.2 rfl rfl rfl rfl
    have hreturns : (objectClass hw T alignment lenient).moveAssign b rhs =
        moveAssignmentStatements T b rhs := if_pos hg.1
    refine ⟨_, _, _, hreturns.trans (moveAssignmentStatements_eq hb rhs), hrhs,
      valid_of_data_eq rfl, ?_⟩
    rw [hmoved, run_add _ (Holding.run_releases (b.holding T)), zero_add]
  selfMoveAssign b hb hg := ⟨[], b, if_pos hg, hb, run_nil _⟩
  destruct b hb := ⟨_, destructor_eq_releases hb, Holding.run_releases (b.holding T)⟩

end AlignedRowBuffer

/-- In every history which meets the conditions, no behaviour is undefined and the books are
kept: what the living objects hold is what has been acquired and not been released, and
once all objects are destroyed, each block and each element has been released as often as
it has been acquired. -/
theorem ownership [DecidableEq α] (hw : HardwareSizes) (T : ElementType) (alignment : ℕ)
    (lenient : Bool) :
    (∀ s : State (Resource α) (AlignedBuffer α), s.Initial → ∀ ops,
      Admissible (AlignedBuffer.objectClass hw T alignment)
          (AlignedBuffer.guard hw T alignment) s ops →
        ∃ s', run (AlignedBuffer.objectClass hw T alignment) s ops = some s' ∧
          Settled (fun b => b.holding.resources) s') ∧
    (∀ s : State (Resource α) (AlignedRowBuffer α), s.Initial → ∀ ops,
      Admissible (AlignedRowBuffer.objectClass hw T alignment lenient)
          (AlignedRowBuffer.guard hw T alignment lenient) s ops →
        ∃ s', run (AlignedRowBuffer.objectClass hw T alignment lenient) s ops = some s' ∧
          Settled (fun b => (b.holding T).resources) s') :=
  ⟨fun _ hs _ hops => (AlignedBuffer.sound hw T alignment).settled hs hops,
    fun _ hs _ hops => (AlignedRowBuffer.sound hw T alignment lenient).settled hs hops⟩

/-- No objects, for a class whose default-constructed allocators are instance 0. -/
def noObjects {β : Type*} (b : β) : State (Resource ℕ) β := ⟨∅, fun _ => b, []⟩

theorem noObjects_initial {β : Type*} (b : β) : (noObjects b).Initial := ⟨rfl, rfl⟩

/-- A buffer is constructed from sizes, and the allocator that is default-constructed for it is
instance `alloc`. It is moved to another one, for which instance 0 is default-constructed. Both
are destroyed. -/
def moveAndDestroy {κ : Type*} (alloc : ℕ) (size : κ) : List (Op (ConstructorArgs ℕ κ) ℕ) :=
  [.construct 0 (.sized (sampleCall alloc (fun _ => false) 0 (by decide)) size),
    .moveConstruct 1 0 0, .destruct 0, .destruct 1]

theorem moveAndDestroy_ownership :
    (∃ s', run (AlignedBuffer.objectClass commonHardware intType 4) (noObjects ⟨0, nullptr, 0, 0⟩)
        (moveAndDestroy 0 1) = some s' ∧
      Settled (fun b : AlignedBuffer ℕ => b.holding.resources) s') ∧
    ∃ s', run (AlignedRowBuffer.objectClass commonHardware intType 4 false)
        (noObjects ⟨0, nullptr, 0, 0, 0⟩) (moveAndDestroy 0 (1, 1)) = some s' ∧
      Settled (fun b : AlignedRowBuffer ℕ => (b.holding intType).resources) s' := by
  constructor
  · refine (ownership commonHardware intType 4 false).1 _ (noObjects_initial _) _ ?_
    refine admissible_cons rfl (by decide) (fun _ _ => .inl fun _ _ => rfl) ?_
    refine admissible_cons rfl (by decide) (fun _ => rfl) ?_
    exact admissible_cons rfl (by decide) trivial (admissible_cons rfl (by decide) trivial trivial)
  · refine (ownership commonHardware intType 4 false).2 _ (noObjects_initial _) _ ?_
    refine admissible_cons rfl (by decide) (fun _ _ => .inl fun _ _ => rfl) ?_
    refine admissible_cons rfl (by decide) (fun _ => rfl) ?_
    exact admissible_cons rfl (by decide) trivial (admissible_cons rfl (by decide) trivial trivial)

/-- A block of instance 1 is deallocated by instance 0. -/
theorem not_balanced_moveAndDestroy :
    (Admissible (AlignedBuffer.objectClass commonHardware intType 4) .unconditional
        (noObjects ⟨0, nullptr, 0, 0⟩) (moveAndDestroy 1 1) ∧
      ∃ s', run (AlignedBuffer.objectClass commonHardware intType 4)
          (noObjects ⟨0, nullptr, 0, 0⟩) (moveAndDestroy 1 1) = some s' ∧
        s'.live = ∅ ∧ released s'.events (.block 1 4096 4) = 0 ∧
        acquired s'.events (.block 1 4096 4) = 1 ∧ released s'.events (.block 0 4096 4) = 1) ∧
    (Admissible (AlignedRowBuffer.objectClass commonHardware intType 4 false) .unconditional
        (noObjects ⟨0, nullptr, 0, 0, 0⟩) (moveAndDestroy 1 (1, 1)) ∧
      ∃ s', run (AlignedRowBuffer.objectClass commonHardware intType 4 false)
          (noObjects ⟨0, nullptr, 0, 0, 0⟩) (moveAndDestroy 1 (1, 1)) = some s' ∧
        s'.live = ∅ ∧ released s'.events (.block 1 4096 4) = 0 ∧
        acquired s'.events (.block 1 4096 4) = 1 ∧ released s'.events (.block 0 4096 4) = 1) := by
  refine ⟨⟨?_, _, rfl, rfl, rfl, rfl, rfl⟩, ?_, _, rfl, rfl, rfl, rfl, rfl⟩
  · refine admissible_cons rfl (by decide) trivial ?_
    refine admissible_cons rfl (by decide) trivial ?_
    exact admissible_cons rfl (by decide) trivial (admissible_cons rfl (by decide) trivial trivial)
  · refine admissible_cons rfl (by decide) trivial ?_
    refine admissible_cons rfl (by decide) trivial ?_
    exact admissible_cons rfl (by decide) trivial (admissible_cons rfl (by decide) trivial trivial)

end Patton.Buffer
