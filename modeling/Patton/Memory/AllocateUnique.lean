import Patton.Buffer.Ownership

/-!
# Objects and arrays of an allocator

A block is allocated, and one object or the elements of an array are constructed in it.
What has been done before an exception is rolled back by the destructor of a transaction.
An `allocator_deleter` destroys the elements and deallocates the block.
-/

namespace Patton.Memory

open Buffer ForLoop
open Ledger hiding Event

variable {α : Type*}

/-- `transaction_t`, or `no_op_transaction_t` if the rollback is not enabled -/
structure Transaction where
  enableRollback : Bool
  done : Bool

namespace Transaction

/-- `make_transaction` -/
def make (enableRollback : Bool) : Transaction := ⟨enableRollback, false⟩

def commit (t : Transaction) : Transaction := { t with done := true }

/-- The destructor: what the rollback function does, if it is called. -/
def destructor {ε : Type*} (t : Transaction) (rollbackFunc : List ε) : List ε :=
  if t.enableRollback = true ∧ t.done = false then rollbackFunc else []

variable {ε : Type*} {b : Bool} {rollbackFunc : List ε}

@[simp] theorem destructor_commit (t : Transaction) (rollbackFunc : List ε) :
    t.commit.destructor rollbackFunc = [] := if_neg (by simp [commit])

@[simp] theorem destructor_make_true (rollbackFunc : List ε) :
    (make true).destructor rollbackFunc = rollbackFunc := if_pos ⟨rfl, rfl⟩

end Transaction

/-- `allocate`: a block with one object -/
def allocate (c : Allocation α) : Result α ℕ :=
  match c.allocate 1 with
  | none => some ([], .error .fromAllocate)
  | some ptr =>
      let events := [.acquire (.block c.alloc ptr 1)]
      let transaction := Transaction.make (!c.nothrow)
      let rollbackFunc := [.release (.block c.alloc ptr 1)]
      if c.throws ptr then
        some (events ++ transaction.destructor rollbackFunc, .error .fromConstruct)
      else
        some (events ++ [.acquire (.element ptr)] ++ transaction.commit.destructor rollbackFunc,
          .ok ptr)

/-- The events so far, and the loop variable `i`, of which the rollback function holds a
reference. -/
structure ArrayProgress (α : Type*) where
  events : List (Event α)
  i : ℤ

/-- The call of `construct` for the element `ptr[i]`, and then `++i`. -/
def constructNext (T : ElementType) (throws : ℕ → Bool) (ptr : ℕ) (i : ℤ) (s : ArrayProgress α) :
    Option (Except (ArrayProgress α) (ArrayProgress α)) :=
  let addr := byteAddress ptr (i * T.sizeofT)
  if throws addr then some (.error ⟨s.events, i⟩)
  else some (.ok ⟨s.events ++ [.acquire (.element addr)], i + 1⟩)

/-- The loop `for (std::ptrdiff_t j = i - 1; j >= 0; --j)` of the rollback function. -/
def destroyBackwards (T : ElementType) (ptr : ℕ) : ℕ → List (Event α)
  | 0 => []
  | j + 1 => .release (.element (byteAddress ptr (j * T.sizeofT))) :: destroyBackwards T ptr j

/-- `allocate_array_impl`, in its two versions -/
def allocateArrayImpl (T : ElementType) (isNothrowDefaultConstructible : Bool) (c : Allocation α)
    (size : ℕ) : Result α ℕ :=
  match c.allocate size with
  | none => some ([], .error .fromAllocate)
  | some ptr =>
      let loop := ptrdiffLoop 1 (toPtrdiff size) (constructNext T c.throws ptr)
        ⟨[.acquire (.block c.alloc ptr size)], 0⟩
      if isNothrowDefaultConstructible then
        match loop with
        | none => none
        | some (.ok s) => some (s.events, .ok ptr)
        | some (.error s) => some (s.events, .error .fromConstruct)
      else
        let transaction := Transaction.make true
        let rollbackFunc := fun i : ℤ =>
          destroyBackwards T ptr i.toNat ++ [.release (.block c.alloc ptr size)]
        match loop with
        | none => none
        | some (.ok s) =>
            some (s.events ++ transaction.commit.destructor (rollbackFunc s.i), .ok ptr)
        | some (.error s) =>
            some (s.events ++ transaction.destructor (rollbackFunc s.i), .error .fromConstruct)

/-- `allocate_array`; the size may be a run-time value or a constant. -/
def allocateArray (T : ElementType) (c : Allocation α) (size : ℕ) : Result α ℕ :=
  allocateArrayImpl T c.nothrow c size

/-- `allocator_deleter<T, A>`, `allocator_deleter<T[], A>` and `allocator_deleter<T[N], A>` -/
inductive AllocatorDeleter (α : Type*)
  | object (alloc : α)
  | array (alloc : α) (size : ℕ)
  | fixedArray (alloc : α) (n : ℕ)

/-- What the deleters of arrays have in common. -/
def deleteArray (T : ElementType) (alloc : α) (size ptr : ℕ) : Option (List (Event α)) :=
  match ptrdiffLoop 1 (toPtrdiff size) (fun i => destroy (byteAddress ptr (i * T.sizeofT))) [] with
  | some (.ok events) => some (events ++ [.release (.block alloc ptr size)])
  | _ => none

/-- `operator ()` -/
def AllocatorDeleter.call (T : ElementType) : AllocatorDeleter α → ℕ → Option (List (Event α))
  | .object alloc, ptr => some [.release (.element ptr), .release (.block alloc ptr 1)]
  | .array alloc size, ptr => deleteArray T alloc size ptr
  | .fixedArray alloc n, ptr => deleteArray T alloc n ptr

variable {T : ElementType} {c : Allocation α} {ptr size n k : ℕ} {alloc : α}

def elementsAt (T : ElementType) (ptr k : ℕ) : List ℕ :=
  addresses (elementAddress ptr T.sizeofT) k

theorem elementsAt_succ (T : ElementType) (ptr k : ℕ) :
    elementsAt T ptr (k + 1) = elementsAt T ptr k ++ [elementAddress ptr T.sizeofT k] :=
  addresses_succ _ k

theorem byteAddress_mul_sizeofT (T : ElementType) (ptr k : ℕ) :
    byteAddress ptr (k * T.sizeofT) = elementAddress ptr T.sizeofT k := by
  rw [← Nat.cast_mul, byteAddress_natCast, elementAddress]

/-- The rollback runs from the last element that has been constructed to the first one. -/
theorem destroyBackwards_eq (T : ElementType) (ptr k : ℕ) :
    (destroyBackwards T ptr k : List (Event α)) = destroyed (elementsAt T ptr k).reverse := by
  induction k with
  | zero => rfl
  | succ k ih =>
      rw [destroyBackwards, byteAddress_mul_sizeofT, ih, elementsAt_succ, List.reverse_append]
      rfl

theorem ptrdiffLoop_array {σ : Type*} {body : ℤ → σ → Option (Except σ σ)} {s : σ}
    (h : (n : ℤ) ≤ ptrdiffMax) :
    ptrdiffLoop 1 (toPtrdiff n) body s = iterations body (1 : ℕ) 0 n s := by
  have hloop : ptrdiffLoop (1 : ℕ) ((n * 1 : ℕ) : ℤ) body s = iterations body (1 : ℕ) 0 n s :=
    ptrdiffLoop_eq Nat.one_pos ((Nat.mul_one n).symm ▸ h)
  rw [Nat.mul_one] at hloop
  rw [toPtrdiff_of_le h, ← hloop, Nat.cast_one]

/-- The state when `k` elements have been constructed. -/
def arrayProgressAt (T : ElementType) (alloc : α) (size ptr k : ℕ) : ArrayProgress α :=
  ⟨.acquire (.block alloc ptr size) :: constructed (elementsAt T ptr k), k⟩

theorem iteration_index (k : ℕ) : (0 : ℤ) + k * (1 : ℕ) = k := by simp

theorem constructNext_of_not_throws
    (h : c.throws (elementAddress ptr T.sizeofT k) = false) :
    constructNext T c.throws ptr (0 + k * (1 : ℕ)) (arrayProgressAt T alloc size ptr k) =
      some (.ok (arrayProgressAt T alloc size ptr (k + 1))) := by
  simp only [constructNext, iteration_index, byteAddress_mul_sizeofT, h, arrayProgressAt]
  rw [elementsAt_succ, constructed_append, Nat.cast_succ]
  rfl

theorem constructNext_of_throws (h : c.throws (elementAddress ptr T.sizeofT k) = true) :
    constructNext T c.throws ptr (0 + k * (1 : ℕ)) (arrayProgressAt T alloc size ptr k) =
      some (.error (arrayProgressAt T alloc size ptr k)) := by
  simp only [constructNext, iteration_index, byteAddress_mul_sizeofT, h, arrayProgressAt]
  rfl

theorem constructLoop_of_not_throws (hn : (n : ℤ) ≤ ptrdiffMax)
    (h : ∀ i < n, c.throws (elementAddress ptr T.sizeofT i) = false) :
    ptrdiffLoop 1 (toPtrdiff n) (constructNext T c.throws ptr)
        (arrayProgressAt T alloc size ptr 0) =
      some (.ok (arrayProgressAt T alloc size ptr n)) := by
  rw [ptrdiffLoop_array hn]
  exact iterations_eq_ok (f := arrayProgressAt T alloc size ptr) fun k hk =>
    constructNext_of_not_throws (h k hk)

theorem constructLoop_of_throws (hn : (n : ℤ) ≤ ptrdiffMax) (hk : k < n)
    (h : ThrowsAt c.throws (elementAddress ptr T.sizeofT) k) :
    ptrdiffLoop 1 (toPtrdiff n) (constructNext T c.throws ptr)
        (arrayProgressAt T alloc size ptr 0) =
      some (.error (arrayProgressAt T alloc size ptr k)) := by
  rw [ptrdiffLoop_array hn]
  exact iterations_eq_error (f := arrayProgressAt T alloc size ptr) hk
    (fun j hj => constructNext_of_not_throws (h.not_throws j hj)) (constructNext_of_throws h.throws)

/-- If no call of `construct` throws, all the elements are constructed. -/
theorem allocateArray_of_not_throws (halloc : c.allocate n = some ptr)
    (h : ∀ i < n, c.throws (elementAddress ptr T.sizeofT i) = false) :
    allocateArray T c n =
      some (.acquire (.block c.alloc ptr n) :: constructed (elementsAt T ptr n), .ok ptr) := by
  have hloop : ptrdiffLoop 1 (toPtrdiff n) (constructNext T c.throws ptr)
      ⟨[.acquire (.block c.alloc ptr n)], 0⟩ = some (.ok (arrayProgressAt T c.alloc n ptr n)) :=
    constructLoop_of_not_throws (c.allocate_le n ptr halloc) h
  simp only [allocateArray, allocateArrayImpl, halloc, hloop, Transaction.destructor_commit,
    List.append_nil]
  split <;> rfl

/-- If the call for element `k` throws, the elements are destroyed in reverse order, and the
block is deallocated. -/
theorem allocateArray_of_throws (halloc : c.allocate n = some ptr) (hnothrow : c.nothrow = false)
    (hk : k < n) (h : ThrowsAt c.throws (elementAddress ptr T.sizeofT) k) :
    allocateArray T c n =
      some (.acquire (.block c.alloc ptr n) :: constructed (elementsAt T ptr k) ++
        (destroyed (elementsAt T ptr k).reverse ++ [.release (.block c.alloc ptr n)]),
        .error .fromConstruct) := by
  have hloop : ptrdiffLoop 1 (toPtrdiff n) (constructNext T c.throws ptr)
      ⟨[.acquire (.block c.alloc ptr n)], 0⟩ = some (.error (arrayProgressAt T c.alloc n ptr k)) :=
    constructLoop_of_throws (c.allocate_le n ptr halloc) hk h
  simp only [allocateArray, allocateArrayImpl, halloc, hloop, hnothrow,
    Transaction.destructor_make_true, arrayProgressAt, Int.toNat_natCast, destroyBackwards_eq]
  rfl

theorem deleteArray_eq (hn : (n : ℤ) ≤ ptrdiffMax) :
    deleteArray T alloc n ptr =
      some (destroyed (elementsAt T ptr n) ++ [.release (.block alloc ptr n)]) := by
  have hloop : ptrdiffLoop 1 (toPtrdiff n) (fun i => destroy (byteAddress ptr (i * T.sizeofT)))
      ([] : List (Event α)) = some (.ok (destroyed (elementsAt T ptr n))) := by
    rw [ptrdiffLoop_array hn]
    refine iterations_eq_ok (f := fun k => destroyed (elementsAt T ptr k)) fun k _ => ?_
    rw [iteration_index, byteAddress_mul_sizeofT]
    exact destroy_destroyed _ k
  rw [deleteArray, hloop]

theorem allocate_of_not_throws (halloc : c.allocate 1 = some ptr) (h : c.throws ptr = false) :
    allocate c = some ([.acquire (.block c.alloc ptr 1), .acquire (.element ptr)], .ok ptr) := by
  simp [allocate, halloc, h]

theorem allocate_of_throws (halloc : c.allocate 1 = some ptr) (hnothrow : c.nothrow = false)
    (h : c.throws ptr = true) :
    allocate c = some ([.acquire (.block c.alloc ptr 1), .release (.block c.alloc ptr 1)],
      .error .fromConstruct) := by
  simp [allocate, halloc, hnothrow, h]
end Patton.Memory
