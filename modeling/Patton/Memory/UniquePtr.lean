import Patton.Memory.AllocateUnique

/-!
# Unique pointers to objects and arrays

`allocate_unique` passes a block to a `std::unique_ptr` with an `allocator_deleter`. In
every history of unique pointers each block is deallocated with the count it has been
allocated with, and each element that has been constructed is destroyed.
-/

namespace Patton.Memory

open Buffer ObjectHistory
open Ledger hiding Event

variable {α : Type*}

/-- `std::unique_ptr` with an `allocator_deleter` -/
structure UniquePtr (α : Type*) where
  ptr : ℕ
  deleter : AllocatorDeleter α

/-- The calls of `allocate_unique` for an object, an array, and an array of fixed size. The last
overload is modelled by its statements: it cannot be instantiated, because the pointer `T*` does
not convert to the `std::unique_ptr<T[N], D>` that it returns. -/
inductive AllocateUniqueArgs (α : Type*)
  | object (c : Allocation α)
  | array (c : Allocation α) (size : ℕ)
  | fixedArray (c : Allocation α) (n : ℕ)

/-- A pointer that has been returned gets its deleter. -/
def Result.withDeleter (deleter : AllocatorDeleter α) (r : Result α ℕ) : Result α (UniquePtr α) :=
  r.map fun r => (r.1, r.2.map fun ptr => ⟨ptr, deleter⟩)

def allocateUnique (T : ElementType) : AllocateUniqueArgs α → Result α (UniquePtr α)
  | .object c => Result.withDeleter (.object c.alloc) (allocate c)
  | .array c size => Result.withDeleter (.array c.alloc size) (allocateArray T c size)
  | .fixedArray c n => Result.withDeleter (.fixedArray c.alloc n) (allocateArray T c n)

namespace UniquePtr

/-- The destructor, which does not call the deleter for a null pointer -/
def destructor (T : ElementType) (p : UniquePtr α) : Option (List (Event α)) :=
  if p.ptr ≠ nullptr then p.deleter.call T p.ptr else some []

/-- The move constructor: the new object and what is left of the old one -/
def moveConstructor (rhs : UniquePtr α) : UniquePtr α × UniquePtr α :=
  (rhs, { rhs with ptr := nullptr })

/-- The move assignment from another object -/
def moveAssignment (T : ElementType) (p rhs : UniquePtr α) :
    Option (List (Event α) × UniquePtr α × UniquePtr α) :=
  match p.destructor T with
  | none => none
  | some events => some (events, rhs, { rhs with ptr := nullptr })

/-- Unique pointers as a class; they are only constructed by `allocate_unique`. -/
def objectClass (T : ElementType) :
    ObjectClass (Resource α) (UniquePtr α) (AllocateUniqueArgs α) Unit where
  construct args := (allocateUnique T args).map fun r => (r.1, r.2.toOption)
  moveConstruct _ rhs := some ([], moveConstructor rhs)
  moveAssign := moveAssignment T
  selfMoveAssign p := some ([], p)
  destruct := destructor T

end UniquePtr

/-- The allocator and the count of a deleter. -/
def AllocatorDeleter.alloc : AllocatorDeleter α → α
  | .object alloc => alloc
  | .array alloc _ => alloc
  | .fixedArray alloc _ => alloc

@[inherit_doc AllocatorDeleter.alloc]
def AllocatorDeleter.count : AllocatorDeleter α → ℕ
  | .object _ => 1
  | .array _ size => size
  | .fixedArray _ n => n

/-- If the element type claims that its construction does not throw, then `construct` does
not throw. -/
def KeepsClaim (c : Allocation α) : Prop := c.nothrow = true → ∀ addr, c.throws addr = false

theorem KeepsClaim.nothrow_eq {c : Allocation α} {addr : ℕ} (hc : KeepsClaim c)
    (h : c.throws addr = true) : c.nothrow = false := by
  rw [← Bool.not_eq_true]
  intro hclaim
  rw [hc hclaim addr] at h
  cases h

/-- `allocate` may return a null pointer for an empty array. -/
def NullBlock (t : Resource α) : Prop := ∃ alloc, t = .block alloc nullptr 0

namespace UniquePtr

def holding (T : ElementType) (p : UniquePtr α) : Holding α :=
  ⟨p.deleter.alloc, p.ptr, p.deleter.count, elementsAt T p.ptr p.deleter.count⟩

/-- The size of an array is a `std::ptrdiff_t`. -/
def Valid (p : UniquePtr α) : Prop := p.ptr ≠ nullptr → (p.deleter.count : ℤ) ≤ ptrdiffMax

/-- The condition: the claims of the element types are kept. -/
def guard : Guard (UniquePtr α) (AllocateUniqueArgs α) Unit where
  construct
    | .object c => KeepsClaim c
    | .array c _ => KeepsClaim c
    | .fixedArray c _ => KeepsClaim c
  moveConstruct _ _ := True
  moveAssign _ _ := True
  selfMoveAssign _ := True

end UniquePtr

variable {T : ElementType} {c : Allocation α} {ptr n : ℕ} {p : UniquePtr α}
  {deleter : AllocatorDeleter α}

theorem elementsAt_one (T : ElementType) (ptr : ℕ) : elementsAt T ptr 1 = [ptr] := by
  simp [elementsAt, addresses, elementAddress]

/-- Each deleter destroys as many elements as it deallocates. -/
theorem AllocatorDeleter.call_eq (hcount : (deleter.count : ℤ) ≤ ptrdiffMax) :
    deleter.call T ptr = some (destroyed (elementsAt T ptr deleter.count) ++
      [.release (.block deleter.alloc ptr deleter.count)]) := by
  cases deleter with
  | object alloc =>
      rw [AllocatorDeleter.count, elementsAt_one]
      rfl
  | array alloc size => exact deleteArray_eq hcount
  | fixedArray alloc n => exact deleteArray_eq hcount

namespace UniquePtr

theorem valid_of_ptr_eq (h : p.ptr = nullptr) : p.Valid := fun hne => absurd h hne

theorem destructor_eq (hp : p.Valid) : p.destructor T = some (p.holding T).releases := by
  rw [destructor]
  by_cases hptr : p.ptr = nullptr
  · rw [if_neg (not_not.2 hptr), Holding.releases_of_data_eq hptr]
  · rw [if_pos hptr, AllocatorDeleter.call_eq (hp hptr), Holding.releases_of_data_ne hptr]
    rfl

theorem resources_add (rhs : UniquePtr α) : (rhs.holding T).resources +
    (holding T { rhs with ptr := nullptr }).resources = (rhs.holding T).resources :=
  Holding.resources_add (fun _ => rfl) rfl rfl rfl rfl

end UniquePtr

section Histories

variable [DecidableEq α]

/-- An allocation fails and leaves nothing, or it acquires what the deleter will give back.
Only an empty array may come without a block. -/
def Allocates (T : ElementType) (deleter : AllocatorDeleter α) (r : Result α ℕ) : Prop :=
  (∃ es e, r = some (es, .error e) ∧ Ledger.run 0 es = some 0) ∨
    ∃ ptr, r = some (.acquire (.block deleter.alloc ptr deleter.count) ::
        constructed (elementsAt T ptr deleter.count), .ok ptr) ∧
      (0 < deleter.count → ptr ≠ nullptr) ∧ (deleter.count : ℤ) ≤ ptrdiffMax

theorem allocates_allocate (T : ElementType) (hc : KeepsClaim c) :
    Allocates T (.object c.alloc) (allocate c) := by
  cases halloc : c.allocate 1 with
  | none => exact .inl ⟨[], .fromAllocate, by rw [allocate, halloc], Ledger.run_nil _⟩
  | some ptr =>
      have hptr : ptr ≠ nullptr := c.allocate_ne_nullptr 1 ptr Nat.one_pos halloc
      cases hthrows : c.throws ptr with
      | true =>
          exact .inl ⟨_, _, allocate_of_throws halloc (hc.nothrow_eq hthrows) hthrows,
            Holding.run_undone hptr (List.Perm.refl [])⟩
      | false =>
          refine .inr ⟨ptr, ?_, fun _ => hptr, by simp [AllocatorDeleter.count, ptrdiffMax]⟩
          rw [allocate_of_not_throws halloc hthrows, AllocatorDeleter.count, elementsAt_one]
          rfl

theorem allocates_allocateArray (hc : KeepsClaim c) (halloc : deleter.alloc = c.alloc)
    (hcount : deleter.count = n) : Allocates T deleter (allocateArray T c n) := by
  subst hcount
  rw [Allocates, halloc]
  cases hblock : c.allocate deleter.count with
  | none =>
      refine .inl ⟨[], .fromAllocate, ?_, Ledger.run_nil _⟩
      rw [allocateArray, allocateArrayImpl, hblock]
  | some ptr =>
      by_cases hthrows : ∀ i < deleter.count,
          c.throws (elementAddress ptr T.sizeofT i) = false
      · exact .inr ⟨ptr, allocateArray_of_not_throws hblock hthrows,
          fun hpos => c.allocate_ne_nullptr _ ptr hpos hblock, c.allocate_le _ ptr hblock⟩
      · obtain ⟨k, hk, hat⟩ := exists_throwsAt hthrows
        exact .inl ⟨_, _, allocateArray_of_throws hblock (hc.nothrow_eq hat.throws) hk hat,
          Holding.run_undone (c.allocate_ne_nullptr _ ptr (Nat.zero_lt_of_lt hk) hblock)
            (List.reverse_perm _).symm⟩

/-- What `allocate_unique` acquires: a block without elements may be a null pointer. -/
theorem Allocates.withDeleter {r : Result α ℕ} (h : Allocates T deleter r) :
    (∃ es, (Result.withDeleter deleter r).map (fun r => (r.1, r.2.toOption)) = some (es, none) ∧
      Ledger.run 0 es = some 0) ∨
    ∃ es p m, (Result.withDeleter deleter r).map (fun r => (r.1, r.2.toOption)) =
        some (es, some p) ∧ p.Valid ∧ (∀ t ∈ m, NullBlock t) ∧
      Ledger.run 0 es = some ((p.holding T).resources + m) := by
  rcases h with ⟨es, e, rfl, hrun⟩ | ⟨ptr, rfl, hptr, hcount⟩
  · exact .inl ⟨es, rfl, hrun⟩
  · by_cases hnull : ptr = nullptr
    · have hzero : deleter.count = 0 := by
        by_contra hne
        exact hptr (Nat.pos_of_ne_zero hne) hnull
      refine .inr ⟨_, ⟨ptr, deleter⟩, {.block deleter.alloc nullptr 0}, rfl,
        UniquePtr.valid_of_ptr_eq hnull, fun t ht => ?_, ?_⟩
      · exact ⟨deleter.alloc, Multiset.mem_singleton.1 ht⟩
      · rw [Holding.resources_of_data_eq hnull, hzero, hnull, zero_add]
        rfl
    · refine .inr ⟨_, ⟨ptr, deleter⟩, 0, rfl, fun _ => hcount, by simp, ?_⟩
      rw [add_zero]
      exact Holding.run_acquires hnull

namespace UniquePtr

theorem sound (T : ElementType) :
    ObjectHistory.Sound (objectClass T) (UniquePtr.guard (α := α)) Valid
      (fun p => (p.holding T).resources) NullBlock where
  construct args hargs := by
    cases args with
    | object c => exact (allocates_allocate T hargs).withDeleter
    | array c size => exact (allocates_allocateArray hargs rfl rfl).withDeleter
    | fixedArray c n => exact (allocates_allocateArray hargs rfl rfl).withDeleter
  moveConstruct _ rhs hrhs _ :=
    ⟨[], _, _, rfl, hrhs, valid_of_ptr_eq rfl, congrArg some (resources_add rhs).symm⟩
  moveAssign p rhs hp hrhs _ := by
    have hmove : moveAssignment T p rhs =
        some ((p.holding T).releases, rhs, { rhs with ptr := nullptr }) := by
      rw [moveAssignment, destructor_eq hp]
    refine ⟨_, _, _, hmove, hrhs, valid_of_ptr_eq rfl, ?_⟩
    rw [resources_add, Ledger.run_add _ (Holding.run_releases (p.holding T)), zero_add]
  selfMoveAssign p hp _ := ⟨[], p, rfl, hp, Ledger.run_nil _⟩
  destruct p hp := ⟨_, destructor_eq hp, Holding.run_releases (p.holding T)⟩

end UniquePtr

/-- For arrays: if the call of `construct` for element `k` throws, the elements before it are
destroyed in reverse order and the block is deallocated; if none throws, the matching
deleters destroy each element and deallocate the block with the same count. For single
objects the same. In every history of unique pointers the books are kept. -/
theorem allocateUnique_lifeCycle (T : ElementType) :
    (∀ (c : Allocation α) (n ptr : ℕ), KeepsClaim c → c.allocate n = some ptr →
      (∀ k < n, ThrowsAt c.throws (elementAddress ptr T.sizeofT) k →
        allocateArray T c n =
          some (.acquire (.block c.alloc ptr n) :: constructed (elementsAt T ptr k) ++
            (destroyed (elementsAt T ptr k).reverse ++ [.release (.block c.alloc ptr n)]),
            .error .fromConstruct)) ∧
      ((∀ i < n, c.throws (elementAddress ptr T.sizeofT i) = false) →
        allocateArray T c n =
          some (.acquire (.block c.alloc ptr n) :: constructed (elementsAt T ptr n), .ok ptr) ∧
        ∀ deleter : AllocatorDeleter α,
          deleter = .array c.alloc n ∨ deleter = .fixedArray c.alloc n → deleter.call T ptr =
            some (destroyed (elementsAt T ptr n) ++ [.release (.block c.alloc ptr n)]))) ∧
    (∀ (c : Allocation α) (ptr : ℕ), KeepsClaim c → c.allocate 1 = some ptr →
      (c.throws ptr = true →
        allocate c = some ([.acquire (.block c.alloc ptr 1), .release (.block c.alloc ptr 1)],
          .error .fromConstruct)) ∧
      (c.throws ptr = false →
        allocate c = some ([.acquire (.block c.alloc ptr 1), .acquire (.element ptr)], .ok ptr) ∧
        (AllocatorDeleter.object c.alloc).call T ptr =
          some [.release (.element ptr), .release (.block c.alloc ptr 1)])) ∧
    ∀ s : State (Resource α) (UniquePtr α), s.Initial → ∀ ops,
      Admissible (UniquePtr.objectClass T) UniquePtr.guard s ops →
        ∃ s', run (UniquePtr.objectClass T) s ops = some s' ∧
          Balanced (fun p => (p.holding T).resources) NullBlock s' := by
  refine ⟨fun c n ptr hc halloc => ⟨fun k hk hat => ?_, fun hthrows => ⟨?_, ?_⟩⟩,
    fun c ptr hc halloc => ⟨fun hthrows => ?_, fun hthrows => ⟨?_, rfl⟩⟩,
    fun s hs ops hops => (UniquePtr.sound T).balanced hs hops⟩
  · exact allocateArray_of_throws halloc (hc.nothrow_eq hat.throws) hk hat
  · exact allocateArray_of_not_throws halloc hthrows
  · have hn := c.allocate_le n ptr halloc
    rintro _ (rfl | rfl)
    · exact deleteArray_eq hn
    · exact deleteArray_eq hn
  · exact allocate_of_throws halloc (hc.nothrow_eq hthrows) hthrows
  · exact allocate_of_not_throws halloc hthrows

end Histories

/-- An array of two `int` elements, of which the second one throws if `k` is 1. -/
def arrayCall (nothrow : Bool) (k : ℕ) : Allocation Unit :=
  { sampleCall () (· == 4096 + 4 * k) 0 (Nat.zero_le _) with nothrow := nothrow }

/-- One pointer is constructed, moved and destroyed; the construction of another one
throws. -/
def smallHistory : List (Op (AllocateUniqueArgs Unit) Unit) :=
  [.construct 0 (.array (arrayCall false 2) 2), .moveConstruct 1 () 0,
    .construct 2 (.object (arrayCall false 0)), .moveAssign 0 1, .destruct 1, .destruct 0]

theorem arrayCall_lifeCycle :
    allocateArray intType (arrayCall false 1) 2 =
      some ([.acquire (.block () 4096 2), .acquire (.element 4096), .release (.element 4096),
        .release (.block () 4096 2)], .error .fromConstruct) ∧
    allocate (arrayCall false 0) =
      some ([.acquire (.block () 4096 1), .release (.block () 4096 1)], .error .fromConstruct) ∧
    ∃ s', run (UniquePtr.objectClass intType) ⟨∅, fun _ => ⟨nullptr, .object ()⟩, []⟩
        smallHistory = some s' ∧
      Balanced (fun p : UniquePtr Unit => (p.holding intType).resources) NullBlock s' := by
  obtain ⟨harray, hobject, hhistory⟩ := allocateUnique_lifeCycle (α := Unit) intType
  have hclaim : ∀ k, KeepsClaim (arrayCall false k) := fun _ h => by cases h
  refine ⟨?_, (hobject _ 4096 (hclaim 0) rfl).1 rfl, hhistory _ ⟨rfl, rfl⟩ _ ?_⟩
  · exact (harray _ 2 4096 (hclaim 1) rfl).1 1 (by decide) ⟨by decide, rfl⟩
  · refine admissible_cons rfl (by decide) (hclaim 2) ?_
    refine admissible_cons rfl (by decide) trivial ?_
    refine admissible_cons rfl (by decide) (hclaim 0) ?_
    refine admissible_cons rfl (by decide) ⟨fun _ => trivial, fun _ => trivial⟩ ?_
    exact admissible_cons rfl (by decide) trivial (admissible_cons rfl (by decide) trivial trivial)

/-- A call whose allocator returns a null pointer for an empty array. -/
def emptyCall : Allocation Unit where
  alloc := ()
  allocate n := if n = 0 then some nullptr else none
  nothrow := false
  throws := fun _ => false
  allocate_ne_nullptr := by
    intro n p hn halloc
    rw [if_neg hn.ne'] at halloc
    cases halloc
  allocate_le := by
    intro n p halloc
    split at halloc
    · next hn =>
        rw [hn]
        decide
    · cases halloc

/-- If `construct` throws although the element type claims that it does not, the block and
the elements before it are left behind. The deleter is never called for a null pointer. -/
theorem not_lifeCycle_arrayCall :
    allocateArray intType (arrayCall true 1) 2 =
      some ([.acquire (.block () 4096 2), .acquire (.element 4096)], .error .fromConstruct) ∧
    ∃ p, allocateUnique intType (.array emptyCall 0) =
        some ([.acquire (.block () nullptr 0)], .ok p) ∧ p.destructor intType = some [] :=
  ⟨rfl, _, rfl, rfl⟩

end Patton.Memory
