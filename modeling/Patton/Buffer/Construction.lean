import Patton.Library.ForLoop
import Patton.Library.Ledger
import Patton.Memory.Allocators

/-!
# Constructing elements in a block

What the two buffer classes share: the resources that they acquire and release, the
calls of the allocator and of `construct`, and the loops over byte offsets in
`std::ptrdiff_t`.
-/

namespace Patton.Buffer

open ForLoop Ledger Memory

/-- What is acquired and released: the blocks of an allocator instance, with the number they
are allocated with (bytes for the buffers), and the elements constructed at an address.
Instances which compare equal are not told apart. -/
inductive Resource (α : Type*)
  | block (alloc : α) (ptr count : ℕ)
  | element (addr : ℕ)
  deriving DecidableEq

abbrev Event (α : Type*) := Ledger.Event (Resource α)

/-- The exceptions: `bad_alloc` if a size overflows, and those of `allocate` and
`construct`. -/
inductive Exception
  | badAlloc
  | fromAllocate
  | fromConstruct
  deriving DecidableEq

/-- What a function does, and its value or exception. There is no result if its behaviour
is undefined, or if it calls `std::terminate()`. -/
abbrev Result (α β : Type*) := Option (List (Event α) × Except Exception β)

def ptrdiffMax : ℤ := 2 ^ 63 - 1

def ptrdiffMin : ℤ := -2 ^ 63

/-- `std::ptrdiff_t(x)` -/
def toPtrdiff (x : ℕ) : ℤ := if x < 2 ^ 63 then x else x - 2 ^ 64

/-- What a function that allocates gets from outside: the allocator instance, the answers
of its `allocate` (an address, or an exception), whether the element type claims that its
construction does not throw, and for which addresses `construct` throws. -/
structure Allocation (α : Type*) where
  alloc : α
  allocate : ℕ → Option ℕ
  nothrow : Bool
  throws : ℕ → Bool
  allocate_ne_nullptr : ∀ n p, 0 < n → allocate n = some p → p ≠ nullptr
  allocate_le : ∀ n p, allocate n = some p → (n : ℤ) ≤ ptrdiffMax

/-- What the constructor of a buffer gets: in addition, the value that its uninitialised
variable happens to hold. -/
structure Call (α : Type*) extends Allocation α where
  uninitialized : ℕ
  uninitialized_le : uninitialized ≤ sizeMax

/-- The loop `for (std::ptrdiff_t i = 0, …; i != e; i += d)`; it takes less than `2 ^ 64`
iterations, if it ends. -/
def ptrdiffLoop {σ : Type*} (d e : ℤ) (body : ℤ → σ → Option (Except σ σ)) (s : σ) :
    Option (Except σ σ) :=
  forLoop ptrdiffMin ptrdiffMax body d e (2 ^ 64) 0 s

/-- The address `&data[i]` of a byte. -/
def byteAddress (data : ℕ) (i : ℤ) : ℕ := (data + i).toNat

/-- The sum of an index and a `std::ptrdiff_t`, in `std::size_t` -/
def addIndex (index : ℕ) (d : ℤ) : ℕ := ((index + d) % 2 ^ 64).toNat

/-- The events so far, and the variable `numElementsConstructed`. -/
structure Progress (α : Type*) where
  events : List (Event α)
  numElementsConstructed : ℕ

variable {α : Type*}

def construct (throws : ℕ → Bool) (addr : ℕ) (s : Progress α) :
    Option (Except (Progress α) (Progress α)) :=
  if throws addr then some (.error s)
  else some (.ok { s with events := s.events ++ [.acquire (.element addr)] })

/-- The call of `construct`, and then `++numElementsConstructed`. -/
def constructAndCount (throws : ℕ → Bool) (addr : ℕ) (s : Progress α) :
    Option (Except (Progress α) (Progress α)) :=
  match construct throws addr s with
  | some (.ok s) =>
      some (.ok { s with numElementsConstructed := (s.numElementsConstructed + 1) % 2 ^ 64 })
  | r => r

def destroy (addr : ℕ) (events : List (Event α)) :
    Option (Except (List (Event α)) (List (Event α))) :=
  some (.ok (events ++ [.release (.element addr)]))

def addresses (addr : ℕ → ℕ) (m : ℕ) : List ℕ := (List.range m).map addr

/-- Elements are constructed at the addresses of a list. -/
def constructed (addrs : List ℕ) : List (Event α) := addrs.map fun addr => .acquire (.element addr)

/-- The elements at the addresses of a list are destroyed. -/
def destroyed (addrs : List ℕ) : List (Event α) := addrs.map fun addr => .release (.element addr)

variable {σ : Type*} {body : ℤ → σ → Option (Except σ σ)} {s : σ} {x m d data n k : ℕ} {e : ℤ}
  {throws : ℕ → Bool} {p : Progress α} {addr : ℕ → ℕ}

theorem toPtrdiff_of_le (h : (x : ℤ) ≤ ptrdiffMax) : toPtrdiff x = x := by
  rw [ptrdiffMax] at h
  exact if_pos (by omega)

theorem mod_eq_of_le_ptrdiffMax (h : (x : ℤ) ≤ ptrdiffMax) : x % 2 ^ 64 = x := by
  rw [ptrdiffMax] at h
  exact Nat.mod_eq_of_lt (by omega)

theorem mod_eq_of_le_sizeMax (h : x ≤ sizeMax) : x % 2 ^ 64 = x := by
  rw [sizeMax] at h
  exact Nat.mod_eq_of_lt (by omega)

@[simp] theorem byteAddress_natCast (data i : ℕ) : byteAddress data i = data + i := by
  rw [byteAddress]
  omega

theorem addIndex_zero (h : (x : ℤ) ≤ ptrdiffMax) : addIndex 0 (toPtrdiff x) = x := by
  rw [addIndex, toPtrdiff_of_le h]
  rw [ptrdiffMax] at h
  omega

theorem le_of_mul_le (hd : 0 < d) (h : ((m * d : ℕ) : ℤ) ≤ ptrdiffMax) : (m : ℤ) ≤ ptrdiffMax := by
  have hle : m ≤ m * d := Nat.le_mul_of_pos_right m hd
  omega

/-- Over a block of `m` strides of `d` bytes the loop makes `m` iterations. -/
theorem ptrdiffLoop_eq (hd : 0 < d) (h : ((m * d : ℕ) : ℤ) ≤ ptrdiffMax) :
    ptrdiffLoop d (m * d : ℕ) body s = iterations body d 0 m s := by
  have hm := le_of_mul_le hd h
  rw [ptrdiffMax] at hm
  refine forLoop_eq_iterations (by omega) ?_ (by decide) h (by omega)
  push_cast
  ring

/-- A loop which is never left ends after a whole number of strides. -/
theorem exists_of_ptrdiffLoop_eq_some (hbody : ∀ i s, ∃ s', body i s = some (.ok s'))
    {r : Except σ σ} (h : ptrdiffLoop d e body s = some r) :
    ∃ m : ℕ, e = (m * d : ℕ) ∧ iterations body d 0 m s = some r := by
  obtain ⟨m, he, hr⟩ := exists_of_forLoop_eq_some hbody h
  refine ⟨m, ?_, hr⟩
  rw [he]
  push_cast
  ring

theorem addresses_succ (addr : ℕ → ℕ) (m : ℕ) :
    addresses addr (m + 1) = addresses addr m ++ [addr m] := by
  rw [addresses, List.range_succ, List.map_append]
  rfl

@[simp] theorem length_addresses (addr : ℕ → ℕ) (m : ℕ) : (addresses addr m).length = m := by
  rw [addresses, List.length_map, List.length_range]

theorem constructed_append (addrs addrs' : List ℕ) :
    constructed (addrs ++ addrs') = (constructed addrs ++ constructed addrs' : List (Event α)) :=
  List.map_append

theorem destroyed_append (addrs addrs' : List ℕ) :
    destroyed (addrs ++ addrs') = (destroyed addrs ++ destroyed addrs' : List (Event α)) :=
  List.map_append

@[simp] theorem length_destroyed (addrs : List ℕ) :
    (destroyed addrs : List (Event α)).length = addrs.length := List.length_map _

theorem destroy_destroyed (addr : ℕ → ℕ) (k : ℕ) :
    destroy (addr k) (destroyed (addresses addr k) : List (Event α)) =
      some (.ok (destroyed (addresses addr (k + 1)))) := by
  rw [destroy, addresses_succ, destroyed_append]
  rfl

/-- The state when `k` elements have been constructed. -/
def progressAt (p : Progress α) (addr : ℕ → ℕ) (k n : ℕ) : Progress α :=
  ⟨p.events ++ constructed (addresses addr k), n⟩

@[simp] theorem progressAt_zero (p : Progress α) (addr : ℕ → ℕ) :
    progressAt p addr 0 p.numElementsConstructed = p := by
  simp [progressAt, addresses, constructed]

theorem construct_progressAt (h : throws (addr k) = false) :
    construct throws (addr k) (progressAt p addr k n) =
      some (.ok (progressAt p addr (k + 1) n)) := by
  rw [construct, h, progressAt, progressAt, addresses_succ, constructed_append,
    ← List.append_assoc]
  rfl

theorem constructAndCount_progressAt (h : throws (addr k) = false) :
    constructAndCount throws (addr k) (progressAt p addr k ((n + k) % 2 ^ 64)) =
      some (.ok (progressAt p addr (k + 1) ((n + (k + 1)) % 2 ^ 64))) := by
  rw [constructAndCount, construct_progressAt h]
  simp [progressAt, Nat.add_assoc]

theorem constructAndCount_of_throws (h : throws (addr k) = true) :
    constructAndCount throws (addr k) p = some (.error p) := by
  rw [constructAndCount, construct, h]
  rfl

/-- The calls of `construct` for the elements before `k` do not throw, and the one for
`k` does. -/
structure ThrowsAt (throws : ℕ → Bool) (addr : ℕ → ℕ) (k : ℕ) : Prop where
  not_throws : ∀ i < k, throws (addr i) = false
  throws : throws (addr k) = true

/-- If some call throws, there is a first one. -/
theorem exists_throwsAt (h : ¬ ∀ i < m, throws (addr i) = false) :
    ∃ k < m, ThrowsAt throws addr k := by
  have hex : ∃ i, i < m ∧ throws (addr i) = true := by simpa using h
  refine ⟨Nat.find hex, (Nat.find_spec hex).1, fun i hi => ?_, (Nat.find_spec hex).2⟩
  have hmin := Nat.find_min hex hi
  have hm := (Nat.find_spec hex).1
  simpa [hi.trans hm] using hmin

/-- A constructor acquires a block and constructs elements. -/
def acquisition (c : Call α) (data numBytes : ℕ) (addrs : List ℕ) : List (Event α) :=
  .acquire (.block c.alloc data numBytes) :: constructed addrs

/-- The elements are constructed and destroyed, and the block is allocated and
deallocated. -/
def undone {β : Type*} (c : Call α) (data numBytes : ℕ) (addrs : List ℕ) : Result α β :=
  some (acquisition c data numBytes addrs ++ destroyed addrs ++
    [.release (.block c.alloc data numBytes)], .error .fromConstruct)

/-- The `k` elements that have been constructed are destroyed, in any order, the block is
deallocated with the size it has been allocated with, and the exception escapes. -/
def RolledBack {β : Type*} (c : Call α) (data numBytes : ℕ) (addr : ℕ → ℕ) (k : ℕ)
    (r : Result α β) : Prop :=
  ∃ destruction : List (Event α),
    destruction.Perm (destroyed (addresses addr k)) ∧
    r = some (acquisition c data numBytes (addresses addr k) ++ destruction ++
      [.release (.block c.alloc data numBytes)], .error .fromConstruct)

theorem rolledBack_undone {β : Type*} (c : Call α) (data numBytes : ℕ) (addr : ℕ → ℕ) (k : ℕ) :
    RolledBack c data numBytes addr k (undone c data numBytes (addresses addr k) : Result α β) :=
  ⟨_, List.Perm.refl _, rfl⟩

def intType : ElementType := ⟨4, 4, by decide, 2, by decide, by decide⟩

/-- A call whose allocator returns the block at 4096, and whose uninitialised variable
happens to hold `g`. -/
def sampleCall (alloc : α) (throws : ℕ → Bool) (g : ℕ) (h : g ≤ sizeMax) : Call α where
  alloc := alloc
  allocate n := if n < 2 ^ 63 then some 4096 else none
  nothrow := false
  throws := throws
  uninitialized := g
  allocate_ne_nullptr := by
    intro n p _ halloc
    split at halloc
    · cases halloc
      decide
    · cases halloc
  allocate_le := by
    intro n p halloc
    rw [ptrdiffMax]
    split at halloc
    · omega
    · cases halloc
  uninitialized_le := h

end Patton.Buffer
