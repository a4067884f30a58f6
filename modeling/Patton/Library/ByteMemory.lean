import Mathlib

/-!
# A memory of bytes

A memory maps addresses to bytes. Numbers are stored in a fixed count of bytes,
the least significant one first, and copying a byte string in or out of the memory
needs no alignment.
-/

namespace ByteMemory

abbrev Byte := Fin 256

abbrev Memory := ℕ → Byte

variable {m m' : Memory} {a x n w v : ℕ} {bytes bytes' : List Byte}

/-- The `w` lowest bytes of `v`. -/
def encode : ℕ → ℕ → List Byte
  | 0, _ => []
  | w + 1, v => Fin.ofNat 256 v :: encode w (v / 256)

/-- The number that a byte string encodes. -/
def decode (bytes : List Byte) : ℕ := Nat.ofDigits 256 (bytes.map Fin.val)

@[simp] theorem length_encode (w v : ℕ) : (encode w v).length = w := by
  induction w generalizing v with
  | zero => rfl
  | succ w ih => rw [encode, List.length_cons, ih]

theorem decode_encode (h : v < 256 ^ w) : decode (encode w v) = v := by
  induction w generalizing v with
  | zero =>
      obtain rfl : v = 0 := by simpa using h
      rfl
  | succ w ih =>
      have hdiv : v / 256 < 256 ^ w := Nat.div_lt_of_lt_mul (by rwa [pow_succ'] at h)
      have hcons : decode (encode (w + 1) v) = v % 256 + 256 * decode (encode w (v / 256)) := by
        rw [encode, decode, List.map_cons, Nat.ofDigits_cons]
        rfl
      rw [hcons, ih hdiv]
      exact Nat.mod_add_div v 256

theorem decode_injective (hlen : bytes.length = bytes'.length) (h : decode bytes = decode bytes') :
    bytes = bytes' := by
  have hdigit : ∀ (l : List Byte), ∀ d ∈ l.map Fin.val, d < 256 := by
    intro l d hd
    obtain ⟨b, -, rfl⟩ := List.mem_map.1 hd
    exact b.isLt
  refine List.map_injective_iff.2 Fin.val_injective ?_
  exact Nat.ofDigits_inj_of_len_eq (by omega) (by simpa using hlen) (hdigit _) (hdigit _) h

def load (m : Memory) (a n : ℕ) : List Byte := (List.range n).map fun i => m (a + i)

/-- Overwrites the memory from address `a` on. -/
def store (m : Memory) (a : ℕ) (bytes : List Byte) : Memory :=
  fun x => if a ≤ x then (bytes[x - a]?).getD (m x) else m x

@[simp] theorem length_load (m : Memory) (a n : ℕ) : (load m a n).length = n := by
  simp [load]

theorem load_eq_load {a' : ℕ} : load m a n = load m' a' n ↔ ∀ i < n, m (a + i) = m' (a' + i) := by
  simp [load]

theorem load_eq_iff : load m a bytes.length = bytes ↔
    ∀ (i : ℕ) (hi : i < bytes.length), m (a + i) = bytes[i] := by
  constructor
  · intro h i hi
    have hget : (load m a bytes.length)[i]? = bytes[i]? := by rw [h]
    simpa [load, hi] using hget
  · intro h
    refine List.ext_getElem (by simp) fun i _ hi => ?_
    simpa [load] using h i hi

theorem store_of_lt (h : x < a) : store m a bytes x = m x := if_neg (by omega)

theorem store_of_ge (h : a + bytes.length ≤ x) : store m a bytes x = m x := by
  rw [store, if_pos (by omega), List.getElem?_eq_none (by omega), Option.getD_none]

theorem store_apply {i : ℕ} (hi : i < bytes.length) : store m a bytes (a + i) = bytes[i] := by
  rw [store, if_pos (by omega), Nat.add_sub_cancel_left, List.getElem?_eq_getElem hi,
    Option.getD_some]

theorem load_store (m : Memory) (a : ℕ) (bytes : List Byte) :
    load (store m a bytes) a bytes.length = bytes :=
  load_eq_iff.2 fun _ hi => store_apply hi

end ByteMemory
