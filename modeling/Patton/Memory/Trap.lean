import Patton.Library.ByteMemory

/-!
# The trap behind an allocation

An allocation is followed by a few words with a known value. A write behind the end
of the data changes them, and this is noticed when the allocation is freed.
-/

namespace Patton.Memory

open ByteMemory

def sizeofUint32 : ℕ := 4

def maxTrapCount : ℕ := 4

def trapVal : ℕ := 0xDEADBEEF

def trapCount (size allocSize : ℕ) : ℕ := min maxTrapCount ((allocSize - size) / sizeofUint32)

def trapAddresses (data size allocSize : ℕ) : List ℕ :=
  (List.range (trapCount size allocSize)).map fun i => data + size + i * sizeofUint32

def setOutOfBoundsWriteTrap (m : Memory) (data size allocSize : ℕ) : Memory :=
  (trapAddresses data size allocSize).foldl (fun m a => store m a (encode sizeofUint32 trapVal)) m

def checkOutOfBoundsWriteTrap (m : Memory) (data size allocSize : ℕ) : Bool :=
  (trapAddresses data size allocSize).all fun a => decode (load m a sizeofUint32) == trapVal

variable {m m' : Memory} {data size allocSize x : ℕ}

theorem foldl_store_apply (m : Memory) (b n : ℕ) (word : List Byte) {i k : ℕ} (hi : i < n)
    (hk : k < word.length) :
    ((List.range n).map fun i => b + i * word.length).foldl (fun m a => store m a word) m
      (b + i * word.length + k) = word[k] := by
  induction n with
  | zero => omega
  | succ n ih =>
      rw [List.range_succ, List.map_append, List.foldl_append]
      change store _ (b + n * word.length) word _ = _
      rcases Nat.lt_succ_iff_lt_or_eq.1 hi with hlt | rfl
      · have hle : (i + 1) * word.length ≤ n * word.length := Nat.mul_le_mul_right _ hlt
        rw [store_of_lt (by rw [Nat.succ_mul] at hle; omega), ih hlt]
      · exact store_apply hk

theorem foldl_store_of_outside (m : Memory) (b n : ℕ) (word : List Byte)
    (hx : x < b ∨ b + n * word.length ≤ x) :
    ((List.range n).map fun i => b + i * word.length).foldl (fun m a => store m a word) m x =
      m x := by
  induction n with
  | zero => rfl
  | succ n ih =>
      rw [Nat.succ_mul] at hx
      rw [List.range_succ, List.map_append, List.foldl_append]
      change store _ (b + n * word.length) word _ = _
      rcases hx with hx | hx
      · rw [store_of_lt (by omega), ih (.inl hx)]
      · rw [store_of_ge (by omega), ih (.inr (by omega))]

def trapSize (size allocSize : ℕ) : ℕ := trapCount size allocSize * sizeofUint32

theorem trapSize_le (size allocSize : ℕ) : trapSize size allocSize ≤ allocSize - size := by
  rw [trapSize, trapCount]
  exact (Nat.mul_le_mul_right _ (min_le_right _ _)).trans (Nat.div_mul_le_self _ _)

theorem setOutOfBoundsWriteTrap_of_outside
    (h : x < data + size ∨ data + size + trapSize size allocSize ≤ x) :
    setOutOfBoundsWriteTrap m data size allocSize x = m x := by
  refine foldl_store_of_outside m (data + size) _ (encode sizeofUint32 trapVal) ?_
  rwa [length_encode]

theorem setOutOfBoundsWriteTrap_apply {i k : ℕ} (hi : i < trapCount size allocSize)
    (hk : k < (encode sizeofUint32 trapVal).length) :
    setOutOfBoundsWriteTrap m data size allocSize (data + size + i * sizeofUint32 + k) =
      (encode sizeofUint32 trapVal)[k] := by
  have happly := foldl_store_apply m (data + size) (trapCount size allocSize)
    (encode sizeofUint32 trapVal) hi hk
  rw [length_encode] at happly
  exact happly

/-- The check succeeds if and only if the trap area is as it has been set. -/
theorem checkOutOfBoundsWriteTrap_iff : checkOutOfBoundsWriteTrap m' data size allocSize = true ↔
    ∀ x, data + size ≤ x → x < data + size + trapSize size allocSize →
      m' x = setOutOfBoundsWriteTrap m data size allocSize x := by
  have hlen : (encode sizeofUint32 trapVal).length = sizeofUint32 := length_encode _ _
  have hval : decode (encode sizeofUint32 trapVal) = trapVal := decode_encode (by decide)
  have hword : ∀ a, decode (load m' a sizeofUint32) = trapVal ↔
      ∀ (k : ℕ) (hk : k < (encode sizeofUint32 trapVal).length),
        m' (a + k) = (encode sizeofUint32 trapVal)[k] := by
    intro a
    rw [← load_eq_iff, hlen]
    constructor
    · intro h
      exact decode_injective (by simp) (h.trans hval.symm)
    · intro h
      rw [h, hval]
  simp only [checkOutOfBoundsWriteTrap, trapAddresses, List.all_map, List.all_eq_true,
    List.mem_range, Function.comp, beq_iff_eq, hword]
  constructor
  · intro h x hle hlt
    have hx : x = data + size + (x - (data + size)) / sizeofUint32 * sizeofUint32 +
        (x - (data + size)) % sizeofUint32 := by
      have := Nat.div_add_mod' (x - (data + size)) sizeofUint32
      omega
    have hi : (x - (data + size)) / sizeofUint32 < trapCount size allocSize := by
      rw [Nat.div_lt_iff_lt_mul (by decide)]
      rw [trapSize] at hlt
      omega
    have hk : (x - (data + size)) % sizeofUint32 < (encode sizeofUint32 trapVal).length := by
      rw [hlen]
      exact Nat.mod_lt _ (by decide)
    rw [hx, h _ hi _ hk, setOutOfBoundsWriteTrap_apply hi hk]
  · intro h i hi k hk
    rw [h _ (by omega) ?_, setOutOfBoundsWriteTrap_apply hi hk]
    have hle : (i + 1) * sizeofUint32 ≤ trapCount size allocSize * sizeofUint32 :=
      Nat.mul_le_mul_right _ hi
    rw [hlen] at hk
    rw [Nat.succ_mul] at hle
    rw [trapSize]
    omega

end Patton.Memory
