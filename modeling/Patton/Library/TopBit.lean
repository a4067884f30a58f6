import Mathlib

/-!
# The highest bit of a number

Rounding down to a power of two keeps the highest bit of a number and drops the
others. The usual way to compute it is to smear the highest bit over all lower
ones: or-ing a number with its shifts by `1, 2, 4, …` doubles the width of the
smear with every step.
-/

namespace TopBit

variable {x y n : ℕ}

/-- The highest bit of a bitwise or is the highest one of its operands. -/
theorem log2_or (x y : ℕ) : (x ||| y).log2 = max x.log2 y.log2 := by
  rcases Nat.eq_zero_or_pos x with rfl | hx
  · simp
  rcases Nat.eq_zero_or_pos y with rfl | hy
  · simp
  have hor : x ||| y ≠ 0 := by
    have hle : x ≤ x ||| y := Nat.left_le_or
    omega
  rw [Nat.log2_eq_iff hor]
  constructor
  · rcases le_total x.log2 y.log2 with hle | hle
    · rw [max_eq_right hle]
      exact (Nat.log2_self_le hy.ne').trans Nat.right_le_or
    · rw [max_eq_left hle]
      exact (Nat.log2_self_le hx.ne').trans Nat.left_le_or
  · have hpow : ∀ {m}, m ≤ max x.log2 y.log2 → 2 ^ (m + 1) ≤ 2 ^ (max x.log2 y.log2 + 1) :=
      fun h => Nat.pow_le_pow_right (by omega) (by omega)
    exact Nat.or_lt_two_pow (Nat.lt_log2_self.trans_le (hpow (le_max_left _ _)))
      (Nat.lt_log2_self.trans_le (hpow (le_max_right _ _)))

theorem log2_le_log2 (h : x ≤ y) : x.log2 ≤ y.log2 := by
  rcases Nat.eq_zero_or_pos x with rfl | hx
  · simp
  · exact (Nat.le_log2 (by omega)).2 ((Nat.log2_self_le hx.ne').trans h)

theorem log2_lt_of_lt_two_pow (hn : 0 < n) (h : x < 2 ^ n) : x.log2 < n := by
  rcases Nat.eq_zero_or_pos x with rfl | hx
  · simpa using hn
  · exact (Nat.log2_lt hx.ne').2 h

/-- `y` is `x` with every bit smeared over `w` bits to the right. -/
def Smeared (x w y : ℕ) : Prop := ∀ i, y.testBit i ↔ ∃ k < w, x.testBit (i + k)

theorem Smeared.refl (x : ℕ) : Smeared x 1 x := by
  intro i
  simp

/-- One step doubles the width. -/
theorem Smeared.step {w : ℕ} (h : Smeared x w y) : Smeared x (2 * w) (y ||| y >>> w) := by
  intro i
  rw [Nat.testBit_or, Bool.or_eq_true, Nat.testBit_shiftRight, h, h]
  constructor
  · rintro (⟨k, hk, hx⟩ | ⟨k, hk, hx⟩)
    · exact ⟨k, by omega, hx⟩
    · exact ⟨w + k, by omega, by rwa [show i + (w + k) = w + i + k by omega]⟩
  · rintro ⟨k, hk, hx⟩
    by_cases hkw : k < w
    · exact .inl ⟨k, hkw, hx⟩
    · exact .inr ⟨k - w, by omega, by rwa [show w + i + (k - w) = i + k by omega]⟩

/-- A number smeared over its whole width is all ones from the highest bit down. -/
theorem Smeared.eq_two_pow_sub_one {w : ℕ} (h : Smeared x w y) (hx : x ≠ 0) (hw : x.log2 < w) :
    y = 2 ^ (x.log2 + 1) - 1 := by
  refine Nat.eq_of_testBit_eq fun i => ?_
  rw [Nat.testBit_two_pow_sub_one, Bool.eq_iff_iff, h i, decide_eq_true_eq]
  constructor
  · rintro ⟨k, -, hbit⟩
    by_contra hge
    have hlt : x < 2 ^ (i + k) :=
      Nat.lt_log2_self.trans_le (Nat.pow_le_pow_right (by omega) (by omega))
    rw [Nat.testBit_lt_two_pow hlt] at hbit
    cases hbit
  · intro hi
    refine ⟨x.log2 - i, by omega, ?_⟩
    rw [show i + (x.log2 - i) = x.log2 by omega]
    exact Nat.testBit_log2 hx

end TopBit
