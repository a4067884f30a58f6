import Mathlib

/-!
# Rounding up to a multiple

`roundUp x d` is the least multiple of `d` that is not below `x`.
-/

namespace RoundUp

variable {x y d e : ℕ}

def roundUp (x d : ℕ) : ℕ := x ⌈/⌉ d * d

theorem dvd_roundUp (x d : ℕ) : d ∣ roundUp x d := Dvd.intro_left _ rfl

theorem le_roundUp (hd : 0 < d) (x : ℕ) : x ≤ roundUp x d := by
  rw [roundUp, Nat.mul_comm]
  exact (ceilDiv_le_iff_le_mul hd).1 le_rfl

/-- A multiple of `d` is not below `x` if it is not below the rounded `x`. -/
theorem roundUp_le_iff (hd : 0 < d) (hy : d ∣ y) : roundUp x d ≤ y ↔ x ≤ y := by
  obtain ⟨k, rfl⟩ := hy
  rw [roundUp, Nat.mul_comm, Nat.mul_le_mul_left_iff hd, ceilDiv_le_iff_le_mul hd]

theorem isLeast_roundUp (hd : 0 < d) (x : ℕ) : IsLeast {y | d ∣ y ∧ x ≤ y} (roundUp x d) :=
  ⟨⟨dvd_roundUp x d, le_roundUp hd x⟩, fun _ hy => (roundUp_le_iff hd hy.1).2 hy.2⟩

theorem roundUp_lt (hd : 0 < d) (x : ℕ) : roundUp x d < x + d := by
  rw [roundUp, Nat.ceilDiv_eq_add_pred_div]
  have := Nat.div_mul_le_self (x + d - 1) d
  omega

@[simp] theorem roundUp_zero (d : ℕ) : roundUp 0 d = 0 := by
  rw [roundUp, zero_ceilDiv, Nat.zero_mul]

theorem roundUp_pos (hd : 0 < d) (hx : 0 < x) : 0 < roundUp x d :=
  hx.trans_le (le_roundUp hd x)

theorem roundUp_eq_add (hd : 0 < d) (hx : 0 < x) : roundUp x d = x + (d - (x - 1) % d - 1) := by
  obtain ⟨y, rfl⟩ : ∃ y, x = y + 1 := ⟨x - 1, by omega⟩
  have hmod := Nat.mod_lt y hd
  have hdiv := Nat.div_add_mod y d
  rw [roundUp, Nat.ceilDiv_eq_add_pred_div, show y + 1 + d - 1 = y + d by omega,
    Nat.add_div_right _ hd, Nat.succ_mul, Nat.mul_comm, Nat.add_sub_cancel]
  omega

theorem roundUp_le_roundUp (hd : 0 < d) (he : 0 < e) (h : d ∣ e) (x : ℕ) :
    roundUp x d ≤ roundUp x e :=
  (roundUp_le_iff hd (h.trans (dvd_roundUp x e))).2 (le_roundUp he x)

end RoundUp
