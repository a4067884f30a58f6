import Patton.Library.RoundUp

/-!
# Checked arithmetic

The two checked operations of `detail/arithmetic.hpp` for `std::size_t`. An
operation that overflows reports an error and has the value `0`.
-/

namespace Patton.Memory

open RoundUp

/-- The largest value of `std::size_t`, i.e. `std::size_t(-1)`. -/
def sizeMax : ℕ := 2 ^ 64 - 1

/-- `std::errc` as far as it is used here. -/
inductive Errc
  | none
  | valueTooLarge
  deriving DecidableEq

structure ArithmeticResult where
  value : ℕ
  ec : Errc
  deriving DecidableEq

def tryMultiplyUnsigned (a b : ℕ) : ArithmeticResult :=
  if b > 0 ∧ a > sizeMax / b then ⟨0, .valueTooLarge⟩ else ⟨a * b % 2 ^ 64, .none⟩

def tryCeili (x d : ℕ) : ArithmeticResult :=
  if x = 0 then ⟨0, .none⟩
  else
    let dx := d - (x - 1) % d - 1
    if x > sizeMax - dx then ⟨0, .valueTooLarge⟩ else ⟨x + dx, .none⟩

/-- A checked result is the exact value, if this fits. -/
def checked (n : ℕ) : ArithmeticResult := if n ≤ sizeMax then ⟨n, .none⟩ else ⟨0, .valueTooLarge⟩

theorem checked_of_le {n : ℕ} (h : n ≤ sizeMax) : checked n = ⟨n, .none⟩ := if_pos h

theorem checked_of_lt {n : ℕ} (h : sizeMax < n) : checked n = ⟨0, .valueTooLarge⟩ :=
  if_neg (by omega)

theorem checked_ec {n : ℕ} : (checked n).ec = .none ↔ n ≤ sizeMax := by
  rw [checked]
  split <;> simp_all

theorem tryMultiplyUnsigned_eq (a b : ℕ) : tryMultiplyUnsigned a b = checked (a * b) := by
  rw [tryMultiplyUnsigned, checked]
  rcases Nat.eq_zero_or_pos b with rfl | hb
  · simp
  · have hiff : a > sizeMax / b ↔ ¬ a * b ≤ sizeMax := by
      rw [not_le, gt_iff_lt, Nat.div_lt_iff_lt_mul hb]
    by_cases h : a * b ≤ sizeMax
    · have hlt : a * b < 2 ^ 64 := by
        rw [sizeMax] at h
        omega
      rw [if_neg (by tauto), if_pos h, Nat.mod_eq_of_lt hlt]
    · rw [if_pos ⟨hb, hiff.2 h⟩, if_neg h]

theorem tryCeili_eq {d : ℕ} (hd : 0 < d) (x : ℕ) :
    tryCeili x d = checked (roundUp x d) := by
  rw [tryCeili]
  rcases Nat.eq_zero_or_pos x with rfl | hpos
  · simp [checked]
  · have hmod := Nat.mod_lt (x - 1) hd
    rw [if_neg hpos.ne', checked, roundUp_eq_add hd hpos]
    by_cases h : x + (d - (x - 1) % d - 1) ≤ sizeMax
    · rw [if_pos h]
      exact if_neg (by omega)
    · rw [if_neg h]
      exact if_pos (by omega)

end Patton.Memory
