import Mathlib

/-!
# Unsigned arithmetic, wrapping and exact

A program over unsigned integers can be evaluated in two ways. With the wrapping
operators, which are those of a machine, every result is taken modulo the range of its
type. With the exact operators there is no result where it would have to be changed for
this, or where a divisor is zero. A program that has an exact result wraps nowhere.
-/

namespace UnsignedArithmetic

structure Operators (m : Type → Type) where
  add : ∀ {w : ℕ}, BitVec w → BitVec w → m (BitVec w)
  sub : ∀ {w : ℕ}, BitVec w → BitVec w → m (BitVec w)
  mul : ∀ {w : ℕ}, BitVec w → BitVec w → m (BitVec w)
  div : ∀ {w : ℕ}, BitVec w → BitVec w → m (BitVec w)
  mod : ∀ {w : ℕ}, BitVec w → BitVec w → m (BitVec w)

/-- The operators that take their results modulo the range of the type. -/
def wrapping : Operators Id where
  add x y := x + y
  sub x y := x - y
  mul x y := x * y
  div x y := x / y
  mod x y := x % y

/-- The operators that have no result if it would not be exact. -/
def exact : Operators Option where
  add x y := if x.uaddOverflow y then none else some (x + y)
  sub x y := if x.usubOverflow y then none else some (x - y)
  mul x y := if x.umulOverflow y then none else some (x * y)
  div x y := if y = 0 then none else some (x / y)
  mod x y := if y = 0 then none else some (x % y)

/-- `c && x`, where `x` is only evaluated if `c` holds. -/
def andAlso {m : Type → Type} [Monad m] (c : Prop) [Decidable c] (x : m Bool) : m Bool :=
  if c then x else pure false

variable {β γ : Type} {w : ℕ} {x y : BitVec w}

theorem exists_exact_add (h : x.toNat + y.toNat < 2 ^ w) :
    ∃ z, exact.add x y = some z ∧ z.toNat = x.toNat + y.toNat := by
  refine ⟨x + y, if_neg ?_, ?_⟩
  · simpa [BitVec.uaddOverflow] using h
  · rw [BitVec.toNat_add, Nat.mod_eq_of_lt h]

theorem exists_exact_sub (h : y.toNat ≤ x.toNat) :
    ∃ z, exact.sub x y = some z ∧ z.toNat = x.toNat - y.toNat := by
  refine ⟨x - y, if_neg ?_, BitVec.toNat_sub_of_le h⟩
  simpa [BitVec.usubOverflow] using h

theorem exists_exact_mul (h : x.toNat * y.toNat < 2 ^ w) :
    ∃ z, exact.mul x y = some z ∧ z.toNat = x.toNat * y.toNat := by
  refine ⟨x * y, if_neg ?_, ?_⟩
  · simpa [BitVec.umulOverflow] using h
  · rw [BitVec.toNat_mul, Nat.mod_eq_of_lt h]

theorem ne_zero_of_toNat_pos (h : 0 < y.toNat) : y ≠ 0 := by
  rintro rfl
  exact absurd h (by simp)

theorem exists_exact_div (h : 0 < y.toNat) :
    ∃ z, exact.div x y = some z ∧ z.toNat = x.toNat / y.toNat :=
  ⟨x / y, if_neg (ne_zero_of_toNat_pos h), BitVec.toNat_udiv⟩

theorem exists_exact_mod (h : 0 < y.toNat) :
    ∃ z, exact.mod x y = some z ∧ z.toNat = x.toNat % y.toNat :=
  ⟨x % y, if_neg (ne_zero_of_toNat_pos h), BitVec.toNat_umod⟩

/-- An exact result is also the result with wrapping operators. -/
def Agrees (a : Id β) (b : Option β) : Prop := ∀ r, b = some r → a.run = r

theorem Agrees.pure (r : β) : Agrees (pure r) (pure r) := by
  rintro r' h
  cases h
  rfl

theorem Agrees.bind {a : Id β} {b : Option β} {f : β → Id γ} {g : β → Option γ}
    (h : Agrees a b) (hf : ∀ r, Agrees (f r) (g r)) : Agrees (a >>= f) (b >>= g) := by
  rintro r hr
  obtain ⟨r', hb, hg⟩ := Option.bind_eq_some_iff.1 hr
  obtain rfl := h r' hb
  exact hf _ r hg

theorem Agrees.ite {c : Prop} [Decidable c] {a a' : Id β} {b b' : Option β}
    (h : Agrees a b) (h' : Agrees a' b') :
    Agrees (if c then a else a') (if c then b else b') := by
  split
  · exact h
  · exact h'

theorem Agrees.andAlso {c : Prop} [Decidable c] {a : Id Bool} {b : Option Bool}
    (h : Agrees a b) : Agrees (andAlso c a) (andAlso c b) :=
  h.ite (.pure false)

theorem Agrees.ofIte {c : Prop} [Decidable c] (r : β) :
    Agrees (Pure.pure r) (if c then none else some r) := by
  intro r' h
  split at h
  · cases h
  · cases h
    rfl

theorem Agrees.add (x y : BitVec w) : Agrees (wrapping.add x y) (exact.add x y) :=
  .ofIte (x + y)

theorem Agrees.sub (x y : BitVec w) : Agrees (wrapping.sub x y) (exact.sub x y) :=
  .ofIte (x - y)

theorem Agrees.mul (x y : BitVec w) : Agrees (wrapping.mul x y) (exact.mul x y) :=
  .ofIte (x * y)

theorem Agrees.div (x y : BitVec w) : Agrees (wrapping.div x y) (exact.div x y) :=
  .ofIte (x / y)

theorem Agrees.mod (x y : BitVec w) : Agrees (wrapping.mod x y) (exact.mod x y) :=
  .ofIte (x % y)

end UnsignedArithmetic
