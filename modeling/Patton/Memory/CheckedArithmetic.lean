import Patton.Library.UnsignedArithmetic
import Patton.Memory.Arithmetic

/-!
# Checked arithmetic of each width

The templates of `detail/arithmetic.hpp` for two unsigned types, of any width. The result
has their `std::common_type_t`: the type itself if there is only one, else the wider of the
two, unless both are narrower than `int` and are promoted to it. Of the values of `int` only
those that are not negative occur, which are the numbers with 31 bits. An argument has the
same value in the common type, and in the type that an operator promotes it to.
-/

namespace Patton.Memory.Unsigned

open UnsignedArithmetic RoundUp

structure ArithmeticResult (w : ℕ) where
  value : BitVec w
  ec : Errc
  deriving DecidableEq

/-- The number of bits for the values of `std::common_type_t` which are not negative. -/
def commonWidth (u v : ℕ) : ℕ := if u ≠ v ∧ max u v < 32 then 31 else max u v

section

variable {m : Type → Type} [Monad m] (op : Operators m) {u v : ℕ}

def tryMultiplyUnsigned (a : BitVec u) (b : BitVec v) : m (ArithmeticResult (commonWidth u v)) := do
  let a := a.setWidth (commonWidth u v)
  let b := b.setWidth (commonWidth u v)
  let tooLarge ← andAlso (b > 0) do
    let bound ← op.div (BitVec.allOnes (commonWidth u v)) b
    pure (decide (a > bound))
  if tooLarge then pure ⟨0#_, .valueTooLarge⟩
  else do
    let product ← op.mul a b
    pure ⟨product, .none⟩

def tryCeili (x : BitVec u) (d : BitVec v) : m (ArithmeticResult (commonWidth u v)) :=
  if x = 0#u then pure ⟨0#_, .none⟩
  else do
    let pred ← op.sub x 1#u
    let rest ← op.mod (pred.setWidth (commonWidth u v)) (d.setWidth (commonWidth u v))
    let distance ← op.sub (d.setWidth (commonWidth u v)) rest
    let dx ← op.sub distance 1#_
    let bound ← op.sub (BitVec.allOnes (commonWidth u v)) dx
    if x.setWidth (commonWidth u v) > bound then pure ⟨0#_, .valueTooLarge⟩
    else do
      let sum ← op.add (x.setWidth (commonWidth u v)) dx
      pure ⟨sum, .none⟩

end

variable {u v : ℕ}

theorem tryMultiplyUnsigned_agrees (a : BitVec u) (b : BitVec v) :
    Agrees (tryMultiplyUnsigned wrapping a b) (tryMultiplyUnsigned exact a b) := by
  refine .bind (.andAlso (.bind (.div _ _) fun bound => .pure _)) fun tooLarge => ?_
  exact .ite (.pure _) (.bind (.mul _ _) fun product => .pure _)

theorem tryCeili_agrees (x : BitVec u) (d : BitVec v) :
    Agrees (tryCeili wrapping x d) (tryCeili exact x d) := by
  refine .ite (.pure _) (.bind (.sub _ _) fun pred => .bind (.mod _ _) fun rest =>
    .bind (.sub _ _) fun distance => .bind (.sub _ _) fun dx => .bind (.sub _ _) fun bound => ?_)
  exact .ite (.pure _) (.bind (.add _ _) fun sum => .pure _)

/-- A number as a checked result, if it is a value of the type. -/
def checked (w n : ℕ) : ArithmeticResult w :=
  if n < 2 ^ w then ⟨BitVec.ofNat w n, .none⟩ else ⟨0#w, .valueTooLarge⟩

/-- The common type holds the values of both types. -/
theorem max_le_commonWidth (u v : ℕ) : max u v ≤ commonWidth u v := by
  rw [commonWidth]
  split <;> omega

theorem toNat_setWidth_left (a : BitVec u) (v : ℕ) :
    (a.setWidth (commonWidth u v)).toNat = a.toNat := by
  have hle := (le_max_left u v).trans (max_le_commonWidth u v)
  rw [BitVec.toNat_setWidth]
  exact Nat.mod_eq_of_lt (a.isLt.trans_le (Nat.pow_le_pow_right (by omega) hle))

theorem toNat_setWidth_right (u : ℕ) (b : BitVec v) :
    (b.setWidth (commonWidth u v)).toNat = b.toNat := by
  have hle := (le_max_right u v).trans (max_le_commonWidth u v)
  rw [BitVec.toNat_setWidth]
  exact Nat.mod_eq_of_lt (b.isLt.trans_le (Nat.pow_le_pow_right (by omega) hle))

theorem checked_of_toNat_eq {w n : ℕ} {z : BitVec w} (h : z.toNat = n) :
    checked w n = ⟨z, .none⟩ := by
  subst h
  rw [checked, if_pos z.isLt, BitVec.ofNat_toNat, BitVec.setWidth_eq]

theorem checked_of_le {w n : ℕ} (h : 2 ^ w ≤ n) : checked w n = ⟨0#w, .valueTooLarge⟩ :=
  if_neg (by omega)

/-- No operator of `try_multiply_unsigned` wraps. -/
theorem tryMultiplyUnsigned_exact (a : BitVec u) (b : BitVec v) :
    tryMultiplyUnsigned exact a b = some (checked (commonWidth u v) (a.toNat * b.toNat)) := by
  have hpow := Nat.two_pow_pos (commonWidth u v)
  rw [← toNat_setWidth_left a v, ← toNat_setWidth_right u b]
  simp only [tryMultiplyUnsigned, andAlso]
  generalize a.setWidth (commonWidth u v) = a'
  generalize b.setWidth (commonWidth u v) = b'
  by_cases hb : b' > 0
  · have hpos : 0 < b'.toNat := hb
    obtain ⟨bound, hdiv, hbound⟩ := exists_exact_div (x := BitVec.allOnes (commonWidth u v)) hpos
    rw [BitVec.toNat_allOnes] at hbound
    have hiff : a' > bound ↔ 2 ^ commonWidth u v ≤ a'.toNat * b'.toNat := by
      rw [gt_iff_lt, BitVec.lt_def, hbound, Nat.div_lt_iff_lt_mul hpos]
      omega
    rw [if_pos hb, hdiv]
    simp only [Option.pure_def, Option.bind_eq_bind, Option.bind_some, decide_eq_true_eq]
    by_cases h : 2 ^ commonWidth u v ≤ a'.toNat * b'.toNat
    · rw [if_pos (hiff.2 h), checked_of_le h]
    · obtain ⟨product, hmul, hproduct⟩ := exists_exact_mul (not_le.1 h)
      rw [if_neg (h ∘ hiff.1), hmul, checked_of_toNat_eq hproduct]
      rfl
  · have hzero : b'.toNat = 0 := Nat.eq_zero_of_not_pos hb
    obtain ⟨product, hmul, hproduct⟩ :=
      exists_exact_mul (x := a') (y := b') (by rw [hzero]; exact hpow)
    rw [if_neg hb, checked_of_toNat_eq hproduct]
    simp only [Option.pure_def, Option.bind_eq_bind, Option.bind_some]
    rw [if_neg Bool.false_ne_true, hmul]
    rfl

theorem toNat_one {w : ℕ} (h : 1 < 2 ^ w) : (1#w).toNat = 1 := by
  rw [BitVec.toNat_ofNat, Nat.mod_eq_of_lt h]

/-- The distance from `x` to the next multiple of `d`, where `pred` is `x - 1`. -/
theorem exists_exact_distance {w : ℕ} (pred : BitVec w) {d : BitVec w} (hd : 0 < d.toNat) :
    ∃ rest distance dx, exact.mod pred d = some rest ∧ exact.sub d rest = some distance ∧
      exact.sub distance 1#w = some dx ∧ dx.toNat = d.toNat - pred.toNat % d.toNat - 1 := by
  have hlt := d.isLt
  have hone : (1#w).toNat = 1 := toNat_one (by omega)
  have hmod := Nat.mod_lt pred.toNat hd
  obtain ⟨rest, hrestEq, hrest⟩ := exists_exact_mod (x := pred) hd
  obtain ⟨distance, hdistanceEq, hdistance⟩ := exists_exact_sub (x := d) (y := rest) (by omega)
  obtain ⟨dx, hdxEq, hdx⟩ := exists_exact_sub (x := distance) (y := 1#w) (by omega)
  exact ⟨rest, distance, dx, hrestEq, hdistanceEq, hdxEq, by omega⟩

/-- The comparison finds out whether the sum is too large. -/
theorem exists_exact_bound {w : ℕ} (x dx : BitVec w) :
    ∃ bound, exact.sub (BitVec.allOnes w) dx = some bound ∧
      (if x > bound then some ⟨0#w, .valueTooLarge⟩
        else (exact.add x dx).bind fun sum => some ⟨sum, .none⟩) =
          some (checked w (x.toNat + dx.toNat)) := by
  have hx := x.isLt
  have hdx := dx.isLt
  obtain ⟨bound, hboundEq, hbound⟩ :=
    exists_exact_sub (x := BitVec.allOnes w) (y := dx) (by rw [BitVec.toNat_allOnes]; omega)
  rw [BitVec.toNat_allOnes] at hbound
  refine ⟨bound, hboundEq, ?_⟩
  have hiff : x > bound ↔ 2 ^ w ≤ x.toNat + dx.toNat := by
    rw [gt_iff_lt, BitVec.lt_def, hbound]
    omega
  by_cases h : 2 ^ w ≤ x.toNat + dx.toNat
  · rw [if_pos (hiff.2 h), checked_of_le h]
  · obtain ⟨sum, hsumEq, hsum⟩ := exists_exact_add (not_le.1 h)
    rw [if_neg (h ∘ hiff.1), hsumEq, checked_of_toNat_eq hsum]
    rfl

/-- No operator of `try_ceili` wraps. -/
theorem tryCeili_exact (x : BitVec u) {d : BitVec v} (hd : 0 < d.toNat) :
    tryCeili exact x d = some (checked (commonWidth u v) (roundUp x.toNat d.toNat)) := by
  rw [tryCeili]
  by_cases hx : x = 0#u
  · subst hx
    have hzero : (0#(commonWidth u v)).toNat = roundUp (0#u).toNat d.toNat := by
      rw [BitVec.toNat_zero, BitVec.toNat_zero, roundUp_zero]
    rw [if_pos rfl, checked_of_toNat_eq hzero]
    rfl
  · have hpos : 0 < x.toNat := by
      refine Nat.pos_of_ne_zero fun h => hx (BitVec.eq_of_toNat_eq ?_)
      rw [h, BitVec.toNat_zero]
    have hlt := x.isLt
    have hone : (1#u).toNat = 1 := toNat_one (by omega)
    obtain ⟨pred, hpredEq, hpred⟩ := exists_exact_sub (x := x) (y := 1#u) (by omega)
    have hd' : 0 < (d.setWidth (commonWidth u v)).toNat := by rwa [toNat_setWidth_right]
    obtain ⟨rest, distance, dx, hrest, hdistance, hdxEq, hdx⟩ :=
      exists_exact_distance (pred.setWidth (commonWidth u v)) hd'
    obtain ⟨bound, hbound, hsum⟩ := exists_exact_bound (x.setWidth (commonWidth u v)) dx
    rw [toNat_setWidth_left, toNat_setWidth_right, hpred, hone] at hdx
    rw [toNat_setWidth_left, hdx, ← roundUp_eq_add hd hpos] at hsum
    simp only [if_neg hx, hpredEq, hrest, hdistance, hdxEq, hbound, Option.pure_def,
      Option.bind_eq_bind, Option.bind_some]
    exact hsum

/-- The result of an evaluation, where nothing has wrapped, is the exact number `n`, or
reports that the type is too small for it. -/
structure Exact {w : ℕ} (wrapped : ArithmeticResult w) (unwrapped : Option (ArithmeticResult w))
    (n : ℕ) : Prop where
  noWrap : unwrapped = some wrapped
  valueTooLarge_iff : wrapped.ec = .valueTooLarge ↔ 2 ^ w - 1 < n
  value_eq : wrapped.ec ≠ .valueTooLarge → wrapped.ec = .none ∧ wrapped.value.toNat = n

theorem exact_checked (w n : ℕ) : Exact (checked w n) (some (checked w n)) n := by
  have hpow := Nat.two_pow_pos w
  by_cases h : n < 2 ^ w
  · have hchecked : checked w n = ⟨BitVec.ofNat w n, .none⟩ := if_pos h
    rw [hchecked]
    refine ⟨rfl, ⟨fun hec => ?_, fun hlt => ?_⟩, fun _ => ⟨rfl, ?_⟩⟩
    · cases hec
    · omega
    · rw [BitVec.toNat_ofNat, Nat.mod_eq_of_lt h]
  · rw [checked_of_le (not_lt.1 h)]
    exact ⟨rfl, ⟨fun _ => by omega, fun _ => rfl⟩, fun hec => absurd rfl hec⟩

theorem tryMultiplyUnsigned_wrapping (a : BitVec u) (b : BitVec v) :
    Id.run (tryMultiplyUnsigned wrapping a b) = checked (commonWidth u v) (a.toNat * b.toNat) :=
  tryMultiplyUnsigned_agrees a b _ (tryMultiplyUnsigned_exact a b)

theorem tryCeili_wrapping (x : BitVec u) {d : BitVec v} (hd : 0 < d.toNat) :
    Id.run (tryCeili wrapping x d) = checked (commonWidth u v) (roundUp x.toNat d.toNat) :=
  tryCeili_agrees x d _ (tryCeili_exact x hd)

/-- Both functions are exact, for all widths: the product, and the least multiple of `d`
from `x` on. -/
theorem checkedArithmetic_exact :
    (∀ (u v : ℕ) (a : BitVec u) (b : BitVec v),
      Exact (Id.run (tryMultiplyUnsigned wrapping a b)) (tryMultiplyUnsigned exact a b)
        (a.toNat * b.toNat)) ∧
    ∀ (u v : ℕ) (x : BitVec u) (d : BitVec v), 1 ≤ d.toNat →
      ∃ n, IsLeast {y | d.toNat ∣ y ∧ x.toNat ≤ y} n ∧
        Exact (Id.run (tryCeili wrapping x d)) (tryCeili exact x d) n := by
  refine ⟨fun u v a b => ?_, fun u v x d hd => ⟨_, isLeast_roundUp hd _, ?_⟩⟩
  · rw [tryMultiplyUnsigned_wrapping, tryMultiplyUnsigned_exact]
    exact exact_checked _ _
  · rw [tryCeili_wrapping x hd, tryCeili_exact x hd]
    exact exact_checked _ _

/-- The least multiple of 7 from 250 on is a value of `std::uint8_t`. -/
theorem byte_checkedArithmetic_exact :
    ∃ n, IsLeast {y | 7 ∣ y ∧ 250 ≤ y} n ∧
      Exact (Id.run (tryCeili wrapping 250#8 7#8)) (tryCeili exact 250#8 7#8) n :=
  checkedArithmetic_exact.2 8 8 250#8 7#8 (by decide)

/-- A product that `std::uint16_t` cannot hold, but `int` can -/
example : (Id.run (tryMultiplyUnsigned wrapping 250#8 300#16)).value.toNat = 75000 := by decide

theorem checked_sixtyFour (n : ℕ) :
    Memory.checked n = ⟨(checked 64 n).value.toNat, (checked 64 n).ec⟩ := by
  by_cases h : n < 2 ^ 64
  · have hle : n ≤ sizeMax := by
      rw [sizeMax]
      omega
    rw [Memory.checked_of_le hle, checked_of_toNat_eq (z := BitVec.ofNat 64 n)
      (by rw [BitVec.toNat_ofNat, Nat.mod_eq_of_lt h]), BitVec.toNat_ofNat, Nat.mod_eq_of_lt h]
  · have hlt : sizeMax < n := by
      rw [sizeMax]
      omega
    rw [Memory.checked_of_lt hlt, checked_of_le (not_lt.1 h)]
    rfl

theorem tryMultiplyUnsigned_sixtyFour (a b : BitVec 64) :
    Memory.tryMultiplyUnsigned a.toNat b.toNat =
      ⟨(Id.run (tryMultiplyUnsigned wrapping a b)).value.toNat,
        (Id.run (tryMultiplyUnsigned wrapping a b)).ec⟩ := by
  rw [Memory.tryMultiplyUnsigned_eq, checked_sixtyFour, tryMultiplyUnsigned_wrapping]
  rfl

theorem tryCeili_sixtyFour (x : BitVec 64) {d : BitVec 64} (hd : 0 < d.toNat) :
    Memory.tryCeili x.toNat d.toNat =
      ⟨(Id.run (tryCeili wrapping x d)).value.toNat, (Id.run (tryCeili wrapping x d)).ec⟩ := by
  rw [Memory.tryCeili_eq hd, checked_sixtyFour, tryCeili_wrapping x hd]
  rfl

end Patton.Memory.Unsigned
