import Patton.Library.TopBit
import Patton.Memory.Arithmetic

/-!
# Alignment masks

An alignment is given as a mask: ordinary bits, which are alignments in bytes, and
three flags for the alignments that are only known at run time. The static query
compares masks, the dynamic one looks the flags up first.
-/

namespace Patton.Memory

open TopBit

/-- The operator `~` of `std::size_t`. -/
def complement (x : ℕ) : ℕ := sizeMax - x

def largePageAlignment : ℕ := sizeMax &&& complement (sizeMax >>> 1)

def pageAlignment : ℕ := (sizeMax &&& complement (sizeMax >>> 1)) >>> 1

def cacheLineAlignment : ℕ := (sizeMax &&& complement (sizeMax >>> 1)) >>> 2

def specialAlignments : ℕ := sizeMax &&& complement (sizeMax >>> 3)

def floor2p (x : ℕ) : ℕ :=
  let x := x ||| x >>> 1
  let x := x ||| x >>> 2
  let x := x ||| x >>> 4
  let x := x ||| x >>> 8
  let x := x ||| x >>> 16
  let x := x ||| x >>> 32
  let x := x ||| x >>> 0
  ((x + 1) % 2 ^ 64) >>> 1

def rawAlignmentInBytes (a : ℕ) : ℕ := max 1 (floor2p a)

/-- The sizes that the library asks the machine and the compiler for. `largePageSize` is
`0` if large pages are not supported. `interferenceSize` is the lower bound of the cache
line size that is known at compile time. -/
structure HardwareSizes where
  interferenceSize : ℕ
  cacheLineSize : ℕ
  pageSize : ℕ
  largePageSize : ℕ

/-- Sizes as they are on a real machine: all of them are below the flags, and each is a
multiple of the one before. -/
structure Hardware extends HardwareSizes where
  interferenceSize_le : interferenceSize ≤ cacheLineSize
  pageSize_pos : 0 < pageSize
  cacheLineSize_dvd : cacheLineSize ∣ pageSize
  pageSize_dvd : pageSize ∣ largePageSize
  pageSize_lt : pageSize < 2 ^ 61
  largePageSize_lt : largePageSize < 2 ^ 61

instance : Coe Hardware HardwareSizes := ⟨Hardware.toHardwareSizes⟩

structure HardwareSizes.BelowFlags (hw : HardwareSizes) : Prop where
  cacheLineSize_lt : hw.cacheLineSize < 2 ^ 61
  pageSize_lt : hw.pageSize < 2 ^ 61
  largePageSize_lt : hw.largePageSize < 2 ^ 61

section

variable (hw : HardwareSizes)

def providesStaticAlignment (alignmentProvided alignmentRequested : ℕ) : Bool :=
  let basicAlignmentProvided := alignmentProvided &&& complement specialAlignments
  let basicAlignmentRequested := alignmentRequested &&& complement specialAlignments
  let basicAlignmentProvided :=
    if alignmentProvided &&& specialAlignments ≠ 0 then
      basicAlignmentProvided ||| hw.interferenceSize
    else basicAlignmentProvided
  decide (rawAlignmentInBytes basicAlignmentProvided ≥
      rawAlignmentInBytes basicAlignmentRequested) &&
    decide (alignmentProvided &&& specialAlignments ≥ alignmentRequested &&& specialAlignments)

def lookupSpecialAlignments (a : ℕ) : ℕ :=
  let a₁ := if a &&& largePageAlignment ≠ 0 then a ||| hw.largePageSize else a
  let a₂ :=
    if a₁ &&& (largePageAlignment ||| pageAlignment) ≠ 0 then a₁ ||| hw.pageSize else a₁
  let a₃ := if a₂ &&& cacheLineAlignment ≠ 0 then a₂ ||| hw.cacheLineSize else a₂
  a₃ &&& complement (largePageAlignment ||| pageAlignment ||| cacheLineAlignment)

def alignmentInBytes (a : ℕ) : ℕ := max 1 (floor2p (lookupSpecialAlignments hw a))

def providesDynamicAlignment (alignmentProvided alignmentRequested : ℕ) : Bool :=
  decide (alignmentInBytes hw alignmentProvided ≥ alignmentInBytes hw alignmentRequested)

variable {hw} in
theorem alignmentInBytes_pos (a : ℕ) : 0 < alignmentInBytes hw a :=
  lt_of_lt_of_le Nat.one_pos (le_max_left _ _)

end

variable {hw : Hardware} {x a p r : ℕ}

theorem log2_lt_of_lt (h : x < 2 ^ 64) : x.log2 < 64 := log2_lt_of_lt_two_pow (by omega) h

/-- Below the highest bit, `floor_2p` keeps the highest bit of its argument. -/
theorem floor2p_eq (hx : x ≠ 0) (h : x < 2 ^ 63) : floor2p x = 2 ^ x.log2 := by
  have hlog : x.log2 < 63 := log2_lt_of_lt_two_pow (by omega) h
  have hsmear := (Smeared.refl x).step.step.step.step.step.step
  have hones := hsmear.eq_two_pow_sub_one hx (by omega)
  have hpow : 2 ^ (x.log2 + 1) ≤ 2 ^ 63 := Nat.pow_le_pow_right (by omega) (by omega)
  have hpos : 0 < 2 ^ (x.log2 + 1) := Nat.two_pow_pos _
  simp only [Nat.reduceMul] at hones
  simp only [floor2p, hones, Nat.shiftRight_zero, Nat.or_self]
  rw [Nat.sub_add_cancel hpos, Nat.mod_eq_of_lt (by omega), Nat.shiftRight_eq_div_pow, pow_succ]
  omega

theorem max_floor2p (h : x < 2 ^ 63) : max 1 (floor2p x) = 2 ^ x.log2 := by
  rcases Nat.eq_zero_or_pos x with rfl | hx
  · decide
  · rw [floor2p_eq hx.ne' h, max_eq_right Nat.one_le_two_pow]

theorem rawAlignmentInBytes_eq (h : x < 2 ^ 63) : rawAlignmentInBytes x = 2 ^ x.log2 :=
  max_floor2p h

/-- The part of a mask above the ordinary bits. -/
def flags (a : ℕ) : ℕ := a / 2 ^ 61

theorem and_mul_two_pow (a m : ℕ) : a &&& m * 2 ^ 61 = (flags a &&& m) * 2 ^ 61 := by
  refine Nat.eq_of_testBit_eq fun i => ?_
  rw [flags, Nat.testBit_and, Nat.testBit_mul_two_pow, Nat.testBit_mul_two_pow, Nat.testBit_and,
    Nat.testBit_div_two_pow]
  by_cases hi : 61 ≤ i
  · simp [hi, Nat.sub_add_cancel hi]
  · simp [hi]

theorem and_mul_two_pow_ne_zero (a m : ℕ) : a &&& m * 2 ^ 61 ≠ 0 ↔ flags a &&& m ≠ 0 := by
  rw [and_mul_two_pow]
  simp

theorem flags_lt (h : a < 2 ^ 64) : flags a < 8 := by
  rw [flags]
  omega

theorem and_specialAlignments (h : a < 2 ^ 64) : a &&& specialAlignments = flags a * 2 ^ 61 := by
  have hconst : specialAlignments = (2 ^ 3 - 1) * 2 ^ 61 := by decide
  rw [hconst, and_mul_two_pow, Nat.and_two_pow_sub_one_eq_mod, Nat.mod_eq_of_lt (flags_lt h)]

theorem and_complement_specialAlignments (a : ℕ) :
    a &&& complement specialAlignments = a % 2 ^ 61 := by
  have hconst : complement specialAlignments = 2 ^ 61 - 1 := by decide
  rw [hconst, Nat.and_two_pow_sub_one_eq_mod]

theorem and_largePageAlignment (h : a < 2 ^ 64) :
    a &&& largePageAlignment ≠ 0 ↔ 4 ≤ flags a := by
  have hconst : largePageAlignment = 4 * 2 ^ 61 := by decide
  have hlt := flags_lt h
  rw [hconst, and_mul_two_pow_ne_zero]
  interval_cases flags a <;> decide

theorem and_pageAlignment (h : a < 2 ^ 64) :
    a &&& (largePageAlignment ||| pageAlignment) ≠ 0 ↔ 2 ≤ flags a := by
  have hconst : largePageAlignment ||| pageAlignment = 6 * 2 ^ 61 := by decide
  have hlt := flags_lt h
  rw [hconst, and_mul_two_pow_ne_zero]
  interval_cases flags a <;> decide

theorem and_cacheLineAlignment (h : a < 2 ^ 64) :
    a &&& cacheLineAlignment ≠ 0 ↔ flags a % 2 = 1 := by
  have hconst : cacheLineAlignment = 1 * 2 ^ 61 := by decide
  have hlt := flags_lt h
  rw [hconst, and_mul_two_pow_ne_zero]
  interval_cases flags a <;> decide

theorem flags_or (h : x < 2 ^ 61) : flags (a ||| x) = flags a := by
  rw [flags, flags, Nat.or_div_two_pow, Nat.div_eq_of_lt h, Nat.or_zero]

theorem Hardware.cacheLineSize_le (hw : Hardware) : hw.cacheLineSize ≤ hw.pageSize :=
  Nat.le_of_dvd hw.pageSize_pos hw.cacheLineSize_dvd

theorem Hardware.belowFlags (hw : Hardware) : hw.BelowFlags :=
  ⟨hw.cacheLineSize_le.trans_lt hw.pageSize_lt, hw.pageSize_lt, hw.largePageSize_lt⟩

/-- The sizes that the flags of a mask stand for. -/
def specialSizes (hw : HardwareSizes) (f : ℕ) : ℕ :=
  ((if 4 ≤ f then hw.largePageSize else 0) ||| if 2 ≤ f then hw.pageSize else 0) |||
    if f % 2 = 1 then hw.cacheLineSize else 0

theorem ite_or (c : Prop) [Decidable c] (a x : ℕ) :
    (if c then a ||| x else a) = a ||| if c then x else 0 := by
  by_cases hc : c <;> simp [hc]

theorem ite_lt_two_pow {c : Prop} [Decidable c] {n : ℕ} (h : x < 2 ^ n) :
    (if c then x else 0) < 2 ^ n := by
  split
  · exact h
  · exact Nat.two_pow_pos _

variable {sizes : HardwareSizes}

/-- The lookup replaces the flags by the sizes they stand for. -/
theorem lookupSpecialAlignments_eq (hbelow : sizes.BelowFlags) (h : a < 2 ^ 64) :
    lookupSpecialAlignments sizes a = a % 2 ^ 61 ||| specialSizes sizes (flags a) := by
  have hlarge : (if 4 ≤ flags a then sizes.largePageSize else 0) < 2 ^ 61 :=
    ite_lt_two_pow hbelow.largePageSize_lt
  have hpage : (if 2 ≤ flags a then sizes.pageSize else 0) < 2 ^ 61 :=
    ite_lt_two_pow hbelow.pageSize_lt
  have hline : (if flags a % 2 = 1 then sizes.cacheLineSize else 0) < 2 ^ 61 :=
    ite_lt_two_pow hbelow.cacheLineSize_lt
  have hor : ∀ {x y : ℕ}, x < 2 ^ 64 → y < 2 ^ 61 → x ||| y < 2 ^ 64 :=
    fun hx hy => Nat.or_lt_two_pow hx (by omega)
  have hmask : complement (largePageAlignment ||| pageAlignment ||| cacheLineAlignment) =
      complement specialAlignments := by decide
  simp only [lookupSpecialAlignments]
  rw [hmask, and_complement_specialAlignments]
  simp only [and_largePageAlignment h, ite_or]
  rw [if_congr (and_pageAlignment (hor h hlarge)) rfl rfl, flags_or hlarge]
  rw [if_congr (and_cacheLineAlignment (hor (hor h hlarge) hpage)) rfl rfl, flags_or hpage,
    flags_or hlarge, specialSizes, Nat.or_mod_two_pow, Nat.or_mod_two_pow, Nat.or_mod_two_pow,
    Nat.mod_eq_of_lt hlarge, Nat.mod_eq_of_lt hpage, Nat.mod_eq_of_lt hline, Nat.or_assoc,
    Nat.or_assoc, Nat.or_assoc]

theorem specialSizes_lt (hbelow : sizes.BelowFlags) (f : ℕ) : specialSizes sizes f < 2 ^ 61 := by
  rw [specialSizes]
  exact Nat.or_lt_two_pow (Nat.or_lt_two_pow (ite_lt_two_pow hbelow.largePageSize_lt)
    (ite_lt_two_pow hbelow.pageSize_lt)) (ite_lt_two_pow hbelow.cacheLineSize_lt)

theorem lookupSpecialAlignments_lt (hbelow : sizes.BelowFlags) (h : a < 2 ^ 64) :
    lookupSpecialAlignments sizes a < 2 ^ 61 := by
  rw [lookupSpecialAlignments_eq hbelow h]
  exact Nat.or_lt_two_pow (Nat.mod_lt _ (Nat.two_pow_pos _)) (specialSizes_lt hbelow _)

/-- An alignment in bytes is the highest bit of what the lookup finds. -/
theorem alignmentInBytes_eq_two_pow_log2 (hbelow : sizes.BelowFlags) (h : a < 2 ^ 64) :
    alignmentInBytes sizes a = 2 ^ (lookupSpecialAlignments sizes a).log2 := by
  have hlt := lookupSpecialAlignments_lt hbelow h
  rw [alignmentInBytes, max_floor2p (by omega)]

/-- An alignment in bytes is a power of two. -/
theorem alignmentInBytes_eq (hbelow : sizes.BelowFlags) (h : a < 2 ^ 64) :
    alignmentInBytes sizes a =
      2 ^ max (a % 2 ^ 61).log2 (specialSizes sizes (flags a)).log2 := by
  rw [alignmentInBytes_eq_two_pow_log2 hbelow h, lookupSpecialAlignments_eq hbelow h, log2_or]

theorem log2_specialSizes (f : ℕ) : (specialSizes sizes f).log2 =
    max (max (if 4 ≤ f then sizes.largePageSize.log2 else 0)
        (if 2 ≤ f then sizes.pageSize.log2 else 0))
      (if f % 2 = 1 then sizes.cacheLineSize.log2 else 0) := by
  rw [specialSizes, log2_or, log2_or]
  congr 2 <;> split <;> simp

/-- More flags stand for larger sizes, and any flag for at least a cache line. -/
theorem log2_specialSizes_le {f f' : ℕ} (h : f' ≤ f) :
    (specialSizes hw f').log2 ≤ (specialSizes hw f).log2 := by
  have hline := log2_le_log2 hw.cacheLineSize_le
  rw [log2_specialSizes, log2_specialSizes]
  split_ifs <;> omega

theorem log2_interferenceSize_le {f : ℕ} (h : f ≠ 0) :
    hw.interferenceSize.log2 ≤ (specialSizes hw f).log2 := by
  have hguess := log2_le_log2 hw.interferenceSize_le
  have hline := log2_le_log2 hw.cacheLineSize_le
  rw [log2_specialSizes]
  split_ifs <;> omega

/-- What the static query says about the flags and the highest ordinary bits. -/
theorem providesStaticAlignment_iff (hguess : sizes.interferenceSize < 2 ^ 63)
    (hp : p < 2 ^ 64) (hr : r < 2 ^ 64) :
    providesStaticAlignment sizes p r = true ↔
      (r % 2 ^ 61).log2 ≤ max (p % 2 ^ 61).log2
        (if flags p ≠ 0 then sizes.interferenceSize.log2 else 0) ∧ flags r ≤ flags p := by
  have hp' : p % 2 ^ 61 < 2 ^ 63 := by omega
  have hr' : r % 2 ^ 61 < 2 ^ 63 := by omega
  have hflags : p &&& specialAlignments ≠ 0 ↔ flags p ≠ 0 := by
    rw [and_specialAlignments hp]
    omega
  have hor : (p % 2 ^ 61 ||| if flags p ≠ 0 then sizes.interferenceSize else 0) < 2 ^ 63 :=
    Nat.or_lt_two_pow hp' (ite_lt_two_pow hguess)
  have hlog : (if flags p ≠ 0 then sizes.interferenceSize else 0).log2 =
      if flags p ≠ 0 then sizes.interferenceSize.log2 else 0 := by
    split <;> simp
  simp only [providesStaticAlignment, and_complement_specialAlignments, ite_or]
  rw [if_congr hflags rfl rfl, rawAlignmentInBytes_eq hor, rawAlignmentInBytes_eq hr',
    and_specialAlignments hp, and_specialAlignments hr, log2_or, hlog]
  simp only [Bool.and_eq_true, decide_eq_true_eq, ge_iff_le]
  rw [Nat.pow_le_pow_iff_right (by omega), Nat.mul_le_mul_right_iff (Nat.two_pow_pos _)]

theorem Hardware.interferenceSize_lt (hw : Hardware) : hw.interferenceSize < 2 ^ 63 :=
  (hw.interferenceSize_le.trans hw.cacheLineSize_le).trans_lt
    (hw.pageSize_lt.trans (by decide))

/-- What is provided statically is provided dynamically. -/
theorem alignmentInBytes_dvd_of_static (hp : p < 2 ^ 64) (hr : r < 2 ^ 64)
    (h : providesStaticAlignment hw p r = true) :
    alignmentInBytes hw r ∣ alignmentInBytes hw p := by
  obtain ⟨hbasic, hflags⟩ := (providesStaticAlignment_iff hw.interferenceSize_lt hp hr).1 h
  rw [alignmentInBytes_eq hw.belowFlags hp, alignmentInBytes_eq hw.belowFlags hr]
  refine Nat.pow_dvd_pow 2 ?_
  have hspecial : (specialSizes hw (flags r)).log2 ≤ (specialSizes hw (flags p)).log2 :=
    log2_specialSizes_le hflags
  by_cases hf : flags p ≠ 0
  · have hguess : hw.interferenceSize.log2 ≤ (specialSizes hw (flags p)).log2 :=
      log2_interferenceSize_le hf
    rw [if_pos hf] at hbasic
    omega
  · rw [if_neg hf] at hbasic
    omega

theorem providesDynamicAlignment_of_static (hp : p < 2 ^ 64) (hr : r < 2 ^ 64)
    (h : providesStaticAlignment hw p r = true) : providesDynamicAlignment hw p r = true := by
  exact decide_eq_true (Nat.le_of_dvd (alignmentInBytes_pos _)
    (alignmentInBytes_dvd_of_static hp hr h))

theorem flags_or_flags (a x : ℕ) : flags (a ||| x) = flags a ||| flags x := by
  rw [flags, flags, flags, Nat.or_div_two_pow]

/-- The sizes that the flags of two masks stand for are combined. -/
theorem specialSizes_or {f f' : ℕ} (hf : f < 8) (hf' : f' < 8) :
    specialSizes sizes (f ||| f') = specialSizes sizes f ||| specialSizes sizes f' := by
  have hite : ∀ (c c' : Prop) [Decidable c] [Decidable c'] (n : ℕ),
      (if c ∨ c' then n else 0) = (if c then n else 0) ||| if c' then n else 0 := by
    intro c c' _ _ n
    by_cases hc : c <;> by_cases hc' : c' <;> simp [hc, hc']
  have hlarge : 4 ≤ f ||| f' ↔ 4 ≤ f ∨ 4 ≤ f' := by
    interval_cases f <;> interval_cases f' <;> decide
  have hpage : 2 ≤ f ||| f' ↔ 2 ≤ f ∨ 2 ≤ f' := by
    interval_cases f <;> interval_cases f' <;> decide
  have hline : (f ||| f') % 2 = 1 ↔ f % 2 = 1 ∨ f' % 2 = 1 := by
    interval_cases f <;> interval_cases f' <;> decide
  simp only [specialSizes, hlarge, hpage, hline, hite]
  ac_rfl

/-- The lookup goes through both masks. -/
theorem lookupSpecialAlignments_or (hbelow : sizes.BelowFlags) (ha : a < 2 ^ 64)
    (hx : x < 2 ^ 64) : lookupSpecialAlignments sizes (a ||| x) =
      lookupSpecialAlignments sizes a ||| lookupSpecialAlignments sizes x := by
  rw [lookupSpecialAlignments_eq hbelow (Nat.or_lt_two_pow ha hx),
    lookupSpecialAlignments_eq hbelow ha, lookupSpecialAlignments_eq hbelow hx,
    Nat.or_mod_two_pow, flags_or_flags, specialSizes_or (flags_lt ha) (flags_lt hx)]
  ac_rfl

/-- Combined masks stand for the larger one of their alignments. -/
theorem alignmentInBytes_or (hbelow : sizes.BelowFlags) (ha : a < 2 ^ 64) (hx : x < 2 ^ 64) :
    alignmentInBytes sizes (a ||| x) =
      max (alignmentInBytes sizes a) (alignmentInBytes sizes x) := by
  rw [alignmentInBytes_eq_two_pow_log2 hbelow ha, alignmentInBytes_eq_two_pow_log2 hbelow hx,
    alignmentInBytes_eq_two_pow_log2 hbelow (Nat.or_lt_two_pow ha hx),
    lookupSpecialAlignments_or hbelow ha hx, log2_or]
  exact (pow_right_mono₀ one_le_two).map_max

/-- A mask with more bits stands for a larger alignment. -/
theorem alignmentInBytes_dvd_or (hbelow : sizes.BelowFlags) (ha : a < 2 ^ 64)
    (hx : x < 2 ^ 64) : alignmentInBytes sizes a ∣ alignmentInBytes sizes (a ||| x) := by
  rw [alignmentInBytes_eq_two_pow_log2 hbelow ha,
    alignmentInBytes_eq_two_pow_log2 hbelow (Nat.or_lt_two_pow ha hx),
    lookupSpecialAlignments_or hbelow ha hx, log2_or]
  exact Nat.pow_dvd_pow 2 (le_max_left _ _)

end Patton.Memory
