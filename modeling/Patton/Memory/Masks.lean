import Patton.Memory.Alignment

/-!
# The algebra of alignment masks

Masks are combined by bitwise or. In bytes, a combined mask is the larger one of its
alignments. The static query is a preorder, but it compares the flags of two masks as
numbers, which does not always go with combining requests.
-/

namespace Patton.Memory

open TopBit

variable {sizes : HardwareSizes} {a b p q r r₁ r₂ : ℕ}

/-- The largest power of two not above a number, or `0` -/
noncomputable def largestTwoPow (x : ℕ) : ℕ := sSup {m | m ≤ x ∧ ∃ k, m = 2 ^ k}

theorem max_largestTwoPow (x : ℕ) : max 1 (largestTwoPow x) = 2 ^ x.log2 := by
  rcases Nat.eq_zero_or_pos x with rfl | hx
  · have hnone : {m : ℕ | m ≤ 0 ∧ ∃ k, m = 2 ^ k} = ∅ := by
      refine Set.eq_empty_of_forall_notMem ?_
      rintro m ⟨hle, k, rfl⟩
      have hpos := Nat.two_pow_pos k
      omega
    rw [largestTwoPow, hnone, csSup_empty]
    rfl
  · have hgreatest : IsGreatest {m | m ≤ x ∧ ∃ k, m = 2 ^ k} (2 ^ x.log2) := by
      refine ⟨⟨Nat.log2_self_le hx.ne', _, rfl⟩, ?_⟩
      rintro m ⟨hle, k, rfl⟩
      exact Nat.pow_le_pow_right (by omega) ((Nat.le_log2 hx.ne').2 hle)
    rw [largestTwoPow, hgreatest.csSup_eq, max_eq_right Nat.one_le_two_pow]

theorem two_le_flags (h : a < 2 ^ 64)
    (hflag : a &&& pageAlignment ≠ 0 ∨ a &&& largePageAlignment ≠ 0) : 2 ≤ flags a := by
  rw [← and_pageAlignment h]
  rcases hflag with hflag | hflag
  · refine fun hzero => hflag ?_
    rw [Nat.and_or_distrib_left, Nat.or_eq_zero_iff] at hzero
    exact hzero.2
  · refine fun hzero => hflag ?_
    rw [Nat.and_or_distrib_left, Nat.or_eq_zero_iff] at hzero
    exact hzero.1

/-- What `alignment_in_bytes` makes of masks. -/
structure MasksCombine (sizes : HardwareSizes) (a b : ℕ) : Prop where
  isTwoPow : ∃ k, alignmentInBytes sizes a = 2 ^ k
  eq_max_largestTwoPow :
    alignmentInBytes sizes a = max 1 (largestTwoPow (lookupSpecialAlignments sizes a))
  or_eq_max : alignmentInBytes sizes (a ||| b) =
    max (alignmentInBytes sizes a) (alignmentInBytes sizes b)
  dvd_or : alignmentInBytes sizes a ∣ alignmentInBytes sizes (a ||| b) ∧
    alignmentInBytes sizes b ∣ alignmentInBytes sizes (a ||| b)
  largePageSize_dvd : (∃ k, sizes.largePageSize = 2 ^ k) → a &&& largePageAlignment ≠ 0 →
    sizes.largePageSize ∣ alignmentInBytes sizes a
  pageSize_dvd : (∃ k, sizes.pageSize = 2 ^ k) →
    a &&& pageAlignment ≠ 0 ∨ a &&& largePageAlignment ≠ 0 →
      sizes.pageSize ∣ alignmentInBytes sizes a
  cacheLineSize_dvd : (∃ k, sizes.cacheLineSize = 2 ^ k) → a &&& cacheLineAlignment ≠ 0 →
    sizes.cacheLineSize ∣ alignmentInBytes sizes a

/-- Masks combine with bitwise or, for all sizes below the flags. -/
theorem masks_combine (hbelow : sizes.BelowFlags) (ha : a < 2 ^ 64) (hb : b < 2 ^ 64) :
    MasksCombine sizes a b where
  isTwoPow := ⟨_, alignmentInBytes_eq hbelow ha⟩
  eq_max_largestTwoPow := by
    rw [max_largestTwoPow, alignmentInBytes_eq_two_pow_log2 hbelow ha]
  or_eq_max := alignmentInBytes_or hbelow ha hb
  dvd_or := by
    refine ⟨alignmentInBytes_dvd_or hbelow ha hb, ?_⟩
    rw [Nat.or_comm]
    exact alignmentInBytes_dvd_or hbelow hb ha
  largePageSize_dvd := by
    rintro ⟨k, hk⟩ hflag
    rw [and_largePageAlignment ha] at hflag
    rw [alignmentInBytes_eq hbelow ha, log2_specialSizes, if_pos hflag, hk, Nat.log2_two_pow]
    exact Nat.pow_dvd_pow 2 (by omega)
  pageSize_dvd := by
    rintro ⟨k, hk⟩ hflag
    have hpage := two_le_flags ha hflag
    rw [alignmentInBytes_eq hbelow ha, log2_specialSizes, if_pos hpage, hk, Nat.log2_two_pow]
    exact Nat.pow_dvd_pow 2 (by omega)
  cacheLineSize_dvd := by
    rintro ⟨k, hk⟩ hflag
    rw [and_cacheLineAlignment ha] at hflag
    rw [alignmentInBytes_eq hbelow ha, log2_specialSizes, if_pos hflag, hk, Nat.log2_two_pow]
    exact Nat.pow_dvd_pow 2 (by omega)

/-- A machine without large pages -/
def smallPageSizes : HardwareSizes := ⟨64, 64, 4096, 0⟩

theorem smallPageSizes_masks_combine :
    MasksCombine smallPageSizes (pageAlignment ||| 16) (cacheLineAlignment ||| 8) :=
  masks_combine ⟨by decide, by decide, by decide⟩ (by decide) (by decide)

/-- The laws of a preorder that goes with combining masks. -/
structure StaticLaws (sizes : HardwareSizes) (p q r r₁ r₂ : ℕ) : Prop where
  refl : providesStaticAlignment sizes p p = true
  trans : providesStaticAlignment sizes p q = true → providesStaticAlignment sizes q r = true →
    providesStaticAlignment sizes p r = true
  mono : providesStaticAlignment sizes p r = true →
    providesStaticAlignment sizes (p ||| q) r = true
  or_iff : providesStaticAlignment sizes p (r₁ ||| r₂) = true ↔
    providesStaticAlignment sizes p r₁ = true ∧ providesStaticAlignment sizes p r₂ = true

/-- As numbers, the flags of neither request are above the flags of `p`, but the flags of
the combined request are, and its ordinary alignment is not above that of `p`. -/
def FlagsCarryOver (sizes : HardwareSizes) (p r₁ r₂ : ℕ) : Prop :=
  r₁ &&& specialAlignments ≤ p &&& specialAlignments ∧
    r₂ &&& specialAlignments ≤ p &&& specialAlignments ∧
    p &&& specialAlignments < (r₁ ||| r₂) &&& specialAlignments ∧
    rawAlignmentInBytes ((r₁ ||| r₂) &&& complement specialAlignments) ≤
      rawAlignmentInBytes (p &&& complement specialAlignments ||| sizes.interferenceSize)

theorem flagsCarryOver_iff (hguess : sizes.interferenceSize < 2 ^ 63) (hp : p < 2 ^ 64)
    (h₁ : r₁ < 2 ^ 64) (h₂ : r₂ < 2 ^ 64) : FlagsCarryOver sizes p r₁ r₂ ↔
      flags r₁ ≤ flags p ∧ flags r₂ ≤ flags p ∧ flags p < flags (r₁ ||| r₂) ∧
        max (r₁ % 2 ^ 61).log2 (r₂ % 2 ^ 61).log2 ≤
          max (p % 2 ^ 61).log2 sizes.interferenceSize.log2 := by
  have hp' : p % 2 ^ 61 ||| sizes.interferenceSize < 2 ^ 63 :=
    Nat.or_lt_two_pow (by omega) hguess
  have hor' : (r₁ ||| r₂) % 2 ^ 61 < 2 ^ 63 := by omega
  rw [FlagsCarryOver, and_specialAlignments hp, and_specialAlignments h₁,
    and_specialAlignments h₂, and_specialAlignments (Nat.or_lt_two_pow h₁ h₂),
    and_complement_specialAlignments, and_complement_specialAlignments,
    rawAlignmentInBytes_eq hor', rawAlignmentInBytes_eq hp', Nat.or_mod_two_pow, log2_or, log2_or,
    Nat.pow_le_pow_iff_right (by omega), Nat.mul_le_mul_right_iff (Nat.two_pow_pos _),
    Nat.mul_le_mul_right_iff (Nat.two_pow_pos _), Nat.mul_lt_mul_right (Nat.two_pow_pos _)]

theorem providesStaticAlignment_refl (hguess : sizes.interferenceSize < 2 ^ 63)
    (hp : p < 2 ^ 64) : providesStaticAlignment sizes p p = true :=
  (providesStaticAlignment_iff hguess hp hp).2 ⟨le_max_left _ _, le_rfl⟩

theorem providesStaticAlignment_trans (hguess : sizes.interferenceSize < 2 ^ 63)
    (hp : p < 2 ^ 64) (hq : q < 2 ^ 64) (hr : r < 2 ^ 64)
    (hpq : providesStaticAlignment sizes p q = true)
    (hqr : providesStaticAlignment sizes q r = true) :
    providesStaticAlignment sizes p r = true := by
  rw [providesStaticAlignment_iff hguess hp hq] at hpq
  rw [providesStaticAlignment_iff hguess hq hr] at hqr
  rw [providesStaticAlignment_iff hguess hp hr]
  obtain ⟨hbasic, hflags⟩ := hpq
  obtain ⟨hbasic', hflags'⟩ := hqr
  refine ⟨?_, hflags'.trans hflags⟩
  split_ifs at * <;> omega

/-- More is provided by more flags. -/
theorem providesStaticAlignment_or (hguess : sizes.interferenceSize < 2 ^ 63)
    (hp : p < 2 ^ 64) (hq : q < 2 ^ 64) (hr : r < 2 ^ 64)
    (hpr : providesStaticAlignment sizes p r = true) :
    providesStaticAlignment sizes (p ||| q) r = true := by
  have hflags : flags p ≤ flags (p ||| q) := by
    rw [flags_or_flags]
    exact Nat.left_le_or
  rw [providesStaticAlignment_iff hguess hp hr] at hpr
  rw [providesStaticAlignment_iff hguess (Nat.or_lt_two_pow hp hq) hr, Nat.or_mod_two_pow, log2_or]
  obtain ⟨hbasic, hflags'⟩ := hpr
  refine ⟨?_, hflags'.trans hflags⟩
  split_ifs at * <;> omega

/-- A combined request is provided together with its parts, unless the flags carry over. -/
theorem providesStaticAlignment_or_iff (hguess : sizes.interferenceSize < 2 ^ 63)
    (hp : p < 2 ^ 64) (h₁ : r₁ < 2 ^ 64) (h₂ : r₂ < 2 ^ 64) :
    (providesStaticAlignment sizes p (r₁ ||| r₂) = true ↔
      providesStaticAlignment sizes p r₁ = true ∧ providesStaticAlignment sizes p r₂ = true) ↔
        ¬ FlagsCarryOver sizes p r₁ r₂ := by
  have hflags₁ : flags r₁ ≤ flags (r₁ ||| r₂) := by
    rw [flags_or_flags]
    exact Nat.left_le_or
  have hflags₂ : flags r₂ ≤ flags (r₁ ||| r₂) := by
    rw [flags_or_flags]
    exact Nat.right_le_or
  have hzero : flags r₁ = 0 → flags r₂ = 0 → flags (r₁ ||| r₂) = 0 := by
    intro hr₁ hr₂
    rw [flags_or_flags, hr₁, hr₂, Nat.or_zero]
  rw [flagsCarryOver_iff hguess hp h₁ h₂,
    providesStaticAlignment_iff hguess hp (Nat.or_lt_two_pow h₁ h₂),
    providesStaticAlignment_iff hguess hp h₁, providesStaticAlignment_iff hguess hp h₂,
    Nat.or_mod_two_pow, log2_or]
  split_ifs with hf
  · grind
  · grind

/-- The laws hold unless the flags of the two requests carry over. -/
theorem staticLaws_iff (hguess : sizes.interferenceSize < 2 ^ 63) (hp : p < 2 ^ 64)
    (hq : q < 2 ^ 64) (hr : r < 2 ^ 64) (h₁ : r₁ < 2 ^ 64) (h₂ : r₂ < 2 ^ 64) :
    StaticLaws sizes p q r r₁ r₂ ↔ ¬ FlagsCarryOver sizes p r₁ r₂ := by
  constructor
  · intro h
    exact (providesStaticAlignment_or_iff hguess hp h₁ h₂).1 h.or_iff
  · intro h
    exact ⟨providesStaticAlignment_refl hguess hp,
      providesStaticAlignment_trans hguess hp hq hr,
      providesStaticAlignment_or hguess hp hq hr,
      (providesStaticAlignment_or_iff hguess hp h₁ h₂).2 h⟩

theorem smallPageSizes_staticLaws : StaticLaws smallPageSizes (pageAlignment ||| cacheLineAlignment)
    16 8 pageAlignment cacheLineAlignment :=
  (staticLaws_iff (by decide) (by decide) (by decide) (by decide) (by decide) (by decide)).2
    (by unfold FlagsCarryOver; decide)

/-- A page provides a page, and it provides a cache line. -/
theorem not_staticLaws_smallPageSizes :
    providesStaticAlignment smallPageSizes pageAlignment pageAlignment = true ∧
      providesStaticAlignment smallPageSizes pageAlignment cacheLineAlignment = true ∧
      providesStaticAlignment smallPageSizes pageAlignment
        (pageAlignment ||| cacheLineAlignment) = false ∧
      ¬ StaticLaws smallPageSizes pageAlignment pageAlignment pageAlignment pageAlignment
        cacheLineAlignment := by
  refine ⟨by decide, by decide, by decide, fun h => ?_⟩
  have hor := h.or_iff.2 ⟨by decide, by decide⟩
  exact absurd hor (by decide)

end Patton.Memory
