import Patton.ThreadSquad.WakeTree

/-!
# Strides and parents inside a block

A call `init first last stride` lays out a block of at most `stride` workers.
Everything about the block can be computed from an offset `off` into it:
`strideOf stride off` is the stride stored at that offset, and
`parentOff stride off` the offset of the worker which wakes it. The stride of a
worker and the targets of both traversals are expressed through these two
functions.
-/

namespace Patton.ThreadSquad

/-- The stride which a block of stride `stride` stores at offset `off`. -/
def strideOf (stride off : ℕ) : ℕ :=
  if _h : stride ≤ 1 then stride
  else if off = 0 then stride
  else strideOf (nextSubstride stride) (off % nextSubstride stride)
termination_by stride
decreasing_by exact nextSubstride_lt _h

/-- The offset of the worker which wakes offset `off` in a block of stride
`stride`. -/
def parentOff (stride off : ℕ) : ℕ :=
  if _h : stride ≤ 1 then 0
  else if nextSubstride stride ∣ off then 0
  else
    off / nextSubstride stride * nextSubstride stride +
      parentOff (nextSubstride stride) (off % nextSubstride stride)
termination_by stride
decreasing_by exact nextSubstride_lt _h

theorem strideOf_zero (s : ℕ) : strideOf s 0 = s := by
  unfold strideOf
  split <;> simp

theorem strideOf_step {s off : ℕ} (hs : ¬ s ≤ 1) (hoff : off ≠ 0) :
    strideOf s off = strideOf (nextSubstride s) (off % nextSubstride s) := by
  rw [strideOf, dif_neg hs, if_neg hoff]

theorem strideOf_pos {s : ℕ} (hs : 0 < s) (off : ℕ) : 0 < strideOf s off := by
  fun_induction strideOf s off with
  | case1 s off h => exact hs
  | case2 s h => exact hs
  | case3 s off h hoff ih => exact ih (nextSubstride_pos hs)

theorem parentOff_of_dvd {s off : ℕ} (h : nextSubstride s ∣ off) :
    parentOff s off = 0 := by
  rw [parentOff, if_pos h]
  simp

theorem parentOff_step {s off : ℕ} (hs : ¬ s ≤ 1) (h : ¬ nextSubstride s ∣ off) :
    parentOff s off = off / nextSubstride s * nextSubstride s +
      parentOff (nextSubstride s) (off % nextSubstride s) := by
  rw [parentOff, dif_neg hs, if_neg h]

theorem parentOff_lt {s off : ℕ} (h : 0 < off) : parentOff s off < off := by
  fun_induction parentOff s off with
  | case1 => exact h
  | case2 => exact h
  | case3 s off hs hdvd ih =>
      have hmod : 0 < off % nextSubstride s :=
        Nat.pos_of_ne_zero fun h0 => hdvd (Nat.dvd_of_mod_eq_zero h0)
      have hdecomp := Nat.div_add_mod' off (nextSubstride s)
      have := ih hmod
      omega

/-- The loop of `init` fills consecutive blocks of length `sub`, provided that
one recursive call fills one block. -/
theorem foldl_blocks (sub last : ℕ) (hsub : 0 < sub)
    (g : (ℕ → ℕ) → ℕ → ℕ → ℕ)
    (hg : ∀ m i x, i < last →
      g m i x = if i ≤ x ∧ x < min (i + sub) last then strideOf sub (x - i) else m x) :
    ∀ (k first : ℕ) (m : ℕ → ℕ) (x : ℕ), (∀ i ∈ List.range' first k sub, i < last) →
      (List.range' first k sub).foldl g m x =
        if first ≤ x ∧ x < min (first + k * sub) last then
          strideOf sub ((x - first) % sub)
        else m x := by
  intro k
  induction k with
  | zero =>
      intro first m x _
      have hfalse : ¬ (first ≤ x ∧ x < min (first + 0 * sub) last) := by omega
      rw [List.range'_zero, List.foldl_nil, if_neg hfalse]
  | succ k ih =>
      intro first m x hlast
      have hfirst : first < last := hlast first (by simp [List.range'_succ])
      rw [List.range'_succ, List.foldl_cons,
        ih (first + sub) (g m first) x
          (fun i hi => hlast i (by rw [List.range'_succ]; exact List.mem_cons_of_mem _ hi)),
        hg m first x hfirst]
      have hk : first + sub + k * sub = first + (k + 1) * sub := by ring
      rw [hk]
      by_cases hx : first + sub ≤ x
      · -- `x` lies in a later block
        have hmod : (x - (first + sub)) % sub = (x - first) % sub := by
          have hsplit : x - first = (x - (first + sub)) + sub := by omega
          rw [hsplit, Nat.add_mod_right]
        have hno : ¬ (first ≤ x ∧ x < min (first + sub) last) := by omega
        have hiff : (first + sub ≤ x ∧ x < min (first + (k + 1) * sub) last) ↔
            (first ≤ x ∧ x < min (first + (k + 1) * sub) last) := by omega
        rw [if_neg hno, hmod]
        exact if_congr hiff rfl rfl
      · have hno : ¬ (first + sub ≤ x ∧ x < min (first + (k + 1) * sub) last) := by omega
        have hle : first + sub ≤ first + (k + 1) * sub := by
          rw [Nat.add_mul, Nat.one_mul]
          omega
        rw [if_neg hno]
        by_cases hin : first ≤ x ∧ x < min (first + sub) last
        · have hin' : first ≤ x ∧ x < min (first + (k + 1) * sub) last := by omega
          rw [if_pos hin, if_pos hin', Nat.mod_eq_of_lt (by omega)]
        · have hin' : ¬ (first ≤ x ∧ x < min (first + (k + 1) * sub) last) := by omega
          rw [if_neg hin, if_neg hin']

/-- `init` writes the range `[first, last)` and nothing else. -/
theorem init_apply (first last stride : ℕ) (m : ℕ → ℕ) (x : ℕ)
    (hstride : 0 < stride) (hlt : first < last) (hle : last ≤ first + stride) :
    init first last stride m x =
      if first ≤ x ∧ x < last then strideOf stride (x - first) else m x := by
  induction stride using Nat.strong_induction_on generalizing first last m x with
  | _ stride ih =>
    rw [init]
    by_cases h : stride ≤ 1
    · rw [dif_pos h]
      by_cases hx : x = first
      · subst hx
        simp [hlt, strideOf_zero]
      · have hno : ¬ (first ≤ x ∧ x < last) := by omega
        simp [hx, hno]
    · have hsub := nextSubstride_pos hstride
      have hblock : ∀ (m : ℕ → ℕ) (i x : ℕ), i < last →
          init i (min (i + nextSubstride stride) last) (nextSubstride stride) m x =
            if i ≤ x ∧ x < min (i + nextSubstride stride) last then
              strideOf (nextSubstride stride) (x - i) else m x := by
        intro m i x hi
        exact ih _ (nextSubstride_lt h) i _ m x hsub (by omega) (by omega)
      have hall : ∀ i ∈ forIndices first last (nextSubstride stride), i < last :=
        fun i hi => ((mem_forIndices hsub).1 hi).2.1
      have hcover : last ≤ first +
          (last - first + (nextSubstride stride - 1)) / nextSubstride stride *
            nextSubstride stride := by
        have hdm := Nat.div_add_mod' (last - first + (nextSubstride stride - 1))
          (nextSubstride stride)
        have hmod := Nat.mod_lt (last - first + (nextSubstride stride - 1)) hsub
        omega
      rw [dif_neg h, forIndices]
      by_cases hx : x = first
      · subst hx
        simp [hlt, strideOf_zero]
      · rw [Function.update_of_ne hx,
          foldl_blocks (nextSubstride stride) last hsub _ hblock _ first m x hall,
          min_eq_right hcover]
        by_cases hin : first ≤ x ∧ x < last
        · rw [if_pos hin, if_pos hin, strideOf_step h (by omega)]
        · rw [if_neg hin, if_neg hin]

theorem numSubthreads_apply {n t : ℕ} (ht : t < n) :
    numSubthreads n t = strideOf n t := by
  rw [numSubthreads, init_apply 0 n n _ t (by omega) (by omega) (by omega)]
  simp [ht]

theorem parentOff_eq_zero_of_lt {s d : ℕ} (hs : ¬ s ≤ 1) (hd : 0 < d)
    (hlt : d < nextSubstride s) :
    parentOff s d = 0 ↔ parentOff (nextSubstride s) d = 0 := by
  have hndvd : ¬ nextSubstride s ∣ d := Nat.not_dvd_of_pos_of_lt hd hlt
  rw [parentOff_step hs hndvd, Nat.div_eq_of_lt hlt, Nat.mod_eq_of_lt hlt]
  simp

theorem parentOff_eq_zero_of_le {s d : ℕ} (hs : ¬ s ≤ 1) (hle : nextSubstride s ≤ d) :
    parentOff s d = 0 ↔ nextSubstride s ∣ d := by
  constructor
  · intro h
    by_contra hndvd
    have hsub : 0 < nextSubstride s := nextSubstride_pos (by omega)
    have hquot : 0 < d / nextSubstride s := Nat.div_pos hle hsub
    rw [parentOff_step hs hndvd] at h
    have := Nat.mul_pos hquot hsub
    omega
  · exact parentOff_of_dvd

/-- The targets of `to_subthreads` are the offsets whose parent offset is `0`. -/
theorem mem_toSubthreadsLoop {t last stride i : ℕ} (hstride : 0 < stride)
    (hlast : last ≤ t + stride) :
    i ∈ toSubthreadsLoop t last stride ↔
      t < i ∧ i < last ∧ parentOff stride (i - t) = 0 := by
  fun_induction toSubthreadsLoop t last stride with
  | case1 last stride h =>
      simp only [List.not_mem_nil, false_iff]
      omega
  | case2 last stride h ih =>
      have hsub := nextSubstride_pos hstride
      rw [List.mem_append, mem_forIndices hsub, ih hsub (by omega)]
      have hshift : t + nextSubstride stride ≤ i →
          (nextSubstride stride ∣ i - (t + nextSubstride stride) ↔
            nextSubstride stride ∣ i - t) := by
        intro hle
        rw [show i - t = i - (t + nextSubstride stride) + nextSubstride stride by omega]
        exact (Nat.dvd_add_self_right).symm
      by_cases hle : t + nextSubstride stride ≤ i
      · have hno : ¬ i < min (t + nextSubstride stride) last := by omega
        rw [hshift hle, parentOff_eq_zero_of_le h (by omega)]
        simp only [hno, false_and, and_false, or_false]
        constructor
        · rintro ⟨-, hi, hd⟩
          exact ⟨by omega, hi, hd⟩
        · rintro ⟨-, hi, hd⟩
          exact ⟨hle, hi, hd⟩
      · simp only [hle, false_and, false_or]
        by_cases hi : t < i ∧ i < last
        · rw [parentOff_eq_zero_of_lt h (by omega) (by omega)]
          constructor
          · rintro ⟨-, -, hp⟩
            exact ⟨hi.1, hi.2, hp⟩
          · rintro ⟨-, -, hp⟩
            exact ⟨hi.1, by omega, hp⟩
        · constructor
          · rintro ⟨h1, h2, -⟩
            omega
          · rintro ⟨h1, h2, -⟩
            omega

theorem toSubthreadsLoop_nodup {t last stride : ℕ} (hstride : 0 < stride) :
    (toSubthreadsLoop t last stride).Nodup := by
  fun_induction toSubthreadsLoop t last stride with
  | case1 => exact List.nodup_nil
  | case2 last stride h ih =>
      have hsub := nextSubstride_pos hstride
      refine List.Nodup.append ?_ (ih hsub) ?_
      · exact (forIndices_pairwise hsub).imp fun hlt => Nat.ne_of_lt hlt
      · intro i hcoarse hfine
        have h1 := ((mem_forIndices hsub).1 hcoarse).1
        have h2 := (mem_toSubthreadsLoop hsub (by omega)).1 hfine
        omega

/-- `from_subthreads` meets the targets of `to_subthreads`. -/
theorem mem_fromSubthreadsImpl {t last stride i : ℕ} (hstride : 0 < stride)
    (hlast : last ≤ t + stride) :
    i ∈ fromSubthreadsImpl t last stride ↔ i ∈ toSubthreadsLoop t last stride := by
  fun_induction toSubthreadsLoop t last stride with
  | case1 last stride h =>
      rw [fromSubthreadsImpl, dif_pos h, List.nil_append,
        mem_forIndices (nextSubstride_pos hstride), nextSubstride_of_le_one h]
      simp only [List.not_mem_nil, iff_false]
      omega
  | case2 last stride h ih =>
      have hsub := nextSubstride_pos hstride
      rw [fromSubthreadsImpl, dif_neg h, List.mem_append, List.mem_append,
        ih hsub (by omega), or_comm]

/-- `from_subthreads` meets its targets in ascending order. -/
theorem fromSubthreadsImpl_pairwise {t last stride : ℕ} (hstride : 0 < stride)
    (hlast : last ≤ t + stride) :
    (fromSubthreadsImpl t last stride).Pairwise (· < ·) := by
  induction stride using Nat.strong_induction_on generalizing last with
  | _ stride ih =>
    have hsub := nextSubstride_pos hstride
    rw [fromSubthreadsImpl]
    by_cases h : stride ≤ 1
    · rw [dif_pos h, List.nil_append]
      exact forIndices_pairwise hsub
    · rw [dif_neg h]
      refine List.pairwise_append.2
        ⟨ih _ (nextSubstride_lt h) hsub (by omega), forIndices_pairwise hsub, ?_⟩
      intro i hfine j hcoarse
      rw [mem_fromSubthreadsImpl hsub (by omega),
        mem_toSubthreadsLoop hsub (by omega)] at hfine
      have := (mem_forIndices hsub).1 hcoarse
      omega

end Patton.ThreadSquad
