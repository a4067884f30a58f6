import Patton.Library.Bracketing
import Patton.ThreadSquad.Script

/-!
# The bracketing of a squad

A worker combines its own value with those of its subthreads in the order of
`from_subthreads`. When the wake ranges nest, the workers below worker `t` are
the indices from `t` on up to the end of its range, so the values are combined
in the order of the indices. How they are combined depends on the size of the
squad and the concurrency only.
-/

namespace Patton.ThreadSquad

open Bracketing

/-- Where the strides divide each other, the range of a worker contains the
ranges of all workers in it, and the workers that wake them. -/
theorem laminar_of_pos {s t x : ℕ} (h : Divides (nextSubstride s)) (hpos : 0 < t) (ht : t < s)
    (htx : t < x) (hx : x < t + strideOf s t) :
    t ≤ parentOff s x ∧ x + strideOf s x ≤ t + strideOf s t := by
  induction s using Nat.strong_induction_on generalizing t x with
  | _ s ih =>
    have hs : ¬ s ≤ 1 := by omega
    have hsub : 0 < nextSubstride s := nextSubstride_pos (by omega)
    rw [strideOf_step hs (by omega)] at hx ⊢
    rw [strideOf_step hs (by omega)]
    have hmod := Nat.mod_lt t hsub
    have hle := h.strideOf_le hmod
    have ht' := Nat.div_add_mod t (nextSubstride s)
    -- both workers are in the same block of the next level
    have hdiv : x / nextSubstride s = t / nextSubstride s := by
      refine Nat.div_eq_of_lt_le ?_ ?_
      · rw [Nat.mul_comm]
        omega
      · rw [Nat.mul_comm, Nat.mul_add]
        omega
    have hx' := Nat.div_add_mod x (nextSubstride s)
    rw [hdiv] at hx'
    have hndvd : ¬ nextSubstride s ∣ x := by
      rw [Nat.dvd_iff_mod_eq_zero]
      omega
    have hblock : t % nextSubstride s ≤ parentOff (nextSubstride s) (x % nextSubstride s) ∧
        x % nextSubstride s + strideOf (nextSubstride s) (x % nextSubstride s) ≤
          t % nextSubstride s + strideOf (nextSubstride s) (t % nextSubstride s) := by
      rcases Nat.eq_zero_or_pos (t % nextSubstride s) with hzero | hpos'
      · rw [hzero, strideOf_zero, Nat.zero_add]
        exact ⟨Nat.zero_le _, h.strideOf_le (Nat.mod_lt x hsub)⟩
      · exact ih _ (nextSubstride_lt hs) h.next hpos' hmod (by omega) (by omega)
    rw [parentOff_step hs hndvd, hdiv, Nat.mul_comm]
    omega

theorem le_parentOff {n t x : ℕ} (h : StridesDivide n) (ht : t < n) (htx : t < x)
    (hx : x < t + strideOf n t) : t ≤ parentOff n x := by
  rcases Nat.eq_zero_or_pos t with rfl | hpos
  · exact Nat.zero_le _
  · exact (laminar_of_pos h hpos ht htx hx).1

theorem range_le {n t x : ℕ} (h : StridesDivide n) (ht : t < n) (htx : t < x)
    (hx : x < t + strideOf n t) : min (x + strideOf n x) n ≤ t + strideOf n t := by
  rcases Nat.eq_zero_or_pos t with rfl | hpos
  · rw [strideOf_zero]
    omega
  · have := (laminar_of_pos h hpos ht htx hx).2
    omega

theorem lt_of_mem_fromSubthreads {n t c i : ℕ}
    (h : i ∈ fromSubthreads (numSubthreads n) t c) : t < i ∧ i < c := by
  rw [fromSubthreads] at h
  rcases Nat.eq_zero_or_pos (numSubthreads n t) with hzero | hpos
  · rw [hzero, fromSubthreadsImpl] at h
    simp [forIndices, nextSubstride_of_le_one] at h
  · rw [mem_fromSubthreadsImpl hpos (by omega), mem_toSubthreadsLoop hpos (by omega)] at h
    omega

/-- How worker `t` of a squad of `n` workers combines its value with those of the
workers below it when `c` workers take part. -/
def bracketing (n c t : ℕ) : FreeMagma ℕ :=
  (fromSubthreads (numSubthreads n) t c).attach.foldl
    (fun acc i => acc * bracketing n c i.1) (.of t)
termination_by c - t
decreasing_by
  have := lt_of_mem_fromSubthreads i.2
  omega

theorem bracketing_eq (n c t : ℕ) :
    bracketing n c t =
      gather (bracketing n c) (.of t) (fromSubthreads (numSubthreads n) t c) := by
  rw [bracketing]
  exact @List.foldl_attach _ _ _ (fun acc i => acc * bracketing n c i) (.of t)

example : bracketing 9 4 0 = (.of 0 * .of 1) * (.of 2 * .of 3) := by decide +kernel

namespace Squad

variable {V : Type} (sq : Squad V)

/-- The workers below worker `t` are those of its range, in ascending order. -/
theorem leaves_bracketing {c t : ℕ} (hc : c ≤ sq.numThreads) (ht : t < c) :
    leaves (bracketing sq.numThreads c t) =
      List.range' t (min (t + strideOf sq.numThreads t) c - t) := by
  generalize hd : c - t = d
  induction d using Nat.strong_induction_on generalizing t with
  | _ d ih =>
    have hdiv := sq.stridesDivide
    have hpos := strideOf_pos sq.one_le_numThreads t
    have hmem : ∀ i, i ∈ fromSubthreads (numSubthreads sq.numThreads) t c ↔
        0 < i ∧ i < c ∧ parentOff sq.numThreads i = t := fun i => sq.mem_fromSubthreads hc
    have hwakes : ∀ i, 0 < i → i < c →
        i < parentOff sq.numThreads i + strideOf sq.numThreads (parentOff sq.numThreads i) :=
      fun i hi hic => (wakes_parentOff hi (by omega)).2.1
    rw [bracketing_eq, leaves_gather, leaves_of]
    have hleaves : ∀ i ∈ fromSubthreads (numSubthreads sq.numThreads) t c,
        leaves (bracketing sq.numThreads c i) =
          List.range' i (min (i + strideOf sq.numThreads i) c - i) := by
      intro i hi
      have := lt_of_mem_fromSubthreads hi
      exact ih (c - i) (by omega) this.2 rfl
    rw [List.flatMap_congr hleaves, List.singleton_append]
    have hsorted : (List.range' t (min (t + strideOf sq.numThreads t) c - t)).Pairwise (· < ·) :=
      List.pairwise_lt_range' ..
    refine List.Pairwise.eq_of_mem_iff ?_ hsorted ?_
    · -- the ranges of the subthreads follow one another
      refine List.pairwise_cons.2 ⟨?_, List.pairwise_flatMap.2 ⟨?_, ?_⟩⟩
      · intro x hx
        obtain ⟨i, hi, hxi⟩ := List.mem_flatMap.1 hx
        have := (lt_of_mem_fromSubthreads hi).1
        have := List.mem_range'_1.1 hxi
        omega
      · exact fun i _ => List.pairwise_lt_range' ..
      · refine (sq.fromSubthreads_pairwise t c).imp_of_mem fun {i i'} hi hi' hlt x hx y hy => ?_
        obtain ⟨hpos, hic, hi⟩ := (hmem i).1 hi
        obtain ⟨-, hic', hi'⟩ := (hmem i').1 hi'
        have hx := List.mem_range'_1.1 hx
        have hy := List.mem_range'_1.1 hy
        by_contra hge
        have hle := le_parentOff hdiv (by omega) hlt (by omega)
        have := sq.parent_lt hpos
        simp only [parent] at this
        omega
    · intro x
      rw [List.mem_cons, List.mem_flatMap, List.mem_range'_1]
      constructor
      · rintro (rfl | ⟨i, hi, hx⟩)
        · omega
        · obtain ⟨hi0, hic, hi⟩ := (hmem i).1 hi
          have hx := List.mem_range'_1.1 hx
          have hlt := sq.parent_lt hi0
          have hrange := hwakes i hi0 hic
          simp only [parent] at hlt
          rw [hi] at hlt hrange
          have := range_le hdiv (by omega) hlt hrange
          omega
      · rintro ⟨hle, hlt⟩
        rcases hle.eq_or_lt with rfl | htx
        · exact .inl rfl
        · -- the subthread is found by following the wake tree upwards
          refine .inr ?_
          induction x using Nat.strong_induction_on with
          | _ x ihx =>
            have hxrange : x < t + strideOf sq.numThreads t := by omega
            have hparent := le_parentOff hdiv (by omega) htx hxrange
            have hplt : sq.parent x < x := sq.parent_lt (by omega)
            have hxpos := strideOf_pos sq.one_le_numThreads x
            simp only [parent] at hplt
            rcases hparent.eq_or_lt with heq | hlt'
            · exact ⟨x, (hmem x).2 ⟨by omega, by omega, heq.symm⟩,
                List.mem_range'_1.2 (by omega)⟩
            · obtain ⟨i, hi, hmem'⟩ := ihx _ hplt hlt'.le (by omega) hlt'
              have hip := List.mem_range'_1.1 hmem'
              have hrange := hwakes x (by omega) (by omega)
              refine ⟨i, hi, List.mem_range'_1.2 ⟨by omega, ?_⟩⟩
              rcases hip.1.eq_or_lt with heq | hlt''
              · rw [← heq] at hrange
                omega
              · have : min (parentOff sq.numThreads x + _) _ ≤ i + strideOf sq.numThreads i :=
                  range_le hdiv (by omega) hlt'' (by omega)
                omega

theorem leaves_bracketing_zero {c : ℕ} (hc : c ≤ sq.numThreads) (hpos : 0 < c) :
    leaves (bracketing sq.numThreads c 0) = List.range c := by
  rw [sq.leaves_bracketing hc hpos, strideOf_zero, List.range_eq_range']
  congr 1
  omega

end Squad

end Patton.ThreadSquad
