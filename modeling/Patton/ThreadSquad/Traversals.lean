import Patton.ThreadSquad.BlockTree

/-!
# The two traversals

`toSubthreads` goes through the levels of a stride from coarse to fine,
`fromSubthreads` from fine to coarse. What they visit on a level does not depend on
how the strides of the workers have been assigned.
-/

namespace Patton.ThreadSquad

/-- The levels of a stride, from coarse to fine: the strides that `to_subthreads` goes
through, each with its substride. -/
def strideLevels (stride : ℕ) : List (ℕ × ℕ) :=
  if _h : stride ≤ 1 then []
  else (stride, nextSubstride stride) :: strideLevels (nextSubstride stride)
termination_by stride
decreasing_by exact nextSubstride_lt _h

/-- The targets on a level: multiples of the substride away, and inside the block. -/
def levelTargets (callingThreadIdx concurrency : ℕ) (level : ℕ × ℕ) : List ℕ :=
  (List.range (min (callingThreadIdx + level.1) concurrency)).filter fun i =>
    callingThreadIdx < i ∧ level.2 ∣ i - callingThreadIdx

variable {t c c' last stride substride i fuel intMax : ℕ} {level : ℕ × ℕ}

theorem mem_levelTargets : i ∈ levelTargets t c level ↔
    t < i ∧ i < min (t + level.1) c ∧ level.2 ∣ i - t := by
  simp only [levelTargets, List.mem_filter, List.mem_range, decide_eq_true_eq]
  tauto

theorem levelTargets_pairwise (t c : ℕ) (level : ℕ × ℕ) :
    (levelTargets t c level).Pairwise (· < ·) :=
  List.pairwise_lt_range.filter _

/-- A smaller bound removes the targets from it on. -/
theorem levelTargets_eq_filter (h : c ≤ c') (t : ℕ) (level : ℕ × ℕ) :
    levelTargets t c level = (levelTargets t c' level).filter (· < c) := by
  refine (levelTargets_pairwise t c level).eq_of_mem_iff
    ((levelTargets_pairwise t c' level).filter _) fun i => ?_
  rw [List.mem_filter, mem_levelTargets, mem_levelTargets, decide_eq_true_eq]
  omega

theorem forIndices_eq_levelTargets (hsubstride : 0 < substride) :
    forIndices (t + substride) (min (t + stride) c) substride =
      levelTargets t c (stride, substride) := by
  refine (forIndices_pairwise hsubstride).eq_of_mem_iff (levelTargets_pairwise _ _ _) fun i => ?_
  rw [mem_forIndices hsubstride, mem_levelTargets]
  constructor
  · rintro ⟨hle, hlt, hdvd⟩
    have hsplit : i - t = i - (t + substride) + substride := by omega
    refine ⟨by omega, hlt, ?_⟩
    rw [hsplit]
    exact Nat.dvd_add_self_right.2 hdvd
  · rintro ⟨hlt, hlast, hdvd⟩
    have hle : substride ≤ i - t := Nat.le_of_dvd (by omega) hdvd
    have hsplit : i - (t + substride) = i - t - substride := by omega
    refine ⟨by omega, hlast, ?_⟩
    rw [hsplit]
    exact Nat.dvd_sub hdvd dvd_rfl

theorem min_nextSubstride (t c stride : ℕ) :
    min (t + nextSubstride stride) (min (t + stride) c) = min (t + nextSubstride stride) c := by
  have hle := nextSubstride_le stride
  omega

/-- `to_subthreads` goes from the coarsest level to the finest one. -/
theorem toSubthreadsLoop_eq (hstride : 0 < stride) :
    toSubthreadsLoop t (min (t + stride) c) stride =
      (strideLevels stride).flatMap (levelTargets t c) := by
  fun_induction strideLevels stride with
  | case1 stride h =>
      rw [toSubthreadsLoop, dif_pos h]
      rfl
  | case2 stride h ih =>
      have hsubstride := nextSubstride_pos hstride
      rw [toSubthreadsLoop, dif_neg h, forIndices_eq_levelTargets hsubstride,
        min_nextSubstride, ih hsubstride, List.flatMap_cons]

/-- `from_subthreads` goes from the finest level to the coarsest one. -/
theorem fromSubthreadsImpl_eq (hstride : 0 < stride) :
    fromSubthreadsImpl t (min (t + stride) c) stride =
      (strideLevels stride).reverse.flatMap (levelTargets t c) := by
  fun_induction strideLevels stride with
  | case1 stride h =>
      have hnone : forIndices (t + nextSubstride stride) (min (t + stride) c)
          (nextSubstride stride) = [] := by
        refine List.eq_nil_iff_forall_not_mem.2 fun i hi => ?_
        have hmem := (mem_forIndices (nextSubstride_pos hstride)).1 hi
        rw [nextSubstride_of_le_one h] at hmem
        omega
      rw [fromSubthreadsImpl, dif_pos h, hnone]
      rfl
  | case2 stride h ih =>
      have hsubstride := nextSubstride_pos hstride
      rw [fromSubthreadsImpl, dif_neg h, forIndices_eq_levelTargets hsubstride,
        min_nextSubstride, ih hsubstride, List.reverse_cons, List.flatMap_append,
        List.flatMap_singleton]

theorem substride_lt_of_mem (h : level ∈ strideLevels stride) : level.2 < stride := by
  fun_induction strideLevels stride with
  | case1 stride hle => cases h
  | case2 stride hle ih =>
      have hlt := nextSubstride_lt hle
      rcases List.mem_cons.1 h with rfl | h
      · exact hlt
      · exact (ih h).trans hlt

theorem strideLevels_pairwise (stride : ℕ) :
    (strideLevels stride).Pairwise fun level level' => level'.2 < level.2 := by
  fun_induction strideLevels stride with
  | case1 stride h => exact List.Pairwise.nil
  | case2 stride h ih =>
      exact List.pairwise_cons.2 ⟨fun level hlevel => substride_lt_of_mem hlevel, ih⟩

/-- A smaller bound removes the targets from it on, on all levels. -/
theorem flatMap_levelTargets_eq_filter (h : c ≤ c') (t : ℕ) (levels : List (ℕ × ℕ)) :
    levels.flatMap (levelTargets t c) = (levels.flatMap (levelTargets t c')).filter (· < c) := by
  induction levels with
  | nil => rfl
  | cons level levels ih =>
      rw [List.flatMap_cons, List.flatMap_cons, List.filter_append, ih,
        levelTargets_eq_filter h]

/-- A sum of two values of `int`, if it is one. -/
def addInt (intMax a b : ℕ) : Option ℕ := if a + b ≤ intMax then some (a + b) else none

/-- `for (int i = first; i < last; i += step)`: the values of `i`, if the loop ends
after less than `fuel` iterations. -/
def runFor (intMax : ℕ) : ℕ → ℕ → ℕ → ℕ → Option (List ℕ)
  | 0, _, _, _ => none
  | fuel + 1, first, last, step =>
      if first < last then do
        let next ← addInt intMax first step
        let rest ← runFor intMax fuel next last step
        some (first :: rest)
      else some []

def runNextSubstride (intMax stride : ℕ) : Option ℕ := do
  let sum ← addInt intMax stride (treeBreadth - 1)
  some (sum / treeBreadth)

def runToSubthreadsLoop (intMax : ℕ) : ℕ → ℕ → ℕ → ℕ → Option (List ℕ)
  | 0, _, _, _ => none
  | fuel + 1, callingThreadIdx, last, stride =>
      if stride ≠ 1 then do
        let substride ← runNextSubstride intMax stride
        let first ← addInt intMax callingThreadIdx substride
        let targets ← runFor intMax fuel first last substride
        let rest ← runToSubthreadsLoop intMax fuel callingThreadIdx (min first last) substride
        some (targets ++ rest)
      else some []

def runToSubthreads (intMax fuel : ℕ) (numSubthreads : ℕ → ℕ)
    (callingThreadIdx concurrency : ℕ) : Option (List ℕ) := do
  let stride := numSubthreads callingThreadIdx
  let last ← addInt intMax callingThreadIdx stride
  runToSubthreadsLoop intMax fuel callingThreadIdx (min last concurrency) stride

def runFromSubthreadsImpl (intMax : ℕ) : ℕ → ℕ → ℕ → ℕ → Option (List ℕ)
  | 0, _, _, _ => none
  | fuel + 1, first, last, stride => do
      let substride ← runNextSubstride intMax stride
      let next ← addInt intMax first substride
      let inner ←
        if stride ≠ 1 then runFromSubthreadsImpl intMax fuel first (min next last) substride
        else some []
      let targets ← runFor intMax fuel next last substride
      some (inner ++ targets)

def runFromSubthreads (intMax fuel : ℕ) (numSubthreads : ℕ → ℕ)
    (callingThreadIdx concurrency : ℕ) : Option (List ℕ) := do
  let stride := numSubthreads callingThreadIdx
  let last ← addInt intMax callingThreadIdx stride
  runFromSubthreadsImpl intMax fuel callingThreadIdx (min last concurrency) stride

theorem forIndices_of_le {first last step : ℕ} (hstep : 0 < step) (h : last ≤ first) :
    forIndices first last step = [] := by
  have hcount : (last - first + (step - 1)) / step = 0 := Nat.div_eq_of_lt (by omega)
  rw [forIndices, hcount, List.range'_zero]

theorem forIndices_of_lt {first last step : ℕ} (hstep : 0 < step) (h : first < last) :
    forIndices first last step = first :: forIndices (first + step) last step := by
  have hcount : (last - first + (step - 1)) / step =
      (last - (first + step) + (step - 1)) / step + 1 := by
    rcases le_total (first + step) last with hle | hle
    · have hsplit : last - first + (step - 1) = last - (first + step) + (step - 1) + step := by
        omega
      rw [hsplit, Nat.add_div_right _ hstep]
    · have hrest : (last - (first + step) + (step - 1)) / step = 0 :=
        Nat.div_eq_of_lt (by omega)
      have hsplit : last - first + (step - 1) = last - first - 1 + step := by omega
      rw [hrest, hsplit, Nat.add_div_right _ hstep, Nat.div_eq_of_lt (by omega)]
  rw [forIndices, hcount, List.range'_succ, forIndices]

theorem addInt_eq {a b : ℕ} (h : a + b ≤ intMax) : addInt intMax a b = some (a + b) := if_pos h

theorem runFor_eq {first last step : ℕ} (hstep : 0 < step) (hfuel : last - first < fuel)
    (hmax : last + step ≤ intMax) :
    runFor intMax fuel first last step = some (forIndices first last step) := by
  induction fuel generalizing first with
  | zero => omega
  | succ fuel ih =>
      rw [runFor]
      by_cases h : first < last
      · rw [if_pos h, addInt_eq (by omega), forIndices_of_lt hstep h]
        simp only [Option.bind_eq_bind, Option.bind_some]
        rw [ih (by omega)]
        rfl
      · rw [if_neg h, forIndices_of_le hstep (by omega)]

theorem runNextSubstride_eq (h : stride + (treeBreadth - 1) ≤ intMax) :
    runNextSubstride intMax stride = some (nextSubstride stride) := by
  rw [runNextSubstride, addInt_eq h]
  rfl

/-- No sum of the traversals of a stride is larger than `int` allows. -/
structure NoOverflow (intMax t stride : ℕ) : Prop where
  index_le : t + stride + nextSubstride stride ≤ intMax
  stride_le : stride + (treeBreadth - 1) ≤ intMax

theorem NoOverflow.next (h : NoOverflow intMax t stride) :
    NoOverflow intMax t (nextSubstride stride) := by
  have hle := nextSubstride_le stride
  have hle' := nextSubstride_le (nextSubstride stride)
  have hindex := h.index_le
  have hstride := h.stride_le
  exact ⟨by omega, by omega⟩

theorem runToSubthreadsLoop_eq (h : NoOverflow intMax t stride) (hstride : 0 < stride)
    (hlast : last ≤ t + stride) (hfuel : stride < fuel) :
    runToSubthreadsLoop intMax fuel t last stride = some (toSubthreadsLoop t last stride) := by
  induction fuel generalizing last stride with
  | zero => omega
  | succ fuel ih =>
      rw [runToSubthreadsLoop, toSubthreadsLoop]
      by_cases hone : stride ≤ 1
      · rw [if_neg (by omega), dif_pos hone]
      · have hsubstride := nextSubstride_pos hstride
        have hlt := nextSubstride_lt hone
        have hindex := h.index_le
        rw [if_pos (by omega), dif_neg hone, runNextSubstride_eq h.stride_le]
        simp only [Option.bind_eq_bind, Option.bind_some]
        rw [addInt_eq (by omega)]
        simp only [Option.bind_some]
        rw [runFor_eq hsubstride (by omega) (by omega),
          ih h.next hsubstride (by omega) (by omega)]
        rfl

theorem runFromSubthreadsImpl_eq (h : NoOverflow intMax t stride) (hstride : 0 < stride)
    (hlast : last ≤ t + stride) (hfuel : stride < fuel) :
    runFromSubthreadsImpl intMax fuel t last stride = some (fromSubthreadsImpl t last stride) := by
  induction fuel generalizing last stride with
  | zero => omega
  | succ fuel ih =>
      have hsubstride := nextSubstride_pos hstride
      have hle := nextSubstride_le stride
      have hindex := h.index_le
      rw [runFromSubthreadsImpl, fromSubthreadsImpl, runNextSubstride_eq h.stride_le]
      simp only [Option.bind_eq_bind, Option.bind_some]
      rw [addInt_eq (by omega)]
      simp only [Option.bind_some]
      rw [runFor_eq hsubstride (by omega) (by omega)]
      by_cases hone : stride ≤ 1
      · rw [if_neg (by omega), dif_pos hone]
        rfl
      · have hlt := nextSubstride_lt hone
        rw [if_pos (by omega), dif_neg hone, ih h.next hsubstride (by omega) (by omega)]
        rfl

/-- What the traversals from one worker visit, for a bound `c`. -/
structure TraversalsAgree (numSubthreads : ℕ → ℕ) (t c : ℕ) : Prop where
  /-- With enough fuel, the loops end. -/
  toSubthreads_ends : ∀ intMax fuel, NoOverflow intMax t (numSubthreads t) →
    numSubthreads t < fuel → runToSubthreads intMax fuel numSubthreads t c =
      some (toSubthreads numSubthreads t c)
  fromSubthreads_ends : ∀ intMax fuel, NoOverflow intMax t (numSubthreads t) →
    numSubthreads t < fuel → runFromSubthreads intMax fuel numSubthreads t c =
      some (fromSubthreads numSubthreads t c)
  same_targets : ∀ i, i ∈ toSubthreads numSubthreads t c ↔ i ∈ fromSubthreads numSubthreads t c
  toSubthreads_nodup : (toSubthreads numSubthreads t c).Nodup
  fromSubthreads_nodup : (fromSubthreads numSubthreads t c).Nodup
  inside : ∀ i ∈ toSubthreads numSubthreads t c, t < i ∧ i < min (t + numSubthreads t) c
  /-- Of the levels, `to_subthreads` visits the coarse ones first … -/
  coarse_first : toSubthreads numSubthreads t c =
    (strideLevels (numSubthreads t)).flatMap (levelTargets t c)
  /-- … and `from_subthreads` the fine ones. -/
  fine_first : fromSubthreads numSubthreads t c =
    (strideLevels (numSubthreads t)).reverse.flatMap (levelTargets t c)
  levels_refine : (strideLevels (numSubthreads t)).Pairwise fun level level' =>
    level'.2 < level.2
  level_ascending : ∀ level, (levelTargets t c level).Pairwise (· < ·)
  fromSubthreads_ascending : (fromSubthreads numSubthreads t c).Pairwise (· < ·)
  toSubthreads_restrict : ∀ c', c ≤ c' →
    toSubthreads numSubthreads t c = (toSubthreads numSubthreads t c').filter (· < c)
  fromSubthreads_restrict : ∀ c', c ≤ c' →
    fromSubthreads numSubthreads t c = (fromSubthreads numSubthreads t c').filter (· < c)

variable {numSubthreads : ℕ → ℕ}

theorem toSubthreads_eq (h : 0 < numSubthreads t) : toSubthreads numSubthreads t c =
    (strideLevels (numSubthreads t)).flatMap (levelTargets t c) :=
  toSubthreadsLoop_eq h

theorem fromSubthreads_eq (h : 0 < numSubthreads t) : fromSubthreads numSubthreads t c =
    (strideLevels (numSubthreads t)).reverse.flatMap (levelTargets t c) :=
  fromSubthreadsImpl_eq h

/-- The two traversals from a worker agree, whatever the stride of this worker is. -/
theorem traversals_agree (numSubthreads : ℕ → ℕ) (t c : ℕ) (h : 0 < numSubthreads t) :
    TraversalsAgree numSubthreads t c where
  toSubthreads_ends intMax fuel hmax hfuel := by
    have hindex := hmax.index_le
    rw [runToSubthreads, addInt_eq (by omega)]
    simp only [Option.bind_eq_bind, Option.bind_some]
    rw [runToSubthreadsLoop_eq hmax h (by omega) hfuel, toSubthreads]
  fromSubthreads_ends intMax fuel hmax hfuel := by
    have hindex := hmax.index_le
    rw [runFromSubthreads, addInt_eq (by omega)]
    simp only [Option.bind_eq_bind, Option.bind_some]
    rw [runFromSubthreadsImpl_eq hmax h (by omega) hfuel, fromSubthreads]
  same_targets i := (mem_fromSubthreadsImpl h (min_le_left _ _)).symm
  toSubthreads_nodup := toSubthreadsLoop_nodup h
  fromSubthreads_nodup :=
    (fromSubthreadsImpl_pairwise h (min_le_left _ _)).imp fun hlt => Nat.ne_of_lt hlt
  inside i hi := by
    obtain ⟨hlt, hlast, -⟩ := (mem_toSubthreadsLoop h (min_le_left _ _)).1 hi
    exact ⟨hlt, hlast⟩
  coarse_first := toSubthreads_eq h
  fine_first := fromSubthreads_eq h
  levels_refine := strideLevels_pairwise _
  level_ascending := levelTargets_pairwise t c
  fromSubthreads_ascending := fromSubthreadsImpl_pairwise h (min_le_left _ _)
  toSubthreads_restrict c' hc := by
    rw [toSubthreads_eq h, toSubthreads_eq h, flatMap_levelTargets_eq_filter hc]
  fromSubthreads_restrict c' hc := by
    rw [fromSubthreads_eq h, fromSubthreads_eq h, flatMap_levelTargets_eq_filter hc]

/-- A stride of 9 at worker 3, which no squad assigns. -/
theorem nine_traversals_agree : TraversalsAgree (fun _ => 9) 3 10 :=
  traversals_agree (fun _ => 9) 3 10 (by decide)

end Patton.ThreadSquad
