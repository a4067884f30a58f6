import Mathlib

/-!
# The wake tree of a thread squad

The workers of a squad form a tree of breadth `treeBreadth`, which is never
stored: every worker only remembers its stride `numSubthreads_`, and the
children of a worker are recomputed from that stride by two traversals,
`toSubthreads` (coarse levels first) and `fromSubthreads` (fine levels first).

The source runs these loops on `int`. Every index met here is at most
`numThreads + nextSubstride numThreads`, so natural numbers model them as long
as the squad has fewer than about `1.9 * 10^9` threads.
-/

namespace Patton.ThreadSquad

def treeBreadth : ℕ := 8

def nextSubstride (stride : ℕ) : ℕ :=
  (stride + (treeBreadth - 1)) / treeBreadth

theorem nextSubstride_lt {s : ℕ} (h : ¬ s ≤ 1) : nextSubstride s < s := by
  unfold nextSubstride treeBreadth
  omega

theorem nextSubstride_pos {s : ℕ} (h : 0 < s) : 0 < nextSubstride s := by
  unfold nextSubstride treeBreadth
  omega

theorem nextSubstride_of_le_one {s : ℕ} (h : s ≤ 1) : nextSubstride s = s := by
  unfold nextSubstride treeBreadth
  omega

theorem nextSubstride_le (s : ℕ) : nextSubstride s ≤ s := by
  unfold nextSubstride treeBreadth
  omega

/-- The values of `i` in the loop `for (int i = first; i < last; i += step)`. -/
def forIndices (first last step : ℕ) : List ℕ :=
  List.range' first ((last - first + (step - 1)) / step) step

theorem mem_forIndices {first last step i : ℕ} (hstep : 0 < step) :
    i ∈ forIndices first last step ↔
      first ≤ i ∧ i < last ∧ step ∣ i - first := by
  unfold forIndices
  rw [List.mem_range']
  constructor
  · rintro ⟨k, hk, rfl⟩
    have h : step * (k + 1) ≤ last - first + (step - 1) :=
      le_trans (Nat.mul_le_mul_left step hk) (Nat.mul_div_le _ _)
    rw [Nat.mul_add, Nat.mul_one] at h
    refine ⟨by omega, by omega, ⟨k, by omega⟩⟩
  · rintro ⟨hle, hlt, k, hk⟩
    refine ⟨k, ?_, by omega⟩
    rw [Nat.lt_div_iff_mul_lt hstep, Nat.mul_comm, ← hk]
    omega

theorem forIndices_pairwise {first last step : ℕ} (hstep : 0 < step) :
    (forIndices first last step).Pairwise (· < ·) :=
  List.pairwise_lt_range' step hstep

/-- `init`: assigns to every worker of the range `[first, last)` its stride.
The source tests `stride != 1`; the stride of a call is never `0`. -/
def init (first last stride : ℕ) (numSubthreads : ℕ → ℕ) : ℕ → ℕ :=
  let numSubthreads :=
    if _h : stride ≤ 1 then numSubthreads
    else
      (forIndices first last (nextSubstride stride)).foldl
        (fun numSubthreads i =>
          init i (min (i + nextSubstride stride) last) (nextSubstride stride) numSubthreads)
        numSubthreads
  Function.update numSubthreads first stride
termination_by stride
decreasing_by exact nextSubstride_lt _h

/-- `numSubthreads_` of every worker once the constructor has run
`init(0, numThreads, numThreads)`. -/
def numSubthreads (numThreads : ℕ) : ℕ → ℕ :=
  init 0 numThreads numThreads fun _ => 0

/-- The argument triples `(first, last, stride)` of all calls that
`init(first, last, stride)` makes, itself included. -/
def initCalls (first last stride : ℕ) : List (ℕ × ℕ × ℕ) :=
  (first, last, stride) ::
    if _h : stride ≤ 1 then []
    else
      (forIndices first last (nextSubstride stride)).flatMap fun i =>
        initCalls i (min (i + nextSubstride stride) last) (nextSubstride stride)
termination_by stride
decreasing_by exact nextSubstride_lt _h

/-- The wake ranges nest: no call of `init` made by the constructor is handed a
range that is cut short by anything but the end of the squad. -/
def Nested (numThreads : ℕ) : Prop :=
  ∀ call ∈ initCalls 0 numThreads numThreads,
    min (call.1 + call.2.2) numThreads ≤ call.2.1

instance (numThreads : ℕ) : Decidable (Nested numThreads) :=
  inferInstanceAs (Decidable (∀ call ∈ initCalls 0 numThreads numThreads,
    min (call.1 + call.2.2) numThreads ≤ call.2.1))

/-- The loop of `to_subthreads`: the targets handed to `func`, in order. -/
def toSubthreadsLoop (callingThreadIdx last stride : ℕ) : List ℕ :=
  if _h : stride ≤ 1 then []
  else
    forIndices (callingThreadIdx + nextSubstride stride) last (nextSubstride stride) ++
      toSubthreadsLoop callingThreadIdx
        (min (callingThreadIdx + nextSubstride stride) last) (nextSubstride stride)
termination_by stride
decreasing_by exact nextSubstride_lt _h

/-- `to_subthreads` on the strides `numSubthreads`: the targets handed to
`func`, in order. -/
def toSubthreads (numSubthreads : ℕ → ℕ) (callingThreadIdx concurrency : ℕ) : List ℕ :=
  let stride := numSubthreads callingThreadIdx
  toSubthreadsLoop callingThreadIdx (min (callingThreadIdx + stride) concurrency) stride

/-- `from_subthreads_impl`: the targets handed to `func`, in order. For
`stride = 1` the trailing loop of the source is empty, because `last` never
exceeds `first + stride`. -/
def fromSubthreadsImpl (first last stride : ℕ) : List ℕ :=
  (if _h : stride ≤ 1 then []
    else
      fromSubthreadsImpl first (min (first + nextSubstride stride) last)
        (nextSubstride stride)) ++
    forIndices (first + nextSubstride stride) last (nextSubstride stride)
termination_by stride
decreasing_by exact nextSubstride_lt _h

/-- `from_subthreads` on the strides `numSubthreads`: the targets handed to
`func`, in order. -/
def fromSubthreads (numSubthreads : ℕ → ℕ) (callingThreadIdx concurrency : ℕ) : List ℕ :=
  let stride := numSubthreads callingThreadIdx
  fromSubthreadsImpl callingThreadIdx (min (callingThreadIdx + stride) concurrency) stride

example : toSubthreads (numSubthreads 9) 0 9 = [2, 4, 6, 8, 1] := by decide +kernel

example : fromSubthreads (numSubthreads 9) 0 9 = [1, 2, 4, 6, 8] := by decide +kernel

end Patton.ThreadSquad
