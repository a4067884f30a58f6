import Patton.ThreadSquad.ScriptOrder

/-!
# Which thread performs which operation

`Performs t j k op` and `Controls j k op` say in one table which operations the
workers and the controlling thread perform in a run. The table is the membership
relation of the scripts; the order is left to `Squad.before`.
-/

namespace Patton.ThreadSquad

variable {V : Type}

def Collective.isReduceTransform : Collective V → Bool
  | .reduceTransform _ _ _ => true
  | _ => false

def TaskKind.isTransformReduce : TaskKind V → Bool
  | .transformReduce _ _ => true
  | .action => false

namespace Squad

variable (sq : Squad V)

/-- Worker `i` is a target of worker `t` among the first `c` workers. -/
def Child (c t i : ℕ) : Prop := 0 < i ∧ i < c ∧ sq.parent i = t

instance (c t i : ℕ) : Decidable (sq.Child c t i) :=
  inferInstanceAs (Decidable (0 < i ∧ i < c ∧ sq.parent i = t))

/-- Worker `t` performs an operation in run `j` and, for what belongs to a
collective, in collective `k`. -/
def Performs (t j k : ℕ) : Op → Prop
  | .wait .taskAvailable i | .reset .taskAvailable i | .load .taskProcessed i
  | .store .taskProcessed i => i = t ∧ k = 0
  | .wait .taskProcessed i | .reset .taskProcessed i | .load .taskAvailable i
  | .store .taskAvailable i => sq.Child (sq.numThreadsFor j) t i ∧ k = 0
  | .wait .collecting i | .reset .collecting i | .load .broadcasting i
  | .store .broadcasting i => sq.Child (sq.task j).concurrency t i ∧ k < sq.rounds j
  | .wait .broadcasting i | .reset .broadcasting i | .load .collecting i
  | .store .collecting i => i = t ∧ 0 < t ∧ t < (sq.task j).concurrency ∧ k < sq.rounds j
  | .fork i => sq.Child (sq.numThreadsFor j) t i ∧ sq.isFirst j ∧ k = 0
  | .join i => sq.Child sq.numThreads t i ∧ (sq.task j).joinRequested ∧ k = 0
  | .run _ | .storeTask _ | .forkRoot _ | .releaseTask | .ret _ => False
  | .notifyAndForkSubthreads t' => t' = t ∧ sq.isFirst j ∧ k = 0
  | .notifySubthreads t' => t' = t ∧ ¬ sq.isFirst j ∧ k = 0
  | .taskRef t' | .waitForSubthreads t' | .nextPass t' => t' = t ∧ k = 0
  | .taskRun t' j' => t' = t ∧ j' = j ∧ k = 0
  | .execute t' j' => t' = t ∧ j' = j ∧ t < (sq.task j).concurrency ∧ k = 0
  | .storeResult t' j' =>
      t' = t ∧ j' = j ∧ t < (sq.task j).concurrency ∧ (sq.task j).kind.isTransformReduce ∧ k = 0
  | .mergeIfParticipant t' i => t' = t ∧ sq.Child (sq.numThreadsFor j) t i ∧ k = 0
  | .merge j' t' i => t' = t ∧ j' = j ∧ sq.Child (sq.task j).concurrency t i ∧ k = 0
  | .joinSubthreads t' | .exit t' => t' = t ∧ (sq.task j).joinRequested ∧ k = 0
  | .enter t' j' k' | .leave t' j' k' =>
      t' = t ∧ j' = j ∧ k' = k ∧ t < (sq.task j).concurrency ∧ k < sq.rounds j
  | .synchronizeCollect t' | .synchronizeBroadcast t' =>
      t' = t ∧ t < (sq.task j).concurrency ∧ k < sq.rounds j
  | .collect t' i | .broadcast t' i =>
      t' = t ∧ sq.Child (sq.task j).concurrency t i ∧ k < sq.rounds j
  | .storeSyncData t' | .clearSyncData t' =>
      t' = t ∧ 0 < t ∧ t < (sq.task j).concurrency ∧ k < sq.rounds j
  | .transform t' j' k' =>
      t' = t ∧ j' = j ∧ k' = k ∧ t = 0 ∧ t < (sq.task j).concurrency ∧
        ∃ c, (sq.task j).collectives[k]? = some c ∧ c.isReduceTransform

/-- The controlling thread performs an operation in run `j`. -/
def Controls (j k : ℕ) : Op → Prop
  | .run j' | .ret j' => j' = j ∧ k = 0
  | .storeTask j' | .forkRoot j' => j' = j ∧ sq.haveWork j ∧ k = 0
  | .wait .taskProcessed i | .reset .taskProcessed i | .load .taskAvailable i
  | .store .taskAvailable i => i = 0 ∧ sq.haveWork j ∧ k = 0
  | .fork i => i = 0 ∧ sq.isFirst j ∧ k = 0
  | .join i => i = 0 ∧ sq.haveWork j ∧ (sq.task j).joinRequested ∧ k = 0
  | .releaseTask => sq.haveWork j ∧ k = 0
  | _ => False

variable {sq}

theorem haveWork_of_isFirst {j : ℕ} (h : sq.isFirst j) : sq.haveWork j := by
  unfold isFirst haveWork at *
  simp_all

theorem mem_events_controller {op : Op} {j k : ℕ} :
    ⟨op, j, k⟩ ∈ sq.events .controller j ↔ sq.Controls j k op := by
  have h := @haveWork_of_isFirst V sq j
  rw [mem_events]
  simp only [segments, controllerSegments, notifyThread, setAndNotify]
  by_cases hw : sq.haveWork j <;> by_cases hf : sq.isFirst j <;> simp [hw, hf] at h ⊢ <;>
  cases op with
  | wait σ i => cases σ <;> simp [Controls, hw]
  | reset σ i => cases σ <;> simp [Controls, hw]
  | load σ i => cases σ <;> simp [Controls, hw]
  | store σ i => cases σ <;> simp [Controls, hw]
  | join i => simp [Controls, hw] <;> tauto
  | _ => simp [Controls, hw, hf]

theorem exists_collective {j k : ℕ} :
    (∃ c, (sq.task j).collectives[k]? = some c) ↔ k < sq.rounds j := by
  rw [rounds, ← Option.isSome_iff_exists, isSome_getElem?]

@[simp] theorem mem_toSubthreads_run {t j i : ℕ} :
    i ∈ sq.toSubthreads t (sq.numThreadsFor j) ↔ sq.Child (sq.numThreadsFor j) t i :=
  sq.mem_toSubthreads (sq.numThreadsFor_le j)

@[simp] theorem mem_fromSubthreads_run {t j i : ℕ} :
    i ∈ sq.fromSubthreads t (sq.numThreadsFor j) ↔ sq.Child (sq.numThreadsFor j) t i :=
  sq.mem_fromSubthreads (sq.numThreadsFor_le j)

@[simp] theorem mem_toSubthreads_task {t j i : ℕ} :
    i ∈ sq.toSubthreads t (sq.task j).concurrency ↔ sq.Child (sq.task j).concurrency t i :=
  sq.mem_toSubthreads (sq.concurrency_task_le j)

@[simp] theorem mem_fromSubthreads_task {t j i : ℕ} :
    i ∈ sq.fromSubthreads t (sq.task j).concurrency ↔ sq.Child (sq.task j).concurrency t i :=
  sq.mem_fromSubthreads (sq.concurrency_task_le j)

@[simp] theorem mem_fromSubthreads_all {t i : ℕ} :
    i ∈ sq.fromSubthreads t sq.numThreads ↔ sq.Child sq.numThreads t i :=
  sq.mem_fromSubthreads le_rfl

theorem mem_resultBody {op : Op} {t j : ℕ} {kind : TaskKind V} :
    op ∈ kind.resultBody t j ↔ op = .storeResult t j ∧ kind.isTransformReduce := by
  cases kind <;> simp [TaskKind.resultBody, TaskKind.isTransformReduce]

theorem mem_transformBody {op : Op} {t j k : ℕ} {c : Collective V} :
    op ∈ c.transformBody t j k ↔ op = .transform t j k ∧ t = 0 ∧ c.isReduceTransform := by
  cases c <;> by_cases h : t = 0 <;>
    simp [Collective.transformBody, Collective.isReduceTransform, h]

theorem Child.lt {c t i : ℕ} (h : sq.Child c t i) : t < c :=
  lt_trans (h.2.2 ▸ sq.parent_lt h.1) h.2.1

theorem mem_segmentEvents {op : Op} {j k : ℕ} {seg : Segment} :
    ⟨op, j, k⟩ ∈ seg.events j ↔ op ∈ seg.ops ∧ k = seg.round := by
  simp [Segment.events, eq_comm]

theorem mem_wakeSegments {op : Op} {t j k : ℕ} :
    ⟨op, j, k⟩ ∈ (sq.wakeSegments t j).flatMap (Segment.events j) ↔
      k = 0 ∧ (op = .notifyAndForkSubthreads t ∧ sq.isFirst j ∨ op ∈ taskWait t ∨
        op = .notifySubthreads t ∧ ¬ sq.isFirst j ∨
        ∃ i, sq.Child (sq.numThreadsFor j) t i ∧
          (op ∈ notifyThread i ∨ op = .fork i ∧ sq.isFirst j)) := by
  by_cases h : sq.isFirst j <;>
    simp [wakeSegments, h, mem_segmentEvents, List.flatMap_append, List.flatMap_assoc,
      taskWait] <;>
    grind

theorem mem_roundSegments {op : Op} {t j k k' : ℕ} {c : Collective V} :
    ⟨op, j, k'⟩ ∈ (sq.roundSegments t j k c).flatMap (Segment.events j) ↔
      k' = k ∧ (op = .enter t j k ∨ op = .synchronizeCollect t ∨ op ∈ signalCollecting t ∨
      op ∈ c.transformBody t j k ∨ op = .synchronizeBroadcast t ∨ op = .leave t j k ∨
      ∃ i, sq.Child (sq.task j).concurrency t i ∧
        (op ∈ collectFromThread t i ∨ op ∈ broadcastToThread t i)) := by
  by_cases ht : 0 < t <;>
    simp [roundSegments, ht, signalCollecting, setAndNotify, collectFromThread,
      broadcastToThread, mem_segmentEvents, List.flatMap_append, List.flatMap_assoc] <;>
    grind

theorem mem_taskSegments {op : Op} {t j k : ℕ} :
    ⟨op, j, k⟩ ∈ (sq.taskSegments t j).flatMap (Segment.events j) ↔
      op = .taskRun t j ∧ k = 0 ∨
      t < (sq.task j).concurrency ∧
        ((op = .execute t j ∨ op ∈ (sq.task j).kind.resultBody t j) ∧ k = 0 ∨
          ∃ c, (sq.task j).collectives[k]? = some c ∧
            ⟨op, j, k⟩ ∈ (sq.roundSegments t j k c).flatMap (Segment.events j)) := by
  have hround : (∃ ck ∈ (sq.task j).collectives.zipIdx,
      ⟨op, j, k⟩ ∈ (sq.roundSegments t j ck.2 ck.1).flatMap (Segment.events j)) ↔
      ∃ c, (sq.task j).collectives[k]? = some c ∧
        ⟨op, j, k⟩ ∈ (sq.roundSegments t j k c).flatMap (Segment.events j) := by
    constructor
    · rintro ⟨⟨c, k'⟩, hck, hmem⟩
      obtain rfl := (mem_roundSegments.1 hmem).1
      exact ⟨c, List.mem_zipIdx_iff_getElem?.1 hck, hmem⟩
    · rintro ⟨c, hc, hmem⟩
      exact ⟨(c, k), List.mem_zipIdx_iff_getElem?.2 hc, hmem⟩
  rw [← hround]
  by_cases hc : t < (sq.task j).concurrency
  · simp only [taskSegments, hc, if_true, List.cons_append, List.flatMap_cons,
      List.flatMap_append, List.flatMap_assoc, List.mem_append, List.mem_flatMap,
      mem_segmentEvents]
    simp
    grind
  · simp [taskSegments, hc, mem_segmentEvents]

theorem mem_finishSegments {op : Op} {t j k : ℕ} :
    ⟨op, j, k⟩ ∈ (sq.finishSegments t j).flatMap (Segment.events j) ↔
      k = 0 ∧ (op = .waitForSubthreads t ∨ op ∈ taskSignalCompletion t ∨ op = .nextPass t ∨
        (∃ i, sq.Child (sq.numThreadsFor j) t i ∧ (op ∈ waitForThread t i ∨
          op = .merge j t i ∧ i < (sq.task j).concurrency)) ∨
        (sq.task j).joinRequested ∧ (op = .joinSubthreads t ∨ op = .exit t ∨
          ∃ i, sq.Child sq.numThreads t i ∧ op = .join i)) := by
  by_cases h : (sq.task j).joinRequested <;>
    simp [finishSegments, h, waitForThread, mem_segmentEvents, List.flatMap_append,
      List.flatMap_assoc] <;>
    grind

theorem mem_events_worker {op : Op} {t j k : ℕ} :
    ⟨op, j, k⟩ ∈ sq.events (.worker t) j ↔ sq.Performs t j k op := by
  have hk := @exists_collective V sq j k
  have hc : ∀ i, sq.Child (sq.task j).concurrency t i ↔
      sq.Child (sq.numThreadsFor j) t i ∧ i < (sq.task j).concurrency := fun i =>
    ⟨fun h => ⟨⟨h.1, h.2.1.trans_le (sq.concurrency_le_numThreadsFor j), h.2.2⟩, h.2.1⟩,
      fun h => ⟨h.1.1, h.2, h.1.2.2⟩⟩
  have hlt : ∀ i, sq.Child (sq.task j).concurrency t i → t < (sq.task j).concurrency :=
    fun i h => h.lt
  simp only [events, segments, List.flatMap_append, List.mem_append, mem_wakeSegments,
    mem_finishSegments, mem_taskSegments, mem_roundSegments, mem_resultBody,
    mem_transformBody, notifyThread, setAndNotify, taskWait, taskSignalCompletion,
    waitForThread, collectFromThread, broadcastToThread, signalCollecting]
  cases op with
  | wait σ i => cases σ <;> simp [Performs] <;> grind
  | reset σ i => cases σ <;> simp [Performs] <;> grind
  | load σ i => cases σ <;> simp [Performs] <;> grind
  | store σ i => cases σ <;> simp [Performs] <;> grind
  | _ => simp [Performs] <;> grind

theorem mem_script_worker {op : Op} {t j k : ℕ} :
    ⟨op, j, k⟩ ∈ sq.script (.worker t) ↔ j ∈ sq.runs t ∧ sq.Performs t j k op :=
  mem_script.trans (and_congr_right fun _ => mem_events_worker)

theorem mem_script_controller {op : Op} {j k : ℕ} :
    ⟨op, j, k⟩ ∈ sq.script .controller ↔ j < sq.tasks.length ∧ sq.Controls j k op := by
  rw [mem_script, mem_events_controller, threadRuns, List.mem_range]

variable (sq) in
/-- The thread which wakes worker `i`. -/
def parentThread (i : ℕ) : Thread :=
  if i = 0 then .controller else .worker (sq.parent i)

theorem parentThread_zero : sq.parentThread 0 = .controller := if_pos rfl

theorem parentThread_of_pos {i : ℕ} (hi : 0 < i) :
    sq.parentThread i = .worker (sq.parent i) := if_neg (by omega)

theorem Child.parentThread {c t i : ℕ} (h : sq.Child c t i) :
    sq.parentThread i = .worker t := by
  rw [parentThread_of_pos h.1, h.2.2]

theorem child_parent {c i : ℕ} (hi : 0 < i) (hc : i < c) : sq.Child c (sq.parent i) i :=
  ⟨hi, hc, rfl⟩

/-- A worker that takes part in a run is woken by a thread which takes part. -/
theorem mem_runs_parent {i j : ℕ} (hi : 0 < i) (h : j ∈ sq.runs i) :
    j ∈ sq.runs (sq.parent i) := by
  rw [mem_runs] at h ⊢
  exact ⟨h.1, h.2.1, (sq.parent_lt hi).trans h.2.2⟩

theorem mem_runs_of_lt_concurrency {t j : ℕ} (ht : t < (sq.task j).concurrency)
    (hj : j < sq.tasks.length) : j ∈ sq.runs t := by
  refine sq.mem_runs.2 ⟨hj, ?_, ht.trans_le (sq.concurrency_le_numThreadsFor j)⟩
  have hne : (sq.task j).concurrency ≠ 0 := by omega
  simp [haveWork, hne]

/-- Nobody takes part in a run before the first one. -/
theorem not_haveWork_of_lt_first {j j' : ℕ} (h : sq.isFirst j) (hlt : j' < j) :
    ¬ sq.haveWork j' := by
  have hstarted : ∀ x < j, (sq.task x).concurrency = 0 := by
    rw [isFirst, Bool.and_eq_true] at h
    simpa [started] using h.2
  have hnone : sq.started j' = false := by
    simp only [started, List.any_eq_false, List.mem_range, bne_iff_ne, ne_eq, not_not]
    exact fun x hx => hstarted x (hx.trans hlt)
  simp [haveWork, hstarted j' hlt, hnone]

theorem isFirst_unique {j j' : ℕ} (h : sq.isFirst j) (h' : sq.isFirst j') : j = j' := by
  rcases lt_trichotomy j j' with hlt | rfl | hlt
  · exact absurd (haveWork_of_isFirst h) (not_haveWork_of_lt_first h' hlt)
  · rfl
  · exact absurd (haveWork_of_isFirst h') (not_haveWork_of_lt_first h hlt)

/-- The first run is the first one of every worker of the squad. -/
theorem runs_eq_cons_of_isFirst {j t : ℕ} (h : sq.isFirst j) (hj : j < sq.tasks.length)
    (ht : t < sq.numThreads) : ∃ later, sq.runs t = j :: later := by
  have hmem : j ∈ sq.runs t := by
    refine sq.mem_runs.2 ⟨hj, haveWork_of_isFirst h, ?_⟩
    simpa [numThreadsFor, h] using ht
  cases hruns : sq.runs t with
  | nil => simp [hruns] at hmem
  | cons j' later =>
      have hj' : j' ∈ sq.runs t := by simp [hruns]
      have hle : j ≤ j' := by
        by_contra hlt
        exact not_haveWork_of_lt_first h (by omega) (sq.mem_runs.1 hj').2.1
      have hge : j' ≤ j := by
        have hpair := sq.runs_pairwise t
        rw [hruns] at hmem hpair
        rcases List.mem_cons.1 hmem with rfl | hlater
        · exact le_rfl
        · exact ((List.pairwise_cons.1 hpair).1 j hlater).le
      exact ⟨later, by rw [le_antisymm hle hge]⟩

end Squad

end Patton.ThreadSquad
