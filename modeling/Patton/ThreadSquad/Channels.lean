import Patton.Library.Handshake
import Patton.ThreadSquad.ScriptEvents

/-!
# The handshakes of a worker

A worker and its superordinate thread run two handshakes. In the first one the
superordinate thread hands a task to the worker (`signalTaskAvailable_`,
`signalTaskProcessed_`), in the second one the worker hands its value to the
superordinate thread (`signalCollecting_`, `signalBroadcasting_`). The scripts
of the two threads, seen through one of the handshakes, are the requests and the
responses of the same cycles.
-/

namespace Patton.ThreadSquad

open Handshake OrderedScript

variable {V : Type}

def Op.accessesSignal : Op → Bool
  | .wait _ _ | .reset _ _ | .load _ _ | .store _ _ => true
  | _ => false

/-- The two handshakes of a worker with its superordinate thread. -/
inductive Channel
  | task
  | sync
  deriving DecidableEq

namespace Channel

def request : Channel → Signal
  | task => .taskAvailable
  | sync => .collecting

def answer : Channel → Signal
  | task => .taskProcessed
  | sync => .broadcasting

/-- The part of an event in the requests for worker `i`. -/
def asRequest (ch : Channel) (i : ℕ) : Event → Option (Request (ℕ × ℕ))
  | ⟨.reset σ i', j, k⟩ => if σ = ch.answer ∧ i' = i then some (.clearAnswer (j, k)) else none
  | ⟨.load σ i', j, k⟩ => if σ = ch.request ∧ i' = i then some (.loadRequest (j, k)) else none
  | ⟨.store σ i', j, k⟩ => if σ = ch.request ∧ i' = i then some (.raiseRequest (j, k)) else none
  | ⟨.wait σ i', j, k⟩ => if σ = ch.answer ∧ i' = i then some (.awaitAnswer (j, k)) else none
  | _ => none

/-- The part of an event in the responses for worker `i`. -/
def asResponse (ch : Channel) (i : ℕ) : Event → Option (Response (ℕ × ℕ))
  | ⟨.wait σ i', j, k⟩ => if σ = ch.request ∧ i' = i then some (.awaitRequest (j, k)) else none
  | ⟨.reset σ i', j, k⟩ => if σ = ch.request ∧ i' = i then some (.clearRequest (j, k)) else none
  | ⟨.load σ i', j, k⟩ => if σ = ch.answer ∧ i' = i then some (.loadAnswer (j, k)) else none
  | ⟨.store σ i', j, k⟩ => if σ = ch.answer ∧ i' = i then some (.raiseAnswer (j, k)) else none
  | _ => none

end Channel

namespace Squad

variable {sq : Squad V}

section Projections

variable {P : Type*} {f : Event → Option P}

/-- What a projection makes of operations. -/
def project (f : Event → Option P) (j k : ℕ) (ops : List Op) : List P :=
  ops.filterMap fun op => f ⟨op, j, k⟩

/-- The projection sees nothing but the accesses to signals. -/
def SeesAccesses (f : Event → Option P) : Prop :=
  ∀ e, e.op.accessesSignal = false → f e = none

theorem filterMap_events (f : Event → Option P) (j : ℕ) (segs : List Segment) :
    (segs.flatMap (Segment.events j)).filterMap f =
      segs.flatMap fun seg => project f j seg.round seg.ops := by
  rw [List.filterMap_flatMap]
  refine List.flatMap_congr fun seg _ => ?_
  rw [Segment.events, List.filterMap_map]
  rfl

theorem SeesAccesses.project_eq_nil (hf : SeesAccesses f) {ops : List Op}
    (h : ∀ op ∈ ops, op.accessesSignal = false) (j k : ℕ) : project f j k ops = [] :=
  List.filterMap_eq_nil_iff.2 fun op hop => hf _ (h op hop)

theorem SeesAccesses.project_cons (hf : SeesAccesses f) {op : Op}
    (h : op.accessesSignal = false) (j k : ℕ) (ops : List Op) :
    project f j k (op :: ops) = project f j k ops :=
  List.filterMap_cons_none (hf _ h)

theorem SeesAccesses.project_singleton (hf : SeesAccesses f) {op : Op}
    (h : op.accessesSignal = false) (j k : ℕ) : project f j k [op] = [] :=
  hf.project_cons h j k []

theorem SeesAccesses.project_ite (hf : SeesAccesses f) {op : Op}
    (h : op.accessesSignal = false) (j k : ℕ) (c : Prop) [Decidable c] :
    project f j k (if c then [op] else []) = [] := by
  split
  · exact hf.project_singleton h j k
  · rfl

/-- The controlling thread notifies the first worker and waits for it. -/
theorem filterMap_controllerSegments (hf : SeesAccesses f) (j : ℕ) :
    ((sq.controllerSegments j).flatMap (Segment.events j)).filterMap f =
      if sq.haveWork j then
        project f j 0 (notifyThread 0) ++ project f j 0 [.wait .taskProcessed 0]
      else [] := by
  have hrun : project f j 0 (.run j :: if sq.haveWork j then [.storeTask j] else []) = [] := by
    rw [hf.project_cons rfl, hf.project_ite rfl]
  have hnotify : project f j 0 (notifyThread 0 ++ [.forkRoot j]) =
      project f j 0 (notifyThread 0) := by
    rw [project, List.filterMap_append]
    exact (congrArg _ (hf.project_singleton rfl j 0)).trans (List.append_nil _)
  have hfork : project f j 0 (if sq.isFirst j then [.fork 0] else []) = [] :=
    hf.project_ite rfl j 0 _
  have hjoin : project f j 0
      (if sq.haveWork j && (sq.task j).joinRequested then [.join 0] else []) = [] :=
    hf.project_ite rfl j 0 _
  have hrelease : project f j 0 (if sq.haveWork j then [.releaseTask] else []) = [] :=
    hf.project_ite rfl j 0 _
  have hret : project f j 0 [.ret j] = [] := hf.project_singleton rfl j 0
  rw [filterMap_events, controllerSegments]
  simp only [List.flatMap_cons, List.flatMap_nil, hrun, hfork, hjoin, hrelease, hret,
    List.append_nil, List.nil_append]
  split
  · rw [hnotify]
  · rfl

/-- A worker that wakes up waits for its task and notifies its subthreads. -/
theorem filterMap_wakeSegments (hf : SeesAccesses f) (t j : ℕ) :
    ((sq.wakeSegments t j).flatMap (Segment.events j)).filterMap f =
      if sq.isFirst j then
        ((sq.toSubthreads t (sq.numThreadsFor j)).flatMap fun i =>
          project f j 0 (notifyThread i)) ++ project f j 0 [.wait .taskAvailable t]
      else
        project f j 0 [.wait .taskAvailable t] ++
          (sq.toSubthreads t (sq.numThreadsFor j)).flatMap fun i =>
            project f j 0 (notifyThread i) := by
  have hfork : ∀ i, project f j 0 (if sq.isFirst j then [Op.fork i] else []) = [] :=
    fun i => hf.project_ite rfl j 0 _
  have hnotify : project f j 0 [.notifyAndForkSubthreads t] = [] := hf.project_singleton rfl j 0
  have href : project f j 0 [.taskRef t] = [] := hf.project_singleton rfl j 0
  have hrefs : project f j 0 [.taskRef t, .notifySubthreads t] = [] := by
    rw [hf.project_cons rfl, hf.project_singleton rfl]
  rw [filterMap_events]
  by_cases h : sq.isFirst j
  · rw [wakeSegments, if_pos h, if_pos h]
    simp only [List.cons_append, List.flatMap_append, List.flatMap_cons, List.flatMap_nil,
      List.flatMap_assoc, hfork, hnotify, href, List.append_nil, List.nil_append]
  · rw [wakeSegments, if_neg h, if_neg h]
    simp only [List.flatMap_append, List.flatMap_cons, List.flatMap_nil, List.flatMap_assoc,
      hfork, hrefs, List.append_nil]

/-- A worker that finishes waits for its subthreads and signals its completion. -/
theorem filterMap_finishSegments (hf : SeesAccesses f) (t j : ℕ) :
    ((sq.finishSegments t j).flatMap (Segment.events j)).filterMap f =
      ((sq.fromSubthreads t (sq.numThreadsFor j)).flatMap fun i =>
        project f j 0 [.wait .taskProcessed i]) ++ project f j 0 (taskSignalCompletion t) := by
  have hmerge : ∀ i, project f j 0 (.mergeIfParticipant t i ::
      if i < (sq.task j).concurrency then [.merge j t i] else []) = [] := by
    intro i
    rw [hf.project_cons rfl, hf.project_ite rfl]
  have hwait : project f j 0 [.waitForSubthreads t] = [] := hf.project_singleton rfl j 0
  have hnext : project f j 0 [.nextPass t] = [] := hf.project_singleton rfl j 0
  have hjoin : project f j 0 [.joinSubthreads t] = [] := hf.project_singleton rfl j 0
  have hexit : project f j 0 [.exit t] = [] := hf.project_singleton rfl j 0
  have hjoins : project f j 0 ((sq.fromSubthreads t sq.numThreads).map .join) = [] :=
    hf.project_eq_nil (by simp [Op.accessesSignal]) j 0
  rw [filterMap_events, finishSegments]
  simp only [List.cons_append, List.flatMap_append, List.flatMap_cons, List.flatMap_nil,
    List.flatMap_assoc, hmerge, hwait, hnext, List.append_nil, List.nil_append]
  split
  · simp only [List.flatMap_cons, List.flatMap_nil, hjoin, hjoins, hexit, List.append_nil]
  · rw [List.flatMap_nil, List.append_nil]

/-- In a collective, a worker waits for the values of its subthreads, hands its own value to
its superordinate worker and waits for the result, and answers its subthreads. -/
theorem filterMap_roundSegments (hf : SeesAccesses f) (t j k : ℕ) (c : Collective V) :
    ((sq.roundSegments t j k c).flatMap (Segment.events j)).filterMap f =
      ((sq.fromSubthreads t (sq.task j).concurrency).flatMap fun i =>
        project f j k [.wait .collecting i]) ++
      (if 0 < t then project f j k [.reset .broadcasting t, .load .collecting t,
        .store .collecting t, .wait .broadcasting t] else []) ++
      (sq.toSubthreads t (sq.task j).concurrency).flatMap fun i =>
        project f j k (.reset .collecting i :: setAndNotify .broadcasting i) := by
  have hcall : ∀ op : Op, op.accessesSignal = false → project f j k [op] = [] :=
    fun op h => hf.project_singleton h j k
  have htransform : project f j k (c.transformBody t j k) = [] := by
    refine hf.project_eq_nil (fun op hop => ?_) j k
    obtain ⟨rfl, -⟩ := mem_transformBody.1 hop
    rfl
  have hsplit : project f j k [.reset .broadcasting t, .load .collecting t] ++
      (project f j k [.store .collecting t] ++ project f j k [.wait .broadcasting t]) =
        project f j k [.reset .broadcasting t, .load .collecting t, .store .collecting t,
          .wait .broadcasting t] := by
    rw [project, project, project, ← List.filterMap_append, ← List.filterMap_append]
    rfl
  have hnil : project f j k [] = [] := rfl
  rw [filterMap_events, roundSegments]
  by_cases ht : 0 < t
  · simp only [ht, if_true, List.cons_append, List.flatMap_append, List.flatMap_cons,
      List.flatMap_nil, List.flatMap_assoc, htransform, ← hsplit,
      hcall (.enter t j k) rfl, hcall (.synchronizeCollect t) rfl, hcall (.collect t _) rfl,
      hcall (.storeSyncData t) rfl, hcall (.clearSyncData t) rfl,
      hcall (.synchronizeBroadcast t) rfl, hcall (.broadcast t _) rfl, hcall (.leave t j k) rfl,
      List.append_nil, List.nil_append, List.append_assoc]
  · simp only [ht, if_false, List.cons_append, List.flatMap_append, List.flatMap_cons,
      List.flatMap_nil, List.flatMap_assoc, htransform, hnil,
      hcall (.enter t j k) rfl, hcall (.synchronizeCollect t) rfl, hcall (.collect t _) rfl,
      hcall (.synchronizeBroadcast t) rfl, hcall (.broadcast t _) rfl, hcall (.leave t j k) rfl,
      List.append_nil, List.nil_append, List.append_assoc]

theorem filterMap_taskSegments (hf : SeesAccesses f) {t j : ℕ} (g : ℕ → List P)
    (hg : ∀ k c, ((sq.roundSegments t j k c).flatMap (Segment.events j)).filterMap f = g k) :
    ((sq.taskSegments t j).flatMap (Segment.events j)).filterMap f =
      if t < (sq.task j).concurrency then (List.range (sq.rounds j)).flatMap g else [] := by
  have hexecute : project f j 0 [.taskRun t j, .execute t j] = [] := by
    rw [hf.project_cons rfl, hf.project_singleton rfl]
  have hrun : project f j 0 [.taskRun t j] = [] := hf.project_singleton rfl j 0
  have hresult : project f j 0 ((sq.task j).kind.resultBody t j) = [] := by
    refine hf.project_eq_nil (fun op hop => ?_) j 0
    obtain ⟨rfl, -⟩ := mem_resultBody.1 hop
    rfl
  have hrounds : (((sq.task j).collectives.zipIdx.flatMap fun ck =>
      sq.roundSegments t j ck.2 ck.1).flatMap (Segment.events j)).filterMap f =
        (List.range (sq.rounds j)).flatMap g := by
    rw [List.flatMap_assoc, List.filterMap_flatMap]
    simp only [hg]
    exact flatMap_zipIdx _ g
  rw [taskSegments]
  split
  · rw [List.cons_append, List.flatMap_cons, List.flatMap_append, List.filterMap_append,
      List.filterMap_append, hrounds, ← List.flatMap_singleton (Segment.events j),
      filterMap_events, filterMap_events]
    simp only [List.flatMap_cons, List.flatMap_nil, hexecute, hresult, List.append_nil,
      List.nil_append]
  · rw [filterMap_events]
    simp only [List.flatMap_cons, List.flatMap_nil, hrun, List.append_nil]

theorem filterMap_controllerSegments_eq_nil (hf : SeesAccesses f) {j : ℕ}
    (hnotify : project f j 0 (notifyThread 0) = [])
    (hwait : project f j 0 [.wait .taskProcessed 0] = []) :
    ((sq.controllerSegments j).flatMap (Segment.events j)).filterMap f = [] := by
  rw [filterMap_controllerSegments hf, hnotify, hwait, List.append_nil, ite_self]

theorem filterMap_wakeSegments_eq_nil (hf : SeesAccesses f) {t j : ℕ}
    (hnotify : ∀ i, project f j 0 (notifyThread i) = [])
    (hwait : project f j 0 [.wait .taskAvailable t] = []) :
    ((sq.wakeSegments t j).flatMap (Segment.events j)).filterMap f = [] := by
  simp only [filterMap_wakeSegments hf, hnotify, hwait, flatMap_nil_fun, List.append_nil, ite_self]

theorem filterMap_finishSegments_eq_nil (hf : SeesAccesses f) {t j : ℕ}
    (hwait : ∀ i, project f j 0 [.wait .taskProcessed i] = [])
    (hsignal : project f j 0 (taskSignalCompletion t) = []) :
    ((sq.finishSegments t j).flatMap (Segment.events j)).filterMap f = [] := by
  simp only [filterMap_finishSegments hf, hwait, hsignal, flatMap_nil_fun, List.append_nil]

theorem filterMap_taskSegments_eq_nil (hf : SeesAccesses f) {t j : ℕ}
    (hwait : ∀ k i, project f j k [.wait .collecting i] = [])
    (hown : ∀ k, project f j k [.reset .broadcasting t, .load .collecting t,
      .store .collecting t, .wait .broadcasting t] = [])
    (hanswer : ∀ k i, project f j k (.reset .collecting i :: setAndNotify .broadcasting i) = []) :
    ((sq.taskSegments t j).flatMap (Segment.events j)).filterMap f = [] := by
  have hround : ∀ k c,
      ((sq.roundSegments t j k c).flatMap (Segment.events j)).filterMap f = [] := by
    intro k c
    simp only [filterMap_roundSegments hf, hwait, hown, hanswer, flatMap_nil_fun, ite_self,
      List.append_nil]
  rw [filterMap_taskSegments hf _ hround, flatMap_nil_fun, ite_self]

end Projections

theorem seesAccesses_asRequest (ch : Channel) (i : ℕ) : SeesAccesses (ch.asRequest i) := by
  rintro ⟨op, j, k⟩ h
  cases op <;> first | rfl | cases h

theorem seesAccesses_asResponse (ch : Channel) (i : ℕ) : SeesAccesses (ch.asResponse i) := by
  rintro ⟨op, j, k⟩ h
  cases op <;> first | rfl | cases h

theorem asRequest_notifyThread (j i i' : ℕ) :
    project (Channel.task.asRequest i) j 0 (notifyThread i') =
      if i' = i then [Request.clearAnswer (j, 0), .loadRequest (j, 0), .raiseRequest (j, 0)]
      else [] := by
  by_cases hi : i' = i <;> simp [project, notifyThread, setAndNotify, Channel.asRequest,
    Channel.request, Channel.answer, hi]

theorem asRequest_wait (j i i' : ℕ) :
    project (Channel.task.asRequest i) j 0 [.wait .taskProcessed i'] =
      if i' = i then [Request.awaitAnswer (j, 0)] else [] := by
  by_cases hi : i' = i <;> simp [project, Channel.asRequest, Channel.answer, hi]

theorem asRequest_task_wake (t j i : ℕ) :
    ((sq.wakeSegments t j).flatMap (Segment.events j)).filterMap (Channel.task.asRequest i) =
      if sq.Child (sq.numThreadsFor j) t i then
        [Request.clearAnswer (j, 0), .loadRequest (j, 0), .raiseRequest (j, 0)] else [] := by
  have hwait : project (Channel.task.asRequest i) j 0 [.wait .taskAvailable t] = [] := rfl
  simp only [filterMap_wakeSegments (seesAccesses_asRequest _ i), hwait, asRequest_notifyThread,
    flatMap_ite_eq (sq.toSubthreads_nodup t _), mem_toSubthreads_run, List.append_nil,
    List.nil_append, ite_self]

theorem asResponse_task_wake (t j i : ℕ) :
    ((sq.wakeSegments t j).flatMap (Segment.events j)).filterMap (Channel.task.asResponse i) =
      if i = t then [Response.awaitRequest (j, 0)] else [] := by
  have hwait : project (Channel.task.asResponse i) j 0 [.wait .taskAvailable t] =
      if i = t then [Response.awaitRequest (j, 0)] else [] := by
    rcases eq_or_ne i t with rfl | hi
    · simp [project, Channel.asResponse, Channel.request]
    · simp [project, Channel.asResponse, hi, hi.symm]
  have hnotify : ∀ i', project (Channel.task.asResponse i) j 0 (notifyThread i') = [] :=
    fun _ => rfl
  simp only [filterMap_wakeSegments (seesAccesses_asResponse _ i), hwait, hnotify,
    flatMap_nil_fun, List.append_nil, List.nil_append, ite_self]

theorem filterMap_wake_sync (t j i : ℕ) :
    ((sq.wakeSegments t j).flatMap (Segment.events j)).filterMap (Channel.sync.asRequest i) = [] ∧
    ((sq.wakeSegments t j).flatMap (Segment.events j)).filterMap
      (Channel.sync.asResponse i) = [] :=
  ⟨filterMap_wakeSegments_eq_nil (seesAccesses_asRequest _ i) (fun _ => rfl) rfl,
    filterMap_wakeSegments_eq_nil (seesAccesses_asResponse _ i) (fun _ => rfl) rfl⟩

theorem asRequest_task_finish (t j i : ℕ) :
    ((sq.finishSegments t j).flatMap (Segment.events j)).filterMap (Channel.task.asRequest i) =
      if sq.Child (sq.numThreadsFor j) t i then [Request.awaitAnswer (j, 0)] else [] := by
  have hsignal : project (Channel.task.asRequest i) j 0 (taskSignalCompletion t) = [] := rfl
  simp only [filterMap_finishSegments (seesAccesses_asRequest _ i), asRequest_wait, hsignal,
    flatMap_ite_eq (sq.fromSubthreads_nodup t _), mem_fromSubthreads_run, List.append_nil]

theorem asResponse_task_finish (t j i : ℕ) :
    ((sq.finishSegments t j).flatMap (Segment.events j)).filterMap (Channel.task.asResponse i) =
      if i = t then [Response.clearRequest (j, 0), .loadAnswer (j, 0), .raiseAnswer (j, 0)]
      else [] := by
  have hwait : ∀ i', project (Channel.task.asResponse i) j 0 [.wait .taskProcessed i'] = [] :=
    fun _ => rfl
  have hsignal : project (Channel.task.asResponse i) j 0 (taskSignalCompletion t) =
      if i = t then [Response.clearRequest (j, 0), .loadAnswer (j, 0), .raiseAnswer (j, 0)]
      else [] := by
    rcases eq_or_ne i t with rfl | hi
    · simp [project, taskSignalCompletion, setAndNotify, Channel.asResponse, Channel.request,
        Channel.answer]
    · simp [project, taskSignalCompletion, setAndNotify, Channel.asResponse, hi, hi.symm]
  simp only [filterMap_finishSegments (seesAccesses_asResponse _ i), hwait, hsignal,
    flatMap_nil_fun, List.nil_append]

theorem filterMap_finish_sync (t j i : ℕ) :
    ((sq.finishSegments t j).flatMap (Segment.events j)).filterMap (Channel.sync.asRequest i) = [] ∧
    ((sq.finishSegments t j).flatMap (Segment.events j)).filterMap
      (Channel.sync.asResponse i) = [] :=
  ⟨filterMap_finishSegments_eq_nil (seesAccesses_asRequest _ i) (fun _ => rfl) rfl,
    filterMap_finishSegments_eq_nil (seesAccesses_asResponse _ i) (fun _ => rfl) rfl⟩

theorem asRequest_sync_round (t j k i : ℕ) (c : Collective V) :
    ((sq.roundSegments t j k c).flatMap (Segment.events j)).filterMap
      (Channel.sync.asRequest i) =
      if i = t ∧ 0 < t then [Request.clearAnswer (j, k), .loadRequest (j, k),
        .raiseRequest (j, k), .awaitAnswer (j, k)] else [] := by
  have hwait : ∀ i', project (Channel.sync.asRequest i) j k [.wait .collecting i'] = [] :=
    fun _ => rfl
  have hanswer : ∀ i', project (Channel.sync.asRequest i) j k
      (.reset .collecting i' :: setAndNotify .broadcasting i') = [] :=
    fun _ => rfl
  simp only [filterMap_roundSegments (seesAccesses_asRequest _ i), hwait, hanswer,
    flatMap_nil_fun, List.append_nil, List.nil_append]
  rcases eq_or_ne i t with rfl | hi
  · simp [project, Channel.asRequest, Channel.request, Channel.answer]
  · simp [project, Channel.asRequest, hi, hi.symm]

theorem asResponse_sync_round (t j k i : ℕ) (c : Collective V) :
    ((sq.roundSegments t j k c).flatMap (Segment.events j)).filterMap
      (Channel.sync.asResponse i) =
      if sq.Child (sq.task j).concurrency t i then [Response.awaitRequest (j, k),
        .clearRequest (j, k), .loadAnswer (j, k), .raiseAnswer (j, k)] else [] := by
  have hwait : ∀ i', project (Channel.sync.asResponse i) j k [.wait .collecting i'] =
      if i' = i then [Response.awaitRequest (j, k)] else [] := by
    intro i'
    by_cases hi : i' = i <;> simp [project, Channel.asResponse, Channel.request, hi]
  have hanswer : ∀ i', project (Channel.sync.asResponse i) j k
      (.reset .collecting i' :: setAndNotify .broadcasting i') =
        if i' = i then [Response.clearRequest (j, k), .loadAnswer (j, k), .raiseAnswer (j, k)]
        else [] := by
    intro i'
    by_cases hi : i' = i <;>
      simp [project, setAndNotify, Channel.asResponse, Channel.request, Channel.answer, hi]
  have hown : project (Channel.sync.asResponse i) j k [.reset .broadcasting t,
      .load .collecting t, .store .collecting t, .wait .broadcasting t] = [] := rfl
  simp only [filterMap_roundSegments (seesAccesses_asResponse _ i), hwait, hanswer, hown,
    flatMap_ite_eq (sq.fromSubthreads_nodup t _), flatMap_ite_eq (sq.toSubthreads_nodup t _),
    mem_fromSubthreads_task, mem_toSubthreads_task, ite_self, List.append_nil]
  split <;> rfl

/-- A task itself uses the handshakes of the collectives only. -/
theorem filterMap_task_task (t j i : ℕ) :
    ((sq.taskSegments t j).flatMap (Segment.events j)).filterMap (Channel.task.asRequest i) = [] ∧
    ((sq.taskSegments t j).flatMap (Segment.events j)).filterMap
      (Channel.task.asResponse i) = [] := by
  constructor
  · exact filterMap_taskSegments_eq_nil (seesAccesses_asRequest _ i) (fun _ _ => rfl)
      (fun _ => rfl) (fun _ _ => rfl)
  · exact filterMap_taskSegments_eq_nil (seesAccesses_asResponse _ i) (fun _ _ => rfl)
      (fun _ => rfl) (fun _ _ => rfl)

theorem filterMap_events_worker {P : Type*} (f : Event → Option P) (t j : ℕ) :
    (sq.events (.worker t) j).filterMap f =
      ((sq.wakeSegments t j).flatMap (Segment.events j)).filterMap f ++
      ((sq.taskSegments t j).flatMap (Segment.events j)).filterMap f ++
      ((sq.finishSegments t j).flatMap (Segment.events j)).filterMap f := by
  simp only [events, segments, List.flatMap_append, List.filterMap_append]

theorem asRequest_task_worker (t j i : ℕ) :
    (sq.events (.worker t) j).filterMap (Channel.task.asRequest i) =
      if sq.Child (sq.numThreadsFor j) t i then requests [(j, 0)] else [] := by
  rw [filterMap_events_worker, asRequest_task_wake, (filterMap_task_task t j i).1,
    asRequest_task_finish]
  split <;> rfl

theorem asResponse_task_worker (t j i : ℕ) :
    (sq.events (.worker t) j).filterMap (Channel.task.asResponse i) =
      if i = t then responses [(j, 0)] else [] := by
  rw [filterMap_events_worker, asResponse_task_wake, (filterMap_task_task t j i).2,
    asResponse_task_finish]
  split <;> rfl

theorem asRequest_task_controller (j i : ℕ) :
    (sq.events .controller j).filterMap (Channel.task.asRequest i) =
      if i = 0 ∧ sq.haveWork j then requests [(j, 0)] else [] := by
  rw [events, segments, filterMap_controllerSegments (seesAccesses_asRequest _ i),
    asRequest_notifyThread, asRequest_wait]
  by_cases hw : sq.haveWork j
  · rcases eq_or_ne i 0 with rfl | hi
    · simp [hw, requests]
    · simp [hi, hi.symm]
  · simp [hw]

theorem requests_map (l : List ℕ) (j : ℕ) :
    (requests (l.map fun k => (j, k))) = l.flatMap fun k => requests [(j, k)] := by
  rw [requests, List.flatMap_map]
  rfl

theorem responses_map (l : List ℕ) (j : ℕ) :
    (responses (l.map fun k => (j, k))) = l.flatMap fun k => responses [(j, k)] := by
  rw [responses, List.flatMap_map]
  rfl

theorem asRequest_sync_worker (t j i : ℕ) :
    (sq.events (.worker t) j).filterMap (Channel.sync.asRequest i) =
      if i = t ∧ 0 < t ∧ t < (sq.task j).concurrency then
        requests ((List.range (sq.rounds j)).map fun k => (j, k)) else [] := by
  rw [filterMap_events_worker, (filterMap_wake_sync t j i).1, (filterMap_finish_sync t j i).1,
    filterMap_taskSegments (seesAccesses_asRequest _ i) _
      fun k c => asRequest_sync_round t j k i c, requests_map]
  by_cases hi : i = t ∧ 0 < t
  · simp [hi, requests]
  · have hno : ¬ (i = t ∧ 0 < t ∧ t < (sq.task j).concurrency) := fun h => hi ⟨h.1, h.2.1⟩
    simp [hi, hno]

theorem asResponse_sync_worker (t j i : ℕ) :
    (sq.events (.worker t) j).filterMap (Channel.sync.asResponse i) =
      if sq.Child (sq.task j).concurrency t i then
        responses ((List.range (sq.rounds j)).map fun k => (j, k)) else [] := by
  rw [filterMap_events_worker, (filterMap_wake_sync t j i).2, (filterMap_finish_sync t j i).2,
    filterMap_taskSegments (seesAccesses_asResponse _ i) _
      fun k c => asResponse_sync_round t j k i c, responses_map]
  by_cases hc : sq.Child (sq.task j).concurrency t i
  · simp [hc, hc.lt, responses]
  · simp [hc]

/-- The controlling thread answers nobody and takes no part in the collectives. -/
theorem filterMap_controller (j i : ℕ) :
    (sq.events .controller j).filterMap (Channel.task.asResponse i) = [] ∧
    (sq.events .controller j).filterMap (Channel.sync.asRequest i) = [] ∧
    (sq.events .controller j).filterMap (Channel.sync.asResponse i) = [] :=
  ⟨filterMap_controllerSegments_eq_nil (seesAccesses_asResponse _ i) rfl rfl,
    filterMap_controllerSegments_eq_nil (seesAccesses_asRequest _ i) rfl rfl,
    filterMap_controllerSegments_eq_nil (seesAccesses_asResponse _ i) rfl rfl⟩

variable (sq) in
def requester (i : ℕ) : Channel → Thread
  | .task => sq.parentThread i
  | .sync => .worker i

variable (sq) in
def responder (i : ℕ) : Channel → Thread
  | .task => .worker i
  | .sync => sq.parentThread i

variable (sq) in
/-- The cycles of a handshake, labelled with their run and collective. -/
def cycles (i : ℕ) : Channel → List (ℕ × ℕ)
  | .task => (sq.runs i).map fun j => (j, 0)
  | .sync =>
      (sq.runs i).flatMap fun j =>
        if 0 < i ∧ i < (sq.task j).concurrency then
          (List.range (sq.rounds j)).map fun k => (j, k)
        else []

theorem runs_eq_filter {t i : ℕ} (h : t ≤ i) :
    sq.runs i = (sq.runs t).filter fun j => i < sq.numThreadsFor j := by
  rw [runs, runs, List.filter_filter]
  refine List.filter_congr fun j _ => ?_
  by_cases hi : i < sq.numThreadsFor j <;> simp [hi]
  omega

theorem numThreadsFor_pos {j : ℕ} (h : sq.haveWork j) : 0 < sq.numThreadsFor j := by
  have hn := sq.one_le_numThreads
  unfold numThreadsFor
  unfold haveWork at h
  split
  · exact hn
  · simp_all
    omega

theorem runs_zero : sq.runs 0 = (List.range sq.tasks.length).filter fun j => sq.haveWork j := by
  rw [runs]
  refine List.filter_congr fun j _ => ?_
  by_cases hw : sq.haveWork j
  · simp [hw, numThreadsFor_pos hw]
  · simp [hw]

/-- The requester makes the requests of the cycles in order. -/
theorem requests_script (i : ℕ) (ch : Channel) :
    (sq.script (sq.requester i ch)).filterMap (ch.asRequest i) = requests (sq.cycles i ch) := by
  rw [script, List.filterMap_flatMap]
  cases ch with
  | task =>
      rw [cycles, requests, List.flatMap_map]
      rcases Nat.eq_zero_or_pos i with rfl | hi
      · simp only [requester, parentThread_zero, threadRuns, asRequest_task_controller, true_and]
        rw [flatMap_ite, runs_zero]
        rfl
      · have hchild : ∀ j, (sq.Child (sq.numThreadsFor j) (sq.parent i) i) ↔
            decide (i < sq.numThreadsFor j) = true := fun j => by simp [Child, hi]
        simp only [requester, parentThread_of_pos hi, threadRuns, asRequest_task_worker, hchild]
        rw [flatMap_ite, ← runs_eq_filter (sq.parent_lt hi).le]
        rfl
  | sync =>
      rw [cycles, requests_flatMap]
      refine List.flatMap_congr fun j _ => ?_
      rw [requester, asRequest_sync_worker]
      by_cases h : 0 < i ∧ i < (sq.task j).concurrency
      · rw [if_pos h, if_pos ⟨rfl, h⟩]
      · rw [if_neg h, if_neg fun h' => h h'.2]
        rfl

/-- The responder answers the cycles in order. -/
theorem responses_script (i : ℕ) (ch : Channel) :
    (sq.script (sq.responder i ch)).filterMap (ch.asResponse i) = responses (sq.cycles i ch) := by
  rw [script, List.filterMap_flatMap]
  cases ch with
  | task =>
      rw [cycles, responses, List.flatMap_map]
      refine List.flatMap_congr fun j _ => ?_
      rw [responder, asResponse_task_worker, if_pos rfl]
      rfl
  | sync =>
      rw [cycles, responses_flatMap]
      rcases Nat.eq_zero_or_pos i with rfl | hi
      · simp only [responder, parentThread_zero, (filterMap_controller _ 0).2.2]
        simp [responses, flatMap_nil_fun]
      · have hout : ∀ j, (if sq.Child (sq.task j).concurrency (sq.parent i) i then
            responses ((List.range (sq.rounds j)).map fun k => (j, k)) else []) =
            if decide (i < sq.numThreadsFor j) = true then
              responses (if 0 < i ∧ i < (sq.task j).concurrency then
                (List.range (sq.rounds j)).map fun k => (j, k) else []) else [] := by
          intro j
          have := sq.concurrency_le_numThreadsFor j
          by_cases hc : i < (sq.task j).concurrency
          · have hi' : i < sq.numThreadsFor j := by omega
            simp [Child, hi, hc, hi']
          · simp [Child, hc, responses]
        simp only [responder, parentThread_of_pos hi, threadRuns, asResponse_sync_worker, hout]
        rw [flatMap_ite, ← runs_eq_filter (sq.parent_lt hi).le]

theorem eq_requester {θ : Thread} {i : ℕ} {ch : Channel} {e : Event} {r : Request (ℕ × ℕ)}
    (he : e ∈ sq.script θ) (hr : ch.asRequest i e = some r) : θ = sq.requester i ch := by
  have hmem : r ∈ (sq.events θ e.run).filterMap (ch.asRequest i) :=
    List.mem_filterMap.2 ⟨e, (mem_script.1 he).2, hr⟩
  cases θ with
  | controller =>
      cases ch with
      | task =>
          rw [asRequest_task_controller] at hmem
          split at hmem
          next h => rw [h.1, requester, parentThread_zero]
          next => cases hmem
      | sync =>
          rw [(filterMap_controller _ i).2.1] at hmem
          cases hmem
  | worker t =>
      cases ch with
      | task =>
          rw [asRequest_task_worker] at hmem
          split at hmem
          next h => rw [requester, h.parentThread]
          next => cases hmem
      | sync =>
          rw [asRequest_sync_worker] at hmem
          split at hmem
          next h => rw [requester, h.1]
          next => cases hmem

theorem eq_responder {θ : Thread} {i : ℕ} {ch : Channel} {e : Event} {r : Response (ℕ × ℕ)}
    (he : e ∈ sq.script θ) (hr : ch.asResponse i e = some r) : θ = sq.responder i ch := by
  have hmem : r ∈ (sq.events θ e.run).filterMap (ch.asResponse i) :=
    List.mem_filterMap.2 ⟨e, (mem_script.1 he).2, hr⟩
  cases θ with
  | controller =>
      cases ch with
      | task =>
          rw [(filterMap_controller _ i).1] at hmem
          cases hmem
      | sync =>
          rw [(filterMap_controller _ i).2.2] at hmem
          cases hmem
  | worker t =>
      cases ch with
      | task =>
          rw [asResponse_task_worker] at hmem
          split at hmem
          next h => rw [responder, h]
          next => cases hmem
      | sync =>
          rw [asResponse_sync_worker] at hmem
          split at hmem
          next h => rw [responder, h.parentThread]
          next => cases hmem

end Squad

end Patton.ThreadSquad
