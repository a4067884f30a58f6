import Patton.ThreadSquad.SpanningTree
import Patton.ThreadSquad.Machine

/-!
# The scripts of the threads

What a thread does over the life of a squad does not depend on the schedule: it
can be written down in advance from the size of the squad and the tasks. This
file states the script of every thread as a list of events, an event being an
operation together with the task and the collective it belongs to. The scripts
are a description of the protocol and independent of the step machine; that the
machine follows them is proved later.

Every event has a `slot` in its run. Stage `1` wakes the workers, the stages
`2 k + 2` and `2 k + 3` are the two halves of the `k`-th collective, and the
stages behind the last collective wait for completion, advance to the next pass
and join.
-/

namespace Patton.ThreadSquad

variable {V : Type}

/-- A squad whose wake ranges nest, together with the tasks it is given. Only the
last task may request a join. -/
structure Squad (V : Type) extends Config V where
  one_le_numThreads : 1 ≤ numThreads
  nested : Nested numThreads
  concurrency_le : ∀ task ∈ tasks, task.concurrency ≤ numThreads
  join_last : ∀ task ∈ tasks.dropLast, task.joinRequested = false

namespace Squad

variable (sq : Squad V)

/-- The superordinate worker of worker `i`. -/
def parent (i : ℕ) : ℕ := parentOff sq.numThreads i

theorem parent_lt {i : ℕ} (hi : 0 < i) : sq.parent i < i := parentOff_lt hi

theorem stridesDivide : StridesDivide sq.numThreads :=
  sq.nested.stridesDivide sq.one_le_numThreads

theorem numSubthreads_of_le {t : ℕ} (ht : sq.numThreads ≤ t) :
    numSubthreads sq.numThreads t = 0 := by
  have hn := sq.one_le_numThreads
  rw [numSubthreads, init_apply 0 _ _ _ t hn hn (by omega), if_neg (by omega)]

theorem mem_toSubthreads {t c i : ℕ} (hc : c ≤ sq.numThreads) :
    i ∈ sq.toSubthreads t c ↔ 0 < i ∧ i < c ∧ sq.parent i = t := by
  rw [Config.toSubthreads]
  by_cases ht : t < sq.numThreads
  · rw [ThreadSquad.mem_toSubthreads ht]
    constructor
    · rintro ⟨hw, hi⟩
      have hpos : 0 < i := Nat.lt_of_le_of_lt (Nat.zero_le t) hw.1
      exact ⟨hpos, hi, (hw.eq_parentOff sq.stridesDivide ht (by omega)).symm⟩
    · rintro ⟨hpos, hi, rfl⟩
      exact ⟨wakes_parentOff hpos (by omega), hi⟩
  · have hnil : toSubthreads (numSubthreads sq.numThreads) t c = [] := by
      rw [toSubthreads, sq.numSubthreads_of_le (by omega), toSubthreadsLoop]
      simp
    rw [hnil]
    simp only [List.not_mem_nil, false_iff]
    rintro ⟨hpos, hi, rfl⟩
    have := sq.parent_lt hpos
    omega

theorem mem_fromSubthreads {t c i : ℕ} (hc : c ≤ sq.numThreads) :
    i ∈ sq.fromSubthreads t c ↔ 0 < i ∧ i < c ∧ sq.parent i = t := by
  rw [← sq.mem_toSubthreads hc, Config.fromSubthreads, Config.toSubthreads]
  by_cases ht : t < sq.numThreads
  · rw [fromSubthreads, toSubthreads, numSubthreads_apply ht,
      mem_fromSubthreadsImpl (strideOf_pos sq.one_le_numThreads t) (by omega)]
  · rw [fromSubthreads, toSubthreads, sq.numSubthreads_of_le (by omega), toSubthreadsLoop,
      fromSubthreadsImpl]
    simp [forIndices, nextSubstride_of_le_one]

theorem toSubthreads_nodup (t c : ℕ) : (sq.toSubthreads t c).Nodup := by
  rw [Config.toSubthreads, toSubthreads]
  by_cases ht : t < sq.numThreads
  · rw [numSubthreads_apply ht]
    exact toSubthreadsLoop_nodup (strideOf_pos sq.one_le_numThreads t)
  · rw [sq.numSubthreads_of_le (by omega), toSubthreadsLoop]
    simp

theorem fromSubthreads_pairwise (t c : ℕ) : (sq.fromSubthreads t c).Pairwise (· < ·) := by
  rw [Config.fromSubthreads, fromSubthreads]
  by_cases ht : t < sq.numThreads
  · rw [numSubthreads_apply ht]
    exact fromSubthreadsImpl_pairwise (strideOf_pos sq.one_le_numThreads t) (by omega)
  · rw [sq.numSubthreads_of_le (by omega), fromSubthreadsImpl]
    simp [forIndices, nextSubstride_of_le_one]

theorem fromSubthreads_nodup (t c : ℕ) : (sq.fromSubthreads t c).Nodup :=
  (sq.fromSubthreads_pairwise t c).imp fun h => Nat.ne_of_lt h

/-- Some earlier run has forked the workers. -/
def started (j : ℕ) : Bool :=
  (List.range j).any fun j' => (sq.task j').concurrency != 0

/-- Run `j` is the one that forks the workers. -/
def isFirst (j : ℕ) : Bool := (sq.task j).concurrency != 0 && !sq.started j

def haveWork (j : ℕ) : Bool :=
  (sq.task j).concurrency != 0 || ((sq.task j).joinRequested && sq.started j)

/-- The number of workers that take part in run `j`. -/
def numThreadsFor (j : ℕ) : ℕ :=
  if sq.isFirst j || (sq.task j).joinRequested then sq.numThreads
  else (sq.task j).concurrency

def rounds (j : ℕ) : ℕ := (sq.task j).collectives.length

def runs (t : ℕ) : List ℕ :=
  (List.range sq.tasks.length).filter fun j => sq.haveWork j && t < sq.numThreadsFor j

theorem concurrency_task_le (j : ℕ) : (sq.task j).concurrency ≤ sq.numThreads := by
  rw [Config.task]
  cases h : sq.tasks[j]? with
  | none => exact Nat.zero_le _
  | some task => exact sq.concurrency_le task (List.mem_of_getElem? h)

theorem numThreadsFor_le (j : ℕ) : sq.numThreadsFor j ≤ sq.numThreads := by
  unfold numThreadsFor
  split
  · exact le_rfl
  · exact sq.concurrency_task_le j

theorem concurrency_le_numThreadsFor (j : ℕ) :
    (sq.task j).concurrency ≤ sq.numThreadsFor j := by
  unfold numThreadsFor
  split
  · exact sq.concurrency_task_le j
  · exact le_rfl

theorem mem_runs {t j : ℕ} :
    j ∈ sq.runs t ↔ j < sq.tasks.length ∧ sq.haveWork j ∧ t < sq.numThreadsFor j := by
  simp [runs]

theorem runs_pairwise (t : ℕ) : (sq.runs t).Pairwise (· < ·) :=
  List.Pairwise.filter _ List.pairwise_lt_range

end Squad

/-- An operation together with the run and the collective it belongs to. -/
structure Event where
  op : Op
  run : ℕ
  round : ℕ
  deriving DecidableEq

/-- The position of an event in its run. -/
structure Slot where
  stage : ℕ
  sub : ℕ
  pos : ℕ

def Slot.before (a b : Slot) : Prop :=
  a.stage < b.stage ∨ a.stage = b.stage ∧ (a.sub < b.sub ∨ a.sub = b.sub ∧ a.pos < b.pos)

/-- Operations of one thread in one run that share a slot. -/
structure Segment where
  round : ℕ
  slot : Slot
  ops : List Op

def Segment.events (j : ℕ) (seg : Segment) : List Event :=
  seg.ops.map fun op => ⟨op, j, seg.round⟩

namespace Squad

variable (sq : Squad V)

/-- In the first run a worker notifies its subthreads before it waits for its
own task, later on afterwards. -/
def notifySub (j : ℕ) : ℕ := if sq.isFirst j then 0 else 1

/-- The position of worker `i` among the targets of its superordinate worker. -/
def childPos (c i : ℕ) : ℕ := (sq.toSubthreads (sq.parent i) c).idxOf i

def slot (j k : ℕ) : Op → Slot
  | .wait .taskAvailable _ => ⟨1, 1 - sq.notifySub j, 0⟩
  | .reset .taskAvailable _ => ⟨2 * sq.rounds j + 2, 2, 0⟩
  | .load .taskAvailable i => ⟨1, sq.notifySub j, 2 * sq.childPos (sq.numThreadsFor j) i + 1⟩
  | .store .taskAvailable i => ⟨1, sq.notifySub j, 2 * sq.childPos (sq.numThreadsFor j) i + 1⟩
  | .wait .taskProcessed i => ⟨2 * sq.rounds j + 2, 1, 2 * i + 1⟩
  | .reset .taskProcessed i => ⟨1, sq.notifySub j, 2 * sq.childPos (sq.numThreadsFor j) i + 1⟩
  | .load .taskProcessed _ => ⟨2 * sq.rounds j + 2, 2, 0⟩
  | .store .taskProcessed _ => ⟨2 * sq.rounds j + 2, 2, 0⟩
  | .wait .collecting i => ⟨2 * k + 2, 1, 2 * i + 1⟩
  | .reset .collecting i =>
      ⟨2 * k + 3, 3, 2 * sq.childPos (sq.task j).concurrency i + 2⟩
  | .load .collecting _ => ⟨2 * k + 2, 3, 0⟩
  | .store .collecting _ => ⟨2 * k + 2, 3, 1⟩
  | .wait .broadcasting _ => ⟨2 * k + 3, 0, 0⟩
  | .reset .broadcasting _ => ⟨2 * k + 2, 3, 0⟩
  | .load .broadcasting i =>
      ⟨2 * k + 3, 3, 2 * sq.childPos (sq.task j).concurrency i + 2⟩
  | .store .broadcasting i =>
      ⟨2 * k + 3, 3, 2 * sq.childPos (sq.task j).concurrency i + 2⟩
  | .fork i => ⟨1, sq.notifySub j, 2 * sq.childPos (sq.numThreadsFor j) i + 2⟩
  | .join _ => ⟨2 * sq.rounds j + 4, 0, 1⟩
  | .run _ => ⟨0, 0, 0⟩
  | .storeTask _ => ⟨0, 0, 0⟩
  | .forkRoot _ => ⟨1, sq.notifySub j, 2 * sq.childPos (sq.numThreadsFor j) 0 + 1⟩
  | .releaseTask => ⟨2 * sq.rounds j + 4, 2, 0⟩
  | .ret _ => ⟨2 * sq.rounds j + 4, 3, 0⟩
  | .notifyAndForkSubthreads _ => ⟨1, sq.notifySub j, 0⟩
  | .taskRef _ => ⟨1, 1 - sq.notifySub j, 1⟩
  | .notifySubthreads _ => ⟨1, 1 - sq.notifySub j, 1⟩
  | .taskRun _ _ => ⟨1, 2, 0⟩
  | .execute _ _ => ⟨1, 2, 0⟩
  | .storeResult _ _ => ⟨2 * sq.rounds j + 2, 0, 0⟩
  | .waitForSubthreads _ => ⟨2 * sq.rounds j + 2, 1, 0⟩
  | .mergeIfParticipant _ i => ⟨2 * sq.rounds j + 2, 1, 2 * i + 2⟩
  | .merge _ _ i => ⟨2 * sq.rounds j + 2, 1, 2 * i + 2⟩
  | .nextPass _ => ⟨2 * sq.rounds j + 3, 0, 0⟩
  | .joinSubthreads _ => ⟨2 * sq.rounds j + 4, 0, 0⟩
  | .exit _ => ⟨2 * sq.rounds j + 4, 1, 0⟩
  | .enter _ _ _ => ⟨2 * k + 2, 0, 0⟩
  | .synchronizeCollect _ => ⟨2 * k + 2, 1, 0⟩
  | .collect _ i => ⟨2 * k + 2, 1, 2 * i + 2⟩
  | .storeSyncData _ => ⟨2 * k + 2, 2, 0⟩
  | .clearSyncData _ => ⟨2 * k + 3, 1, 0⟩
  | .transform _ _ _ => ⟨2 * k + 3, 2, 0⟩
  | .synchronizeBroadcast _ => ⟨2 * k + 3, 3, 0⟩
  | .broadcast _ i => ⟨2 * k + 3, 3, 2 * sq.childPos (sq.task j).concurrency i + 1⟩
  | .leave _ _ _ => ⟨2 * k + 3, 4, 0⟩

/-- The order of the events of a thread. -/
def before (e e' : Event) : Prop :=
  e.run < e'.run ∨
    e.run = e'.run ∧ (sq.slot e.run e.round e.op).before (sq.slot e'.run e'.round e'.op)

/-- Run `j` of the controlling thread. -/
def controllerSegments (j : ℕ) : List Segment :=
  [⟨0, ⟨0, 0, 0⟩, .run j :: if sq.haveWork j then [.storeTask j] else []⟩,
    ⟨0, ⟨1, sq.notifySub j, 2 * sq.childPos (sq.numThreadsFor j) 0 + 1⟩,
      if sq.haveWork j then notifyThread 0 ++ [.forkRoot j] else []⟩,
    ⟨0, ⟨1, sq.notifySub j, 2 * sq.childPos (sq.numThreadsFor j) 0 + 2⟩,
      if sq.isFirst j then [.fork 0] else []⟩,
    ⟨0, ⟨2 * sq.rounds j + 2, 1, 1⟩, if sq.haveWork j then [.wait .taskProcessed 0] else []⟩,
    ⟨0, ⟨2 * sq.rounds j + 4, 0, 1⟩,
      if sq.haveWork j && (sq.task j).joinRequested then [.join 0] else []⟩,
    ⟨0, ⟨2 * sq.rounds j + 4, 2, 0⟩, if sq.haveWork j then [.releaseTask] else []⟩,
    ⟨0, ⟨2 * sq.rounds j + 4, 3, 0⟩, [.ret j]⟩]

/-- Worker `t` wakes up in run `j` and passes the task on. -/
def wakeSegments (t j : ℕ) : List Segment :=
  let notify := (sq.toSubthreads t (sq.numThreadsFor j)).flatMap fun i =>
    [⟨0, ⟨1, sq.notifySub j, 2 * sq.childPos (sq.numThreadsFor j) i + 1⟩, notifyThread i⟩,
      ⟨0, ⟨1, sq.notifySub j, 2 * sq.childPos (sq.numThreadsFor j) i + 2⟩,
        if sq.isFirst j then [.fork i] else []⟩]
  if sq.isFirst j then
    ⟨0, ⟨1, 0, 0⟩, [.notifyAndForkSubthreads t]⟩ :: notify ++
      [⟨0, ⟨1, 1, 0⟩, [.wait .taskAvailable t]⟩, ⟨0, ⟨1, 1, 1⟩, [.taskRef t]⟩]
  else
    [⟨0, ⟨1, 0, 0⟩, [.wait .taskAvailable t]⟩,
      ⟨0, ⟨1, 0, 1⟩, [.taskRef t, .notifySubthreads t]⟩] ++ notify

/-- The `k`-th collective of task `j` on worker `t`. -/
def roundSegments (t j k : ℕ) (c : Collective V) : List Segment :=
  [⟨k, ⟨2 * k + 2, 0, 0⟩, [.enter t j k]⟩,
    ⟨k, ⟨2 * k + 2, 1, 0⟩, [.synchronizeCollect t]⟩] ++
  ((sq.fromSubthreads t (sq.task j).concurrency).flatMap fun i =>
    [⟨k, ⟨2 * k + 2, 1, 2 * i + 1⟩, [.wait .collecting i]⟩,
      ⟨k, ⟨2 * k + 2, 1, 2 * i + 2⟩, [.collect t i]⟩]) ++
  [⟨k, ⟨2 * k + 2, 2, 0⟩, if 0 < t then [.storeSyncData t] else []⟩,
    ⟨k, ⟨2 * k + 2, 3, 0⟩, if 0 < t then [.reset .broadcasting t, .load .collecting t] else []⟩,
    ⟨k, ⟨2 * k + 2, 3, 1⟩, if 0 < t then [.store .collecting t] else []⟩,
    ⟨k, ⟨2 * k + 3, 0, 0⟩, if 0 < t then [.wait .broadcasting t] else []⟩,
    ⟨k, ⟨2 * k + 3, 1, 0⟩, if 0 < t then [.clearSyncData t] else []⟩,
    ⟨k, ⟨2 * k + 3, 2, 0⟩, c.transformBody t j k⟩,
    ⟨k, ⟨2 * k + 3, 3, 0⟩, [.synchronizeBroadcast t]⟩] ++
  ((sq.toSubthreads t (sq.task j).concurrency).flatMap fun i =>
    [⟨k, ⟨2 * k + 3, 3, 2 * sq.childPos (sq.task j).concurrency i + 1⟩, [.broadcast t i]⟩,
      ⟨k, ⟨2 * k + 3, 3, 2 * sq.childPos (sq.task j).concurrency i + 2⟩,
        .reset .collecting i :: setAndNotify .broadcasting i⟩]) ++
  [⟨k, ⟨2 * k + 3, 4, 0⟩, [.leave t j k]⟩]

/-- Worker `t` takes part in task `j`, if it is a participant. -/
def taskSegments (t j : ℕ) : List Segment :=
  if t < (sq.task j).concurrency then
    ⟨0, ⟨1, 2, 0⟩, [.taskRun t j, .execute t j]⟩ ::
      ((sq.task j).collectives.zipIdx.flatMap fun ck => sq.roundSegments t j ck.2 ck.1) ++
      [⟨0, ⟨2 * sq.rounds j + 2, 0, 0⟩, (sq.task j).kind.resultBody t j⟩]
  else [⟨0, ⟨1, 2, 0⟩, [.taskRun t j]⟩]

/-- Worker `t` waits for its subthreads, completes run `j` and, in a join run,
leaves. -/
def finishSegments (t j : ℕ) : List Segment :=
  ⟨0, ⟨2 * sq.rounds j + 2, 1, 0⟩, [.waitForSubthreads t]⟩ ::
  ((sq.fromSubthreads t (sq.numThreadsFor j)).flatMap fun i =>
    [⟨0, ⟨2 * sq.rounds j + 2, 1, 2 * i + 1⟩, [.wait .taskProcessed i]⟩,
      ⟨0, ⟨2 * sq.rounds j + 2, 1, 2 * i + 2⟩,
        .mergeIfParticipant t i ::
          if i < (sq.task j).concurrency then [.merge j t i] else []⟩]) ++
  [⟨0, ⟨2 * sq.rounds j + 2, 2, 0⟩, taskSignalCompletion t⟩,
    ⟨0, ⟨2 * sq.rounds j + 3, 0, 0⟩, [.nextPass t]⟩] ++
  if (sq.task j).joinRequested then
    [⟨0, ⟨2 * sq.rounds j + 4, 0, 0⟩, [.joinSubthreads t]⟩,
      ⟨0, ⟨2 * sq.rounds j + 4, 0, 1⟩, (sq.fromSubthreads t sq.numThreads).map .join⟩,
      ⟨0, ⟨2 * sq.rounds j + 4, 1, 0⟩, [.exit t]⟩]
  else []

def segments (θ : Thread) (j : ℕ) : List Segment :=
  match θ with
  | .controller => sq.controllerSegments j
  | .worker t => sq.wakeSegments t j ++ sq.taskSegments t j ++ sq.finishSegments t j

def threadRuns : Thread → List ℕ
  | .controller => List.range sq.tasks.length
  | .worker t => sq.runs t

def events (θ : Thread) (j : ℕ) : List Event :=
  (sq.segments θ j).flatMap (Segment.events j)

def script (θ : Thread) : List Event :=
  (sq.threadRuns θ).flatMap (sq.events θ)

end Squad

end Patton.ThreadSquad
