import Patton.ThreadSquad.WakeTree

/-!
# The thread squad as a step machine

The controlling thread and the workers run concurrently. The code of a thread is
a list of operations still to be done: calling a member function of the source
replaces one operation by the operations of its body, with the loops over
subthreads unrolled in the order of `toSubthreads` and `fromSubthreads`. Every
access to a signal, to `task_`, to a synchronizer of another thread, every fork,
join, `execute` and `merge` is one step, and `set_and_notify` is two (the load
which is checked, and the store). A step is blocked, or it violates a contract
check or dereferences a pointer it must not dereference, or it succeeds.

Tasks live on the stack of the caller of `run`; a task is named by the position
of its `run` call. `execute` runs user code: `collectives` is the sequence of
collective operations which every participant performs, and the values a
participant contributes may depend on its index and on the results of the
collectives it has already performed.
-/

namespace Patton.ThreadSquad

/-- A collective operation of `task_context`. A `value` is a function of the
thread index and of what the earlier collectives of the task returned. -/
inductive Collective (V : Type)
  | synchronize
  | reduce (value : ℕ → List (Option V) → V) (reduceOp : V → V → V)
  | reduceTransform (value : ℕ → List (Option V) → V) (reduceOp : V → V → V)
      (transformFunc : V → V)

/-- What a task does besides its collectives: `thread_squad_action` and
`thread_squad_nop` return nothing, `thread_squad_transform_reduce_operation`
stores the result of `transform` and merges. -/
inductive TaskKind (V : Type)
  | action
  | transformReduce (transform : ℕ → List (Option V) → V) (reduceOp : V → V → V)

/-- `thread_squad_task` -/
structure Task (V : Type) where
  concurrency : ℕ := 0
  joinRequested : Bool := false
  collectives : List (Collective V) := []
  kind : TaskKind V := .action

/-- `thread_squad_nop`, as run by `thread_squad_impl_deleter` -/
def threadSquadNop (V : Type) : Task V := { joinRequested := true }

/-- The size of the squad and the tasks of the successive `run` calls. -/
structure Config (V : Type) where
  numThreads : ℕ
  tasks : List (Task V)

/-- The controlling thread, which the source gives the index `-1`, or a worker. -/
inductive Thread
  | controller
  | worker (threadIdx : ℕ)
  deriving DecidableEq

/-- The four atomic signals of a worker. -/
inductive Signal
  | taskAvailable
  | taskProcessed
  | collecting
  | broadcasting
  deriving DecidableEq

/-- The operations of the threads. An index `t` is the calling thread, `i` the
target thread, `j` a task and `k` the number of a collective in its task. -/
inductive Op
  -- accesses to a signal of worker `i`
  | wait (σ : Signal) (i : ℕ)
  | reset (σ : Signal) (i : ℕ)
  | load (σ : Signal) (i : ℕ)
  | store (σ : Signal) (i : ℕ)
  -- `os_thread`
  | fork (i : ℕ)
  | join (i : ℕ)
  -- the controlling thread
  | run (j : ℕ)
  | storeTask (j : ℕ)
  | forkRoot (j : ℕ)
  | releaseTask
  | ret (j : ℕ)
  -- `run_thread`
  | notifyAndForkSubthreads (t : ℕ)
  | taskRef (t : ℕ)
  | notifySubthreads (t : ℕ)
  | taskRun (t j : ℕ)
  | execute (t j : ℕ)
  | storeResult (t j : ℕ)
  | waitForSubthreads (t : ℕ)
  | mergeIfParticipant (t i : ℕ)
  | merge (j t i : ℕ)
  | nextPass (t : ℕ)
  | joinSubthreads (t : ℕ)
  | exit (t : ℕ)
  -- collectives
  | enter (t j k : ℕ)
  | synchronizeCollect (t : ℕ)
  | collect (t i : ℕ)
  | storeSyncData (t : ℕ)
  | clearSyncData (t : ℕ)
  | transform (t j k : ℕ)
  | synchronizeBroadcast (t : ℕ)
  | broadcast (t i : ℕ)
  | leave (t j k : ℕ)
  deriving DecidableEq

inductive Fault
  | oldValue (σ : Signal) (i : ℕ)  -- `gsl_Assert(oldValue != newValue)`
  | haveThreadHandle (i : ℕ)       -- `gsl_Expects(!have_thread_handle())`
  | noThreadHandle (i : ℕ)         -- `gsl_Expects(have_thread_handle())`
  | taskNull                       -- `gsl_Assert(task_ != nullptr)`
  | numThreads                     -- `gsl_Assert(numThreadsToWake == threadSquad_.numThreads)`
  | slotEngaged                    -- `gsl_Assert(!subthreadData_[i].value.has_value())`
  | badOptionalAccess              -- `value()` of an empty optional
  | danglingTask                   -- access to a task that `task_` does not point to
  | danglingSyncData               -- access to a synchronizer that does not exist
  deriving DecidableEq

inductive SyncData (V : Type)
  | none
  | reduce (value : V)
  | reduceTransform (value : V) (result : Option V)

/-- A `task_context_synchronizer` on the stack of a participant: the one of the
`round`-th collective of task `run`. -/
structure Synchronizer (V : Type) where
  run : ℕ
  round : ℕ
  collective : Collective V
  data : SyncData V

/-- A pointer to the data of a synchronizer of thread `threadIdx`. -/
structure SyncPtr where
  threadIdx : ℕ
  run : ℕ
  round : ℕ
  deriving DecidableEq

/-- The shared and the thread-local state. The first group is what several
threads access; `taskRef` is the reference `task` of `run_thread`, `results t j`
what the collectives of task `j` have returned on worker `t`. -/
structure State (V : Type) where
  task : Option ℕ
  signal : Signal → ℕ → Bool
  haveThreadHandle : ℕ → Bool
  exited : ℕ → Bool
  syncData : ℕ → Option SyncPtr
  synchronizer : ℕ → Option (Synchronizer V)
  subthreadData : ℕ → ℕ → Option V
  code : Thread → List Op
  pass : ℕ → ℕ
  joinRequested : ℕ → Bool
  taskRef : ℕ → Option ℕ
  results : ℕ → ℕ → List (Option V)

inductive Outcome (V : Type)
  | blocked
  | fault (f : Fault)
  | next (s : State V)

variable {V : Type}

def Config.task (cfg : Config V) (j : ℕ) : Task V :=
  (cfg.tasks[j]?).getD (threadSquadNop V)

def Config.toSubthreads (cfg : Config V) (t concurrency : ℕ) : List ℕ :=
  ThreadSquad.toSubthreads (numSubthreads cfg.numThreads) t concurrency

def Config.fromSubthreads (cfg : Config V) (t concurrency : ℕ) : List ℕ :=
  ThreadSquad.fromSubthreads (numSubthreads cfg.numThreads) t concurrency

def setAndNotify (σ : Signal) (i : ℕ) : List Op := [.load σ i, .store σ i]

def notifyThread (i : ℕ) : List Op :=
  .reset .taskProcessed i :: setAndNotify .taskAvailable i

/-- `wait_for_thread`, called by a worker -/
def waitForThread (t i : ℕ) : List Op :=
  [.wait .taskProcessed i, .mergeIfParticipant t i]

def taskSignalCompletion (t : ℕ) : List Op :=
  .reset .taskAvailable t :: setAndNotify .taskProcessed t

def taskWait (t : ℕ) : List Op := [.wait .taskAvailable t, .taskRef t]

/-- `run_thread`, up to the loop -/
def runThread (t : ℕ) : List Op := .notifyAndForkSubthreads t :: taskWait t

/-- The loop body of `run_thread` once the task is known to be task `j`. -/
def passBody (t j : ℕ) (isInitialPass : Bool) : List Op :=
  (if isInitialPass then [] else [.notifySubthreads t]) ++
    [.taskRun t j, .waitForSubthreads t] ++ taskSignalCompletion t ++ [.nextPass t]

def collectFromThread (t i : ℕ) : List Op := [.wait .collecting i, .collect t i]

def broadcastToThread (t i : ℕ) : List Op :=
  [.broadcast t i, .reset .collecting i] ++ setAndNotify .broadcasting i

/-- The part of `synchronize_collect` which hands over to the superordinate
thread. -/
def signalCollecting (t : ℕ) : List Op :=
  if 0 < t then
    [.storeSyncData t, .reset .broadcasting t] ++ setAndNotify .collecting t ++
      [.wait .broadcasting t, .clearSyncData t]
  else []

/-- The part of `reduce_transform` which runs on thread `0` only. -/
def Collective.transformBody (t j k : ℕ) : Collective V → List Op
  | .reduceTransform _ _ _ => if t = 0 then [.transform t j k] else []
  | _ => []

/-- `synchronize`, `reduce` and `reduce_transform` of `task_context` -/
def Collective.body (t j k : ℕ) (c : Collective V) : List Op :=
  [.enter t j k, .synchronizeCollect t] ++ c.transformBody t j k ++
    [.synchronizeBroadcast t, .leave t j k]

/-- The end of `execute`: only `transform_reduce` stores a result. -/
def TaskKind.resultBody (t j : ℕ) : TaskKind V → List Op
  | .action => []
  | .transformReduce _ _ => [.storeResult t j]

/-- `execute` of task `j` -/
def Task.executeBody (task : Task V) (t j : ℕ) : List Op :=
  (task.collectives.zipIdx.flatMap fun ck => ck.1.body t j ck.2) ++ task.kind.resultBody t j

/-- `run`, when there is work to do -/
def Task.runBody (task : Task V) (j : ℕ) : List Op :=
  [.storeTask j] ++ notifyThread 0 ++ [.forkRoot j, .wait .taskProcessed 0] ++
    (if task.joinRequested then [.join 0] else []) ++ [.releaseTask]

def numThreadsForTask (cfg : Config V) (s : State V) (t : ℕ) : ℕ :=
  if s.pass t = 0 then cfg.numThreads
  else
    match s.task with
    | none => cfg.numThreads
    | some j =>
        if (cfg.task j).joinRequested then cfg.numThreads else (cfg.task j).concurrency

def intMax : ℕ := 2147483647

/-- `next_pass` -/
def nextPassCount (pass : ℕ) : ℕ := if pass < intMax then pass + 1 else pass

/-- The constructor of the synchronizer of a collective. -/
def Collective.initialData (t : ℕ) (results : List (Option V)) : Collective V → SyncData V
  | .synchronize => .none
  | .reduce value _ => .reduce (value t results)
  | .reduceTransform value _ _ => .reduceTransform (value t results) none

/-- `sync_data`: only the reducing synchronizers have data to point to. -/
def Synchronizer.syncData (t : ℕ) (sync : Synchronizer V) : Option SyncPtr :=
  match sync.data with
  | .none => none
  | _ => some ⟨t, sync.run, sync.round⟩

/-- The data which a pointer refers to, as long as its synchronizer exists. -/
def State.deref (s : State V) (ptr : SyncPtr) : Option (Synchronizer V) :=
  (s.synchronizer ptr.threadIdx).filter fun sync =>
    sync.run == ptr.run && sync.round == ptr.round

/-- `collect` of a synchronizer: `none` if the source has no value to read. -/
def Synchronizer.collect (sync : Synchronizer V) (src : SyncData V) :
    Option (Synchronizer V) :=
  match sync.collective, sync.data, src with
  | .reduce _ op, .reduce x, .reduce y => some { sync with data := .reduce (op x y) }
  | .reduceTransform _ op _, .reduceTransform x r, .reduceTransform y _ =>
      some { sync with data := .reduceTransform (op x y) r }
  | _, _, _ => none

/-- `broadcast` of a synchronizer: the data written to the target. -/
def Synchronizer.broadcast (sync : Synchronizer V) (dst : SyncData V) : Option (SyncData V) :=
  match sync.data, dst with
  | .reduce x, .reduce _ => some (.reduce x)
  | .reduceTransform _ (some r), .reduceTransform y _ => some (.reduceTransform y (some r))
  | _, _ => none

/-- What a collective returns: `none` inside for `synchronize`. -/
def Synchronizer.returnValue (sync : Synchronizer V) : Option (Option V) :=
  match sync.data with
  | .none => some none
  | .reduce x => some (some x)
  | .reduceTransform _ (some r) => some (some r)
  | .reduceTransform _ none => none

def State.push (s : State V) (θ : Thread) (ops : List Op) : State V :=
  { s with code := Function.update s.code θ (ops ++ s.code θ) }

def State.setSignal (s : State V) (σ : Signal) (i : ℕ) (b : Bool) : State V :=
  { s with signal := Function.update s.signal σ (Function.update (s.signal σ) i b) }

def State.setSynchronizer (s : State V) (t : ℕ) (sync : Option (Synchronizer V)) : State V :=
  { s with synchronizer := Function.update s.synchronizer t sync }

def State.setSubthreadData (s : State V) (j i : ℕ) (v : Option V) : State V :=
  { s with
    subthreadData := Function.update s.subthreadData j
      (Function.update (s.subthreadData j) i v) }

/-- The operation `op` of thread `θ`, whose code in `s` is what follows `op`. -/
def exec (cfg : Config V) (s : State V) (θ : Thread) : Op → Outcome V
  | .wait σ i => if s.signal σ i then .next s else .blocked
  | .reset σ i => .next (s.setSignal σ i false)
  | .load σ i => if s.signal σ i then .fault (.oldValue σ i) else .next s
  | .store σ i => .next (s.setSignal σ i true)
  | .fork i =>
      if s.haveThreadHandle i then .fault (.haveThreadHandle i)
      else
        .next ({ s with haveThreadHandle := Function.update s.haveThreadHandle i true }.push
          (.worker i) (runThread i))
  | .join i =>
      if s.haveThreadHandle i then
        if s.exited i then
          .next { s with haveThreadHandle := Function.update s.haveThreadHandle i false }
        else .blocked
      else .fault (.noThreadHandle i)
  | .run j =>
      if (cfg.task j).concurrency ≠ 0 ∨
          ((cfg.task j).joinRequested ∧ s.haveThreadHandle 0) then
        .next (s.push θ ((cfg.task j).runBody j))
      else .next s
  | .storeTask j => .next { s with task := some j }
  | .forkRoot _ => if s.haveThreadHandle 0 then .next s else .next (s.push θ [.fork 0])
  | .releaseTask => .next { s with task := none }
  | .ret _ => .next s
  | .notifyAndForkSubthreads t =>
      let numThreadsToWake := numThreadsForTask cfg s t
      if numThreadsToWake = cfg.numThreads then
        .next (s.push θ ((cfg.toSubthreads t numThreadsToWake).flatMap fun i =>
          notifyThread i ++ [.fork i]))
      else .fault .numThreads
  | .taskRef t =>
      match s.task with
      | none => .fault .taskNull
      | some j =>
          .next ({ s with
            taskRef := Function.update s.taskRef t (some j)
            joinRequested := Function.update s.joinRequested t (cfg.task j).joinRequested }.push
              θ (passBody t j (s.pass t = 0)))
  | .notifySubthreads t =>
      .next (s.push θ ((cfg.toSubthreads t (numThreadsForTask cfg s t)).flatMap notifyThread))
  | .taskRun t j =>
      if s.task = some j then
        .next (s.push θ (if t < (cfg.task j).concurrency then [.execute t j] else []))
      else .fault .danglingTask
  | .execute t j =>
      if s.task = some j then
        match (cfg.task j).kind with
        | .action => .next (s.push θ ((cfg.task j).executeBody t j))
        | .transformReduce _ _ =>
            if (s.subthreadData j t).isSome then .fault .slotEngaged
            else .next (s.push θ ((cfg.task j).executeBody t j))
      else .fault .danglingTask
  | .storeResult t j =>
      if s.task = some j then
        match (cfg.task j).kind with
        | .action => .next s
        | .transformReduce transform _ =>
            .next (s.setSubthreadData j t (some (transform t (s.results t j))))
      else .fault .danglingTask
  | .waitForSubthreads t =>
      .next (s.push θ ((cfg.fromSubthreads t (numThreadsForTask cfg s t)).flatMap
        (waitForThread t)))
  | .mergeIfParticipant t i =>
      match s.task with
      | none => .fault .danglingTask
      | some j =>
          .next (s.push θ (if i < (cfg.task j).concurrency then [.merge j t i] else []))
  | .merge j t i =>
      if s.task = some j then
        match (cfg.task j).kind with
        | .action => .next s
        | .transformReduce _ op =>
            match s.subthreadData j t, s.subthreadData j i with
            | some x, some y =>
                .next ((s.setSubthreadData j t (some (op x y))).setSubthreadData j i none)
            | _, _ => .fault .badOptionalAccess
      else .fault .danglingTask
  | .nextPass t =>
      .next ({ s with pass := Function.update s.pass t (nextPassCount (s.pass t)) }.push θ
        (if s.joinRequested t then [.joinSubthreads t, .exit t] else taskWait t))
  | .joinSubthreads t =>
      let numThreadsToWaitFor := numThreadsForTask cfg s t
      if numThreadsToWaitFor = cfg.numThreads then
        .next (s.push θ ((cfg.fromSubthreads t numThreadsToWaitFor).map .join))
      else .fault .numThreads
  | .exit t => .next { s with exited := Function.update s.exited t true }
  | .enter t j k =>
      match (cfg.task j).collectives[k]? with
      | none => .fault .danglingTask
      | some c =>
          .next (s.setSynchronizer t (some ⟨j, k, c, c.initialData t (s.results t j)⟩))
  | .synchronizeCollect t =>
      match s.task with
      | none => .fault .danglingTask
      | some j =>
          .next (s.push θ ((cfg.fromSubthreads t (cfg.task j).concurrency).flatMap
            (collectFromThread t) ++ signalCollecting t))
  | .collect t i =>
      match s.synchronizer t with
      | none => .fault .danglingSyncData
      | some sync =>
          match sync.collective with
          | .synchronize => .next s
          | _ =>
              match ((s.syncData i).bind s.deref).bind fun src => sync.collect src.data with
              | none => .fault .danglingSyncData
              | some sync' => .next (s.setSynchronizer t (some sync'))
  | .storeSyncData t =>
      match s.synchronizer t with
      | none => .fault .danglingSyncData
      | some sync =>
          .next { s with syncData := Function.update s.syncData t (sync.syncData t) }
  | .clearSyncData t => .next { s with syncData := Function.update s.syncData t none }
  | .transform t _ _ =>
      match s.synchronizer t with
      | some ⟨j, k, .reduceTransform v op f, .reduceTransform x _⟩ =>
          .next (s.setSynchronizer t
            (some ⟨j, k, .reduceTransform v op f, .reduceTransform x (some (f x))⟩))
      | _ => .fault .danglingSyncData
  | .synchronizeBroadcast t =>
      match s.task with
      | none => .fault .danglingTask
      | some j =>
          .next (s.push θ ((cfg.toSubthreads t (cfg.task j).concurrency).flatMap
            (broadcastToThread t)))
  | .broadcast t i =>
      match s.synchronizer t with
      | none => .fault .danglingSyncData
      | some sync =>
          match sync.collective with
          | .synchronize => .next s
          | _ =>
              match (s.syncData i).bind s.deref with
              | none => .fault .danglingSyncData
              | some dst =>
                  match sync.broadcast dst.data with
                  | none => .fault .badOptionalAccess
                  | some data => .next (s.setSynchronizer i (some { dst with data := data }))
  | .leave t j _ =>
      match (s.synchronizer t).bind Synchronizer.returnValue with
      | none => .fault .badOptionalAccess
      | some r =>
          .next ({ s with
            results := Function.update s.results t
              (Function.update (s.results t) j (s.results t j ++ [r])) }.setSynchronizer t none)

/-- One step of thread `θ`: the first operation of its code. -/
def step (cfg : Config V) (s : State V) (θ : Thread) : Outcome V :=
  match s.code θ with
  | [] => .blocked
  | op :: ops => exec cfg { s with code := Function.update s.code θ ops } θ op

/-- The state after the constructor: the controlling thread is about to issue
its `run` calls one after the other. -/
def State.initial (cfg : Config V) : State V where
  task := none
  signal := fun _ _ => false
  haveThreadHandle := fun _ => false
  exited := fun _ => false
  syncData := fun _ => none
  synchronizer := fun _ => none
  subthreadData := fun _ _ => none
  code := fun θ =>
    match θ with
    | .controller => (List.range cfg.tasks.length).flatMap fun j => [.run j, .ret j]
    | .worker _ => []
  pass := fun _ => 0
  joinRequested := fun _ => false
  taskRef := fun _ => none
  results := fun _ _ => []

/-- `Exec cfg tr s`: the operations `tr`, taken by the threads in this order,
lead from the initial state to `s`. -/
inductive Exec (cfg : Config V) : List (Thread × Op) → State V → Prop
  | initial : Exec cfg [] (State.initial cfg)
  | step {tr : List (Thread × Op)} {s s' : State V} {θ : Thread} {op : Op} {ops : List Op} :
      Exec cfg tr s → s.code θ = op :: ops → step cfg s θ = .next s' →
      Exec cfg (tr ++ [(θ, op)]) s'

def replay (cfg : Config V) : List (Thread × Op) → State V → List Thread →
    Option (List (Thread × Op) × State V)
  | tr, s, [] => some (tr, s)
  | tr, s, θ :: θs =>
      match s.code θ, step cfg s θ with
      | op :: _, .next s' => replay cfg (tr ++ [(θ, op)]) s' θs
      | _, _ => none

theorem Exec.replay {cfg : Config V} {tr tr' : List (Thread × Op)} {s s' : State V}
    {schedule : List Thread} (h : Exec cfg tr s)
    (hr : replay cfg tr s schedule = some (tr', s')) : Exec cfg tr' s' := by
  induction schedule generalizing tr s with
  | nil =>
      cases hr
      exact h
  | cons θ θs ih =>
      rw [ThreadSquad.replay] at hr
      split at hr
      next op ops s'' hcode hstep => exact ih (h.step hcode hstep) hr
      next => cases hr

end Patton.ThreadSquad
