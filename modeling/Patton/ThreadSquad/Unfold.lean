import Patton.Library.Calls
import Patton.ThreadSquad.ScriptEvents

/-!
# The code performs the scripts

`expand` says what the member functions call when a run goes as scripted. Under
these calls, the code which a thread starts a run with performs exactly the
segments of this run.
-/

namespace Patton.ThreadSquad

open Calls

variable {V : Type}

namespace Squad

variable (sq : Squad V)

/-- What an operation of run `j` calls when the run goes as scripted. -/
def expand (j : ℕ) : Op → List Op
  | .run j' => if sq.haveWork j' then (sq.task j').runBody j' else []
  | .forkRoot j' => if sq.isFirst j' then [.fork 0] else []
  | .notifyAndForkSubthreads t =>
      (sq.toSubthreads t sq.numThreads).flatMap fun i => notifyThread i ++ [.fork i]
  | .taskRef t => passBody t j (sq.isFirst j)
  | .notifySubthreads t => (sq.toSubthreads t (sq.numThreadsFor j)).flatMap notifyThread
  | .taskRun t _ => if t < (sq.task j).concurrency then [.execute t j] else []
  | .execute t _ => (sq.task j).executeBody t j
  | .waitForSubthreads t => (sq.fromSubthreads t (sq.numThreadsFor j)).flatMap (waitForThread t)
  | .mergeIfParticipant t i => if i < (sq.task j).concurrency then [.merge j t i] else []
  | .nextPass t => if (sq.task j).joinRequested then [.joinSubthreads t, .exit t] else []
  | .joinSubthreads t => (sq.fromSubthreads t sq.numThreads).map .join
  | .synchronizeCollect t =>
      (sq.fromSubthreads t (sq.task j).concurrency).flatMap (collectFromThread t) ++
        signalCollecting t
  | .synchronizeBroadcast t =>
      (sq.toSubthreads t (sq.task j).concurrency).flatMap (broadcastToThread t)
  | _ => []

def ops (segs : List Segment) : List Op := segs.flatMap Segment.ops

variable {sq}

theorem unfolds_notifyThread (j i : ℕ) :
    Unfolds (sq.expand j) (notifyThread i) (notifyThread i) :=
  .leaves (by simp [notifyThread, setAndNotify, expand])

theorem unfolds_collectFromThread (j t i : ℕ) :
    Unfolds (sq.expand j) (collectFromThread t i) (collectFromThread t i) :=
  .leaves (by simp [collectFromThread, expand])

theorem unfolds_broadcastToThread (j t i : ℕ) :
    Unfolds (sq.expand j) (broadcastToThread t i) (broadcastToThread t i) :=
  .leaves (by simp [broadcastToThread, setAndNotify, expand])

theorem unfolds_signalCollecting (j t : ℕ) :
    Unfolds (sq.expand j) (signalCollecting t) (signalCollecting t) := by
  refine .leaves ?_
  unfold signalCollecting
  split <;> simp [setAndNotify, expand]

theorem unfolds_transformBody (j t k : ℕ) (c : Collective V) :
    Unfolds (sq.expand j) (c.transformBody t j k) (c.transformBody t j k) := by
  refine .leaves fun op hop => ?_
  rw [(mem_transformBody.1 hop).1]
  rfl

theorem unfolds_resultBody (j t : ℕ) (kind : TaskKind V) :
    Unfolds (sq.expand j) (kind.resultBody t j) (kind.resultBody t j) := by
  refine .leaves fun op hop => ?_
  rw [(mem_resultBody.1 hop).1]
  rfl

theorem ops_roundSegments (t j k : ℕ) (c : Collective V) :
    ops (sq.roundSegments t j k c) =
      [Op.enter t j k] ++ (Op.synchronizeCollect t ::
        ((sq.fromSubthreads t (sq.task j).concurrency).flatMap (collectFromThread t) ++
          signalCollecting t)) ++ c.transformBody t j k ++
      (Op.synchronizeBroadcast t ::
        (sq.toSubthreads t (sq.task j).concurrency).flatMap (broadcastToThread t)) ++
      [Op.leave t j k] := by
  by_cases ht : 0 < t <;>
    simp [ops, roundSegments, List.flatMap_append, List.flatMap_assoc, signalCollecting,
      setAndNotify, ht] <;>
    rfl

theorem unfolds_collective (t j k : ℕ) (c : Collective V) :
    Unfolds (sq.expand j) (c.body t j k) (ops (sq.roundSegments t j k c)) := by
  rw [ops_roundSegments]
  have hcollect : Unfolds (sq.expand j) [Op.synchronizeCollect t] (Op.synchronizeCollect t ::
      ((sq.fromSubthreads t (sq.task j).concurrency).flatMap (collectFromThread t) ++
        signalCollecting t)) :=
    .call (by rw [expand])
      ((Unfolds.flatMap fun i _ => unfolds_collectFromThread j t i).append
        (unfolds_signalCollecting j t))
  have hbroadcast : Unfolds (sq.expand j) [Op.synchronizeBroadcast t] (Op.synchronizeBroadcast t ::
      (sq.toSubthreads t (sq.task j).concurrency).flatMap (broadcastToThread t)) :=
    .call (by rw [expand]) (.flatMap fun i _ => unfolds_broadcastToThread j t i)
  have henter : Unfolds (sq.expand j) [Op.enter t j k] [Op.enter t j k] := .leaf rfl
  have hleave : Unfolds (sq.expand j) [Op.leave t j k] [Op.leave t j k] := .leaf rfl
  have hbody : c.body t j k = [Op.enter t j k] ++ [Op.synchronizeCollect t] ++
      c.transformBody t j k ++ [Op.synchronizeBroadcast t] ++ [Op.leave t j k] := by
    simp [Collective.body]
  rw [hbody]
  exact (((henter.append hcollect).append (unfolds_transformBody j t k c)).append
    hbroadcast).append hleave

theorem unfolds_executeBody (t j : ℕ) :
    Unfolds (sq.expand j) ((sq.task j).executeBody t j)
      (((sq.task j).collectives.zipIdx.flatMap fun ck => ops (sq.roundSegments t j ck.2 ck.1)) ++
        (sq.task j).kind.resultBody t j) :=
  (Unfolds.flatMap fun ck _ => unfolds_collective t j ck.2 ck.1).append
    (unfolds_resultBody j t _)

theorem unfolds_taskRun (t j : ℕ) :
    Unfolds (sq.expand j) [Op.taskRun t j] (ops (sq.taskSegments t j)) := by
  by_cases hc : t < (sq.task j).concurrency
  · have hops : ops (sq.taskSegments t j) = Op.taskRun t j :: Op.execute t j ::
        (((sq.task j).collectives.zipIdx.flatMap fun ck =>
          ops (sq.roundSegments t j ck.2 ck.1)) ++ (sq.task j).kind.resultBody t j) := by
      simp [ops, taskSegments, hc, List.flatMap_append, List.flatMap_assoc]
    rw [hops]
    exact .call (by rw [expand, if_pos hc]) (.call (by rw [expand]) (unfolds_executeBody t j))
  · have hops : ops (sq.taskSegments t j) = [Op.taskRun t j] := by
      simp [ops, taskSegments, hc]
    rw [hops]
    exact .leaf (by rw [expand, if_neg hc])

theorem unfolds_waitForThread (t j i : ℕ) :
    Unfolds (sq.expand j) (waitForThread t i)
      (Op.wait .taskProcessed i :: Op.mergeIfParticipant t i ::
        if i < (sq.task j).concurrency then [Op.merge j t i] else []) := by
  have hwait : Unfolds (sq.expand j) [Op.wait .taskProcessed i] [Op.wait .taskProcessed i] :=
    .leaf rfl
  exact hwait.append (.call (by rw [expand]) (.leaves (by split <;> simp [expand])))

/-- The end of `run_thread` in run `j`, and all there is to it in a join run. -/
theorem unfolds_finish (t j : ℕ) :
    Unfolds (sq.expand j) ([Op.waitForSubthreads t] ++ taskSignalCompletion t ++ [Op.nextPass t])
      (ops (sq.finishSegments t j)) := by
  have hwait : Unfolds (sq.expand j) [Op.waitForSubthreads t] (Op.waitForSubthreads t ::
      (sq.fromSubthreads t (sq.numThreadsFor j)).flatMap fun i => Op.wait .taskProcessed i ::
        Op.mergeIfParticipant t i ::
          if i < (sq.task j).concurrency then [Op.merge j t i] else []) :=
    .call (by rw [expand]) (.flatMap fun i _ => unfolds_waitForThread t j i)
  have hsignal : Unfolds (sq.expand j) (taskSignalCompletion t) (taskSignalCompletion t) :=
    .leaves (by simp [taskSignalCompletion, setAndNotify, expand])
  have hjoin : Unfolds (sq.expand j) [Op.joinSubthreads t] (Op.joinSubthreads t ::
      (sq.fromSubthreads t sq.numThreads).map Op.join) :=
    .call (by rw [expand]) (.leaves (by simp [expand]))
  have hnext : Unfolds (sq.expand j) [Op.nextPass t] (Op.nextPass t ::
      if (sq.task j).joinRequested then Op.joinSubthreads t ::
        (sq.fromSubthreads t sq.numThreads).map Op.join ++ [Op.exit t] else []) := by
    refine .call (by rw [expand]) ?_
    split
    · exact hjoin.append (.leaf rfl)
    · exact .nil
  have hops : ops (sq.finishSegments t j) = (Op.waitForSubthreads t ::
      (sq.fromSubthreads t (sq.numThreadsFor j)).flatMap fun i => Op.wait .taskProcessed i ::
        Op.mergeIfParticipant t i ::
          if i < (sq.task j).concurrency then [Op.merge j t i] else []) ++
      taskSignalCompletion t ++ (Op.nextPass t ::
      if (sq.task j).joinRequested then Op.joinSubthreads t ::
        (sq.fromSubthreads t sq.numThreads).map Op.join ++ [Op.exit t] else []) := by
    by_cases hj : (sq.task j).joinRequested <;>
      simp [ops, finishSegments, hj, List.flatMap_append, List.flatMap_assoc]
  rw [hops]
  exact (hwait.append hsignal).append hnext

theorem ops_segments (t j : ℕ) :
    ops (sq.segments (.worker t) j) = ops (sq.wakeSegments t j) ++ ops (sq.taskSegments t j) ++
      ops (sq.finishSegments t j) := by
  simp only [ops, segments, List.flatMap_append]

/-- Worker `t` runs through its segments of run `j`: from the start of
`run_thread` in the first run, from `task_wait` in the later ones. -/
theorem unfolds_worker (t j : ℕ) :
    Unfolds (sq.expand j) (if sq.isFirst j then runThread t else taskWait t)
      (ops (sq.segments (.worker t) j)) := by
  have hwait : Unfolds (sq.expand j) [Op.wait .taskAvailable t] [Op.wait .taskAvailable t] :=
    .leaf rfl
  have hrest : Unfolds (sq.expand j) _ _ := (unfolds_taskRun t j).append (unfolds_finish t j)
  rw [ops_segments, List.append_assoc]
  by_cases hf : sq.isFirst j
  · have hn : sq.numThreadsFor j = sq.numThreads := by simp [numThreadsFor, hf]
    have hfork : ∀ i, Unfolds (sq.expand j) (notifyThread i ++ [Op.fork i])
        (notifyThread i ++ [Op.fork i]) :=
      fun i => .leaves (by simp [notifyThread, setAndNotify, expand])
    have hnotify : Unfolds (sq.expand j) [Op.notifyAndForkSubthreads t]
        (Op.notifyAndForkSubthreads t :: (sq.toSubthreads t sq.numThreads).flatMap fun i =>
          notifyThread i ++ [Op.fork i]) :=
      .call (by rw [expand]) (.flatMap fun i _ => hfork i)
    have hops : ops (sq.wakeSegments t j) = (Op.notifyAndForkSubthreads t ::
        (sq.toSubthreads t sq.numThreads).flatMap fun i => notifyThread i ++ [Op.fork i]) ++
        [Op.wait .taskAvailable t] ++ [Op.taskRef t] := by
      simp [ops, wakeSegments, hf, hn, List.flatMap_append, List.flatMap_assoc]
    have hbody : sq.expand j (Op.taskRef t) = [Op.taskRun t j] ++
        ([Op.waitForSubthreads t] ++ taskSignalCompletion t ++ [Op.nextPass t]) := by
      simp [expand, passBody, hf]
    rw [if_pos hf, hops, List.append_assoc _ [Op.taskRef t]]
    exact (hnotify.append hwait).append (.call hbody hrest)
  · have hnotify : Unfolds (sq.expand j) [Op.notifySubthreads t]
        (Op.notifySubthreads t ::
          (sq.toSubthreads t (sq.numThreadsFor j)).flatMap notifyThread) :=
      .call (by rw [expand]) (.flatMap fun i _ => unfolds_notifyThread j i)
    have hops : ops (sq.wakeSegments t j) = [Op.wait .taskAvailable t] ++ [Op.taskRef t] ++
        (Op.notifySubthreads t ::
          (sq.toSubthreads t (sq.numThreadsFor j)).flatMap notifyThread) := by
      simp [ops, wakeSegments, hf, List.flatMap_assoc]
    have hbody : sq.expand j (Op.taskRef t) = [Op.notifySubthreads t] ++ ([Op.taskRun t j] ++
        ([Op.waitForSubthreads t] ++ taskSignalCompletion t ++ [Op.nextPass t])) := by
      simp [expand, passBody, hf]
    rw [if_neg hf, hops, List.append_assoc, List.append_assoc [Op.wait _ t]]
    exact hwait.append (.call hbody (hnotify.append hrest))

/-- The controlling thread runs through its segments of run `j`. What its
operations call does not depend on the run they are looked at from. -/
theorem unfolds_controller (j j' : ℕ) :
    Unfolds (sq.expand j') [Op.run j, Op.ret j] (ops (sq.segments .controller j)) := by
  have hret : Unfolds (sq.expand j') [Op.ret j] [Op.ret j] := .leaf rfl
  have hfork : Unfolds (sq.expand j') [Op.forkRoot j]
      (Op.forkRoot j :: if sq.isFirst j then [Op.fork 0] else []) := by
    exact .call (by rw [expand]) (.leaves (by split <;> simp [expand]))
  by_cases hw : sq.haveWork j
  · have hops : ops (sq.segments .controller j) = (Op.run j :: ([Op.storeTask j] ++
        notifyThread 0 ++ (Op.forkRoot j :: if sq.isFirst j then [Op.fork 0] else []) ++
        [Op.wait .taskProcessed 0] ++ (if (sq.task j).joinRequested then [Op.join 0] else []) ++
        [Op.releaseTask])) ++ [Op.ret j] := by
      simp [ops, segments, controllerSegments, hw]
    have hstore : Unfolds (sq.expand j') [Op.storeTask j] [Op.storeTask j] := .leaf rfl
    have hwait : Unfolds (sq.expand j') [Op.wait .taskProcessed 0] [Op.wait .taskProcessed 0] :=
      .leaf rfl
    have hrelease : Unfolds (sq.expand j') [Op.releaseTask] [Op.releaseTask] := .leaf rfl
    have hjoin : Unfolds (sq.expand j')
        (if (sq.task j).joinRequested then [Op.join 0] else [])
        (if (sq.task j).joinRequested then [Op.join 0] else []) :=
      .leaves (by split <;> simp [expand])
    have hbody : sq.expand j' (Op.run j) = [Op.storeTask j] ++ notifyThread 0 ++ [Op.forkRoot j] ++
        [Op.wait .taskProcessed 0] ++ (if (sq.task j).joinRequested then [Op.join 0] else []) ++
        [Op.releaseTask] := by
      simp [expand, hw, Task.runBody]
    rw [hops]
    refine Unfolds.append (.call hbody ?_) hret
    exact ((((hstore.append (unfolds_notifyThread j' 0)).append hfork).append hwait).append
      hjoin).append hrelease
  · have hf : ¬ sq.isFirst j := fun h => hw (haveWork_of_isFirst h)
    have hops : ops (sq.segments .controller j) = [Op.run j] ++ [Op.ret j] := by
      simp [ops, segments, controllerSegments, hw, hf]
    rw [hops]
    exact Unfolds.append (.leaf (by rw [expand, if_neg hw])) hret

theorem map_op_events (θ : Thread) (j : ℕ) :
    (sq.events θ j).map Event.op = ops (sq.segments θ j) := by
  rw [events, ops, List.map_flatMap]
  refine List.flatMap_congr fun seg _ => ?_
  simp [Segment.events, Function.comp_def]

end Squad

end Patton.ThreadSquad
