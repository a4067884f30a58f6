import Patton.ThreadSquad.Bracketing
import Patton.ThreadSquad.Preservation

/-!
# The values of collectives and merges

What a collective returns is fixed by the tasks: the values of the participants,
which may depend on what the earlier collectives have returned, combined along
the bracketing of the squad. The invariant says what every synchronizer, every
slot of a `transform_reduce` and every list of results holds in terms of the
pending events.
-/

namespace Patton.ThreadSquad

open Bracketing

variable {V : Type}

/-- The synchronizer of the collective has data to point to. -/
def Collective.hasData : Collective V → Bool
  | .synchronize => false
  | _ => true

namespace Squad

section

variable (sq : Squad V)

/-- The values `v` of worker `t` and of the workers below its subthreads `l`. -/
def combined (c t : ℕ) (op : V → V → V) (v : ℕ → V) (l : List ℕ) : V :=
  eval op v (gather (bracketing sq.numThreads c) (.of t) l)

/-- The values `v` of all `c` participants. -/
def total (c : ℕ) (op : V → V → V) (v : ℕ → V) : V := eval op v (bracketing sq.numThreads c 0)

/-- What a collective returns among `c` participants for which the earlier
collectives have returned `results`. -/
def outcome (c : ℕ) (results : List (Option V)) : Collective V → Option V
  | .synchronize => none
  | .reduce value op => some (sq.total c op fun t => value t results)
  | .reduceTransform value op transformFunc =>
      some (transformFunc (sq.total c op fun t => value t results))

/-- What the first `m` collectives of task `j` return. -/
def returned (j : ℕ) : ℕ → List (Option V)
  | 0 => []
  | m + 1 =>
      match (sq.task j).collectives[m]? with
      | none => returned j m
      | some c => returned j m ++ [sq.outcome (sq.task j).concurrency (returned j m) c]

/-- The data of the synchronizer of worker `t` in collective `k` of task `j`, once
the workers `l` are collected and perhaps the outcome is there. -/
def syncState (t j k : ℕ) (l : List ℕ) (delivered : Bool) : Collective V → SyncData V
  | .synchronize => .none
  | .reduce value op =>
      .reduce (if delivered then
          sq.total (sq.task j).concurrency op fun t => value t (sq.returned j k)
        else sq.combined (sq.task j).concurrency t op (fun t => value t (sq.returned j k)) l)
  | .reduceTransform value op transformFunc =>
      .reduceTransform
        (sq.combined (sq.task j).concurrency t op (fun t => value t (sq.returned j k)) l)
        (if delivered then
          some (transformFunc
            (sq.total (sq.task j).concurrency op fun t => value t (sq.returned j k)))
        else none)

variable (s : State V) (rem : Thread → List Event)

/-- Worker `t` is in collective `k` of task `j`. -/
def Inside (t j k : ℕ) : Prop :=
  ⟨.enter t j k, j, k⟩ ∈ sq.script (.worker t) ∧ ⟨.enter t j k, j, k⟩ ∉ rem (.worker t) ∧
    ⟨.leave t j k, j, k⟩ ∈ rem (.worker t)

/-- The subthreads whose values worker `t` has collected. -/
def collected (t j k : ℕ) : List ℕ :=
  (sq.fromSubthreads t (sq.task j).concurrency).filter fun i =>
    ⟨.collect t i, j, k⟩ ∉ rem (.worker t)

/-- Worker `t` has got the outcome: from its superordinate thread or, as worker
`0`, by its own `transform_func`. -/
def delivered (t j k : ℕ) (c : Collective V) : Bool :=
  if 0 < t then decide (⟨.broadcast (sq.parent t) t, j, k⟩ ∉ rem (.worker (sq.parent t)))
  else c.isReduceTransform && decide (⟨.transform 0 j k, j, k⟩ ∉ rem (.worker 0))

/-- The subthreads whose results worker `t` has merged. -/
def merged (t j : ℕ) : List ℕ :=
  (sq.fromSubthreads t (sq.task j).concurrency).filter fun i =>
    ⟨.merge j t i, j, 0⟩ ∉ rem (.worker t)

/-- The slot of worker `t` in task `j` holds a value: the result is stored and
not yet merged into another slot. -/
def Engaged (t j : ℕ) : Prop :=
  t < (sq.task j).concurrency ∧ ⟨.storeResult t j, j, 0⟩ ∉ rem (.worker t) ∧
    (0 < t → ⟨.merge j (sq.parent t) t, j, 0⟩ ∈ rem (.worker (sq.parent t)))

structure Data : Prop where
  results : ∀ t j m, t < (sq.task j).concurrency → m ≤ sq.rounds j →
    (∀ k < sq.rounds j, ⟨.leave t j k, j, k⟩ ∈ rem (.worker t) ↔ m ≤ k) →
    s.results t j = sq.returned j m
  synchronizer : ∀ t j k c, (sq.task j).collectives[k]? = some c → sq.Inside rem t j k →
    s.synchronizer t = some ⟨j, k, c,
      sq.syncState t j k (sq.collected rem t j k) (sq.delivered rem t j k c) c⟩
  syncData : ∀ t j k c, (sq.task j).collectives[k]? = some c →
    ⟨.storeSyncData t, j, k⟩ ∈ sq.script (.worker t) →
    ⟨.storeSyncData t, j, k⟩ ∉ rem (.worker t) → ⟨.clearSyncData t, j, k⟩ ∈ rem (.worker t) →
    s.syncData t = if c.hasData then some ⟨t, j, k⟩ else none
  slot : ∀ t j transform op, (sq.task j).kind = .transformReduce transform op →
    (sq.Engaged rem t j → s.subthreadData j t = some (sq.combined (sq.task j).concurrency t op
      (fun t => transform t (sq.returned j (sq.rounds j))) (sq.merged rem t j))) ∧
    (¬ sq.Engaged rem t j → s.subthreadData j t = none)

end

variable {sq : Squad V} {s s' : State V} {rem rem' : Thread → List Event} {θ : Thread}
  {e : Event} {ops : List Op} {t i j k : ℕ} {c : Collective V}

theorem combined_append (c t i : ℕ) (op : V → V → V) (v : ℕ → V) (l : List ℕ) :
    sq.combined c t op v (l ++ [i]) =
      op (sq.combined c t op v l)
        (sq.combined c i op v (sq.fromSubthreads i c)) := by
  rw [combined, gather_append_singleton, eval_mul, bracketing_eq]
  rfl

theorem combined_nil (c t : ℕ) (op : V → V → V) (v : ℕ → V) :
    sq.combined c t op v [] = v t := rfl

theorem combined_zero (c : ℕ) (op : V → V → V) (v : ℕ → V) :
    sq.combined c 0 op v (sq.fromSubthreads 0 c) = sq.total c op v := by
  rw [total, bracketing_eq]
  rfl

theorem returned_succ (hc : (sq.task j).collectives[k]? = some c) :
    sq.returned j (k + 1) =
      sq.returned j k ++ [sq.outcome (sq.task j).concurrency (sq.returned j k) c] := by
  rw [returned, hc]

theorem initialData_eq (t j k : ℕ) (c : Collective V) :
    c.initialData t (sq.returned j k) = sq.syncState t j k [] false c := by
  cases c <;> rfl

/-- `collect` appends the value of a subthread which has collected all its own. -/
theorem collect_eq (hdata : c.hasData) (l : List ℕ) :
    (⟨j, k, c, sq.syncState t j k l false c⟩ : Synchronizer V).collect
      (sq.syncState i j k (sq.fromSubthreads i (sq.task j).concurrency) false c) =
      some ⟨j, k, c, sq.syncState t j k (l ++ [i]) false c⟩ := by
  cases c with
  | synchronize => cases hdata
  | reduce value op => simp [Synchronizer.collect, syncState, combined_append]
  | reduceTransform value op f => simp [Synchronizer.collect, syncState, combined_append]

/-- Worker `0` needs no delivery to know the outcome of a `reduce`. -/
theorem syncState_zero (hc : c.isReduceTransform = false) :
    sq.syncState 0 j k (sq.fromSubthreads 0 (sq.task j).concurrency) false c =
      sq.syncState 0 j k (sq.fromSubthreads 0 (sq.task j).concurrency) true c := by
  cases c with
  | synchronize => rfl
  | reduce value op => simp [syncState, combined_zero]
  | reduceTransform value op f => cases hc

theorem broadcast_eq (hdata : c.hasData) (l l' : List ℕ) :
    (⟨j, k, c, sq.syncState t j k l true c⟩ : Synchronizer V).broadcast
      (sq.syncState i j k l' false c) = some (sq.syncState i j k l' true c) := by
  cases c with
  | synchronize => cases hdata
  | reduce value op => rfl
  | reduceTransform value op f => rfl

theorem returnValue_eq (l : List ℕ) :
    (⟨j, k, c, sq.syncState t j k l true c⟩ : Synchronizer V).returnValue =
      some (sq.outcome (sq.task j).concurrency (sq.returned j k) c) := by
  cases c <;> rfl

theorem syncData_eq (l : List ℕ) (delivered : Bool) :
    (⟨j, k, c, sq.syncState t j k l delivered c⟩ : Synchronizer V).syncData t =
      if c.hasData then some ⟨t, j, k⟩ else none := by
  cases c <;> rfl

end Squad

end Patton.ThreadSquad
