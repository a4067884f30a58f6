import Patton.ThreadSquad.Causality

/-!
# Runs, rounds and handovers in order

What the edges of the protocol add up to. Everything that a worker does in a run
comes after the controlling thread has stored the task, and all but the count of the
pass before it releases the task. What a worker does to its synchronizer in a
collective comes before or after what its superordinate worker does to it, and the
superordinate worker merges the results of a worker once that has completed the run.
-/

namespace Patton.ThreadSquad

open Handshake

variable {V : Type}

/-- The operations of the controlling thread that access a task. -/
def Op.handlesTask : Op → Bool
  | .run _ | .storeTask _ | .releaseTask | .ret _ => true
  | _ => false

namespace Squad

variable {sq : Squad V} {θ θ' : Thread} {e e' : Event} {x y z : Node} {i j k t : ℕ}

theorem orders_of_before (he : e ∈ sq.script θ) (he' : e' ∈ sq.script θ)
    (h : sq.before e e') : sq.Orders (θ, e) (θ, e') :=
  .single (.program (pair_of_before he he' h))

theorem orders_or_of_thread (he : e ∈ sq.script θ) (he' : e' ∈ sq.script θ) (hne : e ≠ e') :
    sq.Orders (θ, e) (θ, e') ∨ sq.Orders (θ, e') (θ, e) :=
  (pair_of_mem he he' hne).imp (fun h => .single (.program h)) fun h => .single (.program h)

theorem mem_cycles_task : (j, 0) ∈ sq.cycles i .task ↔ j ∈ sq.runs i := by
  simp [cycles]

theorem mem_cycles_sync :
    (j, k) ∈ sq.cycles i .sync ↔
      j ∈ sq.runs i ∧ 0 < i ∧ i < (sq.task j).concurrency ∧ k < sq.rounds j := by
  rw [cycles, List.mem_flatMap]
  constructor
  · rintro ⟨j', hj', hmem⟩
    split at hmem
    next hi =>
      obtain ⟨k', hk', heq⟩ := List.mem_map.1 hmem
      cases heq
      exact ⟨hj', hi.1, hi.2, List.mem_range.1 hk'⟩
    next => cases hmem
  · rintro ⟨hj, hi, hc, hk⟩
    refine ⟨j, hj, ?_⟩
    rw [if_pos ⟨hi, hc⟩]
    exact List.mem_map.2 ⟨k, List.mem_range.2 hk, rfl⟩

/-- The superordinate thread of a worker takes part in its runs. -/
theorem parentThread_cases (h : j ∈ sq.runs t) :
    t = 0 ∧ sq.parentThread t = .controller ∨
      0 < t ∧ sq.parent t < t ∧ sq.parentThread t = .worker (sq.parent t) ∧
        j ∈ sq.runs (sq.parent t) ∧ sq.Child (sq.numThreadsFor j) (sq.parent t) t := by
  rcases Nat.eq_zero_or_pos t with rfl | ht
  · exact .inl ⟨rfl, parentThread_zero⟩
  · exact .inr ⟨ht, sq.parent_lt ht, parentThread_of_pos ht, mem_runs_parent ht h,
      child_parent ht (sq.mem_runs.1 h).2.2⟩

/-- Everything that a worker does in a run comes after the task has been stored. -/
theorem storeTask_orders (he : e ∈ sq.script (.worker t)) :
    sq.Orders (.controller, ⟨.storeTask e.run, e.run, 0⟩) (.worker t, e) := by
  induction t using Nat.strong_induction_on generalizing e with
  | _ t ih =>
    have hrun : e.run ∈ sq.runs t := (Squad.mem_script.1 he).1
    obtain ⟨hlt, hw, ht⟩ := sq.mem_runs.1 hrun
    have hstore : ⟨.storeTask e.run, e.run, 0⟩ ∈ sq.script .controller :=
      mem_script_controller.2 ⟨hlt, rfl, hw, rfl⟩
    by_cases hf : sq.isFirst e.run
    · have hfork := fork_mem_script hf hlt (ht.trans_le (sq.numThreadsFor_le _))
      refine Relation.TransGen.tail ?_ (.fork hfork he)
      rcases parentThread_cases hrun with ⟨rfl, hparent⟩ | ⟨hpos, hp, hparent, -⟩
      · rw [hparent] at hfork ⊢
        exact orders_of_before hstore hfork (.inr ⟨rfl, by simp [slot, Slot.before]⟩)
      · rw [hparent] at hfork ⊢
        exact ih _ hp hfork
    · have hwait : ⟨.wait .taskAvailable t, e.run, 0⟩ ∈ sq.script (.worker t) :=
        mem_script_worker.2 ⟨hrun, rfl, rfl⟩
      have hawait : sq.Orders (.controller, ⟨.storeTask e.run, e.run, 0⟩)
          (.worker t, ⟨.wait .taskAvailable t, e.run, 0⟩) := by
        refine Relation.TransGen.tail ?_ (.request t .task (mem_cycles_task.2 hrun))
        change sq.Orders _ (sq.parentThread t, ⟨.store .taskAvailable t, e.run, 0⟩)
        rcases parentThread_cases hrun with ⟨rfl, hparent⟩ | ⟨hpos, hp, hparent, hrun', hchild⟩
        · rw [hparent]
          exact orders_of_before hstore (mem_script_controller.2 ⟨hlt, rfl, hw, rfl⟩)
            (.inr ⟨rfl, by simp [slot, Slot.before]⟩)
        · rw [hparent]
          exact ih _ hp (e := ⟨.store .taskAvailable t, e.run, 0⟩)
            (mem_script_worker.2 ⟨hrun', hchild, rfl⟩)
      by_cases hop : e.op = .wait .taskAvailable t
      · obtain ⟨op, j, k⟩ := e
        obtain rfl : op = .wait .taskAvailable t := hop
        obtain ⟨-, -, rfl⟩ := mem_script_worker.1 he
        exact hawait
      · exact hawait.trans (orders_of_before hwait he (wait_taskAvailable_before he hf hop))

/-- The accesses of one cycle of a handshake are ordered. -/
theorem orders_of_cycle (i : ℕ) (ch : Channel) {l : ℕ × ℕ} (hl : l ∈ sq.cycles i ch)
    {a b : Request (ℕ × ℕ) ⊕ Response (ℕ × ℕ)} (hab : [a, b].Sublist (cycle l)) :
    sq.Orders (sq.accessNode i ch a) (sq.accessNode i ch b) :=
  (List.pairwise_pair.1 (((handshake_orders i ch).transGen_cycle hl).sublist hab)).lift _
    fun _ _ => id

/-- In a run without a join, nothing but the count of the pass comes after the
completion is signalled. -/
theorem before_store_taskProcessed (he : e ∈ sq.script (.worker t))
    (hjoin : ¬ (sq.task e.run).joinRequested) (hop : e.op ≠ .nextPass t) :
    sq.before e ⟨.store .taskProcessed t, e.run, 0⟩ ∨
      e ∈ [⟨.reset .taskAvailable t, e.run, 0⟩, ⟨.load .taskProcessed t, e.run, 0⟩,
        (⟨.store .taskProcessed t, e.run, 0⟩ : Event)] := by
  obtain ⟨op, j, k⟩ := e
  obtain ⟨-, hperforms⟩ := mem_script_worker.1 he
  have hround : k < sq.rounds j → 2 * k + 3 < 2 * sq.rounds j + 2 := by omega
  cases op with
  | wait σ i => cases σ <;> simp_all [Performs, before, slot, Slot.before]
  | reset σ i => cases σ <;> simp_all [Performs, before, slot, Slot.before]
  | load σ i => cases σ <;> simp_all [Performs, before, slot, Slot.before]
  | store σ i => cases σ <;> simp_all [Performs, before, slot, Slot.before]
  | transform t' j' k' =>
      obtain ⟨rfl, rfl, rfl, -, -, c, hc, -⟩ := hperforms
      have hk := hround (exists_collective.1 ⟨c, hc⟩)
      exact .inl (.inr ⟨rfl, by simp [slot, Slot.before]; omega⟩)
  | _ => simp_all [Performs, before, slot, Slot.before]

/-- All but the count of the pass comes before the task is released. -/
theorem orders_releaseTask (he : e ∈ sq.script (.worker t)) (hop : e.op ≠ .nextPass t) :
    sq.Orders (.worker t, e) (.controller, ⟨.releaseTask, e.run, 0⟩) := by
  induction t using Nat.strong_induction_on generalizing e with
  | _ t ih =>
    have hrun : e.run ∈ sq.runs t := (Squad.mem_script.1 he).1
    obtain ⟨hlt, hw, ht⟩ := sq.mem_runs.1 hrun
    have hrelease : ⟨.releaseTask, e.run, 0⟩ ∈ sq.script .controller :=
      mem_script_controller.2 ⟨hlt, hw, rfl⟩
    by_cases hjoin : (sq.task e.run).joinRequested
    · have hmem := join_mem_script hjoin hrun
      refine Relation.TransGen.head (.join hmem he) ?_
      rcases parentThread_cases hrun with ⟨rfl, hparent⟩ | ⟨hpos, hp, hparent, -⟩
      · rw [hparent] at hmem ⊢
        exact orders_of_before hmem hrelease (.inr ⟨rfl, by simp [slot, Slot.before]⟩)
      · rw [hparent] at hmem ⊢
        exact ih _ hp (e := ⟨.join t, e.run, 0⟩) hmem (by simp)
    · have hcycle : (e.run, 0) ∈ sq.cycles t .task := mem_cycles_task.2 hrun
      have hup : sq.Orders (.worker t, ⟨.store .taskProcessed t, e.run, 0⟩)
          (.controller, ⟨.releaseTask, e.run, 0⟩) := by
        refine Relation.TransGen.head (.answer t .task hcycle) ?_
        change sq.Orders (sq.parentThread t, ⟨.wait .taskProcessed t, e.run, 0⟩) _
        rcases parentThread_cases hrun with ⟨rfl, hparent⟩ | ⟨hpos, hp, hparent, hrun', hchild⟩
        · rw [hparent]
          exact orders_of_before (mem_script_controller.2 ⟨hlt, rfl, hw, rfl⟩) hrelease
            (.inr ⟨rfl, by simp [slot, Slot.before]⟩)
        · rw [hparent]
          exact ih _ hp (e := ⟨.wait .taskProcessed t, e.run, 0⟩)
            (mem_script_worker.2 ⟨hrun', hchild, rfl⟩) (by simp)
      have hstore : ⟨.store .taskProcessed t, e.run, 0⟩ ∈ sq.script (.worker t) :=
        mem_script_worker.2 ⟨hrun, rfl, rfl⟩
      rcases before_store_taskProcessed he hjoin hop with hbefore | hlast
      · exact (orders_of_before he hstore hbefore).trans hup
      · simp only [List.mem_cons, List.not_mem_nil, or_false] at hlast
        have hreset : sq.Orders (.worker t, ⟨.reset .taskAvailable t, e.run, 0⟩)
            (.worker t, ⟨.store .taskProcessed t, e.run, 0⟩) := by
          refine orders_of_cycle t .task hcycle (a := .inr (.clearRequest (e.run, 0)))
            (b := .inr (.raiseAnswer (e.run, 0))) ?_
          simp [cycle, List.sublist_cons_iff]
        have hload : sq.Orders (.worker t, ⟨.load .taskProcessed t, e.run, 0⟩)
            (.worker t, ⟨.store .taskProcessed t, e.run, 0⟩) := by
          refine orders_of_cycle t .task hcycle (a := .inr (.loadAnswer (e.run, 0)))
            (b := .inr (.raiseAnswer (e.run, 0))) ?_
          simp [cycle, List.sublist_cons_iff]
        rcases hlast with heq | heq | heq <;> rw [heq]
        · exact hreset.trans hup
        · exact hload.trans hup
        · exact hup

theorem run_pair (hw : sq.haveWork j) (hj : j < sq.tasks.length) :
    [⟨.run j, j, 0⟩, (⟨.storeTask j, j, 0⟩ : Event)].Sublist (sq.script .controller) := by
  have hevents : [⟨.run j, j, 0⟩, (⟨.storeTask j, j, 0⟩ : Event)].Sublist
      (sq.events .controller j) := by
    rw [events, segments, controllerSegments, List.flatMap_cons]
    refine List.Sublist.trans ?_ (List.sublist_append_left _ _)
    simp [Segment.events, hw]
  refine hevents.trans ?_
  rw [script, threadRuns]
  simpa using (List.singleton_sublist.2 (List.mem_range.2 hj)).flatMap (sq.events .controller)

/-- What the controlling thread does with the tasks is ordered with everything that a
worker does. -/
theorem orders_or_of_controller (he : e ∈ sq.script .controller) (hop : e.op.handlesTask)
    (he' : e' ∈ sq.script (.worker t)) (hop' : e'.op ≠ .nextPass t) :
    sq.Orders (.controller, e) (.worker t, e') ∨ sq.Orders (.worker t, e') (.controller, e) := by
  have hstored := storeTask_orders he'
  have hreleased := orders_releaseTask he' hop'
  obtain ⟨hlt, hw, -⟩ := sq.mem_runs.1 (Squad.mem_script.1 he').1
  have hstore : ⟨.storeTask e'.run, e'.run, 0⟩ ∈ sq.script .controller :=
    mem_script_controller.2 ⟨hlt, rfl, hw, rfl⟩
  have hrelease : ⟨.releaseTask, e'.run, 0⟩ ∈ sq.script .controller :=
    mem_script_controller.2 ⟨hlt, hw, rfl⟩
  rcases lt_trichotomy e.run e'.run with hrun | hrun | hrun
  · exact .inl ((orders_of_before he hstore (.inl hrun)).trans hstored)
  · obtain ⟨op, j, k⟩ := e
    obtain rfl : j = e'.run := hrun
    have hcontrols := (mem_script_controller.1 he).2
    cases op with
    | run j' =>
        obtain ⟨rfl, rfl⟩ := hcontrols
        exact .inl (Relation.TransGen.head (.program (run_pair hw hlt)) hstored)
    | storeTask j' =>
        obtain ⟨rfl, -, rfl⟩ := hcontrols
        exact .inl hstored
    | releaseTask =>
        obtain ⟨-, rfl⟩ := hcontrols
        exact .inr hreleased
    | ret j' =>
        obtain ⟨rfl, rfl⟩ := hcontrols
        refine .inr (hreleased.trans (orders_of_before hrelease he (.inr ⟨rfl, ?_⟩)))
        simp [slot, Slot.before]
    | _ => cases hop
  · exact .inr (hreleased.trans (orders_of_before hrelease he (.inl hrun)))

/-- The superordinate worker merges the results of a worker once that has completed
the run. -/
theorem orders_merge (he : e ∈ sq.script (.worker i))
    (hbefore : sq.before e ⟨.store .taskProcessed i, j, 0⟩)
    (hrun : e.run = j) (he' : ⟨.merge j t i, j, 0⟩ ∈ sq.script (.worker t)) :
    sq.Orders (.worker i, e) (.worker t, ⟨.merge j t i, j, 0⟩) := by
  subst hrun
  have hrun : e.run ∈ sq.runs i := (Squad.mem_script.1 he).1
  obtain ⟨hrun', -, -, hchild, -⟩ := mem_script_worker.1 he'
  have hchild' : sq.Child (sq.numThreadsFor e.run) t i :=
    ⟨hchild.1, (sq.mem_runs.1 hrun).2.2, hchild.2.2⟩
  have hstore : ⟨.store .taskProcessed i, e.run, 0⟩ ∈ sq.script (.worker i) :=
    mem_script_worker.2 ⟨hrun, rfl, rfl⟩
  have hwait : ⟨.wait .taskProcessed i, e.run, 0⟩ ∈ sq.script (.worker t) :=
    mem_script_worker.2 ⟨hrun', hchild', rfl⟩
  have hanswer := Edge.answer i .task (mem_cycles_task.2 hrun)
  change sq.Edge (.worker i, ⟨.store .taskProcessed i, e.run, 0⟩)
    (sq.parentThread i, ⟨.wait .taskProcessed i, e.run, 0⟩) at hanswer
  rw [hchild.parentThread] at hanswer
  refine (orders_of_before he hstore hbefore).trans (.head hanswer ?_)
  exact orders_of_before hwait he' (.inr ⟨rfl, by simp [slot, Slot.before]⟩)

/-- Event `e` belongs to the part of collective `k` of task `j` that comes before the
worker hands its value over, or to the part that comes after it has the result. -/
structure InRound (sq : Squad V) (i j k : ℕ) (e : Event) : Prop where
  run : e.run = j
  stage : 2 * k + 2 ≤ (sq.slot e.run e.round e.op).stage ∧
    (sq.slot e.run e.round e.op).stage ≤ 2 * k + 3
  side : sq.before e ⟨.store .collecting i, j, k⟩ ∨ sq.before ⟨.wait .broadcasting i, j, k⟩ e

/-- What a worker does in a collective is ordered with what its superordinate worker
does between collecting its value and broadcasting the result to it. -/
theorem orders_or_of_round {j' k' : ℕ} (he : e ∈ sq.script (.worker i))
    (hin : InRound sq i j k e) (hl : (j, k) ∈ sq.cycles i .sync)
    (he' : e' ∈ sq.script (sq.parentThread i)) (hl' : (j', k') ∈ sq.cycles i .sync)
    (hcollected : sq.before ⟨.wait .collecting i, j', k'⟩ e')
    (hbroadcast : sq.before e' ⟨.store .broadcasting i, j', k'⟩) :
    sq.Orders (.worker i, e) (sq.parentThread i, e') ∨
      sq.Orders (sq.parentThread i, e') (.worker i, e) := by
  have hmem : ∀ a ∈ cycle (j', k'), (sq.accessNode i .sync a).2 ∈
      sq.script (sq.accessNode i .sync a).1 :=
    fun a ha => accessNode_mem (List.mem_flatMap.2 ⟨_, hl', ha⟩)
  -- the handover in collective `k'` of task `j'`, from the worker and back to it
  have hdown : sq.before e ⟨.store .collecting i, j', k'⟩ →
      sq.Orders (.worker i, e) (sq.parentThread i, e') := by
    intro hbefore
    have hstore := hmem (.inl (.raiseRequest (j', k'))) (by simp [cycle])
    have hwait := hmem (.inr (.awaitRequest (j', k'))) (by simp [cycle])
    exact (orders_of_before he hstore hbefore).trans
      (.head (.request i .sync hl') (orders_of_before hwait he' hcollected))
  have hup : sq.before ⟨.wait .broadcasting i, j', k'⟩ e →
      sq.Orders (sq.parentThread i, e') (.worker i, e) := by
    intro hbefore
    have hstore := hmem (.inr (.raiseAnswer (j', k'))) (by simp [cycle])
    have hwait := hmem (.inl (.awaitAnswer (j', k'))) (by simp [cycle])
    exact (orders_of_before he' hstore hbroadcast).trans
      (.head (.answer i .sync hl') (orders_of_before hwait he hbefore))
  obtain ⟨rfl, hstage, hside⟩ := hin
  rcases lt_trichotomy e.run j' with hj | rfl | hj
  · exact .inl (hdown (.inl hj))
  · rcases lt_trichotomy k k' with hk | rfl | hk
    · refine .inl (hdown (.inr ⟨rfl, .inl ?_⟩))
      change (sq.slot e.run e.round e.op).stage < 2 * k' + 2
      omega
    · exact hside.imp hdown hup
    · refine .inr (hup (.inr ⟨rfl, .inl ?_⟩))
      change 2 * k' + 3 < (sq.slot e.run e.round e.op).stage
      omega
  · exact .inr (hup (.inl hj))

end Squad

end Patton.ThreadSquad
