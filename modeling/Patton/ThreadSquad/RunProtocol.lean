import Patton.ThreadSquad.Trace

/-!
# The run protocol

What the callers of `run` rely on, for every interleaving of the threads: every
participant executes the task once before `run` returns, no contract check fires,
no thread waits forever, the task is there whenever a worker uses it, and in the
end every worker that was forked has left and is joined.
-/

namespace Patton.ThreadSquad

variable {V : Type}

/-- The operations of a worker that read `task_` or dereference the task. -/
def Op.usesTask : Op → Bool
  | .taskRef _ | .notifySubthreads _ | .taskRun _ _ | .execute _ _ | .storeResult _ _
  | .waitForSubthreads _ | .mergeIfParticipant _ _ | .merge _ _ _ | .joinSubthreads _
  | .synchronizeCollect _ | .synchronizeBroadcast _ => true
  | _ => false

/-- Two workers run a `transform_reduce` with a `reduce` in its task, and the
deleter joins them. -/
def pairSquad : Squad ℕ where
  numThreads := 2
  tasks := [{
      concurrency := 2
      collectives := [.reduce (fun t _ => t + 1) (· + ·)]
      kind := .transformReduce (fun t _ => 10 * t) (· + ·) },
    threadSquadNop ℕ]
  one_le_numThreads := by decide
  nested := by decide +kernel
  concurrency_le := by decide
  join_last := by decide

/-- A schedule of the two workers, up to the return of the join run. -/
def pairSchedule : List Thread :=
  .replicate 7 .controller ++ .replicate 11 (.worker 0) ++ .replicate 11 (.worker 1) ++
  .replicate 10 (.worker 0) ++ .replicate 9 (.worker 1) ++ .replicate 6 (.worker 0) ++
  .replicate 9 .controller ++ .replicate 9 (.worker 0) ++ .replicate 9 (.worker 1) ++
  .replicate 5 (.worker 0) ++ .replicate 1 .controller ++ .replicate 2 (.worker 0) ++
  .replicate 3 (.worker 1) ++ .replicate 2 (.worker 0) ++ .replicate 3 .controller

theorem pair_replay :
    ((replay pairSquad.toConfig [] (State.initial pairSquad.toConfig) pairSchedule).map fun r =>
      r.1.contains (.controller, .ret 0) && r.1.contains (.controller, .ret 1) &&
        r.1.contains (.worker 0, .fork 1)) = some true := by
  decide +kernel

theorem exists_pair_exec : ∃ tr s, Exec pairSquad.toConfig tr s ∧
    (.controller, .ret 0) ∈ tr ∧ (.controller, .ret 1) ∈ tr ∧ (.worker 0, .fork 1) ∈ tr := by
  have hreplay := pair_replay
  rw [Option.map_eq_some_iff] at hreplay
  obtain ⟨⟨tr, s⟩, hr, hmem⟩ := hreplay
  refine ⟨tr, s, Exec.initial.replay hr, ?_⟩
  simpa [and_assoc] using hmem

namespace Squad

variable {sq : Squad V} {s s' : State V} {rem : Thread → List Event} {θ : Thread}
  {e : Event} {later : List Event} {ops : List Op} {t i j k : ℕ} {op : Op}
  {tr : List (Thread × Op)}

theorem eq_of_execute (he : e ∈ sq.script θ) (hop : e.op = .execute i j) :
    θ = .worker i ∧ e = ⟨.execute i j, j, 0⟩ ∧ i < (sq.task j).concurrency := by
  obtain ⟨op, j', k⟩ := e
  obtain rfl : op = .execute i j := hop
  cases θ with
  | controller => exact absurd (mem_script_controller.1 he).2 id
  | worker t =>
      obtain ⟨-, rfl, rfl, ht, rfl⟩ := mem_script_worker.1 he
      exact ⟨rfl, rfl, ht⟩

theorem unique_execute (i j : ℕ) : sq.Unique (.execute i j) := by
  intro θ e θ' e' he he' hop hop'
  obtain ⟨rfl, rfl, -⟩ := eq_of_execute he hop
  obtain ⟨rfl, rfl, -⟩ := eq_of_execute he' hop'
  exact ⟨rfl, rfl⟩

/-- Once `run` has released its task, every worker of the run has signalled its
completion. -/
theorem Control.not_mem_of_released (h : sq.Control s rem)
    (hdone : ⟨.releaseTask, j, 0⟩ ∉ rem .controller) {x : Event} (hrun : x.run = j)
    (hx : sq.before x ⟨.store .taskProcessed t, x.run, 0⟩) : x ∉ rem (.worker t) := by
  intro hmem
  subst hrun
  refine hdone (h.releaseTask_mem (t := t) (h.mem_of_before hmem ?_ hx))
  exact mem_script_worker.2 ⟨(Squad.mem_script.1 (Control.mem_script h hmem)).1, rfl, rfl⟩

theorem Head.not_mem_releaseTask
    (a : sq.Head s rem .controller ⟨.ret j, j, 0⟩ later ops) (h : sq.Control s rem) :
    ⟨.releaseTask, j, 0⟩ ∉ rem .controller := by
  refine a.not_mem_of_before h (.inr ⟨rfl, ?_⟩)
  simp [slot, Slot.before]

theorem ret_event (he : e ∈ sq.script .controller) (hop : e.op = .ret j) :
    e = ⟨.ret j, j, 0⟩ ∧ j < sq.tasks.length := by
  obtain ⟨op, j', k⟩ := e
  obtain rfl : op = .ret j := hop
  obtain ⟨hlt, rfl, rfl⟩ := mem_script_controller.1 he
  exact ⟨rfl, hlt⟩

theorem exec_ret {tr₁ tr₂ : List (Thread × Op)}
    (h : Exec sq.toConfig (tr₁ ++ (.controller, .ret j) :: tr₂) s) :
    ∃ s₁ rem later ops, sq.Inv s₁ rem ∧ sq.Data s₁ rem ∧ sq.History tr₁ rem ∧
      sq.Head s₁ rem .controller ⟨.ret j, j, 0⟩ later ops := by
  obtain ⟨s₁, s₂, ops, h₁, hcode, hnext, -⟩ := exec_split h
  obtain ⟨rem, e, later, hinv, hdata, hh, hop, a⟩ := exec_head h₁ hcode (by simp [hnext])
  obtain ⟨rfl, -⟩ := ret_event (a.mem_script hinv.toControl) hop
  exact ⟨s₁, rem, later, ops, hinv, hdata, hh, a⟩

/-- When run `j` returns, its task has been executed exactly once for each of its
participants, and never again after that; and no step ever fails, so no contract
check of the source fires. -/
theorem run_protocol (h : Exec sq.toConfig tr s) :
    (∀ tr₁ tr₂ j, tr = tr₁ ++ (.controller, .ret j) :: tr₂ → ∀ i,
      (tr₁.map Prod.snd).count (.execute i j) =
          (if i < (sq.task j).concurrency then 1 else 0) ∧
        .execute i j ∉ tr₂.map Prod.snd) ∧
      ∀ θ f, step sq.toConfig s θ ≠ .fault f := by
  constructor
  · rintro tr₁ tr₂ j rfl i
    obtain ⟨s₁, rem, later, ops, hinv, -, hh, a⟩ := exec_ret h
    obtain ⟨rem', -, -, hh'⟩ := exec_inv h
    have hle := hh'.count_le_one (unique_execute i j)
    rw [List.map_append, List.map_cons, List.count_append, List.count_cons] at hle
    by_cases hi : i < (sq.task j).concurrency
    · have hdone : ⟨.execute i j, j, 0⟩ ∉ rem (.worker i) :=
        hinv.not_mem_of_released (a.not_mem_releaseTask hinv.toControl) rfl
          (.inr ⟨rfl, by simp [slot, Slot.before]⟩)
      have hscript : ⟨.execute i j, j, 0⟩ ∈ sq.script (.worker i) :=
        mem_script_worker.2 ⟨mem_runs_of_lt hi, rfl, rfl, hi, rfl⟩
      have hmem : (.worker i, .execute i j) ∈ tr₁ := hh.mem_iff.2 ⟨_, hscript, hdone, rfl⟩
      have hone := hh.count_eq_one (unique_execute i j) hmem
      refine ⟨by rw [if_pos hi, hone], fun hmem' => ?_⟩
      have := List.count_pos_iff.2 hmem'
      omega
    · have hnone : ∀ {tr rem}, sq.History tr rem → .execute i j ∉ tr.map Prod.snd := by
        intro tr rem hh hmem
        obtain ⟨⟨θ, op⟩, hmem, rfl⟩ := List.mem_map.1 hmem
        obtain ⟨e, he, -, hop⟩ := hh.mem_iff.1 hmem
        exact hi (eq_of_execute he hop).2.2
      refine ⟨by rw [if_neg hi, List.count_eq_zero.2 (hnone hh)], fun hmem => hnone hh' ?_⟩
      simp [hmem]
  · obtain ⟨rem, hinv, hdata, -⟩ := exec_inv h
    exact hinv.not_fault hdata

theorem pair_run_protocol : ∃ tr₁ tr₂ s,
    Exec pairSquad.toConfig (tr₁ ++ (.controller, .ret 0) :: tr₂) s ∧
      (tr₁.map Prod.snd).count (.execute 1 0) = 1 ∧ .execute 1 0 ∉ tr₂.map Prod.snd := by
  obtain ⟨tr, s, h, hret, -⟩ := exists_pair_exec
  obtain ⟨tr₁, tr₂, rfl⟩ := List.append_of_mem hret
  exact ⟨tr₁, tr₂, s, h, (run_protocol h).1 tr₁ tr₂ 0 rfl 1⟩

/-- As long as the controlling thread is not done, some thread can take a step. -/
theorem no_deadlock (h : Exec sq.toConfig tr s) (hcode : s.code .controller ≠ []) :
    ∃ θ s', step sq.toConfig s θ = .next s' :=
  exec_exists_next h hcode

/-- The controlling thread waits for the first worker, which is going on. -/
theorem pair_no_deadlock : ∃ tr s, Exec pairSquad.toConfig tr s ∧
    (∃ ops, s.code .controller = .wait .taskProcessed 0 :: ops) ∧
      step pairSquad.toConfig s .controller = .blocked ∧
        ∃ θ s', step pairSquad.toConfig s θ = .next s' := by
  have hreplay : ((replay pairSquad.toConfig [] (State.initial pairSquad.toConfig)
      (.replicate 7 .controller)).map fun r =>
        decide ((r.2.code .controller).head? = some (.wait .taskProcessed 0)) &&
          !r.2.signal .taskProcessed 0) = some true := by decide +kernel
  obtain ⟨⟨tr, s⟩, hr, hwait⟩ := Option.map_eq_some_iff.1 hreplay
  rw [Bool.and_eq_true, decide_eq_true_eq, Bool.not_eq_true'] at hwait
  obtain ⟨hhead, hsignal⟩ := hwait
  obtain ⟨ops, hcode⟩ := List.head?_eq_some_iff.1 hhead
  have h : Exec pairSquad.toConfig tr s := Exec.initial.replay hr
  refine ⟨tr, s, h, ⟨ops, hcode⟩, ?_, no_deadlock h (hcode ▸ List.cons_ne_nil _ _)⟩
  rw [step, hcode]
  exact if_neg (by simpa using hsignal)

variable (sq) in
/-- The run which worker `t` has been woken for last, counted by its `task_wait`s. -/
def currentRun (tr : List (Thread × Op)) (t : ℕ) : Option ℕ :=
  (sq.runs t)[(opsOf (.worker t) tr).count (.wait .taskAvailable t) - 1]?

theorem count_wait_taskAvailable (t j : ℕ) :
    ((sq.events (.worker t) j).map Event.op).count (.wait .taskAvailable t) = 1 := by
  have hmem : ⟨.wait .taskAvailable t, j, 0⟩ ∈ sq.events (.worker t) j :=
    mem_events_worker.2 ⟨rfl, rfl⟩
  have hnodup : (sq.events (.worker t) j).Nodup :=
    OrderedScript.nodup_flatMap_of_before not_before_self
      (fun seg hseg => (sq.segments_fits _ j seg hseg).1.map fun x y h => by injection h)
      (events_pairwise _ j)
  rw [← List.count_eq_one_of_mem hnodup hmem, List.count_eq_countP, List.count_eq_countP,
    List.countP_map]
  refine List.countP_congr fun e he => ?_
  obtain ⟨op, j', k⟩ := e
  obtain rfl : j' = j := (mem_events.1 he).1
  simp only [Function.comp, beq_iff_eq, Event.mk.injEq]
  refine ⟨fun hop => ⟨hop, trivial, ?_⟩, And.left⟩
  subst hop
  exact (mem_events_worker.1 he).2

/-- A worker that is past `task_wait` is in the run it has been woken for last. -/
theorem Head.currentRun_eq (a : sq.Head s rem (.worker t) e later ops) (h : sq.Control s rem)
    (hh : sq.History tr rem) (hwait : sq.before ⟨.wait .taskAvailable t, e.run, 0⟩ e) :
    sq.currentRun tr t = some e.run := by
  cases h.worker t with
  | unborn hpending => exact absurd hpending (a.born t rfl)
  | idle _ _ _ _ hnil => exact absurd (a.rem_eq.symm.trans hnil) (by simp)
  | gone _ _ hnil => exact absurd (a.rem_eq.symm.trans hnil) (by simp)
  | busy j earlier later' now _ hruns hnow hlast hrem _ =>
      cases now with
      | nil =>
          rw [hlast rfl, a.rem_eq] at hrem
          cases hrem
      | cons e' now =>
          have hhead := a.rem_eq
          rw [hrem, List.cons_append, List.cons.injEq] at hhead
          obtain ⟨rfl, -⟩ := hhead
          obtain rfl : e'.run = j := (mem_events.1 (hnow.subset List.mem_cons_self)).1
          obtain ⟨before, hbefore⟩ := hnow
          obtain ⟨done, hscript, hops⟩ := hh (.worker t)
          have hdone : done = earlier.flatMap (sq.events (.worker t)) ++ before := by
            rw [script, threadRuns, hruns, hrem, List.flatMap_append, List.flatMap_cons,
              ← hbefore] at hscript
            have hcancel : (earlier.flatMap (sq.events (.worker t)) ++ before) ++
                (e' :: now ++ later'.flatMap (sq.events (.worker t))) =
                done ++ (e' :: now ++ later'.flatMap (sq.events (.worker t))) := by
              rw [← hscript]
              simp
            exact (List.append_cancel_right hcancel).symm
          -- one `task_wait` for each earlier run, and the one of this run
          have hearlier : ((earlier.flatMap (sq.events (.worker t))).map Event.op).count
              (.wait .taskAvailable t) = earlier.length := by
            rw [List.map_flatMap, List.count_flatMap]
            simp [Function.comp_def, count_wait_taskAvailable]
          have hnot : (.wait .taskAvailable t) ∉ (e' :: now).map Event.op := by
            intro hmem
            obtain ⟨x, hx, hop⟩ := List.mem_map.1 hmem
            have hxrem : x ∈ rem (.worker t) := by
              rw [hrem]
              exact List.mem_append_left _ hx
            have hxevent : x ∈ sq.events (.worker t) e'.run := by
              rw [← hbefore]
              exact List.mem_append_right _ hx
            obtain ⟨op, j, k⟩ := x
            obtain rfl : op = .wait .taskAvailable t := hop
            obtain rfl : j = e'.run := (mem_events.1 hxevent).1
            obtain ⟨-, rfl⟩ := mem_events_worker.1 hxevent
            exact a.not_mem_of_before h hwait hxrem
          have hthis : (before.map Event.op).count (.wait .taskAvailable t) = 1 := by
            have hcount := @count_wait_taskAvailable _ sq t e'.run
            rwa [← hbefore, List.map_append, List.count_append,
              List.count_eq_zero.2 hnot] at hcount
          rw [currentRun, ← hops, hdone, List.map_append, List.count_append, hearlier, hthis,
            Nat.add_sub_cancel, hruns]
          simp

/-- A worker uses the task of the run it has been woken for, and finds it in
place. -/
theorem Head.task_of_usesTask (a : sq.Head s rem (.worker t) e later ops) (h : sq.Inv s rem)
    (hh : sq.History tr rem) (huses : e.op.usesTask = true) :
    sq.currentRun tr t = some e.run ∧ s.task = some e.run := by
  obtain ⟨-, hperforms⟩ := a.mem_runs h.toControl
  have hrun := a.currentRun_eq h.toControl hh
  have htask := a.task_eq h
  obtain ⟨op, j, k⟩ := e
  cases op with
  | taskRef t' =>
      obtain ⟨rfl, rfl⟩ := hperforms
      exact ⟨hrun (.inr ⟨rfl, by simp [slot, Slot.before]⟩),
        htask (by simp) (.inr ⟨rfl, by simp [slot, Slot.before]⟩)⟩
  | notifySubthreads t' =>
      obtain ⟨rfl, -, rfl⟩ := hperforms
      exact ⟨hrun (.inr ⟨rfl, by simp [slot, Slot.before]⟩),
        htask (by simp) (.inr ⟨rfl, by simp [slot, Slot.before]⟩)⟩
  | joinSubthreads t' =>
      obtain ⟨rfl, hjoin, rfl⟩ := hperforms
      exact ⟨hrun (.inr ⟨rfl, by simp [slot, Slot.before]⟩), a.task_eq_of_join h (by simp) hjoin
        (.inr ⟨rfl, by simp [slot, Slot.before]⟩)⟩
  | synchronizeCollect t' =>
      obtain ⟨rfl, -, hk⟩ := hperforms
      change k < sq.rounds j at hk
      exact ⟨hrun (.inr ⟨rfl, by simp [slot, Slot.before]⟩),
        htask (by simp) (.inr ⟨rfl, by simp [slot, Slot.before]; omega⟩)⟩
  | synchronizeBroadcast t' =>
      obtain ⟨rfl, -, hk⟩ := hperforms
      change k < sq.rounds j at hk
      exact ⟨hrun (.inr ⟨rfl, by simp [slot, Slot.before]⟩),
        htask (by simp) (.inr ⟨rfl, by simp [slot, Slot.before]; omega⟩)⟩
  | taskRun t' j' =>
      obtain ⟨rfl, rfl, rfl⟩ := hperforms
      exact ⟨hrun (.inr ⟨rfl, by simp [slot, Slot.before, notifySub]⟩),
        htask (by simp) (.inr ⟨rfl, by simp [slot, Slot.before]⟩)⟩
  | execute t' j' =>
      obtain ⟨rfl, rfl, -, rfl⟩ := hperforms
      exact ⟨hrun (.inr ⟨rfl, by simp [slot, Slot.before, notifySub]⟩),
        htask (by simp) (.inr ⟨rfl, by simp [slot, Slot.before]⟩)⟩
  | storeResult t' j' =>
      obtain ⟨rfl, rfl, -, -, rfl⟩ := hperforms
      exact ⟨hrun (.inr ⟨rfl, by simp [slot, Slot.before]⟩),
        htask (by simp) (.inr ⟨rfl, by simp [slot, Slot.before]⟩)⟩
  | waitForSubthreads t' =>
      obtain ⟨rfl, rfl⟩ := hperforms
      exact ⟨hrun (.inr ⟨rfl, by simp [slot, Slot.before]⟩),
        htask (by simp) (.inr ⟨rfl, by simp [slot, Slot.before]⟩)⟩
  | mergeIfParticipant t' i =>
      obtain ⟨rfl, -, rfl⟩ := hperforms
      exact ⟨hrun (.inr ⟨rfl, by simp [slot, Slot.before]⟩),
        htask (by simp) (.inr ⟨rfl, by simp [slot, Slot.before]⟩)⟩
  | merge j' t' i =>
      obtain ⟨rfl, rfl, -, rfl⟩ := hperforms
      exact ⟨hrun (.inr ⟨rfl, by simp [slot, Slot.before]⟩),
        htask (by simp) (.inr ⟨rfl, by simp [slot, Slot.before]⟩)⟩
  | _ => cases huses

theorem unique_fork (i : ℕ) : sq.Unique (.fork i) := by
  rintro θ ⟨op, j, k⟩ θ' ⟨op', j', k'⟩ he he' hop hop'
  obtain rfl : op = .fork i := hop
  obtain rfl : op' = .fork i := hop'
  obtain ⟨rfl, hf, -, rfl⟩ := parentThread_of_fork he
  obtain ⟨rfl, hf', -, rfl⟩ := parentThread_of_fork he'
  exact ⟨rfl, by rw [isFirst_unique hf hf']⟩

theorem unique_join (i : ℕ) : sq.Unique (.join i) := by
  rintro θ ⟨op, j, k⟩ θ' ⟨op', j', k'⟩ he he' hop hop'
  obtain rfl : op = .join i := hop
  obtain rfl : op' = .join i := hop'
  obtain ⟨rfl, hjoin, hrun, rfl⟩ := parentThread_of_join he
  obtain ⟨rfl, hjoin', hrun', rfl⟩ := parentThread_of_join he'
  have hlt := (sq.mem_runs.1 hrun).1
  have hlt' := (sq.mem_runs.1 hrun').1
  rcases le_total j j' with hle | hle
  · exact ⟨rfl, by rw [run_eq_of_joinRequested hjoin hlt hle hlt']⟩
  · exact ⟨rfl, by rw [run_eq_of_joinRequested hjoin' hlt' hle hlt]⟩

/-- No run of a worker comes after a join run. -/
theorem le_of_joinRequested {j' : ℕ} (hjoin : (sq.task j).joinRequested)
    (hlt : j < sq.tasks.length) (hj' : j' ∈ sq.runs t) : j' ≤ j := by
  by_contra hgt
  have heq := run_eq_of_joinRequested hjoin hlt (not_le.1 hgt).le (sq.mem_runs.1 hj').1
  omega

/-- Leaving is the last thing a worker does. -/
theorem before_exit {x : Event} (hx : x ∈ sq.script (.worker t))
    (hjoin : (sq.task j).joinRequested) (hlt : j < sq.tasks.length) (hne : x ≠ ⟨.exit t, j, 0⟩) :
    sq.before x ⟨.exit t, j, 0⟩ := by
  obtain ⟨hrun, hevent⟩ := Squad.mem_script.1 hx
  rcases (le_of_joinRequested hjoin hlt hrun).lt_or_eq with hlt' | heq
  · exact .inl hlt'
  · refine .inr ⟨heq, ?_⟩
    obtain ⟨op, j', k⟩ := x
    obtain rfl : j' = j := heq
    have hperforms := mem_events_worker.1 hevent
    cases op with
    | wait σ i => cases σ <;> simp_all [Performs, slot, Slot.before] <;> omega
    | reset σ i => cases σ <;> simp_all [Performs, slot, Slot.before] <;> omega
    | load σ i => cases σ <;> simp_all [Performs, slot, Slot.before] <;> omega
    | store σ i => cases σ <;> simp_all [Performs, slot, Slot.before] <;> omega
    | transform t' j'' k' =>
        obtain ⟨-, -, -, -, -, c, hc, -⟩ := hperforms
        have hk : k < sq.rounds j' := exists_collective.1 ⟨c, hc⟩
        simp [slot, Slot.before]
        omega
    | _ => simp_all [Performs, slot, Slot.before] <;> omega

/-- A worker that takes part in some run takes part in the join run. -/
theorem mem_runs_of_joinRequested {j' : ℕ} (hjoin : (sq.task j).joinRequested)
    (hlt : j < sq.tasks.length) (hj' : j' ∈ sq.runs t) : j ∈ sq.runs t := by
  rcases (le_of_joinRequested hjoin hlt hj').lt_or_eq with hlt' | rfl
  · obtain ⟨-, hw', ht⟩ := sq.mem_runs.1 hj'
    have hw : sq.haveWork j := by
      obtain ⟨j₀, hle, hf⟩ := exists_isFirst hw'
      have hs : sq.started j := by
        rw [started, List.any_eq_true]
        rw [isFirst, Bool.and_eq_true] at hf
        exact ⟨j₀, List.mem_range.2 (by omega), hf.1⟩
      simp [haveWork, hjoin, hs]
    have hn : sq.numThreadsFor j = sq.numThreads := by simp [numThreadsFor, hjoin]
    exact sq.mem_runs.2 ⟨hlt, hw, hn ▸ ht.trans_le (sq.numThreadsFor_le _)⟩
  · exact hj'

theorem join_mem_script (hjoin : (sq.task j).joinRequested) (hrun : j ∈ sq.runs t) :
    ⟨.join t, j, 0⟩ ∈ sq.script (sq.parentThread t) := by
  obtain ⟨hlt, hw, ht⟩ := sq.mem_runs.1 hrun
  rcases Nat.eq_zero_or_pos t with rfl | hpos
  · rw [parentThread_zero]
    exact mem_script_controller.2 ⟨hlt, rfl, hw, hjoin, rfl⟩
  · rw [parentThread_of_pos hpos]
    exact mem_script_worker.2 ⟨sq.mem_runs_parent hpos hrun,
      child_parent hpos (ht.trans_le (sq.numThreadsFor_le j)), hjoin, rfl⟩

/-- Once a join run has returned, no worker has anything left to do. -/
theorem Inv.rem_worker_eq_nil (h : sq.Inv s rem) (hjoin : (sq.task j).joinRequested)
    (hlt : j < sq.tasks.length) (hret : ⟨.ret j, j, 0⟩ ∉ rem .controller) (t : ℕ) :
    rem (.worker t) = [] := by
  rw [List.eq_nil_iff_forall_not_mem]
  intro x hx
  have hscript := Control.mem_script h.toControl hx
  have hrun := (Squad.mem_script.1 hscript).1
  obtain ⟨-, hw, -⟩ := sq.mem_runs.1 (mem_runs_of_joinRequested hjoin hlt hrun)
  have hexit : ⟨.exit t, j, 0⟩ ∈ sq.script (.worker t) :=
    mem_script_worker.2 ⟨mem_runs_of_joinRequested hjoin hlt hrun, rfl, hjoin, rfl⟩
  have hpending : ⟨.exit t, j, 0⟩ ∈ rem (.worker t) := by
    by_cases hne : x = ⟨.exit t, j, 0⟩
    · exact hne ▸ hx
    · exact h.mem_of_before hx hexit (before_exit hscript hjoin hlt hne)
  refine hret (h.mem_of_before (h.releaseTask_mem_of_exit hpending)
    (mem_script_controller.2 ⟨hlt, rfl, rfl⟩) (.inr ⟨rfl, ?_⟩))
  simp [slot, Slot.before]

/-- Returning is the last thing the controlling thread does. -/
theorem before_ret {x : Event} (hx : x ∈ sq.script .controller)
    (hjoin : (sq.task j).joinRequested) (hlt : j < sq.tasks.length) (hne : x ≠ ⟨.ret j, j, 0⟩) :
    sq.before x ⟨.ret j, j, 0⟩ := by
  obtain ⟨hlt', hcontrols⟩ := mem_script_controller.1 hx
  have hle : x.run ≤ j := by
    by_contra hgt
    exact absurd (run_eq_of_joinRequested hjoin hlt (not_le.1 hgt).le hlt') (by omega)
  rcases hle.lt_or_eq with hlt'' | heq
  · exact .inl hlt''
  · refine .inr ⟨heq, ?_⟩
    obtain ⟨op, j', k⟩ := x
    obtain rfl : j' = j := heq
    cases op with
    | wait σ i => cases σ <;> simp_all [Controls, slot, Slot.before]
    | reset σ i => cases σ <;> simp_all [Controls, slot, Slot.before]
    | load σ i => cases σ <;> simp_all [Controls, slot, Slot.before]
    | store σ i => cases σ <;> simp_all [Controls, slot, Slot.before]
    | _ => simp_all [Controls, slot, Slot.before]

theorem Control.rem_controller_eq_nil (h : sq.Control s rem) (hjoin : (sq.task j).joinRequested)
    (hlt : j < sq.tasks.length) (hret : ⟨.ret j, j, 0⟩ ∉ rem .controller) :
    rem .controller = [] := by
  rw [List.eq_nil_iff_forall_not_mem]
  intro x hx
  have hscript := Control.mem_script h hx
  have hmem : ⟨.ret j, j, 0⟩ ∈ sq.script .controller :=
    mem_script_controller.2 ⟨hlt, rfl, rfl⟩
  have hne : x ≠ ⟨.ret j, j, 0⟩ := fun hx' => hret (hx' ▸ hx)
  exact h.not_mem_of_done hmem hret (before_ret hscript hjoin hlt hne) hx

/-- A worker with nothing left to do in a squad that is joined has left. -/
theorem Inv.code_worker_eq_nil (h : sq.Inv s rem) (hjoin : (sq.task j).joinRequested)
    (hlt : j < sq.tasks.length) (hret : ⟨.ret j, j, 0⟩ ∉ rem .controller) (t : ℕ) :
    s.code (.worker t) = [] := by
  have hnil := h.rem_worker_eq_nil hjoin hlt hret t
  cases h.worker t with
  | unborn _ hcode => exact hcode
  | busy j' earlier later now _ _ _ _ hrem hunf =>
      rw [hrem, List.append_eq_nil_iff] at hnil
      rw [hnil.1] at hunf
      exact hunf.eq_nil
  | idle _ hne hnojoin _ _ =>
      -- the join run is one of its runs, because it takes part in some run
      obtain ⟨j', hj'⟩ := List.exists_mem_of_ne_nil _ hne
      exact absurd hjoin (hnojoin j (mem_runs_of_joinRequested hjoin hlt hj'))
  | gone _ hcode => exact hcode

/-- After the join run, the workers that were forked are those that are joined. -/
theorem History.join_mem_iff_fork_mem (hh : sq.History tr rem) (h : sq.Inv s rem)
    (hjoin : (sq.task j).joinRequested) (hlt : j < sq.tasks.length)
    (hret : ⟨.ret j, j, 0⟩ ∉ rem .controller) (i : ℕ) :
    (θ, .join i) ∈ tr ↔ (θ, .fork i) ∈ tr := by
  have hnil : rem θ = [] := by
    cases θ with
    | controller => exact h.rem_controller_eq_nil hjoin hlt hret
    | worker t => exact h.rem_worker_eq_nil hjoin hlt hret t
  rw [hh.mem_iff, hh.mem_iff, hnil]
  simp only [List.not_mem_nil, not_false_eq_true, true_and]
  constructor
  · rintro ⟨⟨op, j', k⟩, he, hop⟩
    obtain rfl : op = .join i := hop
    obtain ⟨rfl, -, hrun, -⟩ := parentThread_of_join he
    obtain ⟨hlt', hw, ht⟩ := sq.mem_runs.1 hrun
    obtain ⟨j₀, hle, hf⟩ := exists_isFirst hw
    exact ⟨_, fork_mem_script hf (by omega) (ht.trans_le (sq.numThreadsFor_le _)), rfl⟩
  · rintro ⟨⟨op, j', k⟩, he, hop⟩
    obtain rfl : op = .fork i := hop
    obtain ⟨rfl, -, hrun, -⟩ := parentThread_of_fork he
    exact ⟨_, join_mem_script hjoin (mem_runs_of_joinRequested hjoin hlt hrun), rfl⟩

theorem count_eq_of_mem_iff {op' : Op} (hh : sq.History tr rem) (hop : sq.Unique op)
    (hop' : sq.Unique op') (h : ∀ θ, (θ, op) ∈ tr ↔ (θ, op') ∈ tr) :
    (tr.map Prod.snd).count op = (tr.map Prod.snd).count op' := by
  by_cases hmem : ∃ θ, (θ, op) ∈ tr
  · obtain ⟨θ, hmem⟩ := hmem
    rw [hh.count_eq_one hop hmem, hh.count_eq_one hop' ((h θ).1 hmem)]
  · have hnot : ∀ {op''}, (∀ θ, (θ, op'') ∉ tr) → (tr.map Prod.snd).count op'' = 0 := by
      intro op'' hnone
      rw [List.count_eq_zero, List.mem_map]
      rintro ⟨⟨θ, _⟩, hx, rfl⟩
      exact hnone θ hx
    rw [hnot fun θ hθ => hmem ⟨θ, hθ⟩, hnot fun θ hθ => hmem ⟨θ, (h θ).2 hθ⟩]

/-- `task_` points to the task which has been stored last, unless it has been
released. -/
theorem exec_task (h : Exec sq.toConfig tr s) (htask : s.task = some j) :
    ∃ θ tr₁ tr₂, tr = tr₁ ++ (θ, Op.storeTask j) :: tr₂ ∧ Op.releaseTask ∉ tr₂.map Prod.snd := by
  induction h with
  | initial => cases htask
  | @step tr s s' θ op ops _ hcode hnext ih =>
      rw [(step_effect hcode hnext).task] at htask
      by_cases hstore : op = .storeTask j
      · exact ⟨θ, tr, [], by rw [hstore], by simp⟩
      · have hsame : s.task = some j ∧ op ≠ .releaseTask := by
          cases op <;> simp_all [nextTask]
        obtain ⟨θ', tr₁, tr₂, rfl, hnot⟩ := ih hsame.1
        refine ⟨θ', tr₁, tr₂ ++ [(θ, op)], by simp, ?_⟩
        simpa using ⟨by simpa using hnot, hsame.2.symm⟩

theorem exec_ne_blocked (huses : op.usesTask = true) (cfg : Config V) (s : State V) (θ : Thread) :
    ThreadSquad.exec cfg s θ op ≠ .blocked := by
  cases op <;> simp only [Op.usesTask, ThreadSquad.exec] at huses ⊢ <;>
    (repeat' split) <;> simp_all

/-- A worker uses the task of the run it has been woken for, and only after the
controlling thread has stored it and before it releases it. A worker is forked at
most once and joined at most once, by the same thread; and when the join run has
returned, every worker that was forked is joined, and all have left. -/
theorem task_lifetime (h : Exec sq.toConfig tr s) :
    (∀ t op ops, s.code (.worker t) = op :: ops → op.usesTask = true →
      ∃ j θ tr₁ tr₂, sq.currentRun tr t = some j ∧ s.task = some j ∧
        tr = tr₁ ++ (θ, .storeTask j) :: tr₂ ∧ .releaseTask ∉ tr₂.map Prod.snd) ∧
      (∀ i, (tr.map Prod.snd).count (.fork i) ≤ 1 ∧ (tr.map Prod.snd).count (.join i) ≤ 1) ∧
      (∀ i θ θ', (θ, .fork i) ∈ tr → (θ', .join i) ∈ tr → θ = θ') ∧
      ∀ j, (.controller, .ret j) ∈ tr → (sq.task j).joinRequested → ∀ i,
        (tr.map Prod.snd).count (.join i) = (tr.map Prod.snd).count (.fork i) ∧
          s.code (.worker i) = [] ∧ (.fork i ∈ tr.map Prod.snd → s.exited i = true) := by
  obtain ⟨rem, hinv, -, hh⟩ := exec_inv h
  refine ⟨fun t op ops hcode huses => ?_,
    fun i => ⟨hh.count_le_one (unique_fork i), hh.count_le_one (unique_join i)⟩,
    fun i θ θ' hfork hjoin => ?_, fun j hret hjoin i => ?_⟩
  · have hstep : step sq.toConfig s (.worker t) ≠ .blocked := by
      rw [step, hcode]
      exact exec_ne_blocked huses _ _ _
    obtain ⟨e, later, rfl, a⟩ := hinv.exists_head hcode hstep
    obtain ⟨hrun, htask⟩ := a.task_of_usesTask hinv hh huses
    obtain ⟨θ, tr₁, tr₂, htr, hnot⟩ := exec_task h htask
    exact ⟨e.run, θ, tr₁, tr₂, hrun, htask, htr, hnot⟩
  · obtain ⟨⟨op, j, k⟩, he, -, hop⟩ := hh.mem_iff.1 hfork
    obtain ⟨⟨op', j', k'⟩, he', -, hop'⟩ := hh.mem_iff.1 hjoin
    obtain rfl : op = .fork i := hop
    obtain rfl : op' = .join i := hop'
    rw [(parentThread_of_fork he).1, (parentThread_of_join he').1]
  · obtain ⟨e, he, hdone, hop⟩ := hh.mem_iff.1 hret
    obtain ⟨rfl, hlt⟩ := ret_event he hop
    refine ⟨count_eq_of_mem_iff hh (unique_join i) (unique_fork i) fun θ =>
      hh.join_mem_iff_fork_mem hinv hjoin hlt hdone i,
      hinv.code_worker_eq_nil hjoin hlt hdone i, fun hfork => ?_⟩
    obtain ⟨⟨θ, op⟩, hmem, hop'⟩ := List.mem_map.1 hfork
    obtain rfl : op = .fork i := hop'
    obtain ⟨⟨op, j', k⟩, he', -, hop'⟩ := hh.mem_iff.1 hmem
    obtain rfl : op = .fork i := hop'
    obtain ⟨-, -, hrun, -⟩ := parentThread_of_fork he'
    refine (hinv.exited i).2 ⟨j, mem_script_worker.2
      ⟨mem_runs_of_joinRequested hjoin hlt hrun, rfl, hjoin, rfl⟩, ?_⟩
    simp [hinv.rem_worker_eq_nil hjoin hlt hdone i]

/-- In a whole run of the two workers, the first one forks the second one and joins it. -/
theorem pair_task_lifetime : ∃ tr s, Exec pairSquad.toConfig tr s ∧
    (.controller, .ret 1) ∈ tr ∧ (.worker 0, .fork 1) ∈ tr ∧
      (tr.map Prod.snd).count (.fork 1) = 1 ∧ (tr.map Prod.snd).count (.join 1) = 1 ∧
        s.code (.worker 1) = [] ∧ s.exited 1 = true := by
  obtain ⟨tr, s, h, -, hret, hfork⟩ := exists_pair_exec
  obtain ⟨-, hcount, -, hjoined⟩ := task_lifetime h
  obtain ⟨hjoin, hcode, hexited⟩ := hjoined 1 hret (by decide) 1
  have hmem : .fork 1 ∈ tr.map Prod.snd := List.mem_map_of_mem (f := Prod.snd) hfork
  have hone : (tr.map Prod.snd).count (.fork 1) = 1 :=
    le_antisymm (hcount 1).1 (List.count_pos_iff.2 hmem)
  exact ⟨tr, s, h, hret, hfork, hone, hjoin.trans hone, hcode, hexited hmem⟩

end Squad

end Patton.ThreadSquad
