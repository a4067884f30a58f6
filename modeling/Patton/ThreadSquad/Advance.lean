import Patton.ThreadSquad.Invariant

/-!
# What a step does to the invariant's view of a thread

A step takes the first pending event of its thread. Here the invariant is shown
to hold in the initial state, the first pending event is read off the code, and
what an operation calls in a state is shown to be what the script expects: the
number of threads it finds, the task it finds and the thread handle it finds are
those of the run it belongs to.
-/

namespace Patton.ThreadSquad

open Handshake Calls

variable {V : Type}

namespace Squad

variable {sq : Squad V} {s s' : State V} {rem rem' : Thread → List Event} {θ : Thread}
  {e : Event} {ops : List Op}

/-- A run with work to do is the first one or comes after the first one. -/
theorem exists_isFirst {j : ℕ} (h : sq.haveWork j) : ∃ j' ≤ j, sq.isFirst j' := by
  induction j using Nat.strong_induction_on with
  | _ j ih =>
    by_cases hs : sq.started j
    · rw [started, List.any_eq_true] at hs
      obtain ⟨x, hx, hc⟩ := hs
      have hw : sq.haveWork x := by simp [haveWork, hc]
      obtain ⟨j', hle, hf⟩ := ih x (List.mem_range.1 hx) hw
      exact ⟨j', hle.trans (List.mem_range.1 hx).le, hf⟩
    · refine ⟨j, le_rfl, ?_⟩
      simp_all [haveWork, isFirst]

theorem fork_mem_script {j t : ℕ} (hf : sq.isFirst j) (hj : j < sq.tasks.length)
    (ht : t < sq.numThreads) : ⟨.fork t, j, 0⟩ ∈ sq.script (sq.parentThread t) := by
  rcases Nat.eq_zero_or_pos t with rfl | hpos
  · rw [parentThread_zero]
    exact mem_script_controller.2 ⟨hj, rfl, hf, rfl⟩
  · have hlt := sq.parent_lt hpos
    have hn : sq.numThreadsFor j = sq.numThreads := by simp [numThreadsFor, hf]
    rw [parentThread_of_pos hpos]
    exact mem_script_worker.2 ⟨sq.mem_runs.2 ⟨hj, haveWork_of_isFirst hf, by omega⟩,
      child_parent hpos (by omega), hf, rfl⟩

/-- A worker which nobody forks has nothing to do. -/
theorem script_eq_nil_of_not_forkPending {t : ℕ} (h : ¬ sq.ForkPending sq.script t) :
    sq.script (.worker t) = [] := by
  have hruns : sq.runs t = [] := by
    rw [List.eq_nil_iff_forall_not_mem]
    intro j hj
    obtain ⟨hlt, hw, ht⟩ := sq.mem_runs.1 hj
    obtain ⟨j', hle, hf⟩ := exists_isFirst hw
    exact h ⟨j', fork_mem_script hf (by omega) (ht.trans_le (sq.numThreadsFor_le j))⟩
  simp [script, threadRuns, hruns]

theorem Control.initial : sq.Control (State.initial sq.toConfig) sq.script where
  suffix := fun θ => List.suffix_rfl
  controller := by
    rw [script, List.map_flatMap]
    refine Unfolds.flatMap fun j _ => ?_
    rw [map_op_events]
    exact unfolds_controller j 0
  worker := fun t => by
    by_cases h : sq.ForkPending sq.script t
    · exact .unborn h rfl rfl
    · exact .gone h rfl (script_eq_nil_of_not_forkPending h)
  synced := fun i ch => by
    rw [requests_script, responses_script]
    exact .idle _ _

theorem Shared.initial : sq.Shared (State.initial sq.toConfig) sq.script where
  task := fun j => by
    refine ⟨fun h => (nomatch h), fun ⟨hstore, hrelease⟩ => absurd ?_ hstore⟩
    obtain ⟨hj, hw, -⟩ := mem_script_controller.1 hrelease
    exact mem_script_controller.2 ⟨hj, rfl, hw, rfl⟩
  haveThreadHandle := fun i =>
    ⟨fun h => (nomatch h), fun ⟨⟨_, hmem, hdone⟩, _⟩ => absurd hmem hdone⟩
  exited := fun i => ⟨fun h => (nomatch h), fun ⟨_, hmem, hdone⟩ => absurd hmem hdone⟩
  joined := fun i j hmem hdone => absurd hmem hdone
  pass := fun t j _ hj => ⟨fun _ => mem_script_worker.2 ⟨hj, rfl, rfl⟩, fun _ => rfl⟩
  joinRequested := fun t j hj hdone =>
    absurd (mem_script_worker.2 (⟨hj, rfl, rfl⟩ : _ ∧ sq.Performs t j 0 (.taskRef t))) hdone

theorem Inv.initial : sq.Inv (State.initial sq.toConfig) sq.script :=
  { Control.initial, Shared.initial with }

/-- The code of thread `θ` starts with the operation of its first pending event
`e`, and the thread is forked if it is a worker. -/
structure Head (sq : Squad V) (s : State V) (rem : Thread → List Event) (θ : Thread)
    (e : Event) (later : List Event) (ops : List Op) : Prop where
  code : s.code θ = e.op :: ops
  rem_eq : rem θ = e :: later
  born : ∀ t, θ = .worker t → ¬ sq.ForkPending rem t

/-- A thread that is not blocked is at its first pending event. -/
theorem Control.exists_head (h : sq.Control s rem) {op : Op} {ops : List Op}
    (hcode : s.code θ = op :: ops) (hstep : step sq.toConfig s θ ≠ .blocked) :
    ∃ e later, e.op = op ∧ sq.Head s rem θ e later ops := by
  cases θ with
  | controller =>
      have hctl := h.controller
      rw [hcode] at hctl
      obtain ⟨out, hout, -⟩ := hctl.head
      obtain ⟨e, later, hrem, rfl, -⟩ := List.map_eq_cons_iff.1 hout
      exact ⟨e, later, rfl, hcode, hrem, fun t ht => nomatch ht⟩
  | worker t =>
      cases h.worker t with
      | unborn _ hnil => rw [hcode] at hnil; cases hnil
      | busy j earlier later now hborn hruns hnow hlast hrem hunf =>
          rw [hcode] at hunf
          obtain ⟨out, hout, -⟩ := hunf.head
          obtain ⟨e, now', hnow', rfl, -⟩ := List.map_eq_cons_iff.1 hout
          rw [hnow', List.cons_append] at hrem
          exact ⟨e, _, rfl, hcode, hrem, fun t' ht => by cases ht; exact hborn⟩
      | idle _ _ _ hidle hrem =>
          -- an idle worker is not woken up any more
          have hblocked : step sq.toConfig s (.worker t) ≠ .blocked := hstep
          rw [step, hidle, taskWait] at hblocked
          have hflag : s.signal .taskAvailable t = true := by
            by_contra hflag
            exact hblocked (if_neg hflag)
          have hsynced := h.synced t .task
          simp only [Channel.request, hflag] at hsynced
          refine absurd ?_ hsynced.responses_ne_nil
          simp [responder, hrem]
      | gone _ hnil => rw [hcode] at hnil; cases hnil

namespace Head

variable {later : List Event}

theorem head_mem (a : sq.Head s rem θ e later ops) : e ∈ rem θ := by
  rw [a.rem_eq]
  exact List.mem_cons_self

theorem mem_script (a : sq.Head s rem θ e later ops) (h : sq.Control s rem) :
    e ∈ sq.script θ :=
  h.mem_script a.head_mem

/-- What comes before the first pending event is done. -/
theorem not_mem_of_before (a : sq.Head s rem θ e later ops) (h : sq.Control s rem)
    {x : Event} (hx : sq.before x e) : x ∉ rem θ :=
  h.not_mem_of_before_head a.rem_eq hx

/-- What comes after the first pending event is pending. -/
theorem mem_of_before (a : sq.Head s rem θ e later ops) (h : sq.Control s rem)
    {x : Event} (hx : x ∈ sq.script θ) (hex : sq.before e x) : x ∈ rem θ :=
  h.mem_of_before a.head_mem hx hex

theorem mem_runs {t : ℕ} (a : sq.Head s rem (.worker t) e later ops)
    (h : sq.Control s rem) : e.run ∈ sq.runs t ∧ sq.Performs t e.run e.round e.op :=
  mem_script_worker.1 (a.mem_script h)

theorem controls (a : sq.Head s rem .controller e later ops) (h : sq.Control s rem) :
    e.run < sq.tasks.length ∧ sq.Controls e.run e.round e.op :=
  mem_script_controller.1 (a.mem_script h)

end Head

variable {later : List Event}

/-- A worker is in its initial pass exactly in the first run, up to `next_pass`. -/
theorem Head.pass_eq_zero_iff {t : ℕ} (a : sq.Head s rem (.worker t) e later ops)
    (h : sq.Inv s rem) :
    s.pass t = 0 ↔ sq.isFirst e.run ∧ ⟨.nextPass t, e.run, 0⟩ ∈ rem (.worker t) := by
  obtain ⟨hrun, -⟩ := a.mem_runs h.toControl
  obtain ⟨hlt, hw, ht⟩ := sq.mem_runs.1 hrun
  obtain ⟨j, hle, hf⟩ := exists_isFirst hw
  have hj : j ∈ sq.runs t := by
    refine sq.mem_runs.2 ⟨by omega, haveWork_of_isFirst hf, ?_⟩
    have hn : sq.numThreadsFor j = sq.numThreads := by simp [numThreadsFor, hf]
    exact hn ▸ ht.trans_le (sq.numThreadsFor_le e.run)
  rw [h.pass t j hf hj]
  rcases hle.eq_or_lt with rfl | hlt'
  · exact (and_iff_right hf).symm
  · refine iff_of_false (a.not_mem_of_before h.toControl (.inl hlt')) ?_
    rintro ⟨hf', -⟩
    exact absurd (isFirst_unique hf hf') (by omega)

/-- `num_threads_for_task` counts the workers of the run: it is called with the
run's task in place, and in the initial pass before `next_pass`. -/
theorem Head.numThreadsForTask_eq {t : ℕ}
    (a : sq.Head s rem (.worker t) e later ops) (h : sq.Inv s rem)
    (htask : s.task = some e.run)
    (hpass : (sq.task e.run).joinRequested ∨ ⟨.nextPass t, e.run, 0⟩ ∈ rem (.worker t)) :
    numThreadsForTask sq.toConfig s t = sq.numThreadsFor e.run := by
  have hzero := a.pass_eq_zero_iff h
  rw [numThreadsForTask, numThreadsFor, htask]
  by_cases hjoin : (sq.task e.run).joinRequested
  · simp [hjoin]
  · by_cases hf : sq.isFirst e.run
    · rw [if_pos (hzero.2 ⟨hf, hpass.resolve_left hjoin⟩)]
      simp [hf]
    · rw [if_neg fun hp => hf (hzero.1 hp).1]
      simp [hf, hjoin]

/-- A worker finds the task of its run from `task_wait` on until it signals its
completion. -/
theorem Head.task_eq {t : ℕ} (a : sq.Head s rem (.worker t) e later ops)
    (h : sq.Inv s rem) (hwait : e.op ≠ .wait .taskAvailable t)
    (hbefore : sq.before e ⟨.store .taskProcessed t, e.run, 0⟩) : s.task = some e.run := by
  refine h.task_eq a.rem_eq (a.born t rfl) hwait (.inl ?_)
  exact (a.mem_of_before h.toControl
    (mem_script_worker.2 ⟨(a.mem_runs h.toControl).1, rfl, rfl⟩) hbefore)

/-- In a join run, a worker still finds the task of the run until it exits. -/
theorem Head.task_eq_of_join {t : ℕ} (a : sq.Head s rem (.worker t) e later ops)
    (h : sq.Inv s rem) (hwait : e.op ≠ .wait .taskAvailable t)
    (hjoin : (sq.task e.run).joinRequested)
    (hbefore : sq.before e ⟨.exit t, e.run, 0⟩) : s.task = some e.run := by
  refine h.task_eq a.rem_eq (a.born t rfl) hwait (.inr ?_)
  exact (a.mem_of_before h.toControl
    (mem_script_worker.2 ⟨(a.mem_runs h.toControl).1, rfl, hjoin, rfl⟩) hbefore)

theorem Head.nextPass_mem {t : ℕ} (a : sq.Head s rem (.worker t) e later ops)
    (h : sq.Inv s rem) (hbefore : sq.before e ⟨.nextPass t, e.run, 0⟩) :
    ⟨.nextPass t, e.run, 0⟩ ∈ rem (.worker t) :=
  (a.mem_of_before h.toControl
    (mem_script_worker.2 ⟨(a.mem_runs h.toControl).1, rfl, rfl⟩) hbefore)

/-- `next_pass` is called with the flag which `run_thread` has read from the task. -/
theorem Head.joinRequested_eq {t : ℕ} (a : sq.Head s rem (.worker t) e later ops)
    (h : sq.Inv s rem) (hop : e.op = .nextPass t) :
    s.joinRequested t = (sq.task e.run).joinRequested := by
  obtain ⟨op, j, k⟩ := e
  subst hop
  obtain ⟨hrun, -, rfl⟩ := a.mem_runs h.toControl
  refine h.joinRequested t j hrun (a.not_mem_of_before h.toControl (.inr ⟨rfl, ?_⟩)) a.head_mem
  simp [slot, Slot.before]

/-- The operations of a worker call what the script expects. -/
theorem Head.called_worker {t : ℕ} (a : sq.Head s rem (.worker t) e later ops)
    (h : sq.Inv s rem) (hop : e.op = .nextPass t → (sq.task e.run).joinRequested) :
    called sq.toConfig s e.op = sq.expand e.run e.op := by
  obtain ⟨hrun, hperforms⟩ := a.mem_runs h.toControl
  have htask := a.task_eq h
  have hpass := a.nextPass_mem h
  have hzero := a.pass_eq_zero_iff h
  obtain ⟨op, j, k⟩ := e
  cases op with
  | run j' => exact absurd hperforms id
  | forkRoot j' => exact absurd hperforms id
  | notifyAndForkSubthreads t' =>
      obtain ⟨rfl, hf, rfl⟩ := hperforms
      have hp := hzero.2 ⟨hf, hpass (.inr ⟨rfl, by simp [slot, Slot.before]⟩)⟩
      simp only [called, expand, numThreadsForTask, if_pos hp]
  | taskRef t' =>
      obtain ⟨rfl, rfl⟩ := hperforms
      have hp : s.pass t' = 0 ↔ sq.isFirst j := hzero.trans
        (and_iff_left (hpass (.inr ⟨rfl, by simp [slot, Slot.before]⟩)))
      simp [called, expand, htask (by simp) (.inr ⟨rfl, by simp [slot, Slot.before]⟩), hp]
  | notifySubthreads t' =>
      obtain ⟨rfl, -, rfl⟩ := hperforms
      rw [called, expand, a.numThreadsForTask_eq h
        (htask (by simp) (.inr ⟨rfl, by simp [slot, Slot.before]⟩))
        (.inr (hpass (.inr ⟨rfl, by simp [slot, Slot.before]⟩)))]
  | taskRun t' j' =>
      obtain ⟨rfl, rfl, rfl⟩ := hperforms
      rfl
  | execute t' j' =>
      obtain ⟨rfl, rfl, -, rfl⟩ := hperforms
      rfl
  | waitForSubthreads t' =>
      obtain ⟨rfl, rfl⟩ := hperforms
      rw [called, expand, a.numThreadsForTask_eq h
        (htask (by simp) (.inr ⟨rfl, by simp [slot, Slot.before]⟩))
        (.inr (hpass (.inr ⟨rfl, by simp [slot, Slot.before]⟩)))]
  | mergeIfParticipant t' i =>
      obtain ⟨rfl, hchild, rfl⟩ := hperforms
      simp [called, expand, htask (by simp) (.inr ⟨rfl, by simp [slot, Slot.before]⟩)]
  | nextPass t' =>
      obtain ⟨rfl, rfl⟩ := hperforms
      rw [called, expand, a.joinRequested_eq h rfl, if_pos (hop rfl), if_pos (hop rfl)]
  | joinSubthreads t' =>
      obtain ⟨rfl, hjoin, rfl⟩ := hperforms
      have hn : sq.numThreadsFor j = sq.numThreads := by simp [numThreadsFor, hjoin]
      rw [called, expand, a.numThreadsForTask_eq h (a.task_eq_of_join h (by simp) hjoin
        (.inr ⟨rfl, by simp [slot, Slot.before]⟩)) (.inl hjoin), hn]
  | synchronizeCollect t' =>
      obtain ⟨rfl, -, hk⟩ := hperforms
      change k < sq.rounds j at hk
      have hbefore : sq.before ⟨.synchronizeCollect t', j, k⟩ ⟨.store .taskProcessed t', j, 0⟩ :=
        .inr ⟨rfl, by simp [slot, Slot.before]; omega⟩
      simp [called, expand, htask (by simp) hbefore]
  | synchronizeBroadcast t' =>
      obtain ⟨rfl, -, hk⟩ := hperforms
      change k < sq.rounds j at hk
      have hbefore : sq.before ⟨.synchronizeBroadcast t', j, k⟩ ⟨.store .taskProcessed t', j, 0⟩ :=
        .inr ⟨rfl, by simp [slot, Slot.before]; omega⟩
      simp [called, expand, htask (by simp) hbefore]
  | _ => rfl

/-- Only the last task may request a join. -/
theorem run_eq_of_joinRequested {j j' : ℕ} (h : (sq.task j).joinRequested)
    (hlt : j < sq.tasks.length) (hle : j ≤ j') (hlt' : j' < sq.tasks.length) : j = j' := by
  by_contra hne
  have hmem : sq.task j ∈ sq.tasks.dropLast := by
    have hj : j < sq.tasks.dropLast.length := by
      rw [List.length_dropLast]
      omega
    rw [Config.task, List.getElem?_eq_getElem hlt, Option.getD_some,
      ← List.getElem_dropLast hj]
    exact List.getElem_mem hj
  rw [sq.join_last _ hmem] at h
  cases h

/-- Before it may join, the controlling thread finds worker `0` forked once an
earlier run had work to do. -/
theorem Head.haveThreadHandle_zero (a : sq.Head s rem .controller e later ops)
    (h : sq.Inv s rem) (hbefore : sq.before e ⟨.fork 0, e.run, 0⟩)
    (hjoin : sq.before e ⟨.join 0, e.run, 0⟩) : s.haveThreadHandle 0 = sq.started e.run := by
  obtain ⟨hlt, -⟩ := a.controls h.toControl
  rw [Bool.eq_iff_iff, h.haveThreadHandle 0, parentThread_zero]
  constructor
  · rintro ⟨⟨j, hfork, hdone⟩, -⟩
    obtain ⟨hj, -, hf, -⟩ := mem_script_controller.1 hfork
    have hlt' : j < e.run := by
      by_contra hge
      refine hdone ((a.mem_of_before h.toControl hfork ?_))
      rcases (not_lt.1 hge).eq_or_lt with heq | hgt
      · exact heq ▸ hbefore
      · exact .inl hgt
    rw [started, List.any_eq_true]
    rw [isFirst, Bool.and_eq_true] at hf
    exact ⟨j, List.mem_range.2 hlt', hf.1⟩
  · intro hs
    constructor
    · rw [started, List.any_eq_true] at hs
      obtain ⟨x, hx, hc⟩ := hs
      have hw : sq.haveWork x := by simp [haveWork, hc]
      obtain ⟨j, hle, hf⟩ := exists_isFirst hw
      have hj := List.mem_range.1 hx
      exact ⟨j, mem_script_controller.2 ⟨by omega, rfl, hf, rfl⟩,
        a.not_mem_of_before h.toControl (.inl (by simp only; omega))⟩
    · intro j hmem
      obtain ⟨hj, -, -, hreq, -⟩ := mem_script_controller.1 hmem
      refine (a.mem_of_before h.toControl hmem ?_)
      rcases lt_trichotomy j e.run with hlt' | heq | hgt
      · exact absurd (run_eq_of_joinRequested hreq hj hlt'.le hlt) hlt'.ne
      · exact heq ▸ hjoin
      · exact .inl hgt

/-- The operations of the controlling thread call what the script expects. -/
theorem Head.called_controller (a : sq.Head s rem .controller e later ops)
    (h : sq.Inv s rem) : called sq.toConfig s e.op = sq.expand 0 e.op := by
  obtain ⟨hlt, hcontrols⟩ := a.controls h.toControl
  have hhandle := a.haveThreadHandle_zero h
  obtain ⟨op, j, k⟩ := e
  cases op with
  | run j' =>
      obtain ⟨rfl, rfl⟩ := hcontrols
      rw [called, expand, hhandle (.inr ⟨rfl, by simp [slot, Slot.before]⟩)
        (.inr ⟨rfl, by simp [slot, Slot.before]⟩)]
      simp [haveWork]
  | forkRoot j' =>
      obtain ⟨rfl, hw, rfl⟩ := hcontrols
      rw [called, expand, hhandle (.inr ⟨rfl, by simp [slot, Slot.before]⟩)
        (.inr ⟨rfl, by simp [slot, Slot.before]⟩)]
      by_cases hs : sq.started j' <;> simp_all [haveWork, isFirst]
  | _ => first | rfl | exact absurd hcontrols id

/-- In state `s`, thread `θ` takes its first pending event `e`. -/
structure Advance (sq : Squad V) (s s' : State V) (rem rem' : Thread → List Event)
    (θ : Thread) (e : Event) (ops : List Op) : Prop extends
    Head sq s rem θ e (rem' θ) ops where
  next : step sq.toConfig s θ = .next s'
  frame : ∀ θ', θ' ≠ θ → rem' θ' = rem θ'

theorem Control.exists_advance (h : sq.Control s rem) {op : Op} {ops : List Op}
    (hcode : s.code θ = op :: ops) (hnext : step sq.toConfig s θ = .next s') :
    ∃ rem' e, e.op = op ∧ sq.Advance s s' rem rem' θ e ops := by
  obtain ⟨e, later, hop, a⟩ := h.exists_head hcode (by simp [hnext])
  refine ⟨Function.update rem θ later, e, hop, ⟨a.code, ?_, a.born⟩, hnext, ?_⟩
  · rw [Function.update_self, a.rem_eq]
  · intro θ' hne
    exact Function.update_of_ne hne later rem

namespace Advance

theorem effect (a : sq.Advance s s' rem rem' θ e ops) : Effect sq.toConfig s e.op s' :=
  step_effect a.code a.next

theorem eq_of_next (a : sq.Advance s s' rem rem' θ e ops) {s₁ : State V}
    (h : step sq.toConfig s θ = .next s₁) : s' = s₁ :=
  Outcome.next.inj (a.next.symm.trans h)

/-- The event which is taken is the only one that is not pending any more. -/
theorem mem_iff (a : sq.Advance s s' rem rem' θ e ops) (h : sq.Control s rem)
    {θ' : Thread} {x : Event} : x ∈ rem' θ' ↔ x ∈ rem θ' ∧ ¬ (θ' = θ ∧ x = e) := by
  by_cases hθ : θ' = θ
  · subst hθ
    have hnot : e ∉ rem' θ' :=
      OrderedScript.not_mem_of_nodup (script_nodup θ') (a.rem_eq ▸ h.suffix θ')
    rw [a.rem_eq, List.mem_cons]
    constructor
    · intro hx
      exact ⟨.inr hx, fun ⟨_, hxe⟩ => hnot (hxe ▸ hx)⟩
    · rintro ⟨hx | hx, hne⟩
      · exact absurd ⟨rfl, hx⟩ hne
      · exact hx
  · rw [a.frame θ' hθ]
    simp [hθ]

theorem mem_rem_of_mem (a : sq.Advance s s' rem rem' θ e ops) {θ' : Thread} {x : Event}
    (hx : x ∈ rem' θ') : x ∈ rem θ' := by
  by_cases hθ : θ' = θ
  · subst hθ
    rw [a.rem_eq]
    exact List.mem_cons_of_mem e hx
  · rwa [← a.frame θ' hθ]

/-- An event with another operation is as pending as before. -/
theorem mem_iff_of_op_ne (a : sq.Advance s s' rem rem' θ e ops) (h : sq.Control s rem)
    {θ' : Thread} {x : Event} (hx : x.op ≠ e.op) : x ∈ rem' θ' ↔ x ∈ rem θ' := by
  rw [a.mem_iff h]
  exact and_iff_left fun ⟨_, hxe⟩ => hx (congrArg Event.op hxe)

/-- What comes after the event which is taken is pending. -/
theorem mem_later_of_before (a : sq.Advance s s' rem rem' θ e ops) (h : sq.Control s rem)
    {x : Event} (hx : x ∈ sq.script θ) (hex : sq.before e x) : x ∈ rem' θ := by
  refine (a.mem_iff h).2 ⟨h.mem_of_before a.head_mem hx hex, ?_⟩
  rintro ⟨-, rfl⟩
  exact not_before_self _ hex

end Advance

end Squad

end Patton.ThreadSquad
