import Patton.ThreadSquad.DataPreservation

/-!
# No step fails

In a reachable state a step either succeeds, or it waits for a signal or for a
worker to leave. The contract checks of the source hold, and every pointer and
every slot which a step uses is there.
-/

namespace Patton.ThreadSquad

variable {V : Type}

namespace Squad

variable {sq : Squad V} {s s' : State V} {rem : Thread → List Event} {θ : Thread}
  {e : Event} {later : List Event} {ops : List Op} {t i j k : ℕ}

/-- `set_and_notify` finds the signal lowered. -/
theorem Head.signal_eq_false {σ : Signal}
    (a : sq.Head s rem θ ⟨.load σ i, j, k⟩ later ops) (h : sq.Control s rem) :
    s.signal σ i = false := by
  have hrequest : ∀ ch : Channel, σ = ch.request → s.signal σ i = false := by
    rintro ch rfl
    have hr : ch.asRequest i ⟨.load ch.request i, j, k⟩ = some (.loadRequest (j, k)) := by
      simp [Channel.asRequest]
    obtain rfl := eq_requester (a.mem_script h) hr
    have hsynced := h.synced i ch
    rw [a.rem_eq, List.filterMap_cons_some hr] at hsynced
    exact hsynced.loadRequest.1
  have hanswer : ∀ ch : Channel, σ = ch.answer → s.signal σ i = false := by
    rintro ch rfl
    have hr : ch.asResponse i ⟨.load ch.answer i, j, k⟩ = some (.loadAnswer (j, k)) := by
      simp [Channel.asResponse]
    obtain rfl := eq_responder (a.mem_script h) hr
    have hsynced := h.synced i ch
    rw [a.rem_eq, List.filterMap_cons_some hr] at hsynced
    exact hsynced.loadAnswer.1
  cases σ with
  | taskAvailable => exact hrequest .task rfl
  | taskProcessed => exact hanswer .task rfl
  | collecting => exact hrequest .sync rfl
  | broadcasting => exact hanswer .sync rfl

/-- `fork` finds no thread handle. -/
theorem Head.haveThreadHandle_fork (a : sq.Head s rem θ ⟨.fork i, j, k⟩ later ops)
    (h : sq.Inv s rem) : s.haveThreadHandle i = false := by
  rw [Bool.eq_false_iff]
  intro hhandle
  obtain ⟨⟨j', hfork, hdone⟩, -⟩ := (h.haveThreadHandle i).1 hhandle
  obtain ⟨rfl, hf, -, rfl⟩ := parentThread_of_fork (a.mem_script h.toControl)
  obtain ⟨-, hf', -⟩ := parentThread_of_fork hfork
  obtain rfl := isFirst_unique hf hf'
  exact hdone a.head_mem

/-- `join` finds a thread handle. -/
theorem Head.haveThreadHandle_join (a : sq.Head s rem θ ⟨.join i, j, k⟩ later ops)
    (h : sq.Inv s rem) : s.haveThreadHandle i = true := by
  obtain ⟨rfl, hjoin, hrun, rfl⟩ := parentThread_of_join (a.mem_script h.toControl)
  obtain ⟨hlt, hw, hi⟩ := sq.mem_runs.1 hrun
  obtain ⟨j₀, hle, hf⟩ := exists_isFirst hw
  refine (h.haveThreadHandle i).2 ⟨⟨j₀, fork_mem_script hf (by omega)
    (hi.trans_le (sq.numThreadsFor_le j)), a.not_mem_of_before h.toControl ?_⟩, fun j' hmem => ?_⟩
  · rcases hle.eq_or_lt with rfl | hlt'
    · exact .inr ⟨rfl, by simp [slot, Slot.before]⟩
    · exact .inl hlt'
  · obtain ⟨-, hjoin', hrun', -⟩ := parentThread_of_join hmem
    have hlt' := (sq.mem_runs.1 hrun').1
    have heq : j = j' := by
      rcases le_total j j' with hle' | hle'
      · exact run_eq_of_joinRequested hjoin hlt hle' hlt'
      · exact (run_eq_of_joinRequested hjoin' hlt' hle' hlt).symm
    exact heq ▸ a.head_mem

theorem Head.exists_next_worker (a : sq.Head s rem (.worker t) e later ops) (h : sq.Inv s rem)
    (d : sq.Data s rem) (hguard : e.op.Guard s) :
    ∃ s₁, step sq.toConfig s (.worker t) = .next s₁ := by
  obtain ⟨-, hperforms⟩ := a.mem_runs h.toControl
  have hstep := a.step_eq
  have htask := a.task_eq h
  obtain ⟨op, j, k⟩ := e
  cases op with
  | wait σ i => exact ⟨_, hstep.trans (if_pos hguard)⟩
  | reset σ i => exact ⟨_, hstep⟩
  | load σ i =>
      refine ⟨_, hstep.trans (if_neg ?_)⟩
      simp [a.signal_eq_false h.toControl]
  | store σ i => exact ⟨_, hstep⟩
  | fork i =>
      refine ⟨_, hstep.trans (if_neg ?_)⟩
      simp [a.haveThreadHandle_fork h]
  | join i =>
      exact ⟨_, hstep.trans ((if_pos (a.haveThreadHandle_join h)).trans (if_pos hguard))⟩
  | run j' => exact absurd hperforms id
  | storeTask j' => exact absurd hperforms id
  | forkRoot j' => exact absurd hperforms id
  | releaseTask => exact absurd hperforms id
  | ret j' => exact absurd hperforms id
  | notifyAndForkSubthreads t' =>
      obtain ⟨rfl, hf, rfl⟩ := hperforms
      have hpass : s.pass t' = 0 := (a.pass_eq_zero_iff h).2 ⟨hf, a.nextPass_mem h
        (.inr ⟨rfl, by simp [slot, Slot.before]⟩)⟩
      refine ⟨_, hstep.trans (if_pos ?_)⟩
      exact if_pos hpass
  | taskRef t' =>
      obtain ⟨rfl, rfl⟩ := hperforms
      have hj := htask (by simp) (.inr ⟨rfl, by simp [slot, Slot.before]⟩)
      simp only [exec, hj] at hstep
      exact ⟨_, hstep⟩
  | notifySubthreads t' => exact ⟨_, hstep⟩
  | taskRun t' j' =>
      obtain ⟨rfl, rfl, rfl⟩ := hperforms
      exact ⟨_, hstep.trans (if_pos (htask (by simp)
        (.inr ⟨rfl, by simp [slot, Slot.before]⟩)))⟩
  | execute t' j' =>
      obtain ⟨rfl, rfl, -, rfl⟩ := hperforms
      exact a.execute h d
  | storeResult t' j' =>
      obtain ⟨rfl, rfl, -, -, rfl⟩ := hperforms
      obtain ⟨s₁, hs₁, -⟩ := a.storeResult h d
      exact ⟨s₁, hs₁⟩
  | waitForSubthreads t' => exact ⟨_, hstep⟩
  | mergeIfParticipant t' i =>
      obtain ⟨rfl, -, rfl⟩ := hperforms
      have hj := htask (by simp) (.inr ⟨rfl, by simp [slot, Slot.before]⟩)
      simp only [exec, hj] at hstep
      exact ⟨_, hstep⟩
  | merge j' t' i =>
      obtain ⟨rfl, rfl, -, rfl⟩ := hperforms
      obtain ⟨s₁, hs₁, -⟩ := a.merge h d
      exact ⟨s₁, hs₁⟩
  | nextPass t' => exact ⟨_, hstep⟩
  | joinSubthreads t' =>
      obtain ⟨rfl, hjoin, rfl⟩ := hperforms
      have hn : sq.numThreadsFor j = sq.numThreads := by simp [numThreadsFor, hjoin]
      have hcount := a.numThreadsForTask_eq h (a.task_eq_of_join h (by simp) hjoin
        (.inr ⟨rfl, by simp [slot, Slot.before]⟩)) (.inl hjoin)
      refine ⟨_, hstep.trans (if_pos ?_)⟩
      exact hcount.trans hn
  | exit t' => exact ⟨_, hstep⟩
  | enter t' j' k' =>
      obtain ⟨rfl, rfl, rfl, -, hk⟩ := hperforms
      obtain ⟨c, hc⟩ := exists_collective.2 hk
      obtain ⟨s₁, hs₁, -⟩ := a.enter h.toControl d hc
      exact ⟨s₁, hs₁⟩
  | synchronizeCollect t' =>
      obtain ⟨rfl, -, hk⟩ := hperforms
      change k < sq.rounds j at hk
      have hbefore : sq.before ⟨.synchronizeCollect t', j, k⟩ ⟨.store .taskProcessed t', j, 0⟩ :=
        .inr ⟨rfl, by simp [slot, Slot.before]; omega⟩
      simp only [exec, htask (by simp) hbefore] at hstep
      exact ⟨_, hstep⟩
  | collect t' i =>
      obtain ⟨rfl, -, hk⟩ := hperforms
      obtain ⟨c, hc⟩ := exists_collective.2 hk
      obtain ⟨s₁, hs₁, -⟩ := a.collect h.toControl d hc
      exact ⟨s₁, hs₁⟩
  | storeSyncData t' =>
      obtain ⟨rfl, -, -, hk⟩ := hperforms
      obtain ⟨c, hc⟩ := exists_collective.2 hk
      obtain ⟨s₁, hs₁, -⟩ := a.storeSyncData h.toControl d hc
      exact ⟨s₁, hs₁⟩
  | clearSyncData t' => exact ⟨_, hstep⟩
  | transform t' j' k' =>
      obtain ⟨rfl, rfl, rfl, rfl, -, c, hc, -⟩ := hperforms
      obtain ⟨s₁, hs₁, -⟩ := a.transform h.toControl d hc
      exact ⟨s₁, hs₁⟩
  | synchronizeBroadcast t' =>
      obtain ⟨rfl, -, hk⟩ := hperforms
      change k < sq.rounds j at hk
      have hbefore : sq.before ⟨.synchronizeBroadcast t', j, k⟩
          ⟨.store .taskProcessed t', j, 0⟩ :=
        .inr ⟨rfl, by simp [slot, Slot.before]; omega⟩
      simp only [exec, htask (by simp) hbefore] at hstep
      exact ⟨_, hstep⟩
  | broadcast t' i =>
      obtain ⟨rfl, -, hk⟩ := hperforms
      obtain ⟨c, hc⟩ := exists_collective.2 hk
      obtain ⟨s₁, hs₁, -⟩ := a.broadcast h.toControl d hc
      exact ⟨s₁, hs₁⟩
  | leave t' j' k' =>
      obtain ⟨rfl, rfl, rfl, -⟩ := hperforms
      obtain ⟨s₁, hs₁, -⟩ := a.leave h.toControl d
      exact ⟨s₁, hs₁⟩

/-- The controlling thread at its first pending event succeeds unless it waits. -/
theorem Head.exists_next_controller (a : sq.Head s rem .controller e later ops)
    (h : sq.Inv s rem) (hguard : e.op.Guard s) :
    ∃ s₁, step sq.toConfig s .controller = .next s₁ := by
  obtain ⟨-, hcontrols⟩ := a.controls h.toControl
  have hstep := a.step_eq
  obtain ⟨op, j, k⟩ := e
  cases op with
  | wait σ i => exact ⟨_, hstep.trans (if_pos hguard)⟩
  | load σ i =>
      refine ⟨_, hstep.trans (if_neg ?_)⟩
      simp [a.signal_eq_false h.toControl]
  | fork i =>
      refine ⟨_, hstep.trans (if_neg ?_)⟩
      simp [a.haveThreadHandle_fork h]
  | join i =>
      exact ⟨_, hstep.trans ((if_pos (a.haveThreadHandle_join h)).trans (if_pos hguard))⟩
  | run j' =>
      simp only [exec] at hstep
      split at hstep <;> exact ⟨_, hstep⟩
  | forkRoot j' =>
      simp only [exec] at hstep
      split at hstep <;> exact ⟨_, hstep⟩
  | _ => first | exact ⟨_, hstep⟩ | exact absurd hcontrols id

theorem Head.exists_next (a : sq.Head s rem θ e later ops) (h : sq.Inv s rem) (d : sq.Data s rem)
    (hguard : e.op.Guard s) : ∃ s₁, step sq.toConfig s θ = .next s₁ := by
  cases θ with
  | controller => exact a.exists_next_controller h hguard
  | worker t => exact a.exists_next_worker h d hguard

/-- A step whose guard fails is blocked. -/
theorem Head.blocked (a : sq.Head s rem θ e later ops) (h : sq.Inv s rem)
    (hguard : ¬ e.op.Guard s) : step sq.toConfig s θ = .blocked := by
  have hstep := a.step_eq
  obtain ⟨op, j, k⟩ := e
  cases op with
  | wait σ i => exact hstep.trans (if_neg hguard)
  | join i => exact hstep.trans ((if_pos (a.haveThreadHandle_join h)).trans (if_neg hguard))
  | _ => exact absurd trivial hguard

theorem Inv.not_fault (h : sq.Inv s rem) (d : sq.Data s rem) (θ : Thread) (f : Fault) :
    step sq.toConfig s θ ≠ .fault f := by
  intro hfault
  cases hcode : s.code θ with
  | nil =>
      rw [step, hcode] at hfault
      cases hfault
  | cons op ops =>
      obtain ⟨e, later, -, a⟩ := h.exists_head hcode (by simp [hfault])
      by_cases hguard : e.op.Guard s
      · obtain ⟨s₁, hs₁⟩ := a.exists_next h d hguard
        rw [hs₁] at hfault
        cases hfault
      · rw [a.blocked h hguard] at hfault
        cases hfault

end Squad

end Patton.ThreadSquad
