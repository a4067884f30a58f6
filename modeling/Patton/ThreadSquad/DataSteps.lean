import Patton.ThreadSquad.Access

/-!
# The steps that move data

Under the invariant, a step that reads or writes a synchronizer or a slot finds
the data there, and what it writes is the next value of the bracketing.
-/

namespace Patton.ThreadSquad

open Bracketing

variable {V : Type}

namespace Squad

variable {sq : Squad V} {s s' : State V} {rem rem' : Thread → List Event} {θ : Thread}
  {e : Event} {later : List Event} {ops : List Op} {t i j k m : ℕ} {c : Collective V}

theorem Head.step_eq (a : sq.Head s rem θ e later ops) :
    step sq.toConfig s θ =
      exec sq.toConfig { s with code := Function.update s.code θ ops } θ e.op := by
  simp only [step, a.code]

theorem Head.results_eq (a : sq.Head s rem (.worker t) e later ops) (h : sq.Control s rem)
    (d : sq.Data s rem) (ht : t < (sq.task j).concurrency) (hm : m ≤ sq.rounds j)
    (hdone : ∀ k < m, sq.before ⟨.leave t j k, j, k⟩ e)
    (hpending : ∀ k, m ≤ k → e = ⟨.leave t j k, j, k⟩ ∨ sq.before e ⟨.leave t j k, j, k⟩) :
    s.results t j = sq.returned j m := by
  refine d.results t j m ht hm fun k hk => ⟨fun hmem => ?_, fun hmk => ?_⟩
  · by_contra hlt
    exact a.not_mem_of_before h (hdone k (not_le.1 hlt)) hmem
  · rcases hpending k hmk with rfl | hbefore
    · exact a.head_mem
    · exact a.mem_of_before h
        (mem_script_worker.2 ⟨mem_runs_of_lt ht, rfl, rfl, rfl, ht, hk⟩) hbefore

/-- In collective `k` the earlier collectives have returned. -/
theorem Head.results_enter (a : sq.Head s rem (.worker t) ⟨.enter t j k, j, k⟩ later ops)
    (h : sq.Control s rem) (d : sq.Data s rem) : s.results t j = sq.returned j k := by
  obtain ⟨-, -, -, -, ht, hk⟩ := a.mem_runs h
  refine a.results_eq h d ht hk.le (fun k' hk' => .inr ⟨rfl, ?_⟩)
    fun k' hk' => .inr (.inr ⟨rfl, ?_⟩)
  all_goals
    simp [slot, Slot.before]
    omega

theorem Head.results_leave (a : sq.Head s rem (.worker t) ⟨.leave t j k, j, k⟩ later ops)
    (h : sq.Control s rem) (d : sq.Data s rem) : s.results t j = sq.returned j k := by
  obtain ⟨-, -, -, -, ht, hk⟩ := a.mem_runs h
  refine a.results_eq h d ht hk.le (fun k' hk' => .inr ⟨rfl, ?_⟩) fun k' hk' => ?_
  · simp [slot, Slot.before]
    omega
  · rcases hk'.eq_or_lt with rfl | hlt
    · exact .inl rfl
    · refine .inr (.inr ⟨rfl, ?_⟩)
      simp [slot, Slot.before]
      omega

theorem Head.results_storeResult (a : sq.Head s rem (.worker t) ⟨.storeResult t j, j, 0⟩ later ops)
    (h : sq.Control s rem) (d : sq.Data s rem) : s.results t j = sq.returned j (sq.rounds j) := by
  obtain ⟨-, -, -, ht, -⟩ := a.mem_runs h
  refine d.results t j _ ht le_rfl fun k hk => iff_of_false ?_ (by omega)
  refine a.not_mem_of_before h (.inr ⟨rfl, ?_⟩)
  simp [slot, Slot.before]
  omega

theorem Head.enter (a : sq.Head s rem (.worker t) ⟨.enter t j k, j, k⟩ later ops)
    (h : sq.Control s rem) (d : sq.Data s rem) (hc : (sq.task j).collectives[k]? = some c) :
    ∃ s₁, step sq.toConfig s (.worker t) = .next s₁ ∧
      s₁.synchronizer t = some ⟨j, k, c, sq.syncState t j k [] false c⟩ := by
  rw [a.step_eq]
  simp only [exec, hc]
  refine ⟨_, rfl, ?_⟩
  rw [State.setSynchronizer_self, a.results_enter h d, initialData_eq]

theorem Head.synchronizer_eq (a : sq.Head s rem (.worker t) e later ops)
    (h : sq.Control s rem) (d : sq.Data s rem) (ht : t < (sq.task j).concurrency)
    (hc : (sq.task j).collectives[k]? = some c) (henter : sq.before ⟨.enter t j k, j, k⟩ e)
    (hcollecting : sq.before e ⟨.store .collecting t, j, k⟩)
    (htransform : sq.before e ⟨.transform t j k, j, k⟩)
    (hleave : sq.before e ⟨.leave t j k, j, k⟩) :
    s.synchronizer t =
      some ⟨j, k, c, sq.syncState t j k (sq.collected rem t j k) false c⟩ := by
  rw [d.synchronizer t j k c hc
    (a.inside h ht (exists_collective.1 ⟨c, hc⟩) henter (.inr hleave)),
    a.delivered_eq_false h ht hc hcollecting htransform]

/-- The synchronizer of a worker that has collected everything and knows the
outcome. -/
theorem Head.synchronizer_eq_of_delivered (a : sq.Head s rem (.worker t) e later ops)
    (h : sq.Control s rem) (d : sq.Data s rem) (ht : t < (sq.task j).concurrency)
    (hc : (sq.task j).collectives[k]? = some c)
    (hin : sq.Inside rem t j k) (hcollect : ∀ i, sq.before ⟨.collect t i, j, k⟩ e)
    (hbroadcasting : sq.before ⟨.wait .broadcasting t, j, k⟩ e)
    (htransform : sq.before ⟨.transform t j k, j, k⟩ e) :
    s.synchronizer t = some ⟨j, k, c, sq.syncState t j k
      (sq.fromSubthreads t (sq.task j).concurrency) true c⟩ := by
  have hall : sq.collected rem t j k = sq.fromSubthreads t (sq.task j).concurrency :=
    List.filter_eq_self.2 fun i _ => decide_eq_true (a.not_mem_of_before h (hcollect i))
  rw [d.synchronizer t j k c hc hin, hall]
  rcases a.delivered_or h ht hc hbroadcasting htransform with hd | ⟨hd, rfl, hr⟩
  · rw [hd]
  · rw [hd, syncState_zero hr]

/-- The synchronizer of a subthread, and the pointer to its data, as the
superordinate worker finds them between the two halves of a collective. -/
theorem Control.synchronizer_child (h : sq.Control s rem) (d : sq.Data s rem)
    (hi : sq.Child (sq.task j).concurrency t i) (hc : (sq.task j).collectives[k]? = some c)
    (hcollecting : ⟨.wait .collecting i, j, k⟩ ∉ rem (.worker t))
    (hbroadcast : ⟨.broadcast t i, j, k⟩ ∈ rem (.worker t)) :
    s.synchronizer i = some ⟨j, k, c, sq.syncState i j k
      (sq.fromSubthreads i (sq.task j).concurrency) false c⟩ ∧
      s.syncData i = if c.hasData then some ⟨i, j, k⟩ else none := by
  have hk := exists_collective.1 ⟨c, hc⟩
  have hstore : ⟨.store .broadcasting i, j, k⟩ ∈ rem (.worker t) := by
    refine h.mem_of_before hbroadcast (mem_script_worker.2 ⟨mem_runs_of_lt hi.lt, hi, hk⟩)
      (.inr ⟨rfl, ?_⟩)
    simp [slot, Slot.before]
  obtain ⟨hin, hall, hscript, hdone, hclear⟩ := h.inside_child hi hk hcollecting hstore
  refine ⟨?_, d.syncData i j k c hc hscript hdone hclear⟩
  have hd : sq.delivered rem i j k c = false := by
    rw [delivered, if_pos hi.1, hi.2.2]
    simp [hbroadcast]
  rw [d.synchronizer i j k c hc hin, hall, hd]

/-- `collect` finds the subthread's data and adds the subthread to the workers
collected. -/
theorem Head.collect (a : sq.Head s rem (.worker t) ⟨.collect t i, j, k⟩ later ops)
    (h : sq.Control s rem) (d : sq.Data s rem) (hc : (sq.task j).collectives[k]? = some c) :
    ∃ s₁, step sq.toConfig s (.worker t) = .next s₁ ∧ s₁.synchronizer t =
      some ⟨j, k, c, sq.syncState t j k (sq.collected rem t j k ++ [i]) false c⟩ := by
  obtain ⟨hrun, -, hi, hk⟩ := a.mem_runs h
  have ht := hi.lt
  have hsync := a.synchronizer_eq h d ht hc (.inr ⟨rfl, by simp [slot, Slot.before]⟩)
    (.inr ⟨rfl, by simp [slot, Slot.before]⟩) (.inr ⟨rfl, by simp [slot, Slot.before]⟩)
    (.inr ⟨rfl, by simp [slot, Slot.before]⟩)
  have hbroadcast : ⟨.broadcast t i, j, k⟩ ∈ rem (.worker t) :=
    a.mem_of_before h (mem_script_worker.2 ⟨hrun, rfl, hi, hk⟩)
      (.inr ⟨rfl, by simp [slot, Slot.before]⟩)
  obtain ⟨hchild, hptr⟩ := h.synchronizer_child d hi hc
    (a.not_mem_of_before h (.inr ⟨rfl, by simp [slot, Slot.before]⟩)) hbroadcast
  rw [a.step_eq]
  cases c with
  | synchronize =>
      simp only [exec, hsync]
      exact ⟨_, rfl, hsync⟩
  | reduce value op =>
      have hcollect := @collect_eq _ sq t i j k (.reduce value op) rfl (sq.collected rem t j k)
      simp only [Collective.hasData, if_true] at hptr
      simp only [exec, hsync, hptr, Option.bind_some, State.deref, hchild, Option.filter_some,
        beq_self_eq_true, Bool.and_self, if_true, hcollect]
      exact ⟨_, rfl, State.setSynchronizer_self ..⟩
  | reduceTransform value op f =>
      have hcollect := @collect_eq _ sq t i j k (.reduceTransform value op f) rfl
        (sq.collected rem t j k)
      simp only [Collective.hasData, if_true] at hptr
      simp only [exec, hsync, hptr, Option.bind_some, State.deref, hchild, Option.filter_some,
        beq_self_eq_true, Bool.and_self, if_true, hcollect]
      exact ⟨_, rfl, State.setSynchronizer_self ..⟩

/-- `sync_data` of the worker's own synchronizer. -/
theorem Head.storeSyncData (a : sq.Head s rem (.worker t) ⟨.storeSyncData t, j, k⟩ later ops)
    (h : sq.Control s rem) (d : sq.Data s rem) (hc : (sq.task j).collectives[k]? = some c) :
    ∃ s₁, step sq.toConfig s (.worker t) = .next s₁ ∧
      s₁.syncData t = if c.hasData then some ⟨t, j, k⟩ else none := by
  obtain ⟨-, -, -, ht, -⟩ := a.mem_runs h
  have hsync := a.synchronizer_eq h d ht hc (.inr ⟨rfl, by simp [slot, Slot.before]⟩)
    (.inr ⟨rfl, by simp [slot, Slot.before]⟩) (.inr ⟨rfl, by simp [slot, Slot.before]⟩)
    (.inr ⟨rfl, by simp [slot, Slot.before]⟩)
  rw [a.step_eq]
  simp only [exec, hsync, syncData_eq]
  exact ⟨_, rfl, Function.update_self ..⟩

/-- `transform_func` is applied to the value of all participants. -/
theorem Head.transform (a : sq.Head s rem (.worker 0) ⟨.transform 0 j k, j, k⟩ later ops)
    (h : sq.Control s rem) (d : sq.Data s rem) (hc : (sq.task j).collectives[k]? = some c) :
    ∃ s₁, step sq.toConfig s (.worker 0) = .next s₁ ∧ s₁.synchronizer 0 = some ⟨j, k, c,
      sq.syncState 0 j k (sq.fromSubthreads 0 (sq.task j).concurrency) true c⟩ := by
  obtain ⟨-, -, -, -, -, ht, c', hc', hr⟩ := a.mem_runs h
  obtain rfl : c = c' := Option.some.inj (hc.symm.trans hc')
  have hall : sq.collected rem 0 j k = sq.fromSubthreads 0 (sq.task j).concurrency :=
    List.filter_eq_self.2 fun i _ => decide_eq_true
      (a.not_mem_of_before h (.inr ⟨rfl, by simp [slot, Slot.before]⟩))
  have hd : sq.delivered rem 0 j k c = false := by
    simp [delivered, a.head_mem]
  have hsync := d.synchronizer 0 j k c hc (a.inside h ht (exists_collective.1 ⟨c, hc⟩)
    (.inr ⟨rfl, by simp [slot, Slot.before]⟩)
    (.inr (.inr ⟨rfl, by simp [slot, Slot.before]⟩)))
  rw [hall, hd] at hsync
  rw [a.step_eq]
  cases c with
  | synchronize => cases hr
  | reduce value op => cases hr
  | reduceTransform value op f =>
      simp only [syncState] at hsync
      simp only [exec, hsync]
      refine ⟨_, rfl, ?_⟩
      rw [State.setSynchronizer_self]
      simp [syncState, combined_zero]

theorem Head.broadcast (a : sq.Head s rem (.worker t) ⟨.broadcast t i, j, k⟩ later ops)
    (h : sq.Control s rem) (d : sq.Data s rem) (hc : (sq.task j).collectives[k]? = some c) :
    ∃ s₁, step sq.toConfig s (.worker t) = .next s₁ ∧ s₁.synchronizer i = some ⟨j, k, c,
      sq.syncState i j k (sq.fromSubthreads i (sq.task j).concurrency) true c⟩ := by
  obtain ⟨-, -, hi, hk⟩ := a.mem_runs h
  have ht := hi.lt
  have hsync := a.synchronizer_eq_of_delivered h d ht hc
    (a.inside h ht hk (.inr ⟨rfl, by simp [slot, Slot.before]⟩)
      (.inr (.inr ⟨rfl, by simp [slot, Slot.before]⟩)))
    (fun i => .inr ⟨rfl, by simp [slot, Slot.before]⟩)
    (.inr ⟨rfl, by simp [slot, Slot.before]⟩) (.inr ⟨rfl, by simp [slot, Slot.before]⟩)
  obtain ⟨hchild, hptr⟩ := h.synchronizer_child d hi hc
    (a.not_mem_of_before h (.inr ⟨rfl, by simp [slot, Slot.before]⟩)) a.head_mem
  rw [a.step_eq]
  cases c with
  | synchronize =>
      simp only [exec, hsync]
      exact ⟨_, rfl, hchild⟩
  | reduce value op =>
      have hbroadcast := @broadcast_eq _ sq t i j k (.reduce value op) rfl
      simp only [Collective.hasData, if_true] at hptr
      simp only [exec, hsync, hptr, Option.bind_some, State.deref, hchild, Option.filter_some,
        beq_self_eq_true, Bool.and_self, if_true, hbroadcast]
      exact ⟨_, rfl, State.setSynchronizer_self ..⟩
  | reduceTransform value op f =>
      have hbroadcast := @broadcast_eq _ sq t i j k (.reduceTransform value op f) rfl
      simp only [Collective.hasData, if_true] at hptr
      simp only [exec, hsync, hptr, Option.bind_some, State.deref, hchild, Option.filter_some,
        beq_self_eq_true, Bool.and_self, if_true, hbroadcast]
      exact ⟨_, rfl, State.setSynchronizer_self ..⟩

theorem Head.leave (a : sq.Head s rem (.worker t) ⟨.leave t j k, j, k⟩ later ops)
    (h : sq.Control s rem) (d : sq.Data s rem) :
    ∃ s₁, step sq.toConfig s (.worker t) = .next s₁ ∧
      s₁.results t j = sq.returned j (k + 1) := by
  obtain ⟨-, -, -, -, ht, hk⟩ := a.mem_runs h
  obtain ⟨c, hc⟩ := exists_collective.2 hk
  have hsync := a.synchronizer_eq_of_delivered h d ht hc
    (a.inside h ht hk (.inr ⟨rfl, by simp [slot, Slot.before]⟩) (.inl rfl))
    (fun i => .inr ⟨rfl, by simp [slot, Slot.before]⟩)
    (.inr ⟨rfl, by simp [slot, Slot.before]⟩) (.inr ⟨rfl, by simp [slot, Slot.before]⟩)
  rw [a.step_eq]
  simp only [exec, hsync, Option.bind_some, returnValue_eq, a.results_leave h d]
  refine ⟨_, rfl, ?_⟩
  simp [State.setSynchronizer, returned_succ hc]

/-- The slot of a worker is still empty when it executes the task. -/
theorem Head.execute (a : sq.Head s rem (.worker t) ⟨.execute t j, j, 0⟩ later ops)
    (h : sq.Inv s rem) (d : sq.Data s rem) :
    ∃ s₁, step sq.toConfig s (.worker t) = .next s₁ := by
  obtain ⟨hrun, -, -, ht, -⟩ := a.mem_runs h.toControl
  have htask := a.task_eq h (by simp) (.inr ⟨rfl, by simp [slot, Slot.before]⟩)
  rw [a.step_eq]
  cases hkind : (sq.task j).kind with
  | action =>
      simp only [exec, htask, if_true, hkind]
      exact ⟨_, rfl⟩
  | transformReduce transform op =>
      have hempty : s.subthreadData j t = none := by
        refine (d.slot t j transform op hkind).2 ?_
        rintro ⟨-, hdone, -⟩
        refine hdone ?_
        refine a.mem_of_before h.toControl (mem_script_worker.2
          ⟨hrun, rfl, rfl, ht, by rw [hkind]; rfl, rfl⟩) (.inr ⟨rfl, ?_⟩)
        simp [slot, Slot.before]
      simp only [exec, htask, if_true, hkind, hempty]
      exact ⟨_, rfl⟩

/-- The result of a worker goes to its slot. -/
theorem Head.storeResult (a : sq.Head s rem (.worker t) ⟨.storeResult t j, j, 0⟩ later ops)
    (h : sq.Inv s rem) (d : sq.Data s rem) :
    ∃ s₁, step sq.toConfig s (.worker t) = .next s₁ ∧
      ∀ transform op, (sq.task j).kind = .transformReduce transform op →
        s₁.subthreadData j t = some (transform t (sq.returned j (sq.rounds j))) := by
  have htask := a.task_eq h (by simp) (.inr ⟨rfl, by simp [slot, Slot.before]⟩)
  rw [a.step_eq]
  cases hkind : (sq.task j).kind with
  | action =>
      simp only [exec, htask, if_true, hkind]
      exact ⟨_, rfl, fun _ _ hne => by cases hne⟩
  | transformReduce transform op =>
      simp only [exec, htask, if_true, hkind, a.results_storeResult h.toControl d]
      refine ⟨_, rfl, ?_⟩
      rintro transform' op' ⟨rfl, rfl⟩
      exact State.setSubthreadData_self ..

/-- `merge` finds both slots engaged, adds the slot of the subthread to the slot
of the worker and empties it. -/
theorem Head.merge (a : sq.Head s rem (.worker t) ⟨.merge j t i, j, 0⟩ later ops)
    (h : sq.Inv s rem) (d : sq.Data s rem) :
    ∃ s₁, step sq.toConfig s (.worker t) = .next s₁ ∧
      ∀ transform op, (sq.task j).kind = .transformReduce transform op →
        sq.Engaged rem t j ∧ sq.Engaged rem i j ∧
        sq.merged rem i j = sq.fromSubthreads i (sq.task j).concurrency ∧
        s₁.subthreadData j t = some (sq.combined (sq.task j).concurrency t op
          (fun t => transform t (sq.returned j (sq.rounds j))) (sq.merged rem t j ++ [i])) ∧
        s₁.subthreadData j i = none := by
  obtain ⟨hrun, -, -, hi, -⟩ := a.mem_runs h.toControl
  have ht := hi.lt
  have htask := a.task_eq h (by simp) (.inr ⟨rfl, by simp [slot, Slot.before]⟩)
  rw [a.step_eq]
  cases hkind : (sq.task j).kind with
  | action =>
      simp only [exec, htask, if_true, hkind]
      exact ⟨_, rfl, fun _ _ hne => by cases hne⟩
  | transformReduce transform op =>
      have hown : sq.Engaged rem t j := by
        refine ⟨ht, a.not_mem_of_before h.toControl (.inr ⟨rfl, by simp [slot, Slot.before]⟩),
          fun hpos => ?_⟩
        exact a.merge_pending h.toControl ht hpos (.inr ⟨rfl, by simp [slot, Slot.before]⟩)
      obtain ⟨hchild, hall⟩ := h.engaged_child hi
        (a.not_mem_of_before h.toControl (.inr ⟨rfl, by simp [slot, Slot.before]⟩)) a.head_mem
      have hne : ¬ (j = j ∧ i = t) := by
        rintro ⟨-, hit⟩
        exact absurd (sq.parent_lt hi.1) (by rw [hi.2.2, hit]; omega)
      simp only [exec, htask, if_true, hkind, (d.slot t j transform op hkind).1 hown,
        (d.slot i j transform op hkind).1 hchild, hall]
      refine ⟨_, rfl, ?_⟩
      rintro transform' op' ⟨rfl, rfl⟩
      refine ⟨hown, hchild, trivial, ?_, State.setSubthreadData_self ..⟩
      rw [State.setSubthreadData_of_ne hne, State.setSubthreadData_self, combined_append]

end Squad

end Patton.ThreadSquad
