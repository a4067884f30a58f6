import Patton.ThreadSquad.Collectives

/-!
# transform_reduce

The results of a `transform_reduce` are merged in place while the workers complete
the task. When `run` returns, slot `0` holds all of them in the order of the
indices, and the tree along which they are combined is the one of the collectives:
it depends on the size of the squad and the concurrency only.
-/

namespace Patton.ThreadSquad

open Bracketing

variable {V : Type}

/-- What `transform_reduce` returns when its run has returned. -/
def transformReduce (cfg : Config V) (s : State V) (j : ℕ) (init : V) (reduceOp : V → V → V) :
    Option V :=
  if (cfg.task j).concurrency ≠ 0 then (s.subthreadData j 0).map (reduceOp init) else some init

/-- What `transform_reduce_first` returns when its run has returned. -/
def transformReduceFirst (s : State V) (j : ℕ) : Option V := s.subthreadData j 0

namespace Squad

variable {sq : Squad V} {s s' : State V} {rem : Thread → List Event} {θ : Thread}
  {e : Event} {later : List Event} {ops : List Op} {t i j k : ℕ} {op : Op}
  {tr : List (Thread × Op)} {c : Collective V}

theorem eq_of_merge (he : e ∈ sq.script θ) (hop : e.op = .merge j t i) :
    θ = .worker t ∧ e = ⟨.merge j t i, j, 0⟩ ∧ sq.Child (sq.task j).concurrency t i := by
  obtain ⟨op, j', k⟩ := e
  obtain rfl : op = .merge j t i := hop
  cases θ with
  | controller => exact absurd (mem_script_controller.1 he).2 id
  | worker t' =>
      obtain ⟨-, rfl, rfl, hi, rfl⟩ := mem_script_worker.1 he
      exact ⟨rfl, rfl, hi⟩

theorem unique_merge (j t i : ℕ) : sq.Unique (.merge j t i) := by
  intro θ e θ' e' he he' hop hop'
  obtain ⟨rfl, rfl, -⟩ := eq_of_merge he hop
  obtain ⟨rfl, rfl, -⟩ := eq_of_merge he' hop'
  exact ⟨rfl, rfl⟩

theorem merge_mem_script (hi : sq.Child (sq.task j).concurrency t i) :
    ⟨.merge j t i, j, 0⟩ ∈ sq.script (.worker t) :=
  mem_script_worker.2 ⟨mem_runs_of_lt hi.lt, rfl, rfl, hi, rfl⟩

theorem History.mem_of_done (hh : sq.History tr rem) (he : e ∈ sq.script θ)
    (hdone : e ∉ rem θ) : (θ, e.op) ∈ tr :=
  hh.mem_iff.2 ⟨e, he, hdone, rfl⟩

theorem storeResult_mem_script (ht : t < (sq.task j).concurrency)
    (hkind : (sq.task j).kind.isTransformReduce) :
    ⟨.storeResult t j, j, 0⟩ ∈ sq.script (.worker t) :=
  mem_script_worker.2 ⟨mem_runs_of_lt ht, rfl, rfl, ht, hkind, rfl⟩

/-- What a worker does before it signals completion is done when `run` returns. -/
theorem Control.done_of_released (h : sq.Control s rem)
    (hdone : ⟨.releaseTask, j, 0⟩ ∉ rem .controller) {x : Event} (hrun : x.run = j)
    (hx : (sq.slot j x.round x.op).stage < 2 * sq.rounds j + 2 ∨
      (sq.slot j x.round x.op).stage = 2 * sq.rounds j + 2 ∧
        (sq.slot j x.round x.op).sub < 2) : x ∉ rem (.worker t) := by
  subst hrun
  refine h.not_mem_of_released hdone rfl (.inr ⟨rfl, ?_⟩)
  simp only [slot, Slot.before] at hx ⊢
  omega

/-- When the run is over, a participant has the results of all collectives. -/
theorem Data.results_of_released (d : sq.Data s rem) (h : sq.Control s rem)
    (hdone : ⟨.releaseTask, j, 0⟩ ∉ rem .controller) (ht : t < (sq.task j).concurrency) :
    s.results t j = sq.returned j (sq.rounds j) := by
  refine d.results t j _ ht le_rfl fun k hk => ?_
  have hleave : ⟨.leave t j k, j, k⟩ ∉ rem (.worker t) := by
    refine h.done_of_released hdone rfl (.inl ?_)
    simp only [Squad.slot]
    omega
  simp only [hleave, false_iff, not_le]
  exact hk

/-- When the run is over, slot `0` holds the results of all participants. -/
theorem Data.slot_zero_of_released (d : sq.Data s rem) (h : sq.Control s rem)
    (hdone : ⟨.releaseTask, j, 0⟩ ∉ rem .controller) (hpos : 0 < (sq.task j).concurrency)
    {transform : ℕ → List (Option V) → V} {op : V → V → V}
    (hkind : (sq.task j).kind = .transformReduce transform op) :
    s.subthreadData j 0 = some (sq.total (sq.task j).concurrency op
      fun i => transform i (s.results i j)) := by
  have hengaged : sq.Engaged rem 0 j :=
    ⟨hpos, h.done_of_released hdone rfl (.inr ⟨rfl, by simp [Squad.slot]⟩), fun hlt => by omega⟩
  have hall : sq.merged rem 0 j = sq.fromSubthreads 0 (sq.task j).concurrency :=
    List.filter_eq_self.2 fun i _ =>
      decide_eq_true (h.done_of_released hdone rfl (.inr ⟨rfl, by simp [Squad.slot]⟩))
  rw [(d.slot 0 j transform op hkind).1 hengaged, hall, combined_zero]
  congr 1
  refine total_congr hpos (sq.concurrency_task_le j) op fun i hi => ?_
  rw [d.results_of_released h hdone hi]

/-- When the run is over, no other slot is engaged. -/
theorem Data.slot_of_released (d : sq.Data s rem) (h : sq.Control s rem)
    (hdone : ⟨.releaseTask, j, 0⟩ ∉ rem .controller)
    {transform : ℕ → List (Option V) → V} {op : V → V → V}
    (hkind : (sq.task j).kind = .transformReduce transform op) (hpos : 0 < i) :
    s.subthreadData j i = none := by
  refine (d.slot i j transform op hkind).2 ?_
  rintro ⟨-, -, hmerge⟩
  exact h.done_of_released hdone rfl (.inr ⟨rfl, by simp [Squad.slot]⟩) (hmerge hpos)

/-- A run of `transform_reduce` combines the results of the participants along the
bracketing of the squad. -/
theorem exec_transformReduce (h : Exec sq.toConfig tr s) (hret : (.controller, .ret j) ∈ tr)
    (hpos : 0 < (sq.task j).concurrency) {transform : ℕ → List (Option V) → V} {op : V → V → V}
    (hkind : (sq.task j).kind = .transformReduce transform op) :
    s.subthreadData j 0 = some (sq.total (sq.task j).concurrency op
      fun i => transform i (s.results i j)) := by
  obtain ⟨rem, hinv, hdata, hh⟩ := exec_inv h
  exact hdata.slot_zero_of_released hinv.toControl (hh.released hinv.toControl hret) hpos hkind

/-- `transform_reduce` returns the results of the participants in the order of their
indices, and `transform_reduce_first` does. Every slot but the first is merged once,
into the slot of its superordinate worker and after everything has been merged into
it; every merge finds both slots engaged, and in the end only slot `0` is. -/
theorem transformReduce_ordered (h : Exec sq.toConfig tr s)
    {transform : ℕ → List (Option V) → V} {reduceOp : V → V → V}
    (hkind : (sq.task j).kind = .transformReduce transform reduceOp)
    (hpos : 0 < (sq.task j).concurrency) :
    (∀ t i ops, s.code (.worker t) = .merge j t i :: ops →
      (s.subthreadData j t).isSome ∧ (s.subthreadData j i).isSome) ∧
    (∀ tr₁ tr₂ t i, tr = tr₁ ++ (.worker t, .merge j t i) :: tr₂ →
      (.worker i, .storeResult i j) ∈ tr₁ ∧
        ∀ i', sq.Child (sq.task j).concurrency i i' → (.worker i, .merge j i i') ∈ tr₁) ∧
    ((.controller, .ret j) ∈ tr →
      (∀ i, 0 < i → i < (sq.task j).concurrency → sq.parent i ≠ i ∧
        (tr.map Prod.snd).count (.merge j (sq.parent i) i) = 1 ∧
        ∀ t ≠ sq.parent i, .merge j t i ∉ tr.map Prod.snd) ∧
      (∀ i, (s.subthreadData j i).isSome ↔ i = 0) ∧
      (Std.Associative reduceOp →
        transformReduceFirst s j = orderedFold reduceOp (fun i => transform i (s.results i j))
          (List.range (sq.task j).concurrency) ∧
        ∀ init, transformReduce sq.toConfig s j init reduceOp =
          some (((List.range (sq.task j).concurrency).map
            fun i => transform i (s.results i j)).foldl reduceOp init))) := by
  have hmerge : ∀ {t i op ops} {s : State V} {tr}, Exec sq.toConfig tr s →
      s.code (.worker t) = op :: ops → op = .merge j t i → ∃ rem later,
        sq.Inv s rem ∧ sq.Data s rem ∧ sq.History tr rem ∧
          sq.Head s rem (.worker t) ⟨.merge j t i, j, 0⟩ later ops := by
    rintro t i op ops s tr h hcode rfl
    have hstep : step sq.toConfig s (.worker t) ≠ .blocked := by
      rw [step, hcode]
      exact exec_ne_blocked rfl _ _ _
    obtain ⟨rem, e, later, hinv, hdata, hh, hop, a⟩ := exec_head h hcode hstep
    obtain ⟨-, rfl, -⟩ := eq_of_merge (a.mem_script hinv.toControl) hop
    exact ⟨rem, later, hinv, hdata, hh, a⟩
  refine ⟨fun t i ops hcode => ?_, fun tr₁ tr₂ t i htr => ?_, fun hret => ⟨fun i hi hlt => ?_, ?_,
    fun hassoc => ⟨?_, fun init => ?_⟩⟩⟩
  · obtain ⟨rem, later, hinv, hdata, -, a⟩ := hmerge h hcode rfl
    obtain ⟨_, -, hslots⟩ := a.merge hinv hdata
    obtain ⟨hown, hchild, -⟩ := hslots transform reduceOp hkind
    rw [(hdata.slot t j transform reduceOp hkind).1 hown,
      (hdata.slot i j transform reduceOp hkind).1 hchild]
    exact ⟨rfl, rfl⟩
  · subst htr
    obtain ⟨s₁, -, ops, h₁, hcode, -, -⟩ := exec_split h
    obtain ⟨rem, later, hinv, hdata, hh, a⟩ := hmerge h₁ hcode rfl
    obtain ⟨_, -, hslots⟩ := a.merge hinv hdata
    obtain ⟨-, ⟨hi, hstored, -⟩, hall, -⟩ := hslots transform reduceOp hkind
    refine ⟨hh.mem_of_done (storeResult_mem_script hi (by simp [hkind, TaskKind.isTransformReduce]))
      hstored, fun i' hi' => ?_⟩
    refine hh.mem_of_done (merge_mem_script hi') ?_
    have hmem : i' ∈ sq.merged rem i j := by
      rw [hall]
      exact (sq.mem_fromSubthreads (sq.concurrency_task_le j)).2 hi'
    simpa using (List.mem_filter.1 hmem).2
  all_goals obtain ⟨rem, hinv, hdata, hh⟩ := exec_inv h
  · have hchild : sq.Child (sq.task j).concurrency (sq.parent i) i := child_parent hi hlt
    have hreleased := hh.released hinv.toControl hret
    refine ⟨(sq.parent_lt hi).ne, hh.count_eq_one (unique_merge j _ i) (hh.mem_of_done
      (merge_mem_script hchild) (hinv.done_of_released hreleased rfl
        (.inr ⟨rfl, by simp [slot]⟩))), fun t ht hmem => ?_⟩
    obtain ⟨⟨θ, op⟩, hmem, hop⟩ := List.mem_map.1 hmem
    obtain ⟨e, he, -, hop'⟩ := hh.mem_iff.1 hmem
    exact ht (eq_of_merge he (hop'.trans hop)).2.2.2.2.symm
  · intro i
    rcases Nat.eq_zero_or_pos i with rfl | hi
    · simp [exec_transformReduce h hret hpos hkind]
    · simp [hdata.slot_of_released hinv.toControl (hh.released hinv.toControl hret) hkind hi,
        hi.ne']
  · rw [transformReduceFirst, exec_transformReduce h hret hpos hkind,
      orderedFold_range hpos (sq.concurrency_task_le j)]
  · rw [transformReduce, if_pos (by omega), exec_transformReduce h hret hpos hkind,
      Option.map_some, foldl_eq_of_orderedFold reduceOp _
        (orderedFold_range hpos (sq.concurrency_task_le j) reduceOp _) init]

theorem pair_transformReduce : ∃ tr s, Exec pairSquad.toConfig tr s ∧
    transformReduceFirst s 0 = some 10 ∧
      transformReduce pairSquad.toConfig s 0 5 (· + ·) = some 15 := by
  obtain ⟨tr, s, h, hret, -⟩ := exists_pair_exec
  have hkind : (pairSquad.task 0).kind = .transformReduce (fun t _ => 10 * t) (· + ·) := rfl
  obtain ⟨-, -, hrun⟩ := transformReduce_ordered h hkind (by decide)
  obtain ⟨-, -, hfold⟩ := hrun hret
  obtain ⟨hfirst, hinit⟩ := hfold ⟨Nat.add_assoc⟩
  exact ⟨tr, s, h, hfirst, hinit 5⟩

/-- The expression tree in which the values of the participants are combined depends
on the size of the squad and the concurrency only. It is the same for every
schedule, every run, and for `reduce`, `reduce_transform` and `transform_reduce`. -/
theorem reproducible_bracketing (n c : ℕ) : ∃ tree : FreeMagma ℕ,
    ∀ (V : Type) (sq : Squad V) (tr : List (Thread × Op)) (s : State V) (j : ℕ),
      sq.numThreads = n → (sq.task j).concurrency = c → 0 < c → Exec sq.toConfig tr s →
      leaves tree = List.range c ∧
      (∀ t k value op, (sq.task j).collectives[k]? = some (.reduce value op) →
        (.worker t, .leave t j k) ∈ tr →
        (s.results t j)[k]? = some (some (eval op (passed s j k value) tree))) ∧
      (∀ t k value op f, (sq.task j).collectives[k]? = some (.reduceTransform value op f) →
        (.worker t, .leave t j k) ∈ tr →
        (s.results t j)[k]? = some (some (f (eval op (passed s j k value) tree)))) ∧
      ∀ transform op, (sq.task j).kind = .transformReduce transform op →
        (.controller, .ret j) ∈ tr →
        transformReduceFirst s j = some (eval op (fun i => transform i (s.results i j)) tree) := by
  refine ⟨bracketing n c 0, fun V sq tr s j hn hc hpos h => ?_⟩
  subst hn hc
  exact ⟨sq.leaves_bracketing_zero (sq.concurrency_task_le j) hpos,
    fun t k value op hc hleave => exec_reduce h hleave hc,
    fun t k value op f hc hleave => exec_reduceTransform h hleave hc,
    fun transform op hkind hret => exec_transformReduce h hret hpos hkind⟩

theorem pair_reproducible_bracketing : ∃ (tree : FreeMagma ℕ) (tr : List (Thread × Op))
    (s : State ℕ), Exec pairSquad.toConfig tr s ∧
      (s.results 1 0)[0]? = some (some (eval (· + ·) (fun t => t + 1) tree)) ∧
      transformReduceFirst s 0 = some (eval (· + ·) (fun t => 10 * t) tree) := by
  obtain ⟨tree, htree⟩ := reproducible_bracketing 2 2
  obtain ⟨tr, s, h, hret, -⟩ := exists_pair_exec
  obtain ⟨-, hreduce, -, hmerge⟩ := htree ℕ pairSquad tr s 0 rfl rfl (by decide) h
  obtain ⟨rem, hinv, -, hh⟩ := exec_inv h
  have hscript : ⟨.leave 1 0 0, 0, 0⟩ ∈ pairSquad.script (.worker 1) :=
    leave_mem_script (by decide) (by decide)
  have hleave : (.worker 1, .leave 1 0 0) ∈ tr := by
    refine hh.mem_of_done hscript ?_
    exact hinv.done_of_released (hh.released hinv.toControl hret) rfl (.inl (by decide))
  exact ⟨tree, tr, s, h, hreduce 1 0 _ _ rfl hleave, hmerge _ _ rfl hret⟩

end Squad

end Patton.ThreadSquad
