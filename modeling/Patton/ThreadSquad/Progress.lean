import Patton.ThreadSquad.Checks

/-!
# No reachable state is a deadlock

Waiting follows the tree: upwards in the stages that hand something down,
downwards in those that hand something up. So the least pending event, the stages
of a run being compared first, can be taken.
-/

namespace Patton.ThreadSquad

open Calls

variable {V : Type}

namespace Squad

variable {sq : Squad V} {s s' : State V} {rem : Thread → List Event} {θ : Thread}
  {e : Event} {later : List Event} {ops : List Op} {t i j k : ℕ}

/-- The code of a forked thread starts with its first pending event. -/
theorem Control.exists_head_of_rem (h : sq.Control s rem) (hrem : rem θ = e :: later)
    (hborn : ∀ t, θ = .worker t → ¬ sq.ForkPending rem t) :
    ∃ ops, sq.Head s rem θ e later ops := by
  cases θ with
  | controller =>
      have hctl := h.controller
      rw [hrem, List.map_cons] at hctl
      obtain ⟨ops, hops⟩ := hctl.eq_cons
      exact ⟨ops, hops, hrem, hborn⟩
  | worker t =>
      cases h.worker t with
      | unborn hpending => exact absurd hpending (hborn t rfl)
      | busy j earlier later' now _ _ _ hlast hnow hunf =>
          cases now with
          | nil =>
              rw [hlast rfl, hrem] at hnow
              cases hnow
          | cons e' now =>
              rw [hrem, List.cons_append, List.cons.injEq] at hnow
              obtain ⟨rfl, -⟩ := hnow
              obtain ⟨ops, hops⟩ := hunf.eq_cons
              exact ⟨ops, hops, hrem, hborn⟩
      | idle _ _ _ _ hnil =>
          rw [hrem] at hnil
          cases hnil
      | gone _ _ hnil =>
          rw [hrem] at hnil
          cases hnil

variable (sq) in
def stage (e : Event) : ℕ := (sq.slot e.run e.round e.op).stage

/-- The position of a thread in the tree, the controlling thread being the root. -/
def depth : Thread → ℕ
  | .controller => 0
  | .worker t => t + 1

variable (sq) in
/-- The order in which pending events are looked at: by run and stage, and within
a stage from the root down if the stage hands something down, and upwards else. -/
def rank (θ : Thread) (e : Event) : ℕ ×ₗ ℕ ×ₗ ℕ :=
  toLex (e.run, toLex (sq.stage e,
    if sq.stage e % 2 = 1 then depth θ else sq.numThreads + 1 - depth θ))

/-- A thread is not past any of its pending events. -/
theorem Control.rank_le (h : sq.Control s rem) (hrem : rem θ = e :: later) {x : Event}
    (hx : x ∈ rem θ) : sq.rank θ e ≤ sq.rank θ x := by
  have hnot : ¬ sq.before x e := fun hxe => h.not_mem_of_before_head hrem hxe hx
  simp only [before, Slot.before, not_or, not_and] at hnot
  simp only [rank, Prod.Lex.toLex_le_toLex]
  rcases (not_lt.1 hnot.1).lt_or_eq with hlt | heq
  · exact .inl hlt
  · refine .inr ⟨heq, ?_⟩
    rcases (not_lt.1 (hnot.2 heq.symm).1).lt_or_eq with hlt | heq'
    · exact .inl hlt
    · have hstage : sq.stage e = sq.stage x := heq'
      exact .inr ⟨hstage, by rw [hstage]⟩

/-- In a stage that hands something down, a superordinate thread comes first. -/
theorem rank_lt_of_parent {x : Event} (hrun : x.run = e.run) (hstage : sq.stage x = sq.stage e)
    (hodd : sq.stage e % 2 = 1) : sq.rank (sq.parentThread t) x < sq.rank (.worker t) e := by
  have hdepth : depth (sq.parentThread t) < depth (.worker t) := by
    rcases Nat.eq_zero_or_pos t with rfl | hpos
    · rw [parentThread_zero]
      simp [depth]
    · rw [parentThread_of_pos hpos]
      have := sq.parent_lt hpos
      simpa [depth] using this
  rw [rank, rank, hrun, hstage, if_pos hodd, if_pos hodd]
  exact Prod.Lex.toLex_lt_toLex.2 (.inr ⟨rfl, Prod.Lex.toLex_lt_toLex.2 (.inr ⟨rfl, hdepth⟩)⟩)

/-- In a stage that hands something up, a subthread comes first. -/
theorem rank_lt_of_child {x : Event} (ht : t < sq.numThreads) (hrun : x.run = e.run)
    (hstage : sq.stage x = sq.stage e) (heven : sq.stage e % 2 ≠ 1) :
    sq.rank (.worker t) x < sq.rank (sq.parentThread t) e := by
  have hdepth : sq.numThreads + 1 - depth (.worker t) <
      sq.numThreads + 1 - depth (sq.parentThread t) := by
    rcases Nat.eq_zero_or_pos t with rfl | hpos
    · rw [parentThread_zero]
      simp [depth]
    · rw [parentThread_of_pos hpos]
      have := sq.parent_lt hpos
      simp only [depth]
      omega
  rw [rank, rank, hrun, hstage, if_neg heven, if_neg heven]
  exact Prod.Lex.toLex_lt_toLex.2 (.inr ⟨rfl, Prod.Lex.toLex_lt_toLex.2 (.inr ⟨rfl, hdepth⟩)⟩)

theorem lt_numThreads_of_mem_runs (h : j ∈ sq.runs t) : t < sq.numThreads :=
  (sq.mem_runs.1 h).2.2.trans_le (sq.numThreadsFor_le j)

/-- A thread that waits, waits for a thread with a pending event of lower rank. -/
theorem Head.exists_lower (a : sq.Head s rem θ e later ops) (h : sq.Inv s rem)
    (hguard : ¬ e.op.Guard s) : ∃ θ' x, x ∈ rem θ' ∧ sq.rank θ' x < sq.rank θ e := by
  have hscript := a.mem_script h.toControl
  obtain ⟨op, j, k⟩ := e
  cases op with
  | wait σ i =>
      have hflag : s.signal σ i = false := Bool.eq_false_iff.2 hguard
      have hrequest : ∀ ch : Channel, σ = ch.request → θ = sq.responder i ch := by
        rintro ch rfl
        have hr : ch.asResponse i ⟨.wait ch.request i, j, k⟩ = some (.awaitRequest (j, k)) := by
          simp [Channel.asResponse]
        exact eq_responder hscript hr
      have hanswer : ∀ ch : Channel, σ = ch.answer → θ = sq.requester i ch := by
        rintro ch rfl
        have hr : ch.asRequest i ⟨.wait ch.answer i, j, k⟩ = some (.awaitAnswer (j, k)) := by
          simp [Channel.asRequest]
        exact eq_requester hscript hr
      cases σ with
      | taskAvailable =>
          obtain rfl := hrequest .task rfl
          have hmem := h.request_of_blocked .task a.rem_eq hflag
          refine ⟨sq.parentThread i, _, hmem, rank_lt_of_parent rfl rfl ?_⟩
          simp [stage, slot]
      | taskProcessed =>
          obtain rfl := hanswer .task rfl
          have hmem := h.answer_of_blocked .task a.rem_eq hflag
          obtain ⟨hrun, -⟩ := mem_script_worker.1 (h.mem_script hmem)
          refine ⟨.worker i, _, hmem,
            rank_lt_of_child (lt_numThreads_of_mem_runs hrun) rfl rfl ?_⟩
          simp [stage, slot]
      | collecting =>
          obtain rfl := hrequest .sync rfl
          have hmem := h.request_of_blocked .sync a.rem_eq hflag
          obtain ⟨hrun, -⟩ := mem_script_worker.1 (h.mem_script hmem)
          refine ⟨.worker i, _, hmem,
            rank_lt_of_child (lt_numThreads_of_mem_runs hrun) rfl rfl ?_⟩
          simp [stage, slot]
      | broadcasting =>
          obtain rfl := hanswer .sync rfl
          have hmem := h.answer_of_blocked .sync a.rem_eq hflag
          refine ⟨sq.parentThread i, _, hmem, rank_lt_of_parent rfl rfl ?_⟩
          simp [stage, slot]
  | join i =>
      obtain ⟨rfl, hjoin, hrun, rfl⟩ := parentThread_of_join hscript
      have hmem : ⟨.exit i, j, 0⟩ ∈ rem (.worker i) := by
        by_contra hdone
        exact hguard ((h.exited i).2 ⟨j, mem_script_worker.2 ⟨hrun, rfl, hjoin, rfl⟩, hdone⟩)
      refine ⟨.worker i, _, hmem, rank_lt_of_child (lt_numThreads_of_mem_runs hrun) rfl rfl ?_⟩
      simp [stage, slot]
  | _ => exact absurd trivial hguard

theorem stage_pos (he : e ∈ sq.script (.worker t)) : 1 ≤ sq.stage e := by
  obtain ⟨op, j, k⟩ := e
  have hperforms := (mem_script_worker.1 he).2
  cases op with
  | wait σ i => cases σ <;> simp [stage, slot]
  | reset σ i => cases σ <;> simp [stage, slot]
  | load σ i => cases σ <;> simp [stage, slot]
  | store σ i => cases σ <;> simp [stage, slot]
  | _ => first | exact absurd hperforms id | simp [stage, slot]

/-- A worker that is not forked waits for a thread with a pending event of lower
rank. -/
theorem Control.exists_lower_of_forkPending (h : sq.Control s rem)
    (hpending : sq.ForkPending rem t) (hrem : rem (.worker t) = e :: later) :
    ∃ θ' x, x ∈ rem θ' ∧ sq.rank θ' x < sq.rank (.worker t) e := by
  obtain ⟨j, hmem⟩ := hpending
  obtain ⟨-, hf, -, -⟩ := parentThread_of_fork (Control.mem_script h hmem)
  have he : e ∈ sq.script (.worker t) := by
    refine Control.mem_script h ?_
    rw [hrem]
    exact List.mem_cons_self
  have hge : j ≤ e.run := by
    by_contra hlt
    exact not_haveWork_of_lt_first hf (not_le.1 hlt)
      (sq.mem_runs.1 (Squad.mem_script.1 he).1).2.1
  have hfork : sq.stage ⟨.fork t, j, 0⟩ = 1 := rfl
  refine ⟨_, _, hmem, ?_⟩
  rcases hge.lt_or_eq with hlt | heq
  · exact Prod.Lex.toLex_lt_toLex.2 (.inl hlt)
  rcases (stage_pos he).lt_or_eq with hlt | hstage
  · exact Prod.Lex.toLex_lt_toLex.2 (.inr ⟨heq, Prod.Lex.toLex_lt_toLex.2 (.inl hlt)⟩)
  · exact rank_lt_of_parent heq (hfork.trans hstage) (by rw [← hstage])

/-- As long as a thread has pending events, some thread can take a step. -/
theorem Inv.exists_next (h : sq.Inv s rem) (d : sq.Data s rem) (hrem : rem θ = e :: later) :
    ∃ θ' s', step sq.toConfig s θ' = .next s' := by
  generalize hr : sq.rank θ e = r
  induction r using WellFoundedLT.induction generalizing θ e later with
  | ind r ih =>
    by_contra hstuck
    have hlower : ∃ θ' x, x ∈ rem θ' ∧ sq.rank θ' x < sq.rank θ e := by
      by_cases hborn : ∀ t, θ = .worker t → ¬ sq.ForkPending rem t
      · obtain ⟨ops, a⟩ := h.exists_head_of_rem hrem hborn
        refine a.exists_lower h fun hguard => hstuck ?_
        obtain ⟨s₁, hs₁⟩ := a.exists_next h d hguard
        exact ⟨θ, s₁, hs₁⟩
      · push Not at hborn
        obtain ⟨t, rfl, hpending⟩ := hborn
        exact h.exists_lower_of_forkPending hpending hrem
    obtain ⟨θ', x, hx, hlt⟩ := hlower
    cases hrem' : rem θ' with
    | nil =>
        rw [hrem'] at hx
        cases hx
    | cons e' later' =>
        exact hstuck (ih _ (((h.rank_le hrem' hx).trans_lt hlt).trans_eq hr) hrem' rfl)

end Squad

end Patton.ThreadSquad
