import Patton.ThreadSquad.Advance

/-!
# The run protocol keeps its invariant

Every step keeps the invariant, so it holds in every reachable state, and the
operations which a thread has performed together with its pending events are its
script.
-/

namespace Patton.ThreadSquad

open Handshake Calls

variable {V : Type}

namespace Squad

variable {sq : Squad V} {s s' : State V} {rem rem' : Thread → List Event} {θ : Thread}
  {e : Event} {ops : List Op}

/-- A thread does not fork itself. -/
theorem spawned_self {e : Event} (he : e ∈ sq.script θ) : spawned e.op θ = [] := by
  obtain ⟨op, j, k⟩ := e
  cases op with
  | fork i =>
      cases θ with
      | controller => rfl
      | worker t =>
          obtain ⟨-, hchild, -⟩ := mem_script_worker.1 he
          exact if_neg fun hti => absurd (sq.parent_lt hchild.1) (by rw [hchild.2.2]; omega)
  | _ => rfl

/-- A worker is forked by the thread that wakes it, in the first run. -/
theorem parentThread_of_fork {i j k : ℕ} (he : ⟨.fork i, j, k⟩ ∈ sq.script θ) :
    θ = sq.parentThread i ∧ sq.isFirst j ∧ j ∈ sq.runs i ∧ k = 0 := by
  cases θ with
  | controller =>
      obtain ⟨hlt, rfl, hf, hk⟩ := mem_script_controller.1 he
      have hw := haveWork_of_isFirst hf
      exact ⟨parentThread_zero.symm, hf, sq.mem_runs.2 ⟨hlt, hw, numThreadsFor_pos hw⟩, hk⟩
  | worker t =>
      obtain ⟨hrun, hchild, hf, hk⟩ := mem_script_worker.1 he
      obtain ⟨hlt, hw, -⟩ := sq.mem_runs.1 hrun
      exact ⟨hchild.parentThread.symm, hf, sq.mem_runs.2 ⟨hlt, hw, hchild.2.1⟩, hk⟩

/-- A worker is joined by the thread that wakes it, in a run with work to do. -/
theorem parentThread_of_join {i j k : ℕ} (he : ⟨.join i, j, k⟩ ∈ sq.script θ) :
    θ = sq.parentThread i ∧ (sq.task j).joinRequested ∧ j ∈ sq.runs i ∧ k = 0 := by
  cases θ with
  | controller =>
      obtain ⟨hlt, rfl, hw, hjoin, hk⟩ := mem_script_controller.1 he
      exact ⟨parentThread_zero.symm, hjoin, sq.mem_runs.2 ⟨hlt, hw, numThreadsFor_pos hw⟩, hk⟩
  | worker t =>
      obtain ⟨hrun, hchild, hjoin, hk⟩ := mem_script_worker.1 he
      obtain ⟨hlt, hw, -⟩ := sq.mem_runs.1 hrun
      refine ⟨hchild.parentThread.symm, hjoin, sq.mem_runs.2 ⟨hlt, hw, ?_⟩, hk⟩
      simpa [numThreadsFor, hjoin] using hchild.2.1

/-- `next_pass` ends a run unless a join is requested. -/
theorem before_nextPass {t j : ℕ} {x : Event} (hjoin : ¬ (sq.task j).joinRequested)
    (hx : x ∈ sq.events (.worker t) j) (hne : x ≠ ⟨.nextPass t, j, 0⟩) :
    sq.before x ⟨.nextPass t, j, 0⟩ := by
  obtain ⟨op, j', k⟩ := x
  obtain rfl : j' = j := (mem_events.1 hx).1
  have hperforms := mem_events_worker.1 hx
  refine .inr ⟨rfl, ?_⟩
  cases op with
  | wait σ i =>
      cases σ <;> simp_all [Performs, slot, Slot.before]
      omega
  | reset σ i =>
      cases σ <;> simp_all [Performs, slot, Slot.before]
      omega
  | load σ i =>
      cases σ <;> simp_all [Performs, slot, Slot.before]
      omega
  | store σ i =>
      cases σ <;> simp_all [Performs, slot, Slot.before]
      omega
  | transform t' j'' k' =>
      obtain ⟨-, -, -, -, -, c, hc, -⟩ := hperforms
      have hk := exists_collective.1 ⟨c, hc⟩
      simp [slot, Slot.before]
      omega
  | _ => simp_all [Performs, slot, Slot.before] <;> omega

theorem events_worker_ne_nil (t j : ℕ) : sq.events (.worker t) j ≠ [] := by
  have hmem : ⟨.taskRef t, j, 0⟩ ∈ sq.events (.worker t) j := mem_events_worker.2 ⟨rfl, rfl⟩
  exact List.ne_nil_of_mem hmem

/-- A join run is the last one of every worker. -/
theorem later_eq_nil_of_joinRequested {t j : ℕ} {earlier later : List ℕ}
    (hruns : sq.runs t = earlier ++ j :: later) (hjoin : (sq.task j).joinRequested) :
    later = [] := by
  rw [List.eq_nil_iff_forall_not_mem]
  intro j' hj'
  have hpair := sq.runs_pairwise t
  rw [hruns] at hpair
  have hlt := (List.pairwise_cons.1 (List.pairwise_append.1 hpair).2.1).1 j' hj'
  have hj : j ∈ sq.runs t := by simp [hruns]
  have hmem : j' ∈ sq.runs t := by simp [hruns, hj']
  exact hlt.ne (run_eq_of_joinRequested hjoin (sq.mem_runs.1 hj).1 hlt.le (sq.mem_runs.1 hmem).1)

/-- After `next_pass` a worker is done with a run unless a join is requested. -/
theorem Control.events_eq_nil_of_nextPass (h : sq.Control s rem) {t j k : ℕ}
    {now rest : List Event} (hnow : ⟨.nextPass t, j, k⟩ :: now <:+ sq.events (.worker t) j)
    (hrem : rem (.worker t) = ⟨.nextPass t, j, k⟩ :: now ++ rest)
    (hjoin : ¬ (sq.task j).joinRequested) : now = [] := by
  obtain ⟨-, hk⟩ := mem_events_worker.1 (hnow.subset List.mem_cons_self)
  subst hk
  rw [List.eq_nil_iff_forall_not_mem]
  intro x hx
  have hsuffix := h.suffix (.worker t)
  rw [hrem] at hsuffix
  have hne : x ≠ ⟨.nextPass t, j, 0⟩ := by
    rintro rfl
    exact OrderedScript.not_mem_of_nodup (script_nodup _) hsuffix (List.mem_append_left _ hx)
  exact (script_sorted _).not_mem_of_head hsuffix
    (before_nextPass hjoin (hnow.subset (List.mem_cons_of_mem _ hx)) hne)
    (List.mem_append_left _ hx)

namespace Advance

theorem suffix (a : sq.Advance s s' rem rem' θ e ops) (h : sq.Control s rem) (θ' : Thread) :
    rem' θ' <:+ sq.script θ' := by
  by_cases hθ : θ' = θ
  · subst hθ
    exact (List.suffix_cons e _).trans (a.rem_eq ▸ h.suffix θ')
  · rw [a.frame θ' hθ]
    exact h.suffix θ'

theorem code_self (a : sq.Advance s s' rem rem' θ e ops) (h : sq.Control s rem) :
    s'.code θ = called sq.toConfig s e.op ++ ops := by
  rw [step_code a.code a.next, if_pos rfl, spawned_self (a.mem_script h), List.nil_append]

theorem code_of_ne (a : sq.Advance s s' rem rem' θ e ops) {θ' : Thread} (hne : θ' ≠ θ)
    (hspawned : spawned e.op θ' = []) : s'.code θ' = s.code θ' := by
  rw [step_code a.code a.next, if_neg hne, hspawned, List.nil_append]

theorem controller (a : sq.Advance s s' rem rem' θ e ops) (h : sq.Inv s rem) :
    Unfolds (sq.expand 0) (s'.code .controller) ((rem' .controller).map Event.op) := by
  have hctl := h.controller
  cases θ with
  | controller =>
      rw [a.code, a.rem_eq, List.map_cons] at hctl
      obtain ⟨out, hout, hunf⟩ := hctl.head
      rw [List.cons.injEq] at hout
      rwa [a.code_self h.toControl, a.called_controller h, hout.2]
  | worker t =>
      have hspawned : spawned e.op .controller = [] := by cases e.op <;> rfl
      rwa [a.code_of_ne (by simp) hspawned, a.frame .controller (by simp)]

/-- Nobody is going to be forked who was not before. -/
theorem not_forkPending (a : sq.Advance s s' rem rem' θ e ops) {t : ℕ}
    (hborn : ¬ sq.ForkPending rem t) : ¬ sq.ForkPending rem' t := by
  rintro ⟨j, hmem⟩
  exact hborn ⟨j, a.mem_rem_of_mem hmem⟩

theorem workerCode_self {t : ℕ} (a : sq.Advance s s' rem rem' (.worker t) e ops)
    (h : sq.Inv s rem) : sq.WorkerCode s' rem' t := by
  have hborn := a.not_forkPending (a.born t rfl)
  have hcode := a.code_self h.toControl
  have hhead := a.rem_eq
  cases h.worker t with
  | unborn _ hnil => exact absurd (a.code.symm.trans hnil) (by simp)
  | gone _ hnil => exact absurd (a.code.symm.trans hnil) (by simp)
  | idle _ _ _ _ hrem => exact absurd (a.rem_eq.symm.trans hrem) (by simp)
  | busy j earlier later now _ hruns hnow _ hrem hunf =>
      rw [a.code] at hunf
      obtain ⟨out, hout, hunf'⟩ := hunf.head
      obtain ⟨e', now', rfl, -, rfl⟩ := List.map_eq_cons_iff.1 hout
      rw [hrem, List.cons_append, List.cons.injEq] at hhead
      obtain ⟨rfl, hrem'⟩ := hhead
      obtain rfl : e'.run = j := (mem_events.1 (hnow.subset List.mem_cons_self)).1
      have hnow' : now' <:+ sq.events (.worker t) e'.run := (List.suffix_cons e' now').trans hnow
      by_cases hop : e'.op = .nextPass t ∧ ¬ (sq.task e'.run).joinRequested
      · -- the worker goes to sleep until the next run it takes part in
        obtain ⟨op, j, k⟩ := e'
        obtain ⟨rfl, hjoin⟩ := hop
        obtain rfl := h.events_eq_nil_of_nextPass hnow hrem hjoin
        simp only [expand, if_neg hjoin, List.nil_append] at hunf'
        obtain rfl := hunf'.eq_nil
        have hsleep : s'.code (.worker t) = taskWait t := by
          rw [hcode, called, a.joinRequested_eq h rfl, if_neg hjoin, List.append_nil]
        cases later with
        | nil =>
            refine .idle hborn (by simp [hruns]) (fun j' hj' hjoin' => ?_) hsleep hrem'.symm
            obtain ⟨before', later', hruns'⟩ := List.append_of_mem hj'
            have hnil := later_eq_nil_of_joinRequested hruns' hjoin'
            rw [hruns', hnil] at hruns
            obtain ⟨-, hlast⟩ := List.append_inj' hruns rfl
            rw [List.cons.injEq] at hlast
            exact hjoin (hlast.1 ▸ hjoin')
        | cons j' later =>
            refine .busy j' (earlier ++ [j]) later _ hborn (by simp [hruns]) List.suffix_rfl
              (fun hnil => absurd hnil (events_worker_ne_nil t j')) hrem'.symm ?_
            have hf : ¬ sq.isFirst j' := by
              intro hf
              have hpair := sq.runs_pairwise t
              have hw : j ∈ sq.runs t := by simp [hruns]
              rw [hruns] at hpair
              have hlt : j < j' :=
                (List.pairwise_cons.1 (List.pairwise_append.1 hpair).2.1).1 j' List.mem_cons_self
              exact not_haveWork_of_lt_first hf hlt (sq.mem_runs.1 hw).2.1
            have hunf := @unfolds_worker _ sq t j'
            rwa [if_neg hf, ← hsleep, ← map_op_events] at hunf
      · refine .busy e'.run earlier later now' hborn hruns hnow' (fun hnil => ?_) hrem'.symm ?_
        · -- only a join run ends with another event than `next_pass`
          by_cases hjoin : (sq.task e'.run).joinRequested
          · exact later_eq_nil_of_joinRequested hruns hjoin
          · refine absurd ⟨?_, hjoin⟩ hop
            by_contra hne
            have hrun : e'.run ∈ sq.runs t := by simp [hruns]
            have hmem : ⟨.nextPass t, e'.run, 0⟩ ∈ rem' (.worker t) :=
              a.mem_later_of_before h.toControl (mem_script_worker.2 ⟨hrun, rfl, rfl⟩)
                (before_nextPass hjoin (hnow.subset List.mem_cons_self) fun heq =>
                  hne (by rw [heq]))
            rw [← hrem', hnil, List.nil_append, List.mem_flatMap] at hmem
            obtain ⟨j', hj', hmem⟩ := hmem
            have hpair := sq.runs_pairwise t
            rw [hruns] at hpair
            have hlt := (List.pairwise_cons.1 (List.pairwise_append.1 hpair).2.1).1 j' hj'
            rw [(mem_events.1 hmem).1] at hlt
            exact lt_irrefl _ hlt
        rwa [hcode, a.called_worker h fun hnext => by_contra fun hjoin => hop ⟨hnext, hjoin⟩]

theorem workerCode_fork {t : ℕ} (a : sq.Advance s s' rem rem' θ e ops) (h : sq.Inv s rem)
    (hop : e.op = .fork t) : sq.WorkerCode s' rem' t := by
  obtain ⟨op, j, k⟩ := e
  subst hop
  obtain ⟨rfl, hf, hrun, rfl⟩ := parentThread_of_fork (a.mem_script h.toControl)
  have hself : Thread.worker t ≠ sq.parentThread t := by
    intro heq
    have hspawned := spawned_self (a.mem_script h.toControl)
    rw [← heq] at hspawned
    simp [spawned, runThread] at hspawned
  obtain ⟨hcode, hrem⟩ := h.rem_of_forkPending ⟨j, a.head_mem⟩
  obtain ⟨hlt, -, ht⟩ := sq.mem_runs.1 hrun
  obtain ⟨later, hruns⟩ := runs_eq_cons_of_isFirst hf hlt (ht.trans_le (sq.numThreadsFor_le j))
  refine .busy j [] later (sq.events (.worker t) j) ?_ hruns List.suffix_rfl
    (fun hnil => absurd hnil (events_worker_ne_nil t j)) ?_ ?_
  · -- there is no other fork of this worker
    rintro ⟨j', hmem⟩
    obtain ⟨hmem', hne⟩ := (a.mem_iff h.toControl).1 hmem
    obtain ⟨-, hf', -⟩ := parentThread_of_fork (h.mem_script hmem')
    exact hne ⟨rfl, by rw [isFirst_unique hf' hf]⟩
  · rw [a.frame _ hself, hrem, script, threadRuns, hruns, List.flatMap_cons]
  · have hunf := @unfolds_worker _ sq t j
    have hrunThread : s'.code (.worker t) = runThread t := by
      rw [step_code a.code a.next, if_neg hself, hcode]
      simp [spawned]
    rwa [if_pos hf, ← hrunThread, ← map_op_events] at hunf

theorem worker (a : sq.Advance s s' rem rem' θ e ops) (h : sq.Inv s rem) (t : ℕ) :
    sq.WorkerCode s' rem' t := by
  by_cases hθ : θ = .worker t
  · subst hθ
    exact a.workerCode_self h
  by_cases hop : e.op = .fork t
  · exact a.workerCode_fork h hop
  have hspawned : spawned e.op (.worker t) = [] := by
    cases hfork : e.op with
    | fork i => exact if_neg fun hti => hop (by rw [hfork, hti])
    | _ => rfl
  have hcode := a.code_of_ne (Ne.symm hθ) hspawned
  have hrem := a.frame (.worker t) (Ne.symm hθ)
  cases h.worker t with
  | unborn hpending hnil hall =>
      obtain ⟨j, hmem⟩ := hpending
      refine .unborn ⟨j, (a.mem_iff_of_op_ne h.toControl (Ne.symm hop)).2 hmem⟩ ?_ ?_
      · rw [hcode, hnil]
      · rw [hrem, hall]
  | busy j earlier later now hborn hruns hnow hlast hpending hunf =>
      exact .busy j earlier later now (a.not_forkPending hborn) hruns hnow hlast
        (hrem.trans hpending) (hcode ▸ hunf)
  | idle hborn hruns hjoin hidle hnil =>
      exact .idle (a.not_forkPending hborn) hruns hjoin (hcode.trans hidle) (hrem.trans hnil)
  | gone hborn hgone hnil =>
      exact .gone (a.not_forkPending hborn) (hcode.trans hgone) (hrem.trans hnil)

end Advance

namespace Advance

theorem filterMap_requester (a : sq.Advance s s' rem rem' θ e ops) (h : sq.Control s rem)
    (i : ℕ) (ch : Channel) :
    (rem (sq.requester i ch)).filterMap (ch.asRequest i) =
      (ch.asRequest i e).toList ++ (rem' (sq.requester i ch)).filterMap (ch.asRequest i) := by
  cases hr : ch.asRequest i e with
  | none =>
      by_cases hθ : sq.requester i ch = θ
      · rw [hθ, a.rem_eq, List.filterMap_cons_none hr]
        rfl
      · rw [a.frame _ hθ]
        rfl
  | some r =>
      obtain rfl := eq_requester (a.mem_script h) hr
      rw [a.rem_eq, List.filterMap_cons_some hr]
      rfl

theorem filterMap_responder (a : sq.Advance s s' rem rem' θ e ops) (h : sq.Control s rem)
    (i : ℕ) (ch : Channel) :
    (rem (sq.responder i ch)).filterMap (ch.asResponse i) =
      (ch.asResponse i e).toList ++ (rem' (sq.responder i ch)).filterMap (ch.asResponse i) := by
  cases hr : ch.asResponse i e with
  | none =>
      by_cases hθ : sq.responder i ch = θ
      · rw [hθ, a.rem_eq, List.filterMap_cons_none hr]
        rfl
      · rw [a.frame _ hθ]
        rfl
  | some r =>
      obtain rfl := eq_responder (a.mem_script h) hr
      rw [a.rem_eq, List.filterMap_cons_some hr]
      rfl

end Advance

theorem request_ne_answer (ch : Channel) : ch.request ≠ ch.answer := by
  cases ch <;> simp [Channel.request, Channel.answer]

@[simp] theorem State.setSignal_signal_self (s : State V) (σ : Signal) (i : ℕ) (b : Bool) :
    (s.setSignal σ i b).signal σ i = b := by
  simp [State.setSignal]

theorem State.setSignal_signal_of_ne {s : State V} {σ σ' : Signal} {i i' : ℕ} {b : Bool}
    (h : ¬ (σ' = σ ∧ i' = i)) : (s.setSignal σ' i' b).signal σ i = s.signal σ i := by
  simp only [State.setSignal, Function.update_apply]
  by_cases hσ : σ = σ'
  · subst hσ
    by_cases hi : i = i'
    · exact absurd ⟨rfl, hi.symm⟩ h
    · simp [hi]
  · simp [hσ]

theorem Advance.synced (a : sq.Advance s s' rem rem' θ e ops) (h : sq.Control s rem)
    (i : ℕ) (ch : Channel) :
    Synced (s'.signal ch.request i) (s'.signal ch.answer i)
      ((rem' (sq.requester i ch)).filterMap (ch.asRequest i))
      ((rem' (sq.responder i ch)).filterMap (ch.asResponse i)) := by
  have hsynced := h.synced i ch
  have hne := request_ne_answer ch
  rw [a.filterMap_requester h, a.filterMap_responder h] at hsynced
  rw [a.effect.signal]
  have hguard := a.effect.guard
  obtain ⟨op, j, k⟩ := e
  cases op with
  | wait σ i' =>
      by_cases hreq : σ = ch.request ∧ i' = i
      · obtain ⟨rfl, rfl⟩ := hreq
        change s.signal ch.request i' = true at hguard
        rw [hguard] at hsynced
        simp only [nextSignal, hguard]
        exact Synced.awaitRequest
          (by simpa [Channel.asRequest, Channel.asResponse, hne] using hsynced)
      by_cases hans : σ = ch.answer ∧ i' = i
      · obtain ⟨rfl, rfl⟩ := hans
        change s.signal ch.answer i' = true at hguard
        rw [hguard] at hsynced
        simp only [nextSignal, hguard]
        exact Synced.awaitAnswer
          (by simpa [Channel.asRequest, Channel.asResponse, hne.symm] using hsynced)
      · simpa [Channel.asRequest, Channel.asResponse, nextSignal, hreq, hans] using hsynced
  | reset σ i' =>
      by_cases hreq : σ = ch.request ∧ i' = i
      · obtain ⟨rfl, rfl⟩ := hreq
        simp only [Channel.asRequest, Channel.asResponse, hne] at hsynced
        simpa [nextSignal, State.setSignal_signal_of_ne, hne] using hsynced.clearRequest
      by_cases hans : σ = ch.answer ∧ i' = i
      · obtain ⟨rfl, rfl⟩ := hans
        simp only [Channel.asRequest, Channel.asResponse, hne.symm] at hsynced
        simpa [nextSignal, State.setSignal_signal_of_ne, hne.symm] using hsynced.clearAnswer
      · simpa [Channel.asRequest, Channel.asResponse, nextSignal, State.setSignal_signal_of_ne,
          hreq, hans] using hsynced
  | load σ i' =>
      by_cases hreq : σ = ch.request ∧ i' = i
      · obtain ⟨rfl, rfl⟩ := hreq
        simp only [nextSignal]
        exact (Synced.loadRequest
          (by simpa [Channel.asRequest, Channel.asResponse, hne] using hsynced)).2
      by_cases hans : σ = ch.answer ∧ i' = i
      · obtain ⟨rfl, rfl⟩ := hans
        simp only [nextSignal]
        exact (Synced.loadAnswer
          (by simpa [Channel.asRequest, Channel.asResponse, hne.symm] using hsynced)).2
      · simpa [Channel.asRequest, Channel.asResponse, nextSignal, hreq, hans] using hsynced
  | store σ i' =>
      by_cases hreq : σ = ch.request ∧ i' = i
      · obtain ⟨rfl, rfl⟩ := hreq
        simp only [Channel.asRequest, Channel.asResponse, hne] at hsynced
        simpa [nextSignal, State.setSignal_signal_of_ne, hne] using hsynced.raiseRequest
      by_cases hans : σ = ch.answer ∧ i' = i
      · obtain ⟨rfl, rfl⟩ := hans
        simp only [Channel.asRequest, Channel.asResponse, hne.symm] at hsynced
        simpa [nextSignal, State.setSignal_signal_of_ne, hne.symm] using hsynced.raiseAnswer
      · simpa [Channel.asRequest, Channel.asResponse, nextSignal, State.setSignal_signal_of_ne,
          hreq, hans] using hsynced
  | _ => exact hsynced

namespace Advance

theorem controls_of_op (a : sq.Advance s s' rem rem' θ e ops) (h : sq.Control s rem)
    (hop : ∀ t, ¬ sq.Performs t e.run e.round e.op) :
    θ = .controller ∧ e.run < sq.tasks.length ∧ sq.Controls e.run e.round e.op := by
  cases θ with
  | controller => exact ⟨rfl, a.controls h⟩
  | worker t => exact absurd (a.mem_runs h).2 (hop t)

/-- The controlling thread stores and releases the task of one run after the
other. -/
theorem not_stored_of_ne (a : sq.Advance s s' rem rem' .controller e ops)
    (h : sq.Control s rem) {j : ℕ} (hne : j ≠ e.run) :
    ¬ (⟨.storeTask j, j, 0⟩ ∉ rem .controller ∧ ⟨.releaseTask, j, 0⟩ ∈ rem .controller) := by
  rintro ⟨hstore, hrelease⟩
  rcases hne.lt_or_gt with hlt | hgt
  · exact a.not_mem_of_before h (.inl hlt) hrelease
  · obtain ⟨hj, hw, -⟩ := mem_script_controller.1 (h.mem_script hrelease)
    exact hstore ((a.mem_of_before h
      (mem_script_controller.2 ⟨hj, rfl, hw, rfl⟩) (.inl hgt)))

theorem task (a : sq.Advance s s' rem rem' θ e ops) (h : sq.Inv s rem) (j : ℕ) :
    s'.task = some j ↔
      ⟨.storeTask j, j, 0⟩ ∉ rem' .controller ∧ ⟨.releaseTask, j, 0⟩ ∈ rem' .controller := by
  rw [a.effect.task]
  by_cases hstore : ∃ j', e.op = .storeTask j'
  · obtain ⟨j', hop⟩ := hstore
    obtain ⟨op, j'', k⟩ := e
    subst hop
    obtain ⟨rfl, hlt, rfl, hw, rfl⟩ := a.controls_of_op h.toControl fun t => id
    rw [nextTask, Option.some.injEq, a.mem_iff h.toControl,
      a.mem_iff_of_op_ne h.toControl (by simp)]
    by_cases hj : j = j'
    · subst hj
      refine iff_of_true rfl ⟨by simp, (a.mem_of_before h.toControl
        (mem_script_controller.2 ⟨hlt, hw, rfl⟩) (.inr ⟨rfl, ?_⟩))⟩
      simp [slot, Slot.before]
    · refine iff_of_false (Ne.symm hj) ?_
      rintro ⟨hstored, hrelease⟩
      exact a.not_stored_of_ne h.toControl hj ⟨fun hmem => hstored ⟨hmem, by simp [hj]⟩, hrelease⟩
  by_cases hrelease : e.op = .releaseTask
  · obtain ⟨op, j', k⟩ := e
    subst hrelease
    obtain ⟨rfl, -, -, rfl⟩ := a.controls_of_op h.toControl fun t => id
    have hmem_iff : (⟨.releaseTask, j, 0⟩ : Event) ∈ rem' .controller ↔ _ :=
      a.mem_iff h.toControl
    rw [nextTask, hmem_iff, a.mem_iff_of_op_ne h.toControl (by simp)]
    refine iff_of_false (by simp) ?_
    rintro ⟨hstored, hmem, hne⟩
    by_cases hj : j = j'
    · exact hne ⟨rfl, by rw [hj]⟩
    · exact a.not_stored_of_ne h.toControl hj ⟨hstored, hmem⟩
  · have hnext : nextTask s e.op = s.task := by
      cases hop : e.op with
      | storeTask j' => exact absurd ⟨j', hop⟩ hstore
      | releaseTask => exact absurd hop hrelease
      | _ => rfl
    rw [hnext, h.task j, a.mem_iff_of_op_ne h.toControl fun hop => hstore ⟨j, hop.symm⟩,
      a.mem_iff_of_op_ne h.toControl (Ne.symm hrelease)]

theorem exited (a : sq.Advance s s' rem rem' θ e ops) (h : sq.Inv s rem) (i : ℕ) :
    s'.exited i = true ↔
      ∃ j, ⟨.exit i, j, 0⟩ ∈ sq.script (.worker i) ∧ ⟨.exit i, j, 0⟩ ∉ rem' (.worker i) := by
  rw [a.effect.exited]
  by_cases hop : e.op = .exit i
  · obtain ⟨op, j, k⟩ := e
    subst hop
    cases θ with
    | controller => exact absurd (a.controls h.toControl).2 id
    | worker t =>
        obtain ⟨hrun, rfl, hjoin, rfl⟩ := a.mem_runs h.toControl
        refine iff_of_true (by simp [nextExited]) ⟨j, a.mem_script h.toControl, ?_⟩
        rw [a.mem_iff h.toControl]
        simp
  · have hnext : nextExited s e.op i = s.exited i := by
      cases hexit : e.op with
      | exit t => exact Function.update_of_ne (fun hit => hop (by rw [hexit, hit])) _ _
      | _ => rfl
    rw [hnext, h.exited i]
    exact exists_congr fun j => by rw [a.mem_iff_of_op_ne h.toControl (Ne.symm hop)]

/-- A join finds the worker which it waits for gone. -/
theorem joined (a : sq.Advance s s' rem rem' θ e ops) (h : sq.Inv s rem) (i j : ℕ)
    (hscript : ⟨.join i, j, 0⟩ ∈ sq.script (sq.parentThread i))
    (hdone : ⟨.join i, j, 0⟩ ∉ rem' (sq.parentThread i)) :
    ⟨.exit i, j, 0⟩ ∉ rem' (.worker i) := by
  intro hmem
  have hexit := a.mem_rem_of_mem hmem
  by_cases hjoin : ⟨.join i, j, 0⟩ ∈ rem (sq.parentThread i)
  · -- this is the join
    rw [a.mem_iff h.toControl] at hdone
    obtain ⟨-, rfl⟩ := not_not.1 fun hne => hdone ⟨hjoin, hne⟩
    obtain ⟨j', hscript', hdone'⟩ := (h.exited i).1 a.effect.guard
    obtain ⟨hrun, -, hreq, -⟩ := mem_script_worker.1 (h.mem_script hexit)
    obtain ⟨hrun', -, hreq', -⟩ := mem_script_worker.1 hscript'
    have hlt := (sq.mem_runs.1 hrun).1
    have hlt' := (sq.mem_runs.1 hrun').1
    have heq : j = j' := by
      rcases le_total j j' with hle | hle
      · exact run_eq_of_joinRequested hreq hlt hle hlt'
      · exact (run_eq_of_joinRequested hreq' hlt' hle hlt).symm
    exact hdone' (heq ▸ hexit)
  · exact h.joined i j hscript hjoin hexit

theorem haveThreadHandle (a : sq.Advance s s' rem rem' θ e ops) (h : sq.Inv s rem) (i : ℕ) :
    s'.haveThreadHandle i = true ↔
      (∃ j, ⟨.fork i, j, 0⟩ ∈ sq.script (sq.parentThread i) ∧
        ⟨.fork i, j, 0⟩ ∉ rem' (sq.parentThread i)) ∧
      ∀ j, ⟨.join i, j, 0⟩ ∈ sq.script (sq.parentThread i) →
        ⟨.join i, j, 0⟩ ∈ rem' (sq.parentThread i) := by
  rw [a.effect.haveThreadHandle]
  by_cases hfork : e.op = .fork i
  · obtain ⟨op, j, k⟩ := e
    subst hfork
    obtain ⟨rfl, hf, -, rfl⟩ := parentThread_of_fork (a.mem_script h.toControl)
    refine iff_of_true (by simp [nextHaveThreadHandle])
      ⟨⟨j, a.mem_script h.toControl, by simp [a.mem_iff h.toControl]⟩, fun j' hjoin => ?_⟩
    obtain ⟨-, -, hrun, -⟩ := parentThread_of_join hjoin
    refine a.mem_later_of_before h.toControl hjoin ?_
    rcases lt_trichotomy j j' with hlt | rfl | hlt
    · exact .inl hlt
    · exact .inr ⟨rfl, by simp [slot, Slot.before]⟩
    · exact absurd (sq.mem_runs.1 hrun).2.1 (not_haveWork_of_lt_first hf hlt)
  by_cases hjoin : e.op = .join i
  · obtain ⟨op, j, k⟩ := e
    subst hjoin
    obtain ⟨rfl, -, -, rfl⟩ := parentThread_of_join (a.mem_script h.toControl)
    refine iff_of_false (by simp [nextHaveThreadHandle]) ?_
    rintro ⟨-, hpending⟩
    exact ((a.mem_iff h.toControl).1 (hpending j (a.mem_script h.toControl))).2 ⟨rfl, rfl⟩
  · have hnext : nextHaveThreadHandle s e.op i = s.haveThreadHandle i := by
      cases hop : e.op with
      | fork i' => exact Function.update_of_ne (fun hi => hfork (by rw [hop, hi])) _ _
      | join i' => exact Function.update_of_ne (fun hi => hjoin (by rw [hop, hi])) _ _
      | _ => rfl
    rw [hnext, h.haveThreadHandle i]
    refine and_congr (exists_congr fun j => ?_) (forall_congr' fun j => ?_)
    · rw [a.mem_iff_of_op_ne h.toControl (Ne.symm hfork)]
    · rw [a.mem_iff_of_op_ne h.toControl (Ne.symm hjoin)]

theorem nextPassCount_ne_zero (pass : ℕ) : nextPassCount pass ≠ 0 := by
  unfold nextPassCount intMax
  split <;> omega

theorem pass (a : sq.Advance s s' rem rem' θ e ops) (h : sq.Inv s rem) (t j : ℕ)
    (hf : sq.isFirst j) (hj : j ∈ sq.runs t) :
    s'.pass t = 0 ↔ ⟨.nextPass t, j, 0⟩ ∈ rem' (.worker t) := by
  rw [a.effect.pass]
  by_cases hop : e.op = .nextPass t
  · obtain ⟨op, j', k⟩ := e
    subst hop
    cases θ with
    | controller => exact absurd (a.controls h.toControl).2 id
    | worker t' =>
        obtain ⟨hrun, rfl, rfl⟩ := a.mem_runs h.toControl
        refine iff_of_false (by simp [nextPasses, nextPassCount_ne_zero]) fun hmem => ?_
        obtain ⟨hmem', hne⟩ := (a.mem_iff h.toControl).1 hmem
        rcases lt_trichotomy j j' with hlt | rfl | hlt
        · exact a.not_mem_of_before h.toControl (.inl hlt) hmem'
        · exact hne ⟨rfl, rfl⟩
        · exact not_haveWork_of_lt_first hf hlt (sq.mem_runs.1 hrun).2.1
  · have hnext : nextPasses s e.op t = s.pass t := by
      cases hpass : e.op with
      | nextPass t' => exact Function.update_of_ne (fun ht => hop (by rw [hpass, ht])) _ _
      | _ => rfl
    rw [hnext, h.pass t j hf hj, a.mem_iff_of_op_ne h.toControl (Ne.symm hop)]

theorem joinRequested (a : sq.Advance s s' rem rem' θ e ops) (h : sq.Inv s rem) (t j : ℕ)
    (hj : j ∈ sq.runs t) (hdone : ⟨.taskRef t, j, 0⟩ ∉ rem' (.worker t))
    (hpending : ⟨.nextPass t, j, 0⟩ ∈ rem' (.worker t)) :
    s'.joinRequested t = (sq.task j).joinRequested := by
  rw [a.effect.joinRequested]
  by_cases hop : e.op = .taskRef t
  · obtain ⟨op, j', k⟩ := e
    subst hop
    cases θ with
    | controller => exact absurd (a.controls h.toControl).2 id
    | worker t' =>
        obtain ⟨hrun, rfl, rfl⟩ := a.mem_runs h.toControl
        have htask := a.task_eq h (by simp) (.inr ⟨rfl, by simp [slot, Slot.before]⟩)
        have heq : j = j' := by
          rcases lt_trichotomy j j' with hlt | heq | hlt
          · exact absurd (a.mem_rem_of_mem hpending) (a.not_mem_of_before h.toControl (.inl hlt))
          · exact heq
          · have hscript : ⟨.taskRef t, j, 0⟩ ∈ sq.script (.worker t) :=
              mem_script_worker.2 ⟨hj, rfl, rfl⟩
            exact absurd (a.mem_later_of_before h.toControl hscript (.inl hlt)) hdone
        simp [nextJoinRequested, htask, heq]
  · have hnext : nextJoinRequested sq.toConfig s e.op t = s.joinRequested t := by
      cases href : e.op with
      | taskRef t' =>
          rw [nextJoinRequested]
          cases s.task with
          | none => rfl
          | some x => exact Function.update_of_ne (fun ht => hop (by rw [href, ht])) _ _
      | _ => rfl
    rw [hnext]
    exact h.joinRequested t j hj
      (fun hmem => hdone ((a.mem_iff_of_op_ne h.toControl (Ne.symm hop)).2 hmem))
      (a.mem_rem_of_mem hpending)

theorem inv (a : sq.Advance s s' rem rem' θ e ops) (h : sq.Inv s rem) : sq.Inv s' rem' where
  suffix := a.suffix h.toControl
  controller := a.controller h
  worker := a.worker h
  synced := a.synced h.toControl
  task := a.task h
  haveThreadHandle := a.haveThreadHandle h
  exited := a.exited h
  joined := a.joined h
  pass := a.pass h
  joinRequested := a.joinRequested h

end Advance

end Squad

end Patton.ThreadSquad
