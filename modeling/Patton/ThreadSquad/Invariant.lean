import Patton.ThreadSquad.Channels
import Patton.ThreadSquad.Unfold
import Patton.ThreadSquad.Effect

/-!
# The invariant of the run protocol

`rem θ` is what thread `θ` still has to do of its script. The invariant says that
the code of every thread performs what remains, that the signals fit the
remaining accesses of both sides, and what the shared variables are in terms of
the events that are still pending.
-/

namespace Patton.ThreadSquad

open Handshake Calls

variable {V : Type}

namespace Squad

section

variable (sq : Squad V) (s : State V) (rem : Thread → List Event)

/-- Worker `t` has not been forked yet, but somebody is going to. -/
def ForkPending (t : ℕ) : Prop := ∃ j, ⟨.fork t, j, 0⟩ ∈ rem (sq.parentThread t)

/-- What the code of worker `t` is about. -/
inductive WorkerCode (t : ℕ) : Prop
  | unborn : sq.ForkPending rem t → s.code (.worker t) = [] →
      rem (.worker t) = sq.script (.worker t) → WorkerCode t
  | busy (j : ℕ) (earlier later : List ℕ) (now : List Event) : ¬ sq.ForkPending rem t →
      sq.runs t = earlier ++ j :: later → now <:+ sq.events (.worker t) j →
      (now = [] → later = []) → rem (.worker t) = now ++ later.flatMap (sq.events (.worker t)) →
      Unfolds (sq.expand j) (s.code (.worker t)) (now.map Event.op) → WorkerCode t
  | idle : ¬ sq.ForkPending rem t → sq.runs t ≠ [] →
      (∀ j ∈ sq.runs t, ¬ (sq.task j).joinRequested) → s.code (.worker t) = taskWait t →
      rem (.worker t) = [] → WorkerCode t
  | gone : ¬ sq.ForkPending rem t → s.code (.worker t) = [] →
      rem (.worker t) = [] → WorkerCode t

/-- The invariant of the control flow and of the signals. -/
structure Control : Prop where
  suffix : ∀ θ, rem θ <:+ sq.script θ
  controller : Unfolds (sq.expand 0) (s.code .controller) ((rem .controller).map Event.op)
  worker : ∀ t, sq.WorkerCode s rem t
  synced : ∀ i (ch : Channel), Synced (s.signal ch.request i) (s.signal ch.answer i)
    ((rem (sq.requester i ch)).filterMap (ch.asRequest i))
    ((rem (sq.responder i ch)).filterMap (ch.asResponse i))

/-- The invariant of the variables that the protocol shares. -/
structure Shared : Prop where
  task : ∀ j, s.task = some j ↔
    ⟨.storeTask j, j, 0⟩ ∉ rem .controller ∧ ⟨.releaseTask, j, 0⟩ ∈ rem .controller
  haveThreadHandle : ∀ i, s.haveThreadHandle i = true ↔
    (∃ j, ⟨.fork i, j, 0⟩ ∈ sq.script (sq.parentThread i) ∧
      ⟨.fork i, j, 0⟩ ∉ rem (sq.parentThread i)) ∧
    ∀ j, ⟨.join i, j, 0⟩ ∈ sq.script (sq.parentThread i) →
      ⟨.join i, j, 0⟩ ∈ rem (sq.parentThread i)
  exited : ∀ i, s.exited i = true ↔
    ∃ j, ⟨.exit i, j, 0⟩ ∈ sq.script (.worker i) ∧ ⟨.exit i, j, 0⟩ ∉ rem (.worker i)
  joined : ∀ i j, ⟨.join i, j, 0⟩ ∈ sq.script (sq.parentThread i) →
    ⟨.join i, j, 0⟩ ∉ rem (sq.parentThread i) → ⟨.exit i, j, 0⟩ ∉ rem (.worker i)
  pass : ∀ t j, sq.isFirst j → j ∈ sq.runs t →
    (s.pass t = 0 ↔ ⟨.nextPass t, j, 0⟩ ∈ rem (.worker t))
  joinRequested : ∀ t j, j ∈ sq.runs t → ⟨.taskRef t, j, 0⟩ ∉ rem (.worker t) →
    ⟨.nextPass t, j, 0⟩ ∈ rem (.worker t) → s.joinRequested t = (sq.task j).joinRequested

structure Inv : Prop extends Control sq s rem, Shared sq s rem

end

variable {sq : Squad V} {s : State V} {rem : Thread → List Event}

theorem Control.mem_of_before (h : sq.Control s rem) {θ : Thread} {x y : Event}
    (hx : x ∈ rem θ) (hy : y ∈ sq.script θ) (hxy : sq.before x y) : y ∈ rem θ :=
  (script_sorted θ).mem_of_before (h.suffix θ) hx hy hxy

theorem Control.mem_script (h : sq.Control s rem) {θ : Thread} {x : Event} (hx : x ∈ rem θ) :
    x ∈ sq.script θ :=
  (h.suffix θ).subset hx

/-- What comes before the first pending event is done. -/
theorem Control.not_mem_of_before_head (h : sq.Control s rem) {θ : Thread} {e x : Event}
    {later : List Event} (hrem : rem θ = e :: later) (hx : sq.before x e) : x ∉ rem θ := by
  have hsuffix := hrem ▸ h.suffix θ
  rw [hrem, List.mem_cons, not_or]
  refine ⟨fun hxe => not_before_self e (hxe ▸ hx), ?_⟩
  exact (script_sorted θ).not_mem_of_head hsuffix hx

end Squad

namespace Channel

variable {ch : Channel} {i j k : ℕ} {e : Event}

theorem asRequest_eq_raiseRequest :
    ch.asRequest i e = some (.raiseRequest (j, k)) ↔ e = ⟨.store ch.request i, j, k⟩ := by
  obtain ⟨op, j', k'⟩ := e
  cases op <;> simp [asRequest]

theorem asRequest_eq_awaitAnswer :
    ch.asRequest i e = some (.awaitAnswer (j, k)) ↔ e = ⟨.wait ch.answer i, j, k⟩ := by
  obtain ⟨op, j', k'⟩ := e
  cases op <;> simp [asRequest]

theorem asResponse_eq_awaitRequest :
    ch.asResponse i e = some (.awaitRequest (j, k)) ↔ e = ⟨.wait ch.request i, j, k⟩ := by
  obtain ⟨op, j', k'⟩ := e
  cases op <;> simp [asResponse]

theorem asResponse_eq_raiseAnswer :
    ch.asResponse i e = some (.raiseAnswer (j, k)) ↔ e = ⟨.store ch.answer i, j, k⟩ := by
  obtain ⟨op, j', k'⟩ := e
  cases op <;> simp [asResponse]

end Channel

namespace Squad

variable {sq : Squad V} {s : State V} {rem : Thread → List Event} {i j k : ℕ}

theorem mem_filterMap_iff {P : Type*} {f : Event → Option P} {p : P} {e : Event}
    (hf : ∀ e', f e' = some p ↔ e' = e) {l : List Event} : p ∈ l.filterMap f ↔ e ∈ l := by
  rw [List.mem_filterMap]
  constructor
  · rintro ⟨e', he', hp⟩
    exact (hf e').1 hp ▸ he'
  · intro he
    exact ⟨e, he, (hf e).2 rfl⟩

/-- As long as a request is not raised, the responder has not seen it. -/
theorem Control.await_request (h : sq.Control s rem) (ch : Channel)
    (hmem : ⟨.store ch.request i, j, k⟩ ∈ rem (sq.requester i ch)) :
    ⟨.wait ch.request i, j, k⟩ ∈ rem (sq.responder i ch) := by
  have hreq := (mem_filterMap_iff fun e => Channel.asRequest_eq_raiseRequest).2 hmem
  exact (mem_filterMap_iff fun e => Channel.asResponse_eq_awaitRequest).1
    ((h.synced i ch).awaitRequest_mem hreq)

/-- As long as an answer is not raised, the requester has not seen it. -/
theorem Control.await_answer (h : sq.Control s rem) (ch : Channel)
    (hmem : ⟨.store ch.answer i, j, k⟩ ∈ rem (sq.responder i ch)) :
    ⟨.wait ch.answer i, j, k⟩ ∈ rem (sq.requester i ch) := by
  have hres := (mem_filterMap_iff fun e => Channel.asResponse_eq_raiseAnswer).2 hmem
  exact (mem_filterMap_iff fun e => Channel.asRequest_eq_awaitAnswer).1
    ((h.synced i ch).awaitAnswer_mem hres)

/-- A requester that finds no answer waits for one that is still to come. -/
theorem Control.answer_of_blocked (h : sq.Control s rem) (ch : Channel) {later : List Event}
    (hrem : rem (sq.requester i ch) = ⟨.wait ch.answer i, j, k⟩ :: later)
    (hflag : s.signal ch.answer i = false) :
    ⟨.store ch.answer i, j, k⟩ ∈ rem (sq.responder i ch) := by
  have hsynced := h.synced i ch
  rw [hrem, List.filterMap_cons, Channel.asRequest_eq_awaitAnswer.2 rfl, hflag] at hsynced
  exact (mem_filterMap_iff fun e => Channel.asResponse_eq_raiseAnswer).1
    hsynced.raiseAnswer_mem_of_blocked

/-- A responder that finds no request waits for one that is still to come. -/
theorem Control.request_of_blocked (h : sq.Control s rem) (ch : Channel) {later : List Event}
    (hrem : rem (sq.responder i ch) = ⟨.wait ch.request i, j, k⟩ :: later)
    (hflag : s.signal ch.request i = false) :
    ⟨.store ch.request i, j, k⟩ ∈ rem (sq.requester i ch) := by
  have hsynced := h.synced i ch
  rw [hrem, List.filterMap_cons, Channel.asResponse_eq_awaitRequest.2 rfl, hflag] at hsynced
  exact (mem_filterMap_iff fun e => Channel.asRequest_eq_raiseRequest).1
    hsynced.raiseRequest_mem_of_blocked

/-- As long as worker `t` has not signalled the completion of run `j`, the
controlling thread has not released the task. -/
theorem Control.releaseTask_mem (h : sq.Control s rem) {t : ℕ}
    (hmem : ⟨.store .taskProcessed t, j, 0⟩ ∈ rem (.worker t)) :
    ⟨.releaseTask, j, 0⟩ ∈ rem .controller := by
  induction t using Nat.strong_induction_on with
  | _ t ih =>
    have hwait : ⟨.wait .taskProcessed t, j, 0⟩ ∈ rem (sq.parentThread t) :=
      h.await_answer .task hmem
    rcases Nat.eq_zero_or_pos t with rfl | ht
    · rw [parentThread_zero] at hwait
      obtain ⟨hj, -, hw, -⟩ := mem_script_controller.1 (h.mem_script hwait)
      refine h.mem_of_before hwait (mem_script_controller.2 ⟨hj, hw, rfl⟩) (Or.inr ⟨rfl, ?_⟩)
      simp [slot, Slot.before]
    · rw [parentThread_of_pos ht] at hwait
      obtain ⟨hj, -⟩ := mem_script_worker.1 (h.mem_script hwait)
      refine ih _ (sq.parent_lt ht) (h.mem_of_before hwait
        (mem_script_worker.2 ⟨hj, rfl, rfl⟩) (Or.inr ⟨rfl, ?_⟩))
      simp [slot, Slot.before]

/-- A worker joins its subthreads before it exits, so as long as worker `t` has
not exited in a join run, the controlling thread has not released the task. -/
theorem Inv.releaseTask_mem_of_exit (h : sq.Inv s rem) {t : ℕ}
    (hmem : ⟨.exit t, j, 0⟩ ∈ rem (.worker t)) : ⟨.releaseTask, j, 0⟩ ∈ rem .controller := by
  induction t using Nat.strong_induction_on with
  | _ t ih =>
    obtain ⟨hj, -, hjoin, -⟩ := mem_script_worker.1 (h.mem_script hmem)
    obtain ⟨hlt, hw, ht⟩ := sq.mem_runs.1 hj
    have hpending : ⟨.join t, j, 0⟩ ∈ sq.script (sq.parentThread t) →
        ⟨.join t, j, 0⟩ ∈ rem (sq.parentThread t) := by
      intro hscript
      by_contra hdone
      exact h.joined t j hscript hdone hmem
    rcases Nat.eq_zero_or_pos t with rfl | hpos
    · rw [parentThread_zero] at hpending
      refine h.mem_of_before (hpending (mem_script_controller.2 ⟨hlt, rfl, hw, hjoin, rfl⟩))
        (mem_script_controller.2 ⟨hlt, hw, rfl⟩) (Or.inr ⟨rfl, ?_⟩)
      simp [slot, Slot.before]
    · rw [parentThread_of_pos hpos] at hpending
      have hp := sq.mem_runs_parent hpos hj
      have hchild : sq.Child sq.numThreads (sq.parent t) t :=
        child_parent hpos (ht.trans_le (sq.numThreadsFor_le j))
      refine ih _ (sq.parent_lt hpos) (h.mem_of_before
        (hpending (mem_script_worker.2 ⟨hp, hchild, hjoin, rfl⟩))
        (mem_script_worker.2 ⟨hp, rfl, hjoin, rfl⟩) (Or.inr ⟨rfl, ?_⟩))
      simp [slot, Slot.before]

theorem Control.rem_of_forkPending (h : sq.Control s rem) {t : ℕ} (ht : sq.ForkPending rem t) :
    s.code (.worker t) = [] ∧ rem (.worker t) = sq.script (.worker t) := by
  cases h.worker t with
  | unborn _ hcode hrem => exact ⟨hcode, hrem⟩
  | busy j _ _ _ hnot => exact absurd ht hnot
  | idle hnot => exact absurd ht hnot
  | gone hnot => exact absurd ht hnot

/-- As long as the first run has not been started, no worker is forked. -/
theorem Control.fork_mem (h : sq.Control s rem) (hf : sq.isFirst j)
    (hmem : ⟨.storeTask j, j, 0⟩ ∈ rem .controller) {t : ℕ} (ht : t < sq.numThreads) :
    ⟨.fork t, j, 0⟩ ∈ rem (sq.parentThread t) := by
  obtain ⟨hlt, -, hw, -⟩ := mem_script_controller.1 (h.mem_script hmem)
  induction t using Nat.strong_induction_on with
  | _ t ih =>
    rcases Nat.eq_zero_or_pos t with rfl | hpos
    · rw [parentThread_zero]
      refine h.mem_of_before hmem (mem_script_controller.2 ⟨hlt, rfl, hf, rfl⟩)
        (Or.inr ⟨rfl, ?_⟩)
      simp [slot, Slot.before]
    · have hlt' := sq.parent_lt hpos
      have hparent : sq.ForkPending rem (sq.parent t) := ⟨j, ih _ hlt' (by omega)⟩
      have hn : sq.numThreadsFor j = sq.numThreads := by simp [numThreadsFor, hf]
      rw [parentThread_of_pos hpos, (h.rem_of_forkPending hparent).2]
      refine mem_script_worker.2 ⟨sq.mem_runs.2 ⟨hlt, hw, by omega⟩, ?_, hf, rfl⟩
      exact child_parent hpos (by omega)

/-- As long as a later run has not been started, no worker has woken up for it. -/
theorem Control.wait_taskAvailable_mem (h : sq.Control s rem) (hf : ¬ sq.isFirst j)
    (hmem : ⟨.storeTask j, j, 0⟩ ∈ rem .controller) {t : ℕ} (ht : j ∈ sq.runs t) :
    ⟨.wait .taskAvailable t, j, 0⟩ ∈ rem (.worker t) := by
  obtain ⟨hlt, -, hw, -⟩ := mem_script_controller.1 (h.mem_script hmem)
  induction t using Nat.strong_induction_on with
  | _ t ih =>
    refine h.await_request .task ?_
    change ⟨.store .taskAvailable t, j, 0⟩ ∈ rem (sq.parentThread t)
    rcases Nat.eq_zero_or_pos t with rfl | hpos
    · rw [parentThread_zero]
      refine h.mem_of_before hmem (mem_script_controller.2 ⟨hlt, rfl, hw, rfl⟩)
        (Or.inr ⟨rfl, ?_⟩)
      simp [slot, Slot.before]
    · have hp := sq.mem_runs_parent hpos ht
      rw [parentThread_of_pos hpos]
      refine h.mem_of_before (ih _ (sq.parent_lt hpos) hp)
        (mem_script_worker.2 ⟨hp, child_parent hpos (sq.mem_runs.1 ht).2.2, rfl⟩)
        (Or.inr ⟨rfl, ?_⟩)
      simp [slot, Slot.before, notifySub, hf]

/-- In a later run, a worker waits for the task before it does anything else. -/
theorem wait_taskAvailable_before {t : ℕ} {e : Event} (he : e ∈ sq.script (.worker t))
    (hf : ¬ sq.isFirst e.run) (hwait : e.op ≠ .wait .taskAvailable t) :
    sq.before ⟨.wait .taskAvailable t, e.run, 0⟩ e := by
  obtain ⟨op, j, k⟩ := e
  have hop := (mem_script_worker.1 he).2
  refine Or.inr ⟨rfl, ?_⟩
  cases op with
  | wait σ i => cases σ <;> simp_all [Performs, slot, Slot.before, notifySub]
  | reset σ i => cases σ <;> simp_all [Performs, slot, Slot.before, notifySub]
  | load σ i => cases σ <;> simp_all [Performs, slot, Slot.before, notifySub]
  | store σ i => cases σ <;> simp_all [Performs, slot, Slot.before, notifySub]
  | _ => simp_all [Performs, slot, Slot.before, notifySub]

/-- A worker that is past `task_wait` of a run finds `task_` set to this run, as
long as it has not signalled its completion or, in a join run, not exited. -/
theorem Inv.task_eq (h : sq.Inv s rem) {t : ℕ} {e : Event} {later : List Event}
    (hrem : rem (.worker t) = e :: later) (hborn : ¬ sq.ForkPending rem t)
    (hwait : e.op ≠ .wait .taskAvailable t)
    (hpending : ⟨.store .taskProcessed t, e.run, 0⟩ ∈ rem (.worker t) ∨
      ⟨.exit t, e.run, 0⟩ ∈ rem (.worker t)) : s.task = some e.run := by
  refine (h.task e.run).2 ⟨fun hstore => ?_, ?_⟩
  · have he : e ∈ rem (.worker t) := by rw [hrem]; exact List.mem_cons_self
    have hrun : e.run ∈ sq.runs t := (Squad.mem_script.1 (h.mem_script he)).1
    by_cases hf : sq.isFirst e.run
    · exact hborn ⟨_, h.fork_mem hf hstore
        ((sq.mem_runs.1 hrun).2.2.trans_le (sq.numThreadsFor_le _))⟩
    · exact h.not_mem_of_before_head hrem
        (wait_taskAvailable_before (h.mem_script he) hf hwait)
        (h.wait_taskAvailable_mem hf hstore hrun)
  · rcases hpending with hmem | hmem
    · exact h.releaseTask_mem hmem
    · exact h.releaseTask_mem_of_exit hmem

/-- As long as a participant has not handed its value over, worker `0` does not
broadcast. -/
theorem Control.synchronizeBroadcast_root_mem (h : sq.Control s rem) {t : ℕ}
    (hmem : ⟨.store .collecting t, j, k⟩ ∈ rem (.worker t)) :
    ⟨.synchronizeBroadcast 0, j, k⟩ ∈ rem (.worker 0) := by
  induction t using Nat.strong_induction_on with
  | _ t ih =>
    obtain ⟨hj, -, hpos, hc, hk⟩ := mem_script_worker.1 (h.mem_script hmem)
    have hwait : ⟨.wait .collecting t, j, k⟩ ∈ rem (sq.parentThread t) :=
      h.await_request .sync hmem
    rw [parentThread_of_pos hpos] at hwait
    obtain ⟨hp, -⟩ := mem_script_worker.1 (h.mem_script hwait)
    have hlt := sq.parent_lt hpos
    rcases Nat.eq_zero_or_pos (sq.parent t) with h0 | hpos'
    · rw [h0] at hwait hp
      refine h.mem_of_before hwait (mem_script_worker.2 ⟨hp, rfl, by omega, hk⟩)
        (Or.inr ⟨rfl, ?_⟩)
      simp [slot, Slot.before]
    · refine ih _ hlt (h.mem_of_before hwait
        (mem_script_worker.2 ⟨hp, rfl, hpos', by omega, hk⟩) (Or.inr ⟨rfl, ?_⟩))
      simp [slot, Slot.before]

/-- As long as worker `0` has not begun to broadcast, nobody has. -/
theorem Control.synchronizeBroadcast_mem (h : sq.Control s rem)
    (hmem : ⟨.synchronizeBroadcast 0, j, k⟩ ∈ rem (.worker 0)) {t : ℕ}
    (ht : t < (sq.task j).concurrency) :
    ⟨.synchronizeBroadcast t, j, k⟩ ∈ rem (.worker t) := by
  obtain ⟨hj, -, -, hk⟩ := mem_script_worker.1 (h.mem_script hmem)
  have hlt := (sq.mem_runs.1 hj).1
  induction t using Nat.strong_induction_on with
  | _ t ih =>
    rcases Nat.eq_zero_or_pos t with rfl | hpos
    · exact hmem
    · have hp := sq.parent_lt hpos
      have hparent := ih _ hp (by omega)
      have hstore : ⟨.store .broadcasting t, j, k⟩ ∈ rem (.worker (sq.parent t)) := by
        refine h.mem_of_before hparent (mem_script_worker.2
          ⟨mem_runs_of_lt_concurrency (by omega) hlt, child_parent hpos ht, hk⟩)
          (Or.inr ⟨rfl, ?_⟩)
        simp [slot, Slot.before]
      rw [← parentThread_of_pos hpos] at hstore
      refine h.mem_of_before (h.await_answer .sync hstore) (mem_script_worker.2
        ⟨mem_runs_of_lt_concurrency ht hlt, rfl, ht, hk⟩) (Or.inr ⟨rfl, ?_⟩)
      simp [slot, Slot.before, Channel.answer]

/-- As long as a participant has not entered a collective, no participant has
left it. -/
theorem Control.leave_mem (h : sq.Control s rem) {t t' : ℕ}
    (hmem : ⟨.enter t j k, j, k⟩ ∈ rem (.worker t)) (ht' : t' < (sq.task j).concurrency) :
    ⟨.leave t' j k, j, k⟩ ∈ rem (.worker t') := by
  obtain ⟨hj, -, -, -, ht, hk⟩ := mem_script_worker.1 (h.mem_script hmem)
  have hlt := (sq.mem_runs.1 hj).1
  have hroot : ⟨.synchronizeBroadcast 0, j, k⟩ ∈ rem (.worker 0) := by
    rcases Nat.eq_zero_or_pos t with rfl | hpos
    · refine h.mem_of_before hmem (mem_script_worker.2 ⟨hj, rfl, ht, hk⟩) (Or.inr ⟨rfl, ?_⟩)
      simp [slot, Slot.before]
    · refine h.synchronizeBroadcast_root_mem (h.mem_of_before hmem
        (mem_script_worker.2 ⟨hj, rfl, hpos, ht, hk⟩) (Or.inr ⟨rfl, ?_⟩))
      simp [slot, Slot.before]
  refine h.mem_of_before (h.synchronizeBroadcast_mem hroot ht') (mem_script_worker.2
    ⟨mem_runs_of_lt_concurrency ht' hlt, rfl, rfl, rfl, ht', hk⟩) (Or.inr ⟨rfl, ?_⟩)
  simp [slot, Slot.before]

end Squad

end Patton.ThreadSquad
