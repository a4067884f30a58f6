import Patton.Library.OrderedScript
import Patton.ThreadSquad.Script

/-!
# The order of a script

The segments of a thread in one run have increasing slots, and the operations of
a segment have its slot. So every script is sorted by `before` and free of
duplicates.
-/

namespace Patton.ThreadSquad

variable {V : Type}

theorem Slot.before.trans {a b c : Slot} (h : a.before b) (h' : b.before c) : a.before c := by
  unfold Slot.before at *
  omega

/-- Two slots on different sides of `σ` are ordered. -/
theorem Slot.before_of_split {σ a b : Slot} (ha : a.before σ) (hb : ¬ b.before σ) :
    a.before b := by
  unfold Slot.before at *
  omega

theorem Slot.not_before_self (a : Slot) : ¬ a.before a := by
  unfold Slot.before
  omega

theorem Slot.before.asymm {a b : Slot} (h : a.before b) : ¬ b.before a := by
  unfold Slot.before at *
  omega

namespace Squad

variable (sq : Squad V)

theorem threadRuns_pairwise (θ : Thread) : (sq.threadRuns θ).Pairwise (· < ·) := by
  cases θ with
  | controller => exact List.pairwise_lt_range
  | worker t => exact sq.runs_pairwise t

/-- A segment fits run `j`: its operations are distinct and have its slot. -/
def Fits (j : ℕ) (seg : Segment) : Prop :=
  seg.ops.Nodup ∧ ∀ op ∈ seg.ops, sq.slot j seg.round op = seg.slot

theorem wakeSegments_fits (t j : ℕ) : ∀ seg ∈ sq.wakeSegments t j, sq.Fits j seg := by
  by_cases h : sq.isFirst j
  · rw [wakeSegments, if_pos h]
    simp only [List.cons_append, List.forall_mem_cons, List.forall_mem_append,
      List.forall_mem_flatMap]
    simp [Fits, notifyThread, setAndNotify, slot, notifySub, h]
  · rw [wakeSegments, if_neg h]
    simp only [List.forall_mem_cons, List.forall_mem_append, List.forall_mem_flatMap]
    simp [Fits, notifyThread, setAndNotify, slot, notifySub, h]

theorem roundSegments_fits (t j k : ℕ) (c : Collective V) :
    ∀ seg ∈ sq.roundSegments t j k c, sq.Fits j seg := by
  have htransform : sq.Fits j ⟨k, ⟨2 * k + 3, 2, 0⟩, c.transformBody t j k⟩ := by
    cases c <;> by_cases h : t = 0 <;> simp [Fits, Collective.transformBody, h, slot]
  simp only [roundSegments, List.forall_mem_append, List.forall_mem_flatMap,
    List.forall_mem_cons, List.not_mem_nil, false_implies, implies_true, and_true]
  by_cases h : 0 < t <;>
    simp [Fits, setAndNotify, slot, h, htransform.1] <;>
    exact htransform.2

theorem taskSegments_fits (t j : ℕ) : ∀ seg ∈ sq.taskSegments t j, sq.Fits j seg := by
  have hresult : sq.Fits j
      ⟨0, ⟨2 * sq.rounds j + 2, 0, 0⟩, (sq.task j).kind.resultBody t j⟩ := by
    cases h : (sq.task j).kind <;> simp [Fits, TaskKind.resultBody, slot]
  unfold taskSegments
  split
  · refine List.forall_mem_append.2 ⟨List.forall_mem_cons.2 ⟨?_, ?_⟩, ?_⟩
    · simp [Fits, slot]
    · exact List.forall_mem_flatMap.2 fun ck _ => sq.roundSegments_fits t j ck.2 ck.1
    · simpa using hresult
  · simp [Fits, slot]

theorem finishSegments_fits (t j : ℕ) : ∀ seg ∈ sq.finishSegments t j, sq.Fits j seg := by
  have hjoins : sq.Fits j ⟨0, ⟨2 * sq.rounds j + 4, 0, 1⟩,
      (sq.fromSubthreads t sq.numThreads).map .join⟩ := by
    refine ⟨(sq.fromSubthreads_nodup t _).map fun a b h => by cases h; rfl, ?_⟩
    exact List.forall_mem_map.2 fun i _ => rfl
  have hmerge : ∀ i, sq.Fits j ⟨0, ⟨2 * sq.rounds j + 2, 1, 2 * i + 2⟩,
      .mergeIfParticipant t i ::
        if i < (sq.task j).concurrency then [.merge j t i] else []⟩ := by
    intro i
    split <;> simp [Fits, slot]
  simp only [finishSegments, List.forall_mem_append, List.forall_mem_flatMap,
    List.forall_mem_cons, List.not_mem_nil, false_implies, implies_true, and_true]
  refine ⟨⟨⟨?_, fun i _ => ⟨?_, hmerge i⟩⟩, ?_, ?_⟩, ?_⟩
  · simp [Fits, slot]
  · simp [Fits, slot]
  · simp [Fits, taskSignalCompletion, setAndNotify, slot]
  · simp [Fits, slot]
  · split
    · simp only [List.forall_mem_cons, List.not_mem_nil, false_implies, implies_true, and_true]
      exact ⟨by simp [Fits, slot], hjoins, by simp [Fits, slot]⟩
    · simp

theorem controllerSegments_fits (j : ℕ) :
    ∀ seg ∈ sq.controllerSegments j, sq.Fits j seg := by
  simp only [controllerSegments,
    List.forall_mem_cons, List.not_mem_nil, false_implies, implies_true, and_true]
  by_cases h : sq.haveWork j <;> by_cases h' : sq.isFirst j <;>
    by_cases h'' : (sq.task j).joinRequested <;>
    simp [Fits, notifyThread, setAndNotify, slot, h, h', h'']

theorem segments_fits (θ : Thread) (j : ℕ) : ∀ seg ∈ sq.segments θ j, sq.Fits j seg := by
  cases θ with
  | controller => exact sq.controllerSegments_fits j
  | worker t =>
      exact List.forall_mem_append.2 ⟨List.forall_mem_append.2
        ⟨sq.wakeSegments_fits t j, sq.taskSegments_fits t j⟩, sq.finishSegments_fits t j⟩

theorem childPos_pairwise {t c : ℕ} (hc : c ≤ sq.numThreads) :
    (sq.toSubthreads t c).Pairwise fun a b => sq.childPos c a < sq.childPos c b := by
  have hidx : (sq.toSubthreads t c).Pairwise fun a b =>
      (sq.toSubthreads t c).idxOf a < (sq.toSubthreads t c).idxOf b := by
    rw [List.pairwise_iff_getElem]
    intro i j hi hj hij
    rw [(sq.toSubthreads_nodup t c).idxOf_getElem, (sq.toSubthreads_nodup t c).idxOf_getElem]
    exact hij
  refine hidx.imp_of_mem fun ha hb hab => ?_
  rw [childPos, childPos, ((sq.mem_toSubthreads hc).1 ha).2.2,
    ((sq.mem_toSubthreads hc).1 hb).2.2]
  exact hab

theorem wakeSegments_pairwise (t j : ℕ) :
    (sq.wakeSegments t j).Pairwise fun a b => a.slot.before b.slot := by
  have hnotify : ((sq.toSubthreads t (sq.numThreadsFor j)).flatMap fun i =>
      [(⟨0, ⟨1, sq.notifySub j, 2 * sq.childPos (sq.numThreadsFor j) i + 1⟩,
          notifyThread i⟩ : Segment),
        ⟨0, ⟨1, sq.notifySub j, 2 * sq.childPos (sq.numThreadsFor j) i + 2⟩,
          if sq.isFirst j then [.fork i] else []⟩]).Pairwise
      fun a b => a.slot.before b.slot := by
    refine List.pairwise_flatMap.2 ⟨fun i _ => by simp [Slot.before], ?_⟩
    refine (sq.childPos_pairwise (sq.numThreadsFor_le j)).imp fun hab => ?_
    simp [Slot.before]
    omega
  by_cases h : sq.isFirst j
  · rw [wakeSegments, if_pos h]
    simp only [List.cons_append, List.pairwise_cons, List.pairwise_append, hnotify,
      List.forall_mem_append, List.forall_mem_flatMap, List.forall_mem_cons]
    simp [Slot.before, notifySub, h]
  · rw [wakeSegments, if_neg h]
    simp only [List.cons_append, List.nil_append, List.pairwise_cons, hnotify,
      List.forall_mem_cons, List.forall_mem_flatMap]
    simp [Slot.before, notifySub, h]

theorem roundSegments_pairwise (t j k : ℕ) (c : Collective V) :
    (sq.roundSegments t j k c).Pairwise fun a b => a.slot.before b.slot := by
  have hcollect : (((sq.fromSubthreads t (sq.task j).concurrency).flatMap fun i =>
      [(⟨k, ⟨2 * k + 2, 1, 2 * i + 1⟩, [.wait .collecting i]⟩ : Segment),
        ⟨k, ⟨2 * k + 2, 1, 2 * i + 2⟩, [.collect t i]⟩])).Pairwise
      fun a b => a.slot.before b.slot := by
    refine List.pairwise_flatMap.2 ⟨fun i _ => by simp [Slot.before], ?_⟩
    refine (sq.fromSubthreads_pairwise t _).imp fun hab => ?_
    simp [Slot.before]
    omega
  have hbroadcast : ((sq.toSubthreads t (sq.task j).concurrency).flatMap fun i =>
      [(⟨k, ⟨2 * k + 3, 3, 2 * sq.childPos (sq.task j).concurrency i + 1⟩,
          [.broadcast t i]⟩ : Segment),
        ⟨k, ⟨2 * k + 3, 3, 2 * sq.childPos (sq.task j).concurrency i + 2⟩,
          .reset .collecting i :: setAndNotify .broadcasting i⟩]).Pairwise
      fun a b => a.slot.before b.slot := by
    refine List.pairwise_flatMap.2 ⟨fun i _ => by simp [Slot.before], ?_⟩
    refine (sq.childPos_pairwise (sq.concurrency_task_le j)).imp fun hab => ?_
    simp [Slot.before]
    omega
  simp only [roundSegments, List.pairwise_append, List.pairwise_cons, List.forall_mem_append, 
    List.forall_mem_flatMap, List.forall_mem_cons, List.cons_append, hcollect, hbroadcast]
  simp [Slot.before]

theorem roundSegments_stage {t j k : ℕ} {c : Collective V} :
    ∀ seg ∈ sq.roundSegments t j k c,
      seg.round = k ∧ 2 * k + 2 ≤ seg.slot.stage ∧ seg.slot.stage ≤ 2 * k + 3 := by
  simp only [roundSegments, List.cons_append, List.forall_mem_append, List.forall_mem_flatMap,
    List.forall_mem_cons]
  simp

theorem taskSegments_pairwise (t j : ℕ) :
    (sq.taskSegments t j).Pairwise fun a b => a.slot.before b.slot := by
  have hrounds : (((sq.task j).collectives.zipIdx.flatMap fun ck =>
      sq.roundSegments t j ck.2 ck.1)).Pairwise fun a b => a.slot.before b.slot := by
    refine List.pairwise_flatMap.2 ⟨fun ck _ => sq.roundSegments_pairwise t j ck.2 ck.1, ?_⟩
    have hidx : (sq.task j).collectives.zipIdx.Pairwise fun a b => a.2 < b.2 := by
      rw [List.pairwise_iff_getElem]
      intro a b ha hb hab
      simpa using hab
    refine hidx.imp fun {a b} hab x hx y hy => Or.inl ?_
    have h1 := sq.roundSegments_stage x hx
    have h2 := sq.roundSegments_stage y hy
    omega
  have hbound : ∀ ck ∈ (sq.task j).collectives.zipIdx, ∀ seg ∈ sq.roundSegments t j ck.2 ck.1,
      1 < seg.slot.stage ∧ seg.slot.stage < 2 * sq.rounds j + 2 := by
    intro ck hck seg hseg
    have h1 := sq.roundSegments_stage seg hseg
    have h2 : ck.2 < sq.rounds j := (List.mem_zipIdx' hck).1
    omega
  unfold taskSegments
  split
  · simp only [List.cons_append, List.pairwise_cons, List.pairwise_append, hrounds,
      List.forall_mem_append, List.forall_mem_flatMap, List.forall_mem_singleton]
    refine ⟨⟨fun ck hck seg hseg => Or.inl (hbound ck hck seg hseg).1, by simp [Slot.before]⟩,
      trivial, by simp, fun ck hck seg hseg => Or.inl (hbound ck hck seg hseg).2⟩
  · simp

theorem finishSegments_pairwise (t j : ℕ) :
    (sq.finishSegments t j).Pairwise fun a b => a.slot.before b.slot := by
  have hwait : ((sq.fromSubthreads t (sq.numThreadsFor j)).flatMap fun i =>
      [(⟨0, ⟨2 * sq.rounds j + 2, 1, 2 * i + 1⟩, [.wait .taskProcessed i]⟩ : Segment),
        ⟨0, ⟨2 * sq.rounds j + 2, 1, 2 * i + 2⟩,
          .mergeIfParticipant t i ::
            if i < (sq.task j).concurrency then [.merge j t i] else []⟩]).Pairwise
      fun a b => a.slot.before b.slot := by
    refine List.pairwise_flatMap.2 ⟨fun i _ => by simp [Slot.before], ?_⟩
    refine (sq.fromSubthreads_pairwise t _).imp fun hab => ?_
    simp [Slot.before]
    omega
  by_cases h : (sq.task j).joinRequested <;>
    simp only [finishSegments, h, List.pairwise_append, List.pairwise_cons,
      List.forall_mem_append, List.forall_mem_flatMap, List.forall_mem_cons, List.cons_append,
      hwait] <;>
    simp [Slot.before]

theorem controllerSegments_pairwise (j : ℕ) :
    (sq.controllerSegments j).Pairwise fun a b => a.slot.before b.slot := by
  simp [controllerSegments, Slot.before]

theorem segments_pairwise (θ : Thread) (j : ℕ) :
    (sq.segments θ j).Pairwise fun a b => a.slot.before b.slot := by
  cases θ with
  | controller => exact sq.controllerSegments_pairwise j
  | worker t =>
      have hwake : ∀ seg ∈ sq.wakeSegments t j, seg.slot.before ⟨1, 2, 0⟩ := by
        by_cases h : sq.isFirst j
        · rw [wakeSegments, if_pos h]
          simp only [List.cons_append, List.forall_mem_cons, List.forall_mem_append,
            List.forall_mem_flatMap]
          simp [Slot.before, notifySub, h]
        · rw [wakeSegments, if_neg h]
          simp only [List.forall_mem_append, List.forall_mem_cons, List.forall_mem_flatMap]
          simp [Slot.before, notifySub, h]
      have htask : ∀ seg ∈ sq.taskSegments t j, ¬ seg.slot.before ⟨1, 2, 0⟩ ∧ 
          seg.slot.before ⟨2 * sq.rounds j + 2, 1, 0⟩ := by
        unfold taskSegments
        split
        · simp only [List.cons_append, List.forall_mem_cons, List.forall_mem_append,
            List.forall_mem_flatMap]
          refine ⟨by simp [Slot.before], fun ck hck seg hseg => ?_, by simp [Slot.before]⟩
          have h1 := sq.roundSegments_stage seg hseg
          have h2 : ck.2 < sq.rounds j := (List.mem_zipIdx' hck).1
          unfold Slot.before
          simp only
          omega
        · simp [Slot.before]
      have hfinish : ∀ seg ∈ sq.finishSegments t j,
          ¬ seg.slot.before ⟨2 * sq.rounds j + 2, 1, 0⟩ := by
        by_cases h : (sq.task j).joinRequested <;>
          simp only [finishSegments, h, List.cons_append, List.forall_mem_cons,
            List.forall_mem_append, List.forall_mem_flatMap] <;>
          simp [Slot.before]
      refine List.pairwise_append.2 ⟨List.pairwise_append.2 ⟨sq.wakeSegments_pairwise t j,
        sq.taskSegments_pairwise t j, ?_⟩, sq.finishSegments_pairwise t j, ?_⟩
      · intro a ha b hb
        exact Slot.before_of_split (hwake a ha) (htask b hb).1
      · intro a ha b hb
        rcases List.mem_append.1 ha with ha | ha
        · exact Slot.before_of_split ((hwake a ha).trans (by simp [Slot.before])) (hfinish b hb)
        · exact Slot.before_of_split (htask a ha).2 (hfinish b hb)

variable {sq}

theorem mem_events {θ : Thread} {j : ℕ} {e : Event} :
    e ∈ sq.events θ j ↔
      e.run = j ∧ ∃ seg ∈ sq.segments θ j, e.op ∈ seg.ops ∧ e.round = seg.round := by
  simp only [events, List.mem_flatMap, Segment.events, List.mem_map]
  constructor
  · rintro ⟨seg, hseg, op, hop, rfl⟩
    exact ⟨rfl, seg, hseg, hop, rfl⟩
  · rintro ⟨hrun, seg, hseg, hop, hround⟩
    exact ⟨seg, hseg, e.op, hop, by rw [← hrun, ← hround]⟩

theorem mem_script {θ : Thread} {e : Event} :
    e ∈ sq.script θ ↔ e.run ∈ sq.threadRuns θ ∧ e ∈ sq.events θ e.run := by
  rw [script, List.mem_flatMap]
  constructor
  · rintro ⟨j, hj, he⟩
    have hrun : e.run = j := (mem_events.1 he).1
    exact ⟨hrun ▸ hj, hrun ▸ he⟩
  · rintro ⟨hj, he⟩
    exact ⟨e.run, hj, he⟩

theorem not_before_self (e : Event) : ¬ sq.before e e := by
  rintro (h | ⟨-, h⟩)
  · exact lt_irrefl _ h
  · exact Slot.not_before_self _ h

theorem before_asymm {e e' : Event} (h : sq.before e e') : ¬ sq.before e' e := by
  rintro (h' | ⟨h1, h2⟩)
  · rcases h with h | ⟨h, -⟩ <;> omega
  · rcases h with h | ⟨-, h⟩
    · omega
    · exact h.asymm h2

/-- In one run, the events of a thread come in segments of increasing slots. -/
theorem events_pairwise (θ : Thread) (j : ℕ) :
    (sq.segments θ j).Pairwise fun a b =>
      ∀ x ∈ a.events j, ∀ y ∈ b.events j, sq.before x y := by
  refine (sq.segments_pairwise θ j).imp_of_mem fun {a b} ha hb hab => ?_
  simp only [Segment.events, List.forall_mem_map]
  intro x hx y hy
  refine Or.inr ⟨rfl, ?_⟩
  rw [(sq.segments_fits θ j a ha).2 x hx, (sq.segments_fits θ j b hb).2 y hy]
  exact hab

theorem script_pairwise (θ : Thread) :
    (sq.threadRuns θ).Pairwise fun i j =>
      ∀ x ∈ sq.events θ i, ∀ y ∈ sq.events θ j, sq.before x y := by
  refine (sq.threadRuns_pairwise θ).imp fun {i j} hij x hx y hy => Or.inl ?_
  rw [(mem_events.1 hx).1, (mem_events.1 hy).1]
  exact hij

theorem script_sorted (θ : Thread) : OrderedScript.Sorted sq.before (sq.script θ) := by
  refine OrderedScript.sorted_flatMap (fun j _ => ?_) ?_
  · refine OrderedScript.sorted_flatMap (fun seg hseg => ?_) ?_
    · -- the operations of one segment share its slot
      rw [OrderedScript.Sorted, Segment.events, List.pairwise_map]
      refine List.pairwise_of_forall_mem_list fun x hx y hy => ?_
      rintro (h | ⟨-, h⟩)
      · exact lt_irrefl _ h
      · simp only [(sq.segments_fits θ j seg hseg).2 x hx,
          (sq.segments_fits θ j seg hseg).2 y hy] at h
        exact Slot.not_before_self _ h
    · exact (events_pairwise θ j).imp fun h x hx y hy => before_asymm (h x hx y hy)
  · exact (script_pairwise θ).imp fun h x hx y hy => before_asymm (h x hx y hy)

theorem script_nodup (θ : Thread) : (sq.script θ).Nodup := by
  refine OrderedScript.nodup_flatMap_of_before not_before_self (fun j _ => ?_)
    (script_pairwise θ)
  refine OrderedScript.nodup_flatMap_of_before not_before_self (fun seg hseg => ?_)
    (events_pairwise θ j)
  refine (sq.segments_fits θ j seg hseg).1.map fun x y h => ?_
  injection h

end Squad

end Patton.ThreadSquad
