import Patton.ThreadSquad.Values

/-!
# Who has done what when data is accessed

A worker touches the synchronizer and the slot of a subthread only while the
subthread is blocked, and it finds there what the subthread has left behind. The
facts of this file follow from the handshakes alone.
-/

namespace Patton.ThreadSquad

open Bracketing

variable {V : Type}

namespace Squad

variable {sq : Squad V} {s s' : State V} {rem rem' : Thread → List Event} {θ : Thread}
  {e : Event} {later : List Event} {ops : List Op} {t i j k : ℕ} {c : Collective V}

theorem lt_length_of_lt_concurrency (h : t < (sq.task j).concurrency) : j < sq.tasks.length := by
  by_contra hge
  rw [Config.task, List.getElem?_eq_none (by omega)] at h
  exact absurd h (by simp [threadSquadNop])

theorem mem_runs_of_lt (h : t < (sq.task j).concurrency) : j ∈ sq.runs t :=
  mem_runs_of_lt_concurrency h (lt_length_of_lt_concurrency h)

/-- What comes before something that is done is done. -/
theorem Control.not_mem_of_done (h : sq.Control s rem) {x y : Event} (hy : y ∈ sq.script θ)
    (hdone : y ∉ rem θ) (hxy : sq.before x y) : x ∉ rem θ :=
  fun hx => hdone (h.mem_of_before hx hy hxy)

/-- A worker is in one collective at a time. -/
theorem Control.inside_unique (h : sq.Control s rem) {j' k' : ℕ} (hin : sq.Inside rem t j k)
    (hin' : sq.Inside rem t j' k') : j = j' ∧ k = k' := by
  have hnot : ∀ {a b a' b' : ℕ}, sq.Inside rem t a b → sq.Inside rem t a' b' →
      ¬ (a < a' ∨ a = a' ∧ b < b') := by
    rintro a b a' b' ⟨-, -, hleave⟩ ⟨hscript, hdone, -⟩ hlt
    refine h.not_mem_of_done hscript hdone ?_ hleave
    rcases hlt with hlt | ⟨rfl, hlt⟩
    · exact .inl hlt
    · refine .inr ⟨rfl, ?_⟩
      simp [slot, Slot.before]
      omega
  have h1 := hnot hin hin'
  have h2 := hnot hin' hin
  omega

theorem Head.inside (a : sq.Head s rem (.worker t) e later ops) (h : sq.Control s rem)
    (ht : t < (sq.task j).concurrency) (hk : k < sq.rounds j)
    (hbefore : sq.before ⟨.enter t j k, j, k⟩ e)
    (hafter : e = ⟨.leave t j k, j, k⟩ ∨ sq.before e ⟨.leave t j k, j, k⟩) :
    sq.Inside rem t j k := by
  refine ⟨mem_script_worker.2 ⟨mem_runs_of_lt ht, rfl, rfl, rfl, ht, hk⟩,
    a.not_mem_of_before h hbefore, ?_⟩
  rcases hafter with rfl | hafter
  · exact a.head_mem
  · exact a.mem_of_before h
      (mem_script_worker.2 ⟨mem_runs_of_lt ht, rfl, rfl, rfl, ht, hk⟩) hafter

/-- Between the two halves of a collective, a subthread is blocked in it, and it
has collected all values of its own subthreads. -/
theorem Control.inside_child (h : sq.Control s rem) (hi : sq.Child (sq.task j).concurrency t i)
    (hk : k < sq.rounds j) (hcollecting : ⟨.wait .collecting i, j, k⟩ ∉ rem (.worker t))
    (hbroadcasting : ⟨.store .broadcasting i, j, k⟩ ∈ rem (.worker t)) :
    sq.Inside rem i j k ∧ sq.collected rem i j k = sq.fromSubthreads i (sq.task j).concurrency ∧
      ⟨.storeSyncData i, j, k⟩ ∈ sq.script (.worker i) ∧
      ⟨.storeSyncData i, j, k⟩ ∉ rem (.worker i) ∧
      ⟨.clearSyncData i, j, k⟩ ∈ rem (.worker i) := by
  have hrun := mem_runs_of_lt hi.2.1
  have hstored : ⟨.store .collecting i, j, k⟩ ∉ rem (.worker i) := by
    intro hmem
    have hwait : ⟨.wait .collecting i, j, k⟩ ∈ rem (sq.parentThread i) :=
      h.await_request .sync hmem
    rw [hi.parentThread] at hwait
    exact hcollecting hwait
  have hstore : ⟨.store .collecting i, j, k⟩ ∈ sq.script (.worker i) :=
    mem_script_worker.2 ⟨hrun, rfl, hi.1, hi.2.1, hk⟩
  have hwait : ⟨.wait .broadcasting i, j, k⟩ ∈ rem (.worker i) :=
    h.await_answer .sync (by rwa [← hi.parentThread] at hbroadcasting)
  refine ⟨⟨mem_script_worker.2 ⟨hrun, rfl, rfl, rfl, hi.2.1, hk⟩,
      h.not_mem_of_done hstore hstored (.inr ⟨rfl, by simp [slot, Slot.before]⟩),
      h.mem_of_before hwait (mem_script_worker.2 ⟨hrun, rfl, rfl, rfl, hi.2.1, hk⟩)
        (.inr ⟨rfl, by simp [slot, Slot.before]⟩)⟩, ?_,
    mem_script_worker.2 ⟨hrun, rfl, hi.1, hi.2.1, hk⟩,
    h.not_mem_of_done hstore hstored (.inr ⟨rfl, by simp [slot, Slot.before]⟩),
    h.mem_of_before hwait (mem_script_worker.2 ⟨hrun, rfl, hi.1, hi.2.1, hk⟩)
      (.inr ⟨rfl, by simp [slot, Slot.before]⟩)⟩
  refine List.filter_eq_self.2 fun i' _ => decide_eq_true ?_
  exact h.not_mem_of_done hstore hstored (.inr ⟨rfl, by simp [slot, Slot.before]⟩)

theorem Control.broadcast_done (h : sq.Control s rem) (hpos : 0 < t)
    (ht : t < (sq.task j).concurrency) (hk : k < sq.rounds j)
    (hwait : ⟨.wait .broadcasting t, j, k⟩ ∉ rem (.worker t)) :
    ⟨.broadcast (sq.parent t) t, j, k⟩ ∉ rem (.worker (sq.parent t)) := by
  have hrun := mem_runs_of_lt ((sq.parent_lt hpos).trans ht)
  have hchild : sq.Child (sq.task j).concurrency (sq.parent t) t := child_parent hpos ht
  have hstore : ⟨.store .broadcasting t, j, k⟩ ∈ sq.script (.worker (sq.parent t)) :=
    mem_script_worker.2 ⟨hrun, hchild, hk⟩
  refine h.not_mem_of_done hstore (fun hmem => hwait ?_)
    (.inr ⟨rfl, by simp [slot, Slot.before]⟩)
  rw [← parentThread_of_pos hpos] at hmem
  exact h.await_answer .sync hmem

theorem Control.broadcast_pending (h : sq.Control s rem) (hpos : 0 < t)
    (ht : t < (sq.task j).concurrency) (hk : k < sq.rounds j)
    (hstore : ⟨.store .collecting t, j, k⟩ ∈ rem (.worker t)) :
    ⟨.broadcast (sq.parent t) t, j, k⟩ ∈ rem (.worker (sq.parent t)) := by
  have hrun := mem_runs_of_lt ((sq.parent_lt hpos).trans ht)
  have hwait : ⟨.wait .collecting t, j, k⟩ ∈ rem (sq.parentThread t) :=
    h.await_request .sync hstore
  rw [parentThread_of_pos hpos] at hwait
  refine h.mem_of_before hwait (mem_script_worker.2 ⟨hrun, rfl, child_parent hpos ht, hk⟩)
    (.inr ⟨rfl, ?_⟩)
  simp [slot, Slot.before]

/-- In the first half of a collective the outcome is not there. -/
theorem Head.delivered_eq_false (a : sq.Head s rem (.worker t) e later ops)
    (h : sq.Control s rem) (ht : t < (sq.task j).concurrency)
    (hc : (sq.task j).collectives[k]? = some c)
    (hcollecting : sq.before e ⟨.store .collecting t, j, k⟩)
    (htransform : sq.before e ⟨.transform t j k, j, k⟩) : sq.delivered rem t j k c = false := by
  have hk := exists_collective.1 ⟨c, hc⟩
  have hrun := mem_runs_of_lt ht
  rw [delivered]
  rcases Nat.eq_zero_or_pos t with rfl | hpos
  · rw [if_neg (lt_irrefl 0)]
    by_cases hr : c.isReduceTransform
    · have hmem : ⟨.transform 0 j k, j, k⟩ ∈ rem (.worker 0) := a.mem_of_before h
        (mem_script_worker.2 ⟨hrun, rfl, rfl, rfl, rfl, ht, c, hc, hr⟩) htransform
      simp [hmem]
    · simp [hr]
  · rw [if_pos hpos]
    have hmem := h.broadcast_pending hpos ht hk (a.mem_of_before h
      (mem_script_worker.2 ⟨hrun, rfl, hpos, ht, hk⟩) hcollecting)
    simp [hmem]

/-- In the second half of a collective the outcome is there, or it is the value
which worker `0` has collected. -/
theorem Head.delivered_or (a : sq.Head s rem (.worker t) e later ops)
    (h : sq.Control s rem) (ht : t < (sq.task j).concurrency)
    (hc : (sq.task j).collectives[k]? = some c)
    (hbroadcasting : sq.before ⟨.wait .broadcasting t, j, k⟩ e)
    (htransform : sq.before ⟨.transform t j k, j, k⟩ e) :
    sq.delivered rem t j k c = true ∨
      sq.delivered rem t j k c = false ∧ t = 0 ∧ c.isReduceTransform = false := by
  have hk := exists_collective.1 ⟨c, hc⟩
  rw [delivered]
  rcases Nat.eq_zero_or_pos t with rfl | hpos
  · rw [if_neg (lt_irrefl 0)]
    by_cases hr : c.isReduceTransform
    · simp [hr, a.not_mem_of_before h htransform]
    · simp [hr]
  · rw [if_pos hpos]
    simp [h.broadcast_done hpos ht hk (a.not_mem_of_before h hbroadcasting)]

/-- A worker is not merged before it has signalled its completion. -/
theorem Head.merge_pending (a : sq.Head s rem (.worker t) e later ops) (h : sq.Control s rem)
    (ht : t < (sq.task j).concurrency) (hpos : 0 < t)
    (hbefore : sq.before e ⟨.store .taskProcessed t, j, 0⟩) :
    ⟨.merge j (sq.parent t) t, j, 0⟩ ∈ rem (.worker (sq.parent t)) := by
  have hstore : ⟨.store .taskProcessed t, j, 0⟩ ∈ rem (.worker t) :=
    a.mem_of_before h (mem_script_worker.2 ⟨mem_runs_of_lt ht, rfl, rfl⟩) hbefore
  have hwait : ⟨.wait .taskProcessed t, j, 0⟩ ∈ rem (sq.parentThread t) :=
    h.await_answer .task hstore
  rw [parentThread_of_pos hpos] at hwait
  have hp := (sq.parent_lt hpos).trans ht
  refine h.mem_of_before hwait
    (mem_script_worker.2 ⟨mem_runs_of_lt hp, rfl, rfl, child_parent hpos ht, rfl⟩) (.inr ⟨rfl, ?_⟩)
  simp [slot, Slot.before]

/-- A subthread that has signalled its completion has stored and merged
everything, and is still to be merged itself. -/
theorem Control.engaged_child (h : sq.Control s rem) (hi : sq.Child (sq.task j).concurrency t i)
    (hwait : ⟨.wait .taskProcessed i, j, 0⟩ ∉ rem (.worker t))
    (hmerge : ⟨.merge j t i, j, 0⟩ ∈ rem (.worker t)) :
    sq.Engaged rem i j ∧ sq.merged rem i j = sq.fromSubthreads i (sq.task j).concurrency := by
  have hstore : ⟨.store .taskProcessed i, j, 0⟩ ∈ sq.script (.worker i) :=
    mem_script_worker.2 ⟨mem_runs_of_lt hi.2.1, rfl, rfl⟩
  have hdone : ⟨.store .taskProcessed i, j, 0⟩ ∉ rem (.worker i) := by
    intro hmem
    have hmem' : ⟨.wait .taskProcessed i, j, 0⟩ ∈ rem (sq.parentThread i) :=
      h.await_answer .task hmem
    rw [hi.parentThread] at hmem'
    exact hwait hmem'
  refine ⟨⟨hi.2.1, h.not_mem_of_done hstore hdone
    (.inr ⟨rfl, by simp [slot, Slot.before]⟩), ?_⟩, ?_⟩
  · intro _
    rwa [hi.2.2]
  · refine List.filter_eq_self.2 fun i' _ => decide_eq_true ?_
    exact h.not_mem_of_done hstore hdone (.inr ⟨rfl, by simp [slot, Slot.before]⟩)

/-- Meeting a subthread adds it to those met so far. -/
theorem Advance.filter_done (a : sq.Advance s s' rem rem' θ e ops) (h : sq.Control s rem)
    {l : List ℕ} (hl : l.Pairwise (· < ·)) {event : ℕ → Event}
    (hscript : ∀ x ∈ l, event x ∈ sq.script θ)
    (hbefore : ∀ x y, x < y → sq.before (event x) (event y)) (hi : i ∈ l) (he : e = event i) :
    (l.filter fun x => event x ∉ rem' θ) = (l.filter fun x => event x ∉ rem θ) ++ [i] := by
  obtain ⟨l₁, l₂, rfl⟩ := List.append_of_mem hi
  subst he
  have hpair := List.pairwise_append.1 hl
  have hlater : ∀ x ∈ l₂, event x ∈ rem' θ := by
    intro x hx
    exact a.mem_later_of_before h (hscript x (by simp [hx]))
      (hbefore i x ((List.pairwise_cons.1 hpair.2.1).1 x hx))
  have hdone : ∀ x ∈ l₁, event x ∉ rem θ := by
    intro x hx
    exact a.not_mem_of_before h (hbefore x i (hpair.2.2 x hx i List.mem_cons_self))
  have hi' : event i ∉ rem' θ := by
    rw [a.mem_iff h]
    simp
  have hdone' : ∀ x ∈ l₁, event x ∉ rem' θ := fun x hx hmem => hdone x hx (a.mem_rem_of_mem hmem)
  have hfilter : ((l₁ ++ i :: l₂).filter fun x => event x ∉ rem θ) = l₁ := by
    rw [List.filter_append, List.filter_eq_self.2 fun x hx => decide_eq_true (hdone x hx),
      List.filter_cons_of_neg (by simpa using a.head_mem),
      List.filter_eq_nil_iff.2 fun x hx => by simp [a.mem_rem_of_mem (hlater x hx)],
      List.append_nil]
  rw [hfilter, List.filter_append, List.filter_cons_of_pos (by simpa using hi'),
    List.filter_eq_self.2 fun x hx => decide_eq_true (hdone' x hx),
    List.filter_eq_nil_iff.2 fun x hx => by simp [hlater x hx]]

end Squad

end Patton.ThreadSquad
