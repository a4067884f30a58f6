import Patton.ThreadSquad.RunProtocol

/-!
# Collectives

A collective of a task is a barrier, and it returns the same value on every
participant: the values of the participants, combined in the order of their
indices.
-/

namespace Patton.ThreadSquad

open Handshake Bracketing

variable {V : Type}

namespace Squad

variable {sq : Squad V} {s s' : State V} {rem : Thread → List Event} {θ : Thread}
  {e : Event} {later : List Event} {ops : List Op} {t i j k : ℕ} {op : Op}
  {tr : List (Thread × Op)} {c : Collective V}

/-- Nothing is between the two accesses with which a worker hands over its value
and waits for the outcome. -/
theorem eq_wait_broadcasting (hk : k < sq.rounds j) (he : e ∈ sq.script (.worker t))
    (hafter : ¬ sq.before e ⟨.store .collecting t, j, k⟩)
    (hne : e ≠ ⟨.store .collecting t, j, k⟩)
    (hle : ¬ sq.before ⟨.wait .broadcasting t, j, k⟩ e) : e = ⟨.wait .broadcasting t, j, k⟩ := by
  obtain ⟨op, j', k'⟩ := e
  have hperforms := (mem_script_worker.1 he).2
  simp only [before, Slot.before, not_or, not_and] at hafter hle
  obtain rfl : j' = j := by omega
  replace hafter := hafter.2 rfl
  replace hle := hle.2 rfl
  cases op with
  | wait σ i => cases σ <;> simp_all [Performs, slot] <;> omega
  | reset σ i => cases σ <;> simp_all [Performs, slot] <;> omega
  | load σ i => cases σ <;> simp_all [Performs, slot] <;> omega
  | store σ i => cases σ <;> simp_all [Performs, slot] <;> omega
  | transform t' j'' k'' =>
      simp only [slot] at hafter hle
      omega
  | _ => simp_all [Performs, slot] <;> omega

/-- A requester waits as long as the answer is not raised. -/
theorem Control.answer_eq_false (h : sq.Control s rem) (ch : Channel)
    (hrem : rem (sq.requester i ch) = ⟨.wait ch.answer i, j, k⟩ :: later)
    (hmem : ⟨.store ch.answer i, j, k⟩ ∈ rem (sq.responder i ch)) :
    s.signal ch.answer i = false := by
  have hsynced := h.synced i ch
  have hnodup := @script_nodup _ sq (sq.requester i ch)
  have hlater := OrderedScript.not_mem_of_nodup hnodup (hrem ▸ h.suffix (sq.requester i ch))
  rw [hrem, List.filterMap_cons, Channel.asRequest_eq_awaitAnswer.2 rfl] at hsynced
  refine hsynced.answer_eq_false (fun hI => hlater ?_)
    ((mem_filterMap_iff fun e => Channel.asResponse_eq_raiseAnswer).2 hmem)
  exact (mem_filterMap_iff fun e => Channel.asRequest_eq_awaitAnswer).1 hI

/-- Between the two halves of a collective, a subthread is blocked. -/
theorem Control.child_blocked (h : sq.Control s rem) (hi : sq.Child (sq.task j).concurrency t i)
    (hk : k < sq.rounds j) (hcollecting : ⟨.wait .collecting i, j, k⟩ ∉ rem (.worker t))
    (hbroadcasting : ⟨.store .broadcasting i, j, k⟩ ∈ rem (.worker t)) :
    (∃ ops, s.code (.worker i) = .wait .broadcasting i :: ops) ∧
      step sq.toConfig s (.worker i) = .blocked := by
  rw [← hi.parentThread] at hcollecting hbroadcasting
  have hstored : ⟨.store .collecting i, j, k⟩ ∉ rem (.worker i) :=
    fun hmem => hcollecting (h.await_request .sync hmem)
  have hwait : ⟨.wait .broadcasting i, j, k⟩ ∈ rem (.worker i) :=
    h.await_answer .sync hbroadcasting
  obtain ⟨e, later, hrem⟩ := List.exists_cons_of_ne_nil (List.ne_nil_of_mem hwait)
  have hmem : e ∈ rem (.worker i) := by
    rw [hrem]
    exact List.mem_cons_self
  have hstore : ⟨.store .collecting i, j, k⟩ ∈ sq.script (.worker i) :=
    mem_script_worker.2 ⟨mem_runs_of_lt hi.2.1, rfl, hi.1, hi.2.1, hk⟩
  obtain rfl := eq_wait_broadcasting hk (Control.mem_script h hmem)
    (fun hbefore => h.not_mem_of_done hstore hstored hbefore hmem)
    (fun heq => hstored (heq ▸ hmem)) (fun hbefore => h.not_mem_of_before_head hrem hbefore hwait)
  have hborn : ∀ t', .worker i = Thread.worker t' → ¬ sq.ForkPending rem t' := by
    rintro t' ht hpending
    obtain rfl : i = t' := by injection ht
    exact hstored ((h.rem_of_forkPending hpending).2 ▸ hstore)
  obtain ⟨ops, a⟩ := h.exists_head_of_rem hrem hborn
  refine ⟨⟨ops, a.code⟩, ?_⟩
  have hflag := h.answer_eq_false .sync hrem hbroadcasting
  rw [a.step_eq]
  simp only [Channel.answer] at hflag
  simp [ThreadSquad.exec, hflag]

theorem enter_mem_script (ht : t < (sq.task j).concurrency) (hk : k < sq.rounds j) :
    ⟨.enter t j k, j, k⟩ ∈ sq.script (.worker t) :=
  mem_script_worker.2 ⟨mem_runs_of_lt ht, rfl, rfl, rfl, ht, hk⟩

theorem leave_mem_script (ht : t < (sq.task j).concurrency) (hk : k < sq.rounds j) :
    ⟨.leave t j k, j, k⟩ ∈ sq.script (.worker t) :=
  mem_script_worker.2 ⟨mem_runs_of_lt ht, rfl, rfl, rfl, ht, hk⟩

theorem History.enter_mem_iff (hh : sq.History tr rem) (ht : t < (sq.task j).concurrency)
    (hk : k < sq.rounds j) :
    (.worker t, .enter t j k) ∈ tr ↔ ⟨.enter t j k, j, k⟩ ∉ rem (.worker t) := by
  rw [hh.mem_iff]
  constructor
  · rintro ⟨⟨op, j', k'⟩, he, hdone, hop⟩
    obtain rfl : op = .enter t j k := hop
    obtain ⟨-, -, rfl, rfl, -⟩ := mem_script_worker.1 he
    exact hdone
  · exact fun hdone => ⟨_, enter_mem_script ht hk, hdone, rfl⟩

/-- A participant that has left a collective has the event done. -/
theorem History.of_leave_mem (hh : sq.History tr rem) (hmem : (.worker t, .leave t j k) ∈ tr) :
    t < (sq.task j).concurrency ∧ k < sq.rounds j ∧ ⟨.leave t j k, j, k⟩ ∉ rem (.worker t) := by
  obtain ⟨⟨op, j', k'⟩, he, hdone, hop⟩ := hh.mem_iff.1 hmem
  obtain rfl : op = .leave t j k := hop
  obtain ⟨-, -, rfl, rfl, ht, hk⟩ := mem_script_worker.1 he
  exact ⟨ht, hk, hdone⟩

theorem History.leave_not_mem (hh : sq.History tr rem)
    (hmem : ⟨.leave t j k, j, k⟩ ∈ rem (.worker t)) : (.worker t, .leave t j k) ∉ tr :=
  fun htr => (hh.of_leave_mem htr).2.2 hmem

/-- What a worker finds when it calls `collect` or `broadcast` for a subthread. -/
theorem Head.child_of_access (a : sq.Head s rem (.worker t) e later ops) (h : sq.Inv s rem)
    (d : sq.Data s rem) (hop : e.op = .collect t i ∨ e.op = .broadcast t i) :
    ∃ j k c, (sq.task j).collectives[k]? = some c ∧ sq.Inside rem t j k ∧
      sq.Child (sq.task j).concurrency t i ∧ sq.Inside rem i j k ∧
      s.syncData i = (if c.hasData then some ⟨i, j, k⟩ else none) ∧
      (∃ data, s.synchronizer i = some ⟨j, k, c, data⟩) ∧
      (∃ ops, s.code (.worker i) = .wait .broadcasting i :: ops) ∧
      step sq.toConfig s (.worker i) = .blocked := by
  obtain ⟨-, hperforms⟩ := a.mem_runs h.toControl
  obtain ⟨op, j, k⟩ := e
  have hfacts : sq.Child (sq.task j).concurrency t i ∧ k < sq.rounds j := by
    rcases hop with hop | hop
    · obtain rfl : op = .collect t i := hop
      exact hperforms.2
    · obtain rfl : op = .broadcast t i := hop
      exact hperforms.2
  obtain ⟨hi, hk⟩ := hfacts
  obtain ⟨c, hc⟩ := exists_collective.2 hk
  have hslot : sq.before ⟨.wait .collecting i, j, k⟩ ⟨op, j, k⟩ ∧
      sq.before ⟨.enter t j k, j, k⟩ ⟨op, j, k⟩ ∧ sq.before ⟨op, j, k⟩ ⟨.leave t j k, j, k⟩ ∧
      sq.before ⟨op, j, k⟩ ⟨.store .broadcasting i, j, k⟩ := by
    rcases hop with rfl | rfl <;> simp [before, slot, Slot.before]
  obtain ⟨hcollecting, henter, hleave, hbroadcasting⟩ := hslot
  have hwait := a.not_mem_of_before h.toControl hcollecting
  have hstore : ⟨.store .broadcasting i, j, k⟩ ∈ rem (.worker t) := a.mem_of_before h.toControl
    (mem_script_worker.2 ⟨mem_runs_of_lt hi.lt, hi, hk⟩) hbroadcasting
  have hpending : ⟨.broadcast t i, j, k⟩ ∈ rem (.worker t) := by
    rcases hop with rfl | rfl
    · refine a.mem_of_before h.toControl
        (mem_script_worker.2 ⟨mem_runs_of_lt hi.lt, rfl, hi, hk⟩) (.inr ⟨rfl, ?_⟩)
      simp [slot, Slot.before]
    · exact a.head_mem
  obtain ⟨hsync, hptr⟩ := h.synchronizer_child d hi hc hwait hpending
  obtain ⟨hcode, hblocked⟩ := h.child_blocked hi hk hwait hstore
  exact ⟨j, k, c, hc, a.inside h.toControl hi.lt hk henter (.inr hleave), hi,
    (h.inside_child hi hk hwait hstore).1, hptr, ⟨_, hsync⟩, hcode, hblocked⟩

theorem exec_access_ne_blocked (hop : op = .collect t i ∨ op = .broadcast t i)
    (cfg : Config V) (s : State V) (θ : Thread) :
    ThreadSquad.exec cfg s θ op ≠ .blocked := by
  rcases hop with rfl | rfl <;> simp only [ThreadSquad.exec] <;> (repeat' split) <;> simp

/-- No participant returns from a collective before every participant has entered
it. A worker calls `collect` or `broadcast` for a subthread while both are inside the
same collective and the subthread is blocked; the pointer is the one to the data of
the subthread's synchronizer, which is null for `synchronize`. The flags of the
collectives are never set twice. -/
theorem collectives_are_barriers (h : Exec sq.toConfig tr s) :
    (∀ t i j k, (.worker t, .leave t j k) ∈ tr → i < (sq.task j).concurrency →
      (.worker i, .enter i j k) ∈ tr) ∧
    (∀ t i op ops, s.code (.worker t) = op :: ops → op = .collect t i ∨ op = .broadcast t i →
      ∃ j k c, (sq.task j).collectives[k]? = some c ∧
        (.worker t, .enter t j k) ∈ tr ∧ (.worker t, .leave t j k) ∉ tr ∧
        (.worker i, .enter i j k) ∈ tr ∧ (.worker i, .leave i j k) ∉ tr ∧
        s.syncData i = (if c.hasData then some ⟨i, j, k⟩ else none) ∧
        (∃ data, s.synchronizer i = some ⟨j, k, c, data⟩) ∧
        (∃ ops, s.code (.worker i) = .wait .broadcasting i :: ops) ∧
        step sq.toConfig s (.worker i) = .blocked) ∧
    ∀ θ i, step sq.toConfig s θ ≠ .fault (.oldValue .collecting i) ∧
      step sq.toConfig s θ ≠ .fault (.oldValue .broadcasting i) := by
  obtain ⟨rem, hinv, hdata, hh⟩ := exec_inv h
  refine ⟨fun t i j k hleave hi => ?_, fun t i op ops hcode hop => ?_, fun θ i =>
    ⟨hinv.not_fault hdata θ _, hinv.not_fault hdata θ _⟩⟩
  · obtain ⟨ht, hk, hdone⟩ := hh.of_leave_mem hleave
    exact (hh.enter_mem_iff hi hk).2 fun hmem => hdone (hinv.leave_mem hmem ht)
  · have hstep : step sq.toConfig s (.worker t) ≠ .blocked := by
      rw [step, hcode]
      exact exec_access_ne_blocked hop _ _ _
    obtain ⟨e, later, rfl, a⟩ := hinv.exists_head hcode hstep
    obtain ⟨j, k, c, hc, hin, hi, hin', hrest⟩ := a.child_of_access hinv hdata hop
    have hk := exists_collective.1 ⟨c, hc⟩
    exact ⟨j, k, c, hc, (hh.enter_mem_iff hi.lt hk).2 hin.2.1, hh.leave_not_mem hin.2.2,
      (hh.enter_mem_iff hi.2.1 hk).2 hin'.2.1, hh.leave_not_mem hin'.2.2, hrest⟩

/-- Two workers run a task that consists of a `synchronize`. -/
def synchronizePair : Squad ℕ where
  numThreads := 2
  tasks := [{ concurrency := 2, collectives := [.synchronize] }]
  one_le_numThreads := pairSquad.one_le_numThreads
  nested := pairSquad.nested
  concurrency_le := by decide
  join_last := by decide

/-- A schedule of the two workers, up to the call of `collect`. -/
def synchronizeSchedule : List Thread :=
  .replicate 7 .controller ++ .replicate 11 (.worker 0) ++ .replicate 11 (.worker 1) ++
    .replicate 1 (.worker 0)

theorem synchronize_replay :
    ((replay synchronizePair.toConfig [] (State.initial synchronizePair.toConfig)
      synchronizeSchedule).map fun r => (r.2.code (.worker 0)).head? == some (.collect 0 1) &&
        r.2.syncData 1 == none) = some true := by
  decide +kernel

theorem exists_synchronize_exec : ∃ tr s, Exec synchronizePair.toConfig tr s ∧
    (s.code (.worker 0)).head? = some (.collect 0 1) ∧ s.syncData 1 = none := by
  have hreplay := synchronize_replay
  rw [Option.map_eq_some_iff] at hreplay
  obtain ⟨⟨tr, s⟩, hr, hmem⟩ := hreplay
  refine ⟨tr, s, Exec.initial.replay hr, ?_⟩
  simpa using hmem

/-- Worker `0` calls `collect` for worker `1` with a null pointer. -/
theorem synchronize_syncData_null : ∃ tr s, Exec synchronizePair.toConfig tr s ∧
    (s.code (.worker 0)).head? = some (.collect 0 1) ∧ s.syncData 1 = none :=
  exists_synchronize_exec

theorem synchronize_are_barriers : ∃ tr s j k, Exec synchronizePair.toConfig tr s ∧
    (.worker 1, .enter 1 j k) ∈ tr ∧ step synchronizePair.toConfig s (.worker 1) = .blocked := by
  obtain ⟨tr, s, h, hhead, -⟩ := exists_synchronize_exec
  obtain ⟨ops, hcode⟩ := List.head?_eq_some_iff.1 hhead
  obtain ⟨j, k, c, -, -, -, henter, -, -, -, -, hblocked⟩ :=
    (collectives_are_barriers h).2.1 0 1 _ _ hcode (.inl rfl)
  exact ⟨tr, s, j, k, h, henter, hblocked⟩

theorem returned_length {m : ℕ} (hm : m ≤ sq.rounds j) : (sq.returned j m).length = m := by
  induction m with
  | zero => rfl
  | succ m ih =>
      obtain ⟨c, hc⟩ := exists_collective.2 hm
      rw [returned_succ hc, List.length_append, ih (by omega), List.length_singleton]

theorem returned_take {m : ℕ} (hm : m ≤ sq.rounds j) (hk : k ≤ m) :
    (sq.returned j m).take k = sq.returned j k := by
  induction m with
  | zero =>
      obtain rfl : k = 0 := by omega
      rfl
  | succ m ih =>
      obtain ⟨c, hc⟩ := exists_collective.2 hm
      rcases hk.lt_or_eq with hlt | rfl
      · rw [returned_succ hc, List.take_append_of_le_length (by
          rw [returned_length (by omega)]
          omega)]
        exact ih (by omega) (by omega)
      · rw [List.take_of_length_le (returned_length hm).le]

theorem returned_getElem? {m : ℕ} (hm : m ≤ sq.rounds j) (hk : k < m)
    (hc : (sq.task j).collectives[k]? = some c) : (sq.returned j m)[k]? =
      some (sq.outcome (sq.task j).concurrency (sq.returned j k) c) := by
  have htake := returned_take hm (Nat.succ_le_of_lt hk)
  have hlen : (sq.returned j k).length = k := returned_length (by omega)
  have hget : ((sq.returned j m).take (k + 1))[k]? = (sq.returned j m)[k]? :=
    List.getElem?_take_of_lt (by omega)
  rw [← hget, htake, returned_succ hc, List.getElem?_append_right (by omega), hlen, Nat.sub_self]
  rfl

/-- A participant has left some of the first collectives, and has their results. -/
theorem Data.exists_results (d : sq.Data s rem) (h : sq.Control s rem)
    (ht : t < (sq.task j).concurrency) : ∃ m ≤ sq.rounds j,
      (∀ k < sq.rounds j, ⟨.leave t j k, j, k⟩ ∈ rem (.worker t) ↔ m ≤ k) ∧
        s.results t j = sq.returned j m := by
  classical
  have hex : ∃ m, m = sq.rounds j ∨ ⟨.leave t j m, j, m⟩ ∈ rem (.worker t) :=
    ⟨_, .inl rfl⟩
  have hle : Nat.find hex ≤ sq.rounds j := Nat.find_min' hex (.inl rfl)
  have hiff : ∀ k < sq.rounds j, ⟨.leave t j k, j, k⟩ ∈ rem (.worker t) ↔ Nat.find hex ≤ k := by
    intro k hk
    constructor
    · exact fun hmem => Nat.find_min' hex (.inr hmem)
    · intro hfind
      have hmem := (Nat.find_spec hex).resolve_left (by omega)
      rcases hfind.lt_or_eq with hlt | heq
      · refine h.mem_of_before hmem (leave_mem_script ht hk) (.inr ⟨rfl, .inl ?_⟩)
        change 2 * Nat.find hex + 3 < 2 * k + 3
        omega
      · rwa [heq] at hmem
  exact ⟨_, hle, hiff, d.results t j _ ht hle hiff⟩

/-- Once some participant has left a collective, every participant has the results
of the earlier ones. -/
theorem exec_returned (h : Exec sq.toConfig tr s) (hleave : (.worker t, .leave t j k) ∈ tr)
    (hc : (sq.task j).collectives[k]? = some c) :
    (s.results t j)[k]? =
        some (sq.outcome (sq.task j).concurrency (sq.returned j k) c) ∧
      ∀ i < (sq.task j).concurrency, (s.results i j).take k = sq.returned j k := by
  obtain ⟨rem, hinv, hdata, hh⟩ := exec_inv h
  obtain ⟨ht, hk, hdone⟩ := hh.of_leave_mem hleave
  constructor
  · obtain ⟨m, hm, hiff, hresults⟩ := hdata.exists_results hinv.toControl ht
    have hkm : k < m := by
      by_contra hge
      exact hdone ((hiff k hk).2 (by omega))
    rw [hresults, returned_getElem? hm hkm hc]
  · intro i hi
    obtain ⟨m, hm, hiff, hresults⟩ := hdata.exists_results hinv.toControl hi
    have hkm : k ≤ m := by
      by_contra hgt
      -- it has entered the collective, so it has left the one before
      have hmem := (hiff m (by omega)).2 le_rfl
      refine hdone (hinv.leave_mem (hinv.mem_of_before hmem (enter_mem_script hi hk)
        (.inr ⟨rfl, ?_⟩)) ht)
      simp [slot, Slot.before]
      omega
    rw [hresults, returned_take hm hkm]

theorem total_congr {c : ℕ} (hc : 0 < c) (hle : c ≤ sq.numThreads) (op : V → V → V)
    {v v' : ℕ → V} (h : ∀ i < c, v i = v' i) : sq.total c op v = sq.total c op v' := by
  refine eval_congr op fun i hi => h i ?_
  rwa [sq.leaves_bracketing_zero hle hc, List.mem_range] at hi

/-- For an associative operation, the values are combined in the order of the
threads. -/
theorem orderedFold_range {c : ℕ} (hc : 0 < c) (hle : c ≤ sq.numThreads) (op : V → V → V)
    [Std.Associative op] (v : ℕ → V) :
    orderedFold op v (List.range c) = some (sq.total c op v) := by
  rw [← sq.leaves_bracketing_zero hle hc, orderedFold_leaves]
  rfl

/-- What the participants of task `j` pass to its `k`-th collective. -/
def passed (s : State V) (j k : ℕ) (value : ℕ → List (Option V) → V) (i : ℕ) : V :=
  value i ((s.results i j).take k)

/-- A `reduce` returns the values of the participants, combined along the bracketing
of the squad. -/
theorem exec_reduce (h : Exec sq.toConfig tr s) (hleave : (.worker t, .leave t j k) ∈ tr)
    {value : ℕ → List (Option V) → V} {op : V → V → V}
    (hc : (sq.task j).collectives[k]? = some (.reduce value op)) :
    (s.results t j)[k]? =
      some (some (sq.total (sq.task j).concurrency op (passed s j k value))) := by
  obtain ⟨hresults, htake⟩ := exec_returned h hleave hc
  obtain ⟨rem, -, -, hh⟩ := exec_inv h
  obtain ⟨ht, -, -⟩ := hh.of_leave_mem hleave
  rw [hresults, outcome]
  congr 2
  refine total_congr (by omega) (sq.concurrency_task_le j) op fun i hi => ?_
  rw [passed, htake i hi]

/-- A `reduce_transform` returns the transform of that. -/
theorem exec_reduceTransform (h : Exec sq.toConfig tr s)
    (hleave : (.worker t, .leave t j k) ∈ tr) {value : ℕ → List (Option V) → V}
    {op : V → V → V} {f : V → V}
    (hc : (sq.task j).collectives[k]? = some (.reduceTransform value op f)) :
    (s.results t j)[k]? =
      some (some (f (sq.total (sq.task j).concurrency op (passed s j k value)))) := by
  obtain ⟨hresults, htake⟩ := exec_returned h hleave hc
  obtain ⟨rem, -, -, hh⟩ := exec_inv h
  obtain ⟨ht, -, -⟩ := hh.of_leave_mem hleave
  rw [hresults, outcome]
  congr 3
  refine total_congr (by omega) (sq.concurrency_task_le j) op fun i hi => ?_
  rw [passed, htake i hi]

theorem eq_of_transform (he : e ∈ sq.script θ) (hop : e.op = .transform t j k) :
    θ = .worker 0 ∧ t = 0 ∧ e = ⟨.transform 0 j k, j, k⟩ := by
  obtain ⟨op, j', k'⟩ := e
  obtain rfl : op = .transform t j k := hop
  cases θ with
  | controller => exact absurd (mem_script_controller.1 he).2 id
  | worker t' =>
      obtain ⟨-, rfl, rfl, rfl, rfl, -⟩ := mem_script_worker.1 he
      exact ⟨rfl, rfl, rfl⟩

theorem unique_transform (j k : ℕ) : sq.Unique (.transform 0 j k) := by
  intro θ e θ' e' he he' hop hop'
  obtain ⟨rfl, -, rfl⟩ := eq_of_transform he hop
  obtain ⟨rfl, -, rfl⟩ := eq_of_transform he' hop'
  exact ⟨rfl, rfl⟩

/-- When a participant leaves, worker `0` has called `transform_func`. -/
theorem History.transform_mem (hh : sq.History tr rem) (h : sq.Control s rem)
    (hleave : (.worker t, .leave t j k) ∈ tr) (hc : (sq.task j).collectives[k]? = some c)
    (hr : c.isReduceTransform) : (.worker 0, .transform 0 j k) ∈ tr := by
  obtain ⟨ht, hk, hdone⟩ := hh.of_leave_mem hleave
  have hpos : 0 < (sq.task j).concurrency := by omega
  have hscript : ⟨.transform 0 j k, j, k⟩ ∈ sq.script (.worker 0) :=
    mem_script_worker.2 ⟨mem_runs_of_lt hpos, rfl, rfl, rfl, rfl, hpos, c, hc, hr⟩
  refine hh.mem_iff.2 ⟨_, hscript, fun hmem => hdone ?_, rfl⟩
  have hroot : ⟨.synchronizeBroadcast 0, j, k⟩ ∈ rem (.worker 0) :=
    h.mem_of_before hmem (mem_script_worker.2 ⟨mem_runs_of_lt hpos, rfl, hpos, hk⟩)
      (.inr ⟨rfl, by simp [slot, Slot.before]⟩)
  exact h.mem_of_before (h.synchronizeBroadcast_mem hroot ht) (leave_mem_script ht hk)
    (.inr ⟨rfl, by simp [slot, Slot.before]⟩)

/-- When `run` has returned, the task is released. -/
theorem History.released (hh : sq.History tr rem) (h : sq.Control s rem)
    (hret : (.controller, .ret j) ∈ tr) : ⟨.releaseTask, j, 0⟩ ∉ rem .controller := by
  obtain ⟨e, he, hdone, hop⟩ := hh.mem_iff.1 hret
  obtain ⟨rfl, -⟩ := ret_event he hop
  exact h.not_mem_of_done he hdone (.inr ⟨rfl, by simp [slot, Slot.before]⟩)

/-- `reduce` and `reduce_transform` return the same on every participant: the
values of all participants in the order of their indices, and for
`reduce_transform` the transform of that, computed once by thread `0`. -/
theorem reduce_delivers (h : Exec sq.toConfig tr s) :
    (∀ t j k, (.controller, .ret j) ∈ tr → t < (sq.task j).concurrency → k < sq.rounds j →
      (.worker t, .leave t j k) ∈ tr) ∧
    ∀ t j k, (.worker t, .leave t j k) ∈ tr →
      (∀ value op, (sq.task j).collectives[k]? = some (.reduce value op) → Std.Associative op →
        (s.results t j)[k]? = some (orderedFold op (passed s j k value)
          (List.range (sq.task j).concurrency))) ∧
      ∀ value op f, (sq.task j).collectives[k]? = some (.reduceTransform value op f) →
        Std.Associative op →
        (s.results t j)[k]? = some ((orderedFold op (passed s j k value)
          (List.range (sq.task j).concurrency)).map f) ∧
        (tr.map Prod.snd).count (.transform 0 j k) = 1 ∧
        ∀ t' ≠ 0, .transform t' j k ∉ tr.map Prod.snd := by
  obtain ⟨rem, hinv, -, hh⟩ := exec_inv h
  refine ⟨fun t j k hret ht hk => ?_, fun t j k hleave => ?_⟩
  · refine hh.mem_iff.2 ⟨_, leave_mem_script ht hk, ?_, rfl⟩
    refine hinv.not_mem_of_released (hh.released hinv.toControl hret) rfl (.inr ⟨rfl, ?_⟩)
    simp [slot, Slot.before]
    omega
  · obtain ⟨ht, -, -⟩ := hh.of_leave_mem hleave
    have hpos : 0 < (sq.task j).concurrency := by omega
    have hle := sq.concurrency_task_le j
    refine ⟨fun value op hc hassoc => ?_, fun value op f hc hassoc => ⟨?_, ?_, ?_⟩⟩
    · rw [exec_reduce h hleave hc, orderedFold_range hpos hle]
    · rw [exec_reduceTransform h hleave hc, orderedFold_range hpos hle, Option.map_some]
    · exact hh.count_eq_one (unique_transform j k)
        (hh.transform_mem hinv.toControl hleave hc rfl)
    · intro t' ht' hmem
      obtain ⟨⟨θ, op'⟩, hmem, hop⟩ := List.mem_map.1 hmem
      obtain ⟨e, he, -, hop'⟩ := hh.mem_iff.1 hmem
      exact ht' (eq_of_transform he (hop'.trans hop)).2.1

theorem pair_reduce_delivers : ∃ tr s, Exec pairSquad.toConfig tr s ∧
    (s.results 0 0)[0]? = some (some 3) ∧ (s.results 1 0)[0]? = some (some 3) := by
  obtain ⟨tr, s, h, hret, -⟩ := exists_pair_exec
  obtain ⟨hleave, hresult⟩ := reduce_delivers h
  have hvalue : ∀ t < 2, (s.results t 0)[0]? = some (some 3) := by
    intro t ht
    rw [(hresult t 0 0 (hleave t 0 0 hret ht (by decide))).1 _ _ rfl ⟨Nat.add_assoc⟩]
    rfl
  exact ⟨tr, s, h, hvalue 0 (by decide), hvalue 1 (by decide)⟩

end Squad

end Patton.ThreadSquad
