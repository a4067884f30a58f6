import Patton.ThreadSquad.DataSteps

/-!
# The data invariant

Every step keeps the invariant of the data, so in every reachable state the
synchronizers, the slots and the results are those of the bracketing.
-/

namespace Patton.ThreadSquad

open Bracketing

variable {V : Type}

namespace Squad

variable {sq : Squad V} {s s' : State V} {rem rem' : Thread → List Event} {θ : Thread}
  {e : Event} {ops : List Op} {t i j k : ℕ} {c : Collective V}

theorem Data.initial : sq.Data (State.initial sq.toConfig) sq.script where
  results := fun t j m ht hm hmem => by
    cases m with
    | zero => rfl
    | succ m =>
        have hscript : ⟨.leave t j m, j, m⟩ ∈ sq.script (.worker t) :=
          mem_script_worker.2 ⟨mem_runs_of_lt ht, rfl, rfl, rfl, ht, hm⟩
        exact absurd ((hmem m hm).1 hscript) (by omega)
  synchronizer := fun t j k c _ ⟨hscript, hdone, _⟩ => absurd hscript hdone
  syncData := fun t j k c _ hscript hdone _ => absurd hscript hdone
  slot := fun t j transform op hkind => by
    refine ⟨fun ⟨ht, hdone, _⟩ => absurd ?_ hdone, fun _ => rfl⟩
    exact mem_script_worker.2 ⟨mem_runs_of_lt ht, rfl, rfl, ht, by rw [hkind]; rfl, rfl⟩

namespace Advance

theorem collected_eq (a : sq.Advance s s' rem rem' θ e ops) (h : sq.Control s rem)
    (hop : ∀ i, e.op ≠ .collect t i) : sq.collected rem' t j k = sq.collected rem t j k := by
  refine List.filter_congr fun i _ => ?_
  rw [decide_eq_decide, a.mem_iff_of_op_ne h (Ne.symm (hop i))]

theorem delivered_eq (a : sq.Advance s s' rem rem' θ e ops) (h : sq.Control s rem)
    (hbroadcast : e.op ≠ .broadcast (sq.parent t) t)
    (htransform : ¬ (t = 0 ∧ e.op = .transform 0 j k)) :
    sq.delivered rem' t j k c = sq.delivered rem t j k c := by
  rw [delivered, delivered]
  rcases Nat.eq_zero_or_pos t with rfl | hpos
  · rw [if_neg (lt_irrefl 0), if_neg (lt_irrefl 0),
      decide_eq_decide.2 (not_congr (a.mem_iff_of_op_ne h fun hop => htransform ⟨rfl, hop.symm⟩))]
  · rw [if_pos hpos, if_pos hpos,
      decide_eq_decide.2 (not_congr (a.mem_iff_of_op_ne h (Ne.symm hbroadcast)))]

theorem merged_eq (a : sq.Advance s s' rem rem' θ e ops) (h : sq.Control s rem)
    (hop : ∀ i, e.op ≠ .merge j t i) : sq.merged rem' t j = sq.merged rem t j := by
  refine List.filter_congr fun i _ => ?_
  rw [decide_eq_decide, a.mem_iff_of_op_ne h (Ne.symm (hop i))]

/-- A worker that is in a collective after a step was in it before, unless the
step has entered it. -/
theorem inside_of_inside (a : sq.Advance s s' rem rem' θ e ops) (h : sq.Control s rem)
    (hop : e.op ≠ .enter t j k) (hin : sq.Inside rem' t j k) : sq.Inside rem t j k :=
  ⟨hin.1, fun hmem => hin.2.1 ((a.mem_iff_of_op_ne h (Ne.symm hop)).2 hmem),
    a.mem_rem_of_mem hin.2.2⟩

/-- A worker that enters a collective has collected nothing in it. -/
theorem collected_of_enter (a : sq.Advance s s' rem rem' (.worker t) ⟨.enter t j k, j, k⟩ ops)
    (h : sq.Control s rem) : sq.collected rem' t j k = [] := by
  obtain ⟨-, -, -, -, ht, hk⟩ := a.mem_runs h
  rw [a.collected_eq h (by simp)]
  refine List.filter_eq_nil_iff.2 fun i hi => ?_
  have hmem : ⟨.collect t i, j, k⟩ ∈ rem (.worker t) := a.mem_of_before h
    (mem_script_worker.2 ⟨mem_runs_of_lt ht, rfl, mem_fromSubthreads_task.1 hi, hk⟩)
    (.inr ⟨rfl, by simp [slot, Slot.before]⟩)
  simp [hmem]

theorem collected_of_collect
    (a : sq.Advance s s' rem rem' (.worker t) ⟨.collect t i, j, k⟩ ops) (h : sq.Control s rem) :
    sq.collected rem' t j k = sq.collected rem t j k ++ [i] := by
  obtain ⟨-, -, hi, hk⟩ := a.mem_runs h
  refine a.filter_done h (sq.fromSubthreads_pairwise _ _) (fun x hx => ?_)
    (fun x y hxy => .inr ⟨rfl, ?_⟩) (mem_fromSubthreads_task.2 hi) rfl
  · exact mem_script_worker.2 ⟨mem_runs_of_lt hi.lt, rfl, mem_fromSubthreads_task.1 hx, hk⟩
  · simp [slot, Slot.before, hxy]

/-- The values of all subthreads are collected before they are transformed. -/
theorem collected_of_transform
    (a : sq.Advance s s' rem rem' (.worker 0) ⟨.transform 0 j k, j, k⟩ ops)
    (h : sq.Control s rem) :
    sq.collected rem' 0 j k = sq.fromSubthreads 0 (sq.task j).concurrency := by
  rw [a.collected_eq h (by simp)]
  exact List.filter_eq_self.2 fun i _ => decide_eq_true
    (a.not_mem_of_before h (.inr ⟨rfl, by simp [slot, Slot.before]⟩))

/-- A worker that stores its result has merged nothing into it. -/
theorem merged_of_storeResult
    (a : sq.Advance s s' rem rem' (.worker t) ⟨.storeResult t j, j, 0⟩ ops)
    (h : sq.Control s rem) : sq.merged rem' t j = [] := by
  obtain ⟨-, -, -, ht, -, -⟩ := a.mem_runs h
  rw [a.merged_eq h (by simp)]
  refine List.filter_eq_nil_iff.2 fun i hi => ?_
  have hmem : ⟨.merge j t i, j, 0⟩ ∈ rem (.worker t) := by
    refine a.mem_of_before h (mem_script_worker.2 ?_) (.inr ⟨rfl, ?_⟩)
    · exact ⟨mem_runs_of_lt ht, rfl, rfl, mem_fromSubthreads_task.1 hi, rfl⟩
    · simp [slot, Slot.before]
  simp [hmem]

theorem merged_of_merge (a : sq.Advance s s' rem rem' (.worker t) ⟨.merge j t i, j, 0⟩ ops)
    (h : sq.Control s rem) : sq.merged rem' t j = sq.merged rem t j ++ [i] := by
  obtain ⟨-, -, -, hi, -⟩ := a.mem_runs h
  refine a.filter_done h (sq.fromSubthreads_pairwise _ _) (fun x hx => ?_)
    (fun x y hxy => .inr ⟨rfl, ?_⟩) (mem_fromSubthreads_task.2 hi) rfl
  · exact mem_script_worker.2
      ⟨mem_runs_of_lt hi.lt, rfl, rfl, mem_fromSubthreads_task.1 hx, rfl⟩
  · simp [slot, Slot.before, hxy]

theorem results (a : sq.Advance s s' rem rem' θ e ops) (h : sq.Inv s rem) (d : sq.Data s rem)
    (t j m : ℕ) (ht : t < (sq.task j).concurrency) (hm : m ≤ sq.rounds j)
    (hmem : ∀ k < sq.rounds j, ⟨.leave t j k, j, k⟩ ∈ rem' (.worker t) ↔ m ≤ k) :
    s'.results t j = sq.returned j m := by
  by_cases hw : e.op.AddsResult j t
  · obtain ⟨op, j', k'⟩ := e
    cases op with
    | leave t' j'' k =>
        obtain ⟨rfl, rfl⟩ := hw
        cases θ with
        | controller => exact absurd (a.controls h.toControl).2 id
        | worker t =>
            obtain ⟨-, rfl, rfl, rfl, -, hk⟩ := a.mem_runs h.toControl
            obtain ⟨s₁, hstep, hresults⟩ := a.leave h.toControl d
            obtain rfl := a.eq_of_next hstep
            rw [hresults]
            have hle : k + 1 ≤ m := by
              by_contra hlt
              have := (hmem k hk).2 (by omega)
              rw [a.mem_iff h.toControl] at this
              exact this.2 ⟨rfl, rfl⟩
            have hge : m ≤ k + 1 := by
              by_contra hlt
              have hk' : k + 1 < sq.rounds j'' := by omega
              have hlater : ⟨.leave t' j'' (k + 1), j'', k + 1⟩ ∈ rem' (.worker t') := by
                refine a.mem_later_of_before h.toControl (mem_script_worker.2
                  ⟨mem_runs_of_lt ht, rfl, rfl, rfl, ht, hk'⟩) (.inr ⟨rfl, ?_⟩)
                simp [slot, Slot.before]
              have := (hmem (k + 1) hk').1 hlater
              omega
            rw [le_antisymm hge hle]
    | _ => cases hw
  · rw [a.effect.results j t hw]
    refine d.results t j m ht hm fun k hk => ?_
    rw [← hmem k hk, a.mem_iff_of_op_ne h.toControl]
    rintro hop
    exact hw (hop ▸ ⟨rfl, rfl⟩)

theorem synchronizer (a : sq.Advance s s' rem rem' θ e ops) (h : sq.Inv s rem)
    (d : sq.Data s rem) (t j k : ℕ) (c : Collective V)
    (hc : (sq.task j).collectives[k]? = some c) (hin : sq.Inside rem' t j k) :
    s'.synchronizer t = some ⟨j, k, c,
      sq.syncState t j k (sq.collected rem' t j k) (sq.delivered rem' t j k c) c⟩ := by
  have hcontrol := h.toControl
  obtain ⟨op, j', k'⟩ := e
  by_cases hw : op.WritesSynchronizer t
  · cases θ with
    | controller => cases op <;> first | exact absurd (a.controls hcontrol).2 id | cases hw
    | worker t' =>
        cases op with
        | enter t'' j'' k'' =>
            obtain rfl : t'' = t := hw
            obtain ⟨-, rfl, rfl, rfl, ht, hk⟩ := a.mem_runs hcontrol
            have hin' : sq.Inside rem' t'' j'' k'' := by
              refine ⟨a.mem_script hcontrol, by simp [a.mem_iff hcontrol],
                a.mem_later_of_before hcontrol (mem_script_worker.2
                  ⟨mem_runs_of_lt ht, rfl, rfl, rfl, ht, hk⟩) (.inr ⟨rfl, ?_⟩)⟩
              simp [slot, Slot.before]
            obtain ⟨rfl, rfl⟩ := (a.inv h).inside_unique hin hin'
            obtain ⟨s₁, hstep, hsync⟩ := a.enter hcontrol d hc
            obtain rfl := a.eq_of_next hstep
            rw [hsync, a.collected_of_enter hcontrol, a.delivered_eq hcontrol (by simp) (by simp),
              a.delivered_eq_false hcontrol ht hc (.inr ⟨rfl, by simp [slot, Slot.before]⟩)
                (.inr ⟨rfl, by simp [slot, Slot.before]⟩)]
        | collect t'' i =>
            obtain rfl : t'' = t := hw
            obtain ⟨-, rfl, hi, hk⟩ := a.mem_runs hcontrol
            have hin' := a.inside hcontrol hi.lt hk (.inr ⟨rfl, by simp [slot, Slot.before]⟩)
              (.inr (.inr ⟨rfl, by simp [slot, Slot.before]⟩))
            obtain ⟨rfl, rfl⟩ :=
              hcontrol.inside_unique (a.inside_of_inside hcontrol (by simp) hin) hin'
            obtain ⟨s₁, hstep, hsync⟩ := a.collect hcontrol d hc
            obtain rfl := a.eq_of_next hstep
            rw [hsync, a.collected_of_collect hcontrol, a.delivered_eq hcontrol (by simp) (by simp),
              a.delivered_eq_false hcontrol hi.lt hc (.inr ⟨rfl, by simp [slot, Slot.before]⟩)
                (.inr ⟨rfl, by simp [slot, Slot.before]⟩)]
        | transform t'' j'' k'' =>
            obtain rfl : t'' = t := hw
            obtain ⟨-, rfl, rfl, rfl, rfl, ht, c', hc', hr⟩ := a.mem_runs hcontrol
            have hin' := a.inside hcontrol ht (exists_collective.1 ⟨c', hc'⟩)
              (.inr ⟨rfl, by simp [slot, Slot.before]⟩)
              (.inr (.inr ⟨rfl, by simp [slot, Slot.before]⟩))
            obtain ⟨rfl, rfl⟩ :=
              hcontrol.inside_unique (a.inside_of_inside hcontrol (by simp) hin) hin'
            obtain rfl : c = c' := Option.some.inj (hc.symm.trans hc')
            obtain ⟨s₁, hstep, hsync⟩ := a.transform hcontrol d hc
            obtain rfl := a.eq_of_next hstep
            have hd : sq.delivered rem' 0 j k c = true := by
              simp [delivered, hr, a.mem_iff hcontrol]
            rw [hsync, a.collected_of_transform hcontrol, hd]
        | broadcast t'' i =>
            obtain rfl : i = t := hw
            obtain ⟨-, rfl, hi, hk⟩ := a.mem_runs hcontrol
            have hstore : ⟨.store .broadcasting i, j', k'⟩ ∈ rem (.worker t'') :=
              a.mem_of_before hcontrol (mem_script_worker.2 ⟨mem_runs_of_lt hi.lt, hi, hk⟩)
                (.inr ⟨rfl, by simp [slot, Slot.before]⟩)
            obtain ⟨hin', hall, -⟩ := hcontrol.inside_child hi hk
              (a.not_mem_of_before hcontrol (.inr ⟨rfl, by simp [slot, Slot.before]⟩)) hstore
            obtain ⟨rfl, rfl⟩ :=
              hcontrol.inside_unique (a.inside_of_inside hcontrol (by simp) hin) hin'
            obtain ⟨s₁, hstep, hsync⟩ := a.broadcast hcontrol d hc
            obtain rfl := a.eq_of_next hstep
            have hd : sq.delivered rem' i j k c = true := by
              rw [delivered, if_pos hi.1, hi.2.2]
              simp [a.mem_iff hcontrol]
            rw [hsync, a.collected_eq hcontrol (by simp), hall, hd]
        | leave t'' j'' k'' =>
            obtain rfl : t'' = t := hw
            obtain ⟨-, rfl, rfl, rfl, ht, hk⟩ := a.mem_runs hcontrol
            have hin' :=
              a.inside hcontrol ht hk (.inr ⟨rfl, by simp [slot, Slot.before]⟩) (.inl rfl)
            obtain ⟨rfl, rfl⟩ :=
              hcontrol.inside_unique (a.inside_of_inside hcontrol (by simp) hin) hin'
            exact absurd ⟨rfl, rfl⟩ ((a.mem_iff hcontrol).1 hin.2.2).2
        | _ => cases hw
  · have hne : ∀ op', op'.WritesSynchronizer t → op ≠ op' := fun op' hop' hop => hw (hop ▸ hop')
    rw [a.effect.synchronizer t hw, d.synchronizer t j k c hc
        (a.inside_of_inside hcontrol (hne _ rfl) hin),
      a.collected_eq hcontrol fun i => hne _ rfl, a.delivered_eq hcontrol (hne _ rfl)]
    rintro ⟨rfl, hop⟩
    exact hne (.transform 0 j k) rfl hop

theorem syncData (a : sq.Advance s s' rem rem' θ e ops) (h : sq.Inv s rem) (d : sq.Data s rem)
    (t j k : ℕ) (c : Collective V) (hc : (sq.task j).collectives[k]? = some c)
    (hscript : ⟨.storeSyncData t, j, k⟩ ∈ sq.script (.worker t))
    (hdone : ⟨.storeSyncData t, j, k⟩ ∉ rem' (.worker t))
    (hpending : ⟨.clearSyncData t, j, k⟩ ∈ rem' (.worker t)) :
    s'.syncData t = if c.hasData then some ⟨t, j, k⟩ else none := by
  have hcontrol := h.toControl
  -- a worker whose pointer is set is in the collective
  have hinside : ∀ {s : State V} {rem : Thread → List Event} {j k : ℕ}, sq.Control s rem →
      ⟨.storeSyncData t, j, k⟩ ∈ sq.script (.worker t) →
      ⟨.storeSyncData t, j, k⟩ ∉ rem (.worker t) →
      ⟨.clearSyncData t, j, k⟩ ∈ rem (.worker t) → sq.Inside rem t j k := by
    intro s rem j k h hscript hdone hpending
    obtain ⟨hrun, -, -, ht, hk⟩ := mem_script_worker.1 hscript
    exact ⟨mem_script_worker.2 ⟨hrun, rfl, rfl, rfl, ht, hk⟩,
      h.not_mem_of_done hscript hdone (.inr ⟨rfl, by simp [slot, Slot.before]⟩),
      h.mem_of_before hpending (mem_script_worker.2 ⟨hrun, rfl, rfl, rfl, ht, hk⟩)
        (.inr ⟨rfl, by simp [slot, Slot.before]⟩)⟩
  have hin := hinside (a.inv h).toControl hscript hdone hpending
  obtain ⟨op, j', k'⟩ := e
  by_cases hstore : op = .storeSyncData t
  · subst hstore
    cases θ with
    | controller => exact absurd (a.controls hcontrol).2 id
    | worker t' =>
        obtain ⟨-, rfl, hpos, ht, hk⟩ := a.mem_runs hcontrol
        have hclear : ⟨.clearSyncData t, j', k'⟩ ∈ rem' (.worker t) :=
          a.mem_later_of_before hcontrol
            (mem_script_worker.2 ⟨mem_runs_of_lt ht, rfl, hpos, ht, hk⟩)
            (.inr ⟨rfl, by simp [slot, Slot.before]⟩)
        have hin' := hinside (a.inv h).toControl (a.mem_script hcontrol)
          (by simp [a.mem_iff hcontrol]) hclear
        obtain ⟨rfl, rfl⟩ := (a.inv h).inside_unique hin hin'
        obtain ⟨s₁, hstep, hptr⟩ := a.storeSyncData hcontrol d hc
        obtain rfl := a.eq_of_next hstep
        exact hptr
  by_cases hclear : op = .clearSyncData t
  · subst hclear
    cases θ with
    | controller => exact absurd (a.controls hcontrol).2 id
    | worker t' =>
        obtain ⟨-, rfl, hpos, ht, hk⟩ := a.mem_runs hcontrol
        have hstored : ⟨.storeSyncData t, j', k'⟩ ∉ rem (.worker t) :=
          a.not_mem_of_before hcontrol (.inr ⟨rfl, by simp [slot, Slot.before]⟩)
        have hin' := hinside hcontrol
          (mem_script_worker.2 ⟨mem_runs_of_lt ht, rfl, hpos, ht, hk⟩) hstored a.head_mem
        obtain ⟨rfl, rfl⟩ :=
          hcontrol.inside_unique (a.inside_of_inside hcontrol (by simp) hin) hin'
        exact absurd ⟨rfl, rfl⟩ ((a.mem_iff hcontrol).1 hpending).2
  · rw [a.effect.syncData t hstore hclear]
    refine d.syncData t j k c hc hscript ?_ (a.mem_rem_of_mem hpending)
    rwa [a.mem_iff_of_op_ne hcontrol (Ne.symm hstore)] at hdone

theorem slot (a : sq.Advance s s' rem rem' θ e ops) (h : sq.Inv s rem) (d : sq.Data s rem)
    (t j : ℕ) (transform : ℕ → List (Option V) → V) (op : V → V → V)
    (hkind : (sq.task j).kind = .transformReduce transform op) :
    (sq.Engaged rem' t j → s'.subthreadData j t = some (sq.combined (sq.task j).concurrency t op
      (fun t => transform t (sq.returned j (sq.rounds j))) (sq.merged rem' t j))) ∧
    (¬ sq.Engaged rem' t j → s'.subthreadData j t = none) := by
  have hcontrol := h.toControl
  obtain ⟨op', j', k'⟩ := e
  by_cases hw : op'.WritesSlot j t
  · cases θ with
    | controller => cases op' <;> first | exact absurd (a.controls hcontrol).2 id | cases hw
    | worker t' =>
        cases op' with
        | storeResult t'' j'' =>
            obtain ⟨rfl, rfl⟩ := hw
            obtain ⟨-, rfl, rfl, ht, -, rfl⟩ := a.mem_runs hcontrol
            obtain ⟨s₁, hstep, hslot⟩ := a.storeResult h d
            obtain rfl := a.eq_of_next hstep
            refine ⟨fun _ => ?_, fun hnot => ?_⟩
            · rw [hslot transform op hkind, a.merged_of_storeResult hcontrol, combined_nil]
            · refine absurd ⟨ht, by simp [a.mem_iff hcontrol], fun hpos => ?_⟩ hnot
              rw [a.mem_iff_of_op_ne hcontrol (by simp)]
              exact a.merge_pending hcontrol ht hpos
                (.inr ⟨rfl, by simp [Squad.slot, Slot.before]⟩)
        | merge j'' t'' i =>
            obtain ⟨rfl, ht⟩ := hw
            obtain ⟨-, rfl, rfl, hi, rfl⟩ := a.mem_runs hcontrol
            obtain ⟨s₁, hstep, hslots⟩ := a.merge h d
            obtain rfl := a.eq_of_next hstep
            obtain ⟨hown, -, -, hvalue, hempty⟩ := hslots transform op hkind
            rcases ht with rfl | rfl
            · refine ⟨fun _ => ?_, fun hnot => absurd ?_ hnot⟩
              · rw [hvalue, a.merged_of_merge hcontrol]
              · refine ⟨hown.1, fun hmem => hown.2.1 (a.mem_rem_of_mem hmem), fun hpos => ?_⟩
                have hlt := sq.parent_lt hpos
                rw [a.mem_iff_of_op_ne hcontrol]
                · exact hown.2.2 hpos
                · simp only [ne_eq, Op.merge.injEq, not_and]
                  omega
            · refine ⟨fun hengaged => ?_, fun _ => hempty⟩
              have hmem := hengaged.2.2 hi.1
              rw [hi.2.2] at hmem
              exact absurd ⟨rfl, rfl⟩ ((a.mem_iff hcontrol).1 hmem).2
        | _ => cases hw
  · have hne : ∀ op'', op''.WritesSlot j t → op' ≠ op'' := fun op'' hop'' hop => hw (hop ▸ hop'')
    have hiff : sq.Engaged rem' t j ↔ sq.Engaged rem t j := by
      have hstore := hne (.storeResult t j) ⟨rfl, rfl⟩
      have hmerge := hne (.merge j (sq.parent t) t) ⟨rfl, .inr rfl⟩
      rw [Engaged, Engaged, a.mem_iff_of_op_ne hcontrol (Ne.symm hstore),
        a.mem_iff_of_op_ne hcontrol (Ne.symm hmerge)]
    rw [a.effect.subthreadData j t hw, hiff,
      a.merged_eq hcontrol fun i => hne _ ⟨rfl, .inl rfl⟩]
    exact d.slot t j transform op hkind

theorem data (a : sq.Advance s s' rem rem' θ e ops) (h : sq.Inv s rem) (d : sq.Data s rem) :
    sq.Data s' rem' where
  results := a.results h d
  synchronizer := a.synchronizer h d
  syncData := a.syncData h d
  slot := a.slot h d

end Advance

def opsOf (θ : Thread) (tr : List (Thread × Op)) : List Op :=
  (tr.filter fun x => x.1 = θ).map Prod.snd

theorem opsOf_append_singleton (θ θ' : Thread) (op : Op) (tr : List (Thread × Op)) :
    opsOf θ' (tr ++ [(θ, op)]) = opsOf θ' tr ++ if θ = θ' then [op] else [] := by
  by_cases h : θ = θ' <;> simp [opsOf, h]

variable (sq) in
/-- The trace consists of the events that are not pending. -/
def History (tr : List (Thread × Op)) (rem : Thread → List Event) : Prop :=
  ∀ θ, ∃ done, sq.script θ = done ++ rem θ ∧ done.map Event.op = opsOf θ tr

/-- In every reachable state the invariants hold, and what a thread has done is
the part of its script that is not pending. -/
theorem exec_inv {tr : List (Thread × Op)} (h : Exec sq.toConfig tr s) :
    ∃ rem, sq.Inv s rem ∧ sq.Data s rem ∧ sq.History tr rem := by
  induction h with
  | initial => exact ⟨sq.script, Inv.initial, Data.initial, fun θ => ⟨[], rfl, rfl⟩⟩
  | @step tr s s' θ op ops _ hcode hnext ih =>
      obtain ⟨rem, hinv, hdata, hdone⟩ := ih
      obtain ⟨rem', e, rfl, a⟩ := hinv.exists_advance hcode hnext
      refine ⟨rem', a.inv hinv, a.data hinv hdata, fun θ' => ?_⟩
      obtain ⟨done, hscript, hops⟩ := hdone θ'
      rw [opsOf_append_singleton, ← hops]
      by_cases hθ : θ = θ'
      · subst hθ
        exact ⟨done ++ [e], by rw [hscript, a.rem_eq]; simp, by simp⟩
      · exact ⟨done, by rw [a.frame θ' (Ne.symm hθ), hscript], by simp [hθ]⟩

end Squad

end Patton.ThreadSquad
