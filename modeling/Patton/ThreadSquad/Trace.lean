import Patton.ThreadSquad.Progress

/-!
# Executions

The operations which a thread has performed are those of its script that are not
pending. So what has happened in an execution is read off the pending events, and
an operation that stands in the scripts once is performed at most once. An
execution is at most as long as the scripts, and it can always be carried on to
the end.
-/

namespace Patton.ThreadSquad

variable {V : Type}

/-- Before an operation of a trace, a state is reached in which it is up. -/
theorem exec_split {cfg : Config V} {tr₁ tr₂ : List (Thread × Op)} {θ : Thread} {op : Op}
    {s : State V} (h : Exec cfg (tr₁ ++ (θ, op) :: tr₂) s) :
    ∃ s₁ s₂ ops, Exec cfg tr₁ s₁ ∧ s₁.code θ = op :: ops ∧ step cfg s₁ θ = .next s₂ ∧
      Exec cfg (tr₁ ++ [(θ, op)]) s₂ := by
  generalize htr : tr₁ ++ (θ, op) :: tr₂ = tr at h
  induction h generalizing tr₂ with
  | initial => simp at htr
  | @step tr s s' θ' op' ops h hcode hnext ih =>
      rcases List.eq_nil_or_concat tr₂ with rfl | ⟨tr₃, x, rfl⟩
      · obtain ⟨rfl, hlast⟩ := List.append_inj' htr rfl
        obtain ⟨rfl, rfl⟩ := Prod.mk.inj (List.singleton_inj.1 hlast)
        exact ⟨s, s', ops, h, hcode, hnext, h.step hcode hnext⟩
      · have hassoc : tr₁ ++ (θ, op) :: (tr₃ ++ [x]) = (tr₁ ++ (θ, op) :: tr₃) ++ [x] := by simp
        rw [List.concat_eq_append, hassoc] at htr
        exact ih (List.append_inj' htr rfl).1

namespace Squad

variable {sq : Squad V} {s s' : State V} {rem : Thread → List Event} {θ : Thread}
  {e : Event} {later : List Event} {ops : List Op} {t i j k : ℕ} {op : Op}
  {tr : List (Thread × Op)}

theorem mem_opsOf : op ∈ opsOf θ tr ↔ (θ, op) ∈ tr := by
  simp [opsOf]

theorem History.mem_iff (hh : sq.History tr rem) :
    (θ, op) ∈ tr ↔ ∃ e ∈ sq.script θ, e ∉ rem θ ∧ e.op = op := by
  obtain ⟨done, hscript, hops⟩ := hh θ
  have hnodup := @script_nodup _ sq θ
  rw [hscript] at hnodup
  rw [← mem_opsOf, ← hops, List.mem_map]
  constructor
  · rintro ⟨e, he, rfl⟩
    refine ⟨e, hscript ▸ List.mem_append_left _ he, fun hrem => ?_, rfl⟩
    exact (List.nodup_append.1 hnodup).2.2 e he e hrem rfl
  · rintro ⟨e, he, hrem, rfl⟩
    rw [hscript, List.mem_append] at he
    exact ⟨e, he.resolve_right hrem, rfl⟩

variable (sq) in
/-- The operation stands in the scripts at most once. -/
def Unique (op : Op) : Prop :=
  ∀ θ e θ' e', e ∈ sq.script θ → e' ∈ sq.script θ' → e.op = op → e'.op = op → θ = θ' ∧ e = e'

theorem History.count_le_one (hh : sq.History tr rem) (hop : sq.Unique op) :
    (tr.map Prod.snd).count op ≤ 1 := by
  by_cases hmem : op ∈ tr.map Prod.snd
  · obtain ⟨⟨θ, op'⟩, htr, hop'⟩ := List.mem_map.1 hmem
    obtain rfl : op' = op := hop'
    obtain ⟨e, he, -, heop⟩ := hh.mem_iff.1 htr
    obtain ⟨done, hscript, hops⟩ := hh θ
    have hthread : (tr.map Prod.snd).count op' = (opsOf θ tr).count op' := by
      rw [opsOf, List.count_eq_countP, List.count_eq_countP, List.countP_map, List.countP_map,
        List.countP_filter]
      refine List.countP_congr fun x hx => ?_
      simp only [Function.comp, beq_iff_eq, Bool.and_eq_true, decide_eq_true_eq]
      refine ⟨fun hxop => ⟨hxop, ?_⟩, And.left⟩
      obtain ⟨e', he', -, he'op⟩ := hh.mem_iff.1 hx
      exact (hop _ _ _ _ he' he (he'op.trans hxop) heop).1
    have hevent : (done.map Event.op).count op' ≤ done.count e := by
      rw [List.count_eq_countP, List.count_eq_countP, List.countP_map]
      refine List.countP_mono_left fun x hx hxop => ?_
      have hxscript : x ∈ sq.script θ := hscript ▸ List.mem_append_left _ hx
      simpa using (hop _ _ _ _ hxscript he (by simpa using hxop) heop).2
    have hnodup : done.Nodup := (hscript ▸ @script_nodup _ sq θ).of_append_left
    rw [hthread, ← hops]
    exact hevent.trans (List.nodup_iff_count_le_one.1 hnodup e)
  · rw [List.count_eq_zero.2 hmem]
    exact Nat.zero_le 1

theorem History.count_eq_one (hh : sq.History tr rem) (hop : sq.Unique op)
    (hmem : (θ, op) ∈ tr) : (tr.map Prod.snd).count op = 1 :=
  le_antisymm (hh.count_le_one hop) (List.count_pos_iff.2 (List.mem_map_of_mem hmem))

/-- The first pending event of a thread that is about to take a step. -/
theorem exec_head (h : Exec sq.toConfig tr s) (hcode : s.code θ = op :: ops)
    (hstep : step sq.toConfig s θ ≠ .blocked) :
    ∃ rem e later, sq.Inv s rem ∧ sq.Data s rem ∧ sq.History tr rem ∧ e.op = op ∧
      sq.Head s rem θ e later ops := by
  obtain ⟨rem, hinv, hdata, hh⟩ := exec_inv h
  obtain ⟨e, later, hop, a⟩ := hinv.exists_head hcode hstep
  exact ⟨rem, e, later, hinv, hdata, hh, hop, a⟩

variable (sq) in
def threads : Finset Thread :=
  insert .controller ((Finset.range sq.numThreads).image .worker)

theorem mem_threads (he : e ∈ sq.script θ) : θ ∈ sq.threads := by
  cases θ with
  | controller => exact Finset.mem_insert_self _ _
  | worker t =>
      refine Finset.mem_insert_of_mem (Finset.mem_image_of_mem _ (Finset.mem_range.2 ?_))
      exact lt_numThreads_of_mem_runs (mem_script.1 he).1

/-- An execution is at most as long as all scripts together. -/
theorem exec_length_le (h : Exec sq.toConfig tr s) :
    tr.length ≤ ∑ θ ∈ sq.threads, (sq.script θ).length := by
  obtain ⟨rem, -, -, hh⟩ := exec_inv h
  have hmem : ∀ θ ∈ (↑(tr.map Prod.fst) : Multiset Thread), θ ∈ sq.threads := by
    intro θ hθ
    obtain ⟨⟨θ', op⟩, hx, rfl⟩ := List.mem_map.1 (Multiset.mem_coe.1 hθ)
    obtain ⟨e, he, -⟩ := hh.mem_iff.1 hx
    exact mem_threads he
  have hsum := Multiset.sum_count_eq_card hmem
  rw [Multiset.coe_card, List.length_map] at hsum
  rw [← hsum]
  refine Finset.sum_le_sum fun θ _ => ?_
  obtain ⟨done, hscript, hops⟩ := hh θ
  have hcount : (↑(tr.map Prod.fst) : Multiset Thread).count θ = (opsOf θ tr).length := by
    rw [Multiset.coe_count, opsOf, List.length_map, List.count_eq_countP, List.countP_map,
      List.countP_eq_length_filter]
    rfl
  rw [hcount, ← hops, hscript, List.length_map, List.length_append]
  exact Nat.le_add_right _ _

/-- As long as the controlling thread is not done, some thread can take a step. -/
theorem exec_exists_next (h : Exec sq.toConfig tr s) (hcode : s.code .controller ≠ []) :
    ∃ θ s', step sq.toConfig s θ = .next s' := by
  obtain ⟨rem, hinv, hdata, -⟩ := exec_inv h
  have hctl := hinv.controller
  cases hrem : rem .controller with
  | nil =>
      rw [hrem] at hctl
      exact absurd hctl.eq_nil hcode
  | cons e later => exact hinv.exists_next hdata hrem

/-- Every execution can be carried on until the controlling thread is done. -/
theorem exec_exists_finished (h : Exec sq.toConfig tr s) :
    ∃ tr' s', Exec sq.toConfig (tr ++ tr') s' ∧ s'.code .controller = [] := by
  generalize hd : (∑ θ ∈ sq.threads, (sq.script θ).length) - tr.length = d
  induction d using Nat.strong_induction_on generalizing tr s with
  | _ d ih =>
    by_cases hcode : s.code .controller = []
    · exact ⟨[], s, by rwa [List.append_nil], hcode⟩
    · obtain ⟨θ, s₁, hnext⟩ := exec_exists_next h hcode
      cases hops : s.code θ with
      | nil =>
          rw [step, hops] at hnext
          cases hnext
      | cons op ops =>
          have h₁ := h.step hops hnext
          have hle := exec_length_le h₁
          rw [List.length_append, List.length_singleton] at hle
          obtain ⟨tr', s', h', hdone⟩ := ih _ (by
            rw [← hd, List.length_append, List.length_singleton]
            omega) h₁ rfl
          refine ⟨(θ, op) :: tr', s', ?_, hdone⟩
          simpa using h'

end Squad

end Patton.ThreadSquad
