import Patton.Library.Commutation
import Patton.ThreadSquad.DataRaces

/-!
# Executions do not depend on the schedule

Two steps that do not conflict can be taken in either order. As all conflicts are
ordered by the protocol, the state which an execution leads to depends only on how
far each thread has come: not only the results of the tasks but every signal, slot
and synchronizer, for any operators and any tasks.
-/

namespace Patton.ThreadSquad

open Causality

variable {V : Type}

section

variable {cfg : Config V} {s s₁ s₂ : State V} {θ θ' : Thread} {op op' : Op} {ops ops' : List Op}

theorem State.Same.code {ℓ : Location} (h : s₁.Same s₂ ℓ) (θ : Thread) (ops : List Op) :
    State.Same { s₁ with code := Function.update s₁.code θ ops }
      { s₂ with code := Function.update s₂.code θ ops } ℓ := by
  cases ℓ with
  | stack θ' =>
      refine ⟨?_, h.2⟩
      simp only [Function.update_apply]
      split
      · rfl
      · exact h.1
  | taskObject j => exact trivial
  | _ => exact h

theorem reads_code (s : State V) (θ : Thread) (ops : List Op) (op : Op) :
    op.reads { s with code := Function.update s.code θ ops } = op.reads s := by
  cases op <;> rfl

theorem writes_code (s : State V) (θ : Thread) (ops : List Op) (op : Op) :
    op.writes { s with code := Function.update s.code θ ops } = op.writes s := by
  cases op <;> rfl

/-- A step does the same in two states that agree on what it reads. -/
theorem step_agree (hcode : s₁.code θ = op :: ops)
    (h : ∀ ℓ ∈ readsOf s₁ θ op, s₁.Same s₂ ℓ) :
    (step cfg s₁ θ).Agree (writesOf s₁ θ op) (step cfg s₂ θ) := by
  have hcode₂ : s₂.code θ = op :: ops := (h (.stack θ) (.inl rfl)).1 ▸ hcode
  have hreads : ∀ ℓ ∈ readsOf { s₁ with code := Function.update s₁.code θ ops } θ op,
      State.Same { s₁ with code := Function.update s₁.code θ ops }
        { s₂ with code := Function.update s₂.code θ ops } ℓ := by
    rw [readsOf, reads_code]
    exact fun ℓ hℓ => (h ℓ hℓ).code θ ops
  have hagree := @exec_agree _ cfg _ _ _ _ hreads
  rw [writesOf, writes_code] at hagree
  simp only [step, hcode, hcode₂]
  exact hagree

/-- What a step writes depends on what it reads. -/
theorem writesOf_agree (h : ∀ ℓ ∈ readsOf s₁ θ op, s₁.Same s₂ ℓ) :
    writesOf s₁ θ op = writesOf s₂ θ op := by
  cases op with
  | broadcast t i =>
      have hdata : s₁.syncData i = s₂.syncData i :=
        h (.syncData i) (.inr (.inl (.inr (.inl rfl))))
      simp only [writesOf, Op.writes, State.syncDataTarget, hdata]
  | _ => rfl

/-- Two successive steps that do not conflict can be taken in the other order. -/
theorem step_swap (hcode : s.code θ = op :: ops) (hnext : step cfg s θ = .next s₁)
    (hcode' : s₁.code θ' = op' :: ops') (hnext' : step cfg s₁ θ' = .next s₂)
    (hc : ¬ Conflict (readsOf s θ op) (writesOf s θ op) (readsOf s₁ θ' op')
      (writesOf s₁ θ' op')) :
    s.code θ' = op' :: ops' ∧ ∃ s₁', step cfg s θ' = .next s₁' ∧ s₁'.code θ = op :: ops ∧
      step cfg s₁' θ = .next s₂ := by
  have hdisjoint : ∀ ℓ, ℓ ∈ writesOf s θ op → ℓ ∉ readsOf s₁ θ' op' ∧ ℓ ∉ writesOf s₁ θ' op' :=
    fun ℓ hw => ⟨fun hr => hc ⟨ℓ, .inl ⟨hw, .inl hr⟩⟩, fun hw' => hc ⟨ℓ, .inl ⟨hw, .inr hw'⟩⟩⟩
  have hdisjoint' : ∀ ℓ, ℓ ∈ readsOf s θ op → ℓ ∉ writesOf s₁ θ' op' :=
    fun ℓ hr hw' => hc ⟨ℓ, .inr ⟨hr, hw'⟩⟩
  -- the second step reads the same without the first one
  have hsame : ∀ ℓ ∈ readsOf s₁ θ' op', s₁.Same s ℓ :=
    fun ℓ hℓ => (step_same hcode hnext fun hw => (hdisjoint ℓ hw).1 hℓ).symm
  have hfirst := @step_agree _ cfg _ _ _ _ _ hcode' hsame
  rw [hnext'] at hfirst
  cases hs₁' : step cfg s θ' with
  | blocked => rw [hs₁'] at hfirst; exact absurd hfirst id
  | fault f => rw [hs₁'] at hfirst; exact absurd hfirst id
  | next s₁' =>
      rw [hs₁'] at hfirst
      have hcode₀ : s.code θ' = op' :: ops' := (hsame _ (.inl rfl)).1 ▸ hcode'
      have hwrites' := writesOf_agree hsame
      have hframe' : ∀ ℓ, ℓ ∉ writesOf s₁ θ' op' → s.Same s₁' ℓ := fun ℓ hℓ =>
        step_same hcode₀ hs₁' (hwrites' ▸ hℓ)
      -- and the first step the same after the second one
      have hsame' : ∀ ℓ ∈ readsOf s θ op, s.Same s₁' ℓ := fun ℓ hℓ => hframe' ℓ (hdisjoint' ℓ hℓ)
      have hsecond := @step_agree _ cfg _ _ _ _ _ hcode hsame'
      rw [hnext] at hsecond
      have hcode₁ : s₁'.code θ = op :: ops := (hsame' _ (.inl rfl)).1 ▸ hcode
      cases hs₂' : step cfg s₁' θ with
      | blocked => rw [hs₂'] at hsecond; exact absurd hsecond id
      | fault f => rw [hs₂'] at hsecond; exact absurd hsecond id
      | next s₂' =>
          rw [hs₂'] at hsecond
          have hwrites := writesOf_agree hsame'
          have hframe : ∀ ℓ, ℓ ∉ writesOf s θ op → s₁'.Same s₂' ℓ := fun ℓ hℓ =>
            step_same hcode₁ hs₂' (hwrites ▸ hℓ)
          have heq : s₂' = s₂ := by
            refine State.ext_same fun ℓ => ?_
            by_cases hw : ℓ ∈ writesOf s θ op
            · exact (hsecond ℓ hw).symm.trans (step_same hcode' hnext' (hdisjoint ℓ hw).2)
            · refine (hframe ℓ hw).symm.trans ?_
              by_cases hw' : ℓ ∈ writesOf s₁ θ' op'
              · exact (hfirst ℓ hw').symm
              · exact ((hframe' ℓ hw').symm.trans (step_same hcode hnext hw)).trans
                  (step_same hcode' hnext' hw')
          exact ⟨hcode₀, s₁', rfl, hcode₁, by rw [hs₂', heq]⟩

end

namespace Squad

variable {sq : Squad V} {s s' : State V} {tr tr' : List (Thread × Op)} {etr etr' : List Node}

/-- A state together with the pending events. -/
abbrev Progress (V : Type) := State V × (Thread → List Event)

variable (sq) in
def Next (p : Progress V) (x : Node) (p' : Progress V) : Prop :=
  ∃ ops, sq.Advance p.1 p'.1 p.2 p'.2 x.1 x.2 ops

variable (sq) in
def start : Progress V := (State.initial sq.toConfig, sq.script)

theorem next_deterministic : Deterministic sq.Next := by
  rintro ⟨s, rem⟩ ⟨θ, e⟩ ⟨s₁, rem₁⟩ ⟨s₂, rem₂⟩ ⟨ops₁, a₁⟩ ⟨ops₂, a₂⟩
  have hs : s₁ = s₂ := a₁.eq_of_next a₂.next
  have hrem : rem₁ = rem₂ := by
    funext θ'
    by_cases hθ : θ' = θ
    · subst hθ
      have h := a₁.rem_eq.symm.trans a₂.rem_eq
      injection h
    · exact (a₁.frame θ' hθ).trans (a₂.frame θ' hθ).symm
  rw [hs, hrem]

theorem run_performed {p : Progress V} (h : Run sq.Next sq.start etr p) :
    sq.Inv p.1 p.2 ∧ sq.Performed (etr.map Node.step) p.2 etr := by
  induction h with
  | nil => exact ⟨Inv.initial, rfl, fun θ => rfl, Causal.nil⟩
  | @concat etr p p' x _ hnext ih =>
      obtain ⟨ops, a⟩ := hnext
      obtain ⟨hinv, hp⟩ := ih
      refine ⟨a.inv hinv, ?_⟩
      rw [List.map_append]
      exact hp.advance a hinv

theorem run_exec {p : Progress V} (h : Run sq.Next sq.start etr p) :
    Exec sq.toConfig (etr.map Node.step) p.1 := by
  induction h with
  | nil => exact .initial
  | concat _ hnext ih =>
      obtain ⟨ops, a⟩ := hnext
      rw [List.map_append]
      exact ih.step a.code a.next

theorem exec_run (h : Exec sq.toConfig tr s) :
    ∃ rem etr, Run sq.Next sq.start etr (s, rem) ∧ etr.map Node.step = tr := by
  induction h with
  | initial => exact ⟨sq.script, [], .nil, rfl⟩
  | @step tr s s' θ op ops _ hcode hnext ih =>
      obtain ⟨rem, etr, hrun, rfl⟩ := ih
      obtain ⟨rem', e, rfl, a⟩ := (run_performed hrun).1.exists_advance hcode hnext
      exact ⟨rem', etr ++ [(θ, e)], hrun.concat ⟨ops, a⟩, by simp [Node.step]⟩

/-- Two successive steps which the protocol does not order belong to different threads
and do not conflict. -/
theorem not_conflict_of_not_orders {p p₁ p₂ : Progress V} {x y : Node}
    (hrun : Run sq.Next sq.start etr p) (hx : sq.Next p x p₁) (hy : sq.Next p₁ y p₂)
    (hxy : ¬ sq.Orders x y) :
    x.1 ≠ y.1 ∧ ¬ Conflict (readsOf p.1 x.1 x.2.op) (writesOf p.1 x.1 x.2.op)
      (readsOf p₁.1 y.1 y.2.op) (writesOf p₁.1 y.1 y.2.op) := by
  have hrun₁ := hrun.concat hx
  have hp₂ := (run_performed (hrun₁.concat hy)).2
  have hxmem : x ∈ etr ++ [x] ++ [y] := by simp
  have hymem : y ∈ etr ++ [x] ++ [y] := by simp
  have hnodup := hp₂.nodup
  have hne : x ≠ y := by
    rintro rfl
    simp [List.nodup_append] at hnodup
  have hyx : ¬ sq.Orders y x := by
    intro hyx
    have hsplit : etr ++ [x] ++ [y] = etr ++ x :: [y] := by simp
    have hmem := hp₂.causal.mem_of_transGen hsplit hyx
    rw [List.append_assoc] at hnodup
    exact (List.nodup_append.1 hnodup).2.2 y hmem y (by simp) rfl
  constructor
  · intro hθ
    have hyscript : y.2 ∈ sq.script x.1 := hθ ▸ hp₂.mem_script hymem
    have hne' : x.2 ≠ y.2 := fun h => hne (Prod.ext hθ h)
    rcases orders_or_of_thread (hp₂.mem_script hxmem) hyscript hne' with h | h
    · exact hxy (by rwa [show y = (x.1, y.2) from Prod.ext hθ.symm rfl])
    · exact hyx (by rwa [show y = (x.1, y.2) from Prod.ext hθ.symm rfl])
  · intro hc
    exact (orders_or_of_conflict (hp₂.mem_script hxmem) (hp₂.mem_script hymem) hne
      (exec_ownPointers (run_exec hrun)) (exec_ownPointers (run_exec hrun₁)) hc).elim hxy hyx

theorem next_swap {p p₁ p₂ : Progress V} {x y : Node} (hrun : Run sq.Next sq.start etr p)
    (hx : sq.Next p x p₁) (hy : sq.Next p₁ y p₂) (hxy : ¬ sq.Orders x y) :
    ∃ p₁', sq.Next p y p₁' ∧ sq.Next p₁' x p₂ := by
  obtain ⟨hθ, hc⟩ := not_conflict_of_not_orders hrun hx hy hxy
  obtain ⟨s, rem⟩ := p
  obtain ⟨s₁, rem₁⟩ := p₁
  obtain ⟨s₂, rem₂⟩ := p₂
  obtain ⟨θ, e⟩ := x
  obtain ⟨θ', e'⟩ := y
  obtain ⟨ops, a⟩ := hx
  obtain ⟨ops', a'⟩ := hy
  change sq.Advance s s₁ rem rem₁ θ e ops at a
  change sq.Advance s₁ s₂ rem₁ rem₂ θ' e' ops' at a'
  change θ ≠ θ' at hθ
  obtain ⟨hcode', s₁', hnext', hcode, hnext⟩ := step_swap a.code a.next a'.code a'.next hc
  have hinv : sq.Inv s rem := (run_performed hrun).1
  obtain ⟨rem₁', d', hd', b'⟩ := hinv.exists_advance hcode' hnext'
  obtain ⟨rem₂', d, hd, b⟩ := (b'.inv hinv).exists_advance hcode hnext
  have hhead' := a'.rem_eq
  have hhead := a.rem_eq
  rw [a.frame θ' (Ne.symm hθ), b'.rem_eq] at hhead'
  rw [← b'.frame θ hθ, b.rem_eq] at hhead
  obtain ⟨rfl, htail'⟩ := List.cons.inj hhead'
  obtain ⟨rfl, htail⟩ := List.cons.inj hhead
  have hrem : rem₂' = rem₂ := by
    funext θ''
    by_cases h : θ'' = θ
    · subst h
      exact htail.trans (a'.frame θ'' hθ).symm
    · by_cases h' : θ'' = θ'
      · subst h'
        exact (b.frame θ'' h).trans htail'
      · exact (b.frame θ'' h).trans ((b'.frame θ'' h').trans
          ((a.frame θ'' h).symm.trans (a'.frame θ'' h').symm))
  subst hrem
  exact ⟨(s₁', rem₁'), ⟨ops', b'⟩, ⟨ops, b⟩⟩

theorem commuting : Commuting sq.Edge sq.Next sq.start where
  deterministic := next_deterministic
  nodup := fun h => (run_performed h).2.nodup
  causal := fun h => (run_performed h).2.causal
  swap := next_swap

/-- Two executions in which every thread has made the same number of steps lead to the
same state. -/
theorem schedule_independence (h : Exec sq.toConfig tr s) (h' : Exec sq.toConfig tr' s')
    (hsteps : ∀ θ, (opsOf θ tr).length = (opsOf θ tr').length) : s = s' := by
  obtain ⟨rem, etr, hrun, rfl⟩ := exec_run h
  obtain ⟨rem', etr', hrun', rfl⟩ := exec_run h'
  have hp := (run_performed hrun).2
  have hp' := (run_performed hrun').2
  have hlength : ∀ θ etr, (opsOf θ (List.map Node.step etr)).length = (eventsOf θ etr).length := by
    intro θ etr
    rw [opsOf, eventsOf, List.filter_map, List.length_map, List.length_map, List.length_map]
    rfl
  -- what a thread has done is the part of its script of this length
  have hevents : ∀ θ, eventsOf θ etr = eventsOf θ etr' := by
    intro θ
    refine List.append_inj_left ((hp.script θ).symm.trans (hp'.script θ)) ?_
    rw [← hlength, ← hlength]
    exact hsteps θ
  have hperm : etr.Perm etr' := by
    refine (List.perm_ext_iff_of_nodup hp.nodup hp'.nodup).2 ?_
    rintro ⟨θ, e⟩
    rw [← mem_eventsOf, ← mem_eventsOf, hevents]
  exact congrArg Prod.fst (commuting.eq_of_perm hrun hrun' hperm)

theorem pair_schedule_independence : ∃ (tr tr' : List (Thread × Op)) (s : State ℕ),
    Exec pairSquad.toConfig tr s ∧ Exec pairSquad.toConfig tr' s ∧ tr ≠ tr' := by
  have hreplay : ((replay pairSquad.toConfig [] (State.initial pairSquad.toConfig)
      (.replicate 7 .controller ++ .replicate 11 (.worker 0) ++ .replicate 4 (.worker 1))).bind
      fun r => (replay pairSquad.toConfig [] (State.initial pairSquad.toConfig)
        (.replicate 7 .controller ++ .replicate 6 (.worker 0) ++ .replicate 4 (.worker 1) ++
          .replicate 5 (.worker 0))).map fun r' => decide (r.1.Perm r'.1 ∧ r.1 ≠ r'.1)) =
    some true := by decide +kernel
  obtain ⟨⟨tr, s⟩, hr, hbind⟩ := Option.bind_eq_some_iff.1 hreplay
  obtain ⟨⟨tr', s'⟩, hr', hdecide⟩ := Option.map_eq_some_iff.1 hbind
  obtain ⟨hperm, hne⟩ := of_decide_eq_true hdecide
  have h := Exec.initial.replay hr
  have h' := Exec.initial.replay hr'
  have heq : s = s' :=
    schedule_independence h h' fun θ => ((hperm.filter _).map Prod.snd).length_eq
  exact ⟨tr, tr', s, h, heq ▸ h', hne⟩

end Squad

end Patton.ThreadSquad
