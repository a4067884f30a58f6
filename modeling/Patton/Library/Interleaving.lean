import Mathlib

/-!
# Threads that interleave

Any number of threads take atomic steps on a shared state, in any order, and put out
answers. What holds in all runs follows from facts about one step: what it does for its
own thread, for each other thread, and for the answers that have been given.
-/

namespace Interleaving

variable {ι σ π κ α : Type*}

/-- The shared state, the local states of the threads, and the answers so far. -/
structure State (ι σ π α : Type*) where
  shared : σ
  thread : ι → π
  answers : List α

def step [DecidableEq ι] (next : σ → π → κ → Option (σ × π × List α)) (s : State ι σ π α) (t : ι)
    (choice : κ) : Option (State ι σ π α) :=
  match next s.shared (s.thread t) choice with
  | none => none
  | some (shared, p, answers) =>
      some ⟨shared, Function.update s.thread t p, s.answers ++ answers⟩

def run [DecidableEq ι] (next : σ → π → κ → Option (σ × π × List α)) (s : State ι σ π α) :
    List (ι × κ) → Option (State ι σ π α)
  | [] => some s
  | (t, choice) :: schedule => (step next s t choice).bind fun s => run next s schedule

/-- Some step of the schedule is taken where `here` holds of the shared state and of the
local state of its thread. -/
def Somewhere [DecidableEq ι] (next : σ → π → κ → Option (σ × π × List α)) (here : σ → π → Prop)
    (s : State ι σ π α) : List (ι × κ) → Prop
  | [] => False
  | (t, choice) :: schedule =>
      here s.shared (s.thread t) ∨
        ∃ s', step next s t choice = some s' ∧ Somewhere next here s' schedule

/-- Facts on the shared state, on a thread, on two threads, and on the answers, which each
step keeps. -/
structure Kept (next : σ → π → κ → Option (σ × π × List α)) (shared : σ → Prop)
    (thread : σ → π → Prop) (apart : π → π → Prop) (answer : σ → α → Prop) : Prop where
  symm : ∀ p q, apart p q → apart q p
  own : ∀ sh p c sh' p' as, next sh p c = some (sh', p', as) → shared sh → thread sh p →
    shared sh' ∧ thread sh' p' ∧ ∀ a ∈ as, answer sh' a
  others : ∀ sh p c sh' p' as q, next sh p c = some (sh', p', as) → shared sh → thread sh p →
    thread sh q → apart p q → thread sh' q ∧ apart p' q
  answers : ∀ sh p c sh' p' as a, next sh p c = some (sh', p', as) → shared sh → thread sh p →
    answer sh a → answer sh' a

/-- The facts hold in a state. -/
structure Inv (shared : σ → Prop) (thread : σ → π → Prop) (apart : π → π → Prop)
    (answer : σ → α → Prop) (s : State ι σ π α) : Prop where
  shared : shared s.shared
  thread : ∀ t, thread s.shared (s.thread t)
  apart : ∀ t u, t ≠ u → apart (s.thread t) (s.thread u)
  answer : ∀ a ∈ s.answers, answer s.shared a

variable [DecidableEq ι] {next : σ → π → κ → Option (σ × π × List α)} {shared : σ → Prop}
  {thread : σ → π → Prop} {apart : π → π → Prop} {answer : σ → α → Prop}
  {here : σ → π → Prop} {s s' : State ι σ π α} {t : ι} {choice : κ} {schedule : List (ι × κ)}

theorem exists_of_step_eq_some (h : step next s t choice = some s') :
    ∃ sh p as, next s.shared (s.thread t) choice = some (sh, p, as) ∧
      s' = ⟨sh, Function.update s.thread t p, s.answers ++ as⟩ := by
  rw [step] at h
  split at h
  · cases h
  · next sh p as hnext => exact ⟨sh, p, as, hnext, (Option.some.inj h).symm⟩

theorem Inv.step (hkept : Kept next shared thread apart answer)
    (h : Inv shared thread apart answer s) (hstep : step next s t choice = some s') :
    Inv shared thread apart answer s' := by
  obtain ⟨sh, p, as, hnext, rfl⟩ := exists_of_step_eq_some hstep
  obtain ⟨hshared, hthread, has⟩ :=
    hkept.own _ _ _ _ _ _ hnext h.shared (h.thread t)
  have hothers : ∀ u, t ≠ u → thread sh (s.thread u) ∧ apart p (s.thread u) := fun u htu =>
    hkept.others _ _ _ _ _ _ _ hnext h.shared (h.thread t) (h.thread u) (h.apart t u htu)
  refine ⟨hshared, fun u => ?_, fun u v huv => ?_, fun a ha => ?_⟩
  · dsimp only
    by_cases htu : u = t
    · rw [htu, Function.update_self]
      exact hthread
    · rw [Function.update_of_ne htu]
      exact (hothers u (Ne.symm htu)).1
  · dsimp only
    by_cases htu : u = t
    · have hv : v ≠ t := fun hvt => huv (htu.trans hvt.symm)
      rw [htu, Function.update_self, Function.update_of_ne hv]
      exact (hothers v hv.symm).2
    · rw [Function.update_of_ne htu]
      by_cases htv : v = t
      · rw [htv, Function.update_self]
        exact hkept.symm _ _ (hothers u (Ne.symm htu)).2
      · rw [Function.update_of_ne htv]
        exact h.apart u v huv
  · rcases List.mem_append.1 ha with ha | ha
    · exact hkept.answers _ _ _ _ _ _ _ hnext h.shared (h.thread t) (h.answer a ha)
    · exact has a ha

theorem Inv.run (hkept : Kept next shared thread apart answer)
    (h : Inv shared thread apart answer s) (hrun : run next s schedule = some s') :
    Inv shared thread apart answer s' := by
  induction schedule generalizing s with
  | nil =>
      cases hrun
      exact h
  | cons tc schedule ih =>
      obtain ⟨t, choice⟩ := tc
      obtain ⟨s₁, hstep, hrest⟩ := Option.bind_eq_some_iff.1 hrun
      exact ih (h.step hkept hstep) hrest

/-- If the answers of a kind are just given by the steps taken at certain places, then a run
gives one if and only if it passes such a place. -/
theorem exists_answer_iff {bad : α → Prop} (hkept : Kept next shared thread apart answer)
    (hbad : ∀ sh p c sh' p' as, next sh p c = some (sh', p', as) → shared sh → thread sh p →
      ((∃ a ∈ as, bad a) ↔ here sh p))
    (h : Inv shared thread apart answer s) (hrun : run next s schedule = some s') :
    (∃ a ∈ s'.answers, bad a) ↔ (∃ a ∈ s.answers, bad a) ∨ Somewhere next here s schedule := by
  induction schedule generalizing s with
  | nil =>
      cases hrun
      simp [Somewhere]
  | cons tc schedule ih =>
      obtain ⟨t, choice⟩ := tc
      obtain ⟨s₁, hstep, hrest⟩ := Option.bind_eq_some_iff.1 hrun
      rw [ih (h.step hkept hstep) hrest, Somewhere]
      obtain ⟨sh, p, as, hnext, rfl⟩ := exists_of_step_eq_some hstep
      rw [← hbad _ _ _ _ _ _ hnext h.shared (h.thread t), hstep]
      simp only [List.mem_append, Option.some.injEq, exists_eq_left', or_and_right, exists_or,
        or_assoc]

end Interleaving
