import Patton.Library.AtomicProgram
import Patton.Library.Commutation

/-!
# Waiting and notifying on atomic objects

In an abstract system, a thread that waits for a flag takes its next step as soon as
the flag differs from its old value, and a thread that sets a flag does nothing else.
Here the steps of the two are taken apart: the one polls the flag, goes to sleep and
may be woken up for no reason; the other one stores a value, and only later wakes up
one of the sleepers. If every flag has one waiter only and nobody but the waiter takes
back what it waits for, then nothing is observed of this but the time it takes: the
system makes the same steps as the abstract one, a thread that sleeps although its flag
has been set is about to be woken up, and the number of steps spent on waiting is
bounded.
-/

namespace AtomicWait

open Causality

/-- What a thread is about to do. -/
inductive Access (F : Type*)
  | wait (f : F)
  | set (f : F)
  | other

/-- A system of threads `Θ` that waits for flags `F`. The state `passed s θ` is the one in
which thread `θ` has returned from waiting. -/
structure System (S Θ F V : Type*) where
  pending : S → Θ → Option (Access F)
  step : S → Θ → S → Prop
  value : S → F → V
  old : V
  passed : S → Θ → S

/-- What is required in the states that satisfy `Reach`. -/
structure Lawful {S Θ F V : Type*} (sys : System S Θ F V) (Reach : S → Prop) : Prop where
  reach : ∀ {s θ s'}, Reach s → sys.step s θ s' → Reach s'
  pending_of_step : ∀ {s θ s'}, Reach s → sys.step s θ s' → ∃ a, sys.pending s θ = some a
  pending_stable : ∀ {s θ θ' s' a}, Reach s → sys.step s θ' s' → θ' ≠ θ →
    sys.pending s θ = some a → sys.pending s' θ = some a
  pending_of_set : ∀ {s θ s' f}, Reach s → sys.step s θ s' → sys.pending s θ = some (.set f) →
    ∃ a, sys.pending s' θ = some a
  wait_iff : ∀ {s θ s' f}, Reach s → sys.pending s θ = some (.wait f) →
    (sys.step s θ s' ↔ sys.value s f ≠ sys.old ∧ s' = sys.passed s θ)
  waiter_unique : ∀ {s θ θ' f}, Reach s → sys.pending s θ = some (.wait f) →
    sys.pending s θ' = some (.wait f) → θ = θ'
  value_stable : ∀ {s θ θ' s' f}, Reach s → sys.pending s θ = some (.wait f) → θ' ≠ θ →
    sys.step s θ' s' → sys.value s f ≠ sys.old → sys.value s' f ≠ sys.old
  value_set : ∀ {s θ s' f}, Reach s → sys.step s θ s' → sys.value s f = sys.old →
    sys.value s' f ≠ sys.old → sys.pending s θ = some (.set f)

/-- Where a thread is: not in one of the functions, in the function that waits, asleep in
`wait` of the flag, or between the store to a flag and `notify_one`. -/
inductive Phase (F V : Type*)
  | idle
  | waiting (p : Prog V Unit)
  | asleep (old : V) (next : Prog V Unit)
  | notifying (f : F)

/-- What a step is: one of the abstract system, one that only the thread itself notices,
`notify_one` with the thread that it wakes up, or a spurious wake-up. -/
inductive Label (Θ : Type*)
  | commit (θ : Θ)
  | busy (θ : Θ)
  | notify (θ : Θ) (woken : Option Θ)
  | spurious (θ : Θ)

def Label.thread {Θ : Type*} : Label Θ → Θ
  | .commit θ | .busy θ | .notify θ _ | .spurious θ => θ

/-- The thread that makes a step of the abstract system. -/
def Label.committed {Θ : Type*} : Label Θ → Option Θ
  | .commit θ => some θ
  | _ => none

variable {S Θ F V : Type*}

/-- The steps of the threads, `prog θ` being how thread `θ` waits. -/
inductive Move [DecidableEq Θ] (sys : System S Θ F V) (prog : Θ → Prog V Unit) :
    S × (Θ → Phase F V) → Label Θ → S × (Θ → Phase F V) → Prop
  | other {s s' φ θ} : φ θ = .idle → sys.pending s θ = some .other → sys.step s θ s' →
      Move sys prog (s, φ) (.commit θ) (s', φ)
  | call {s φ θ f} : φ θ = .idle → sys.pending s θ = some (.wait f) →
      Move sys prog (s, φ) (.busy θ) (s, Function.update φ θ (.waiting (prog θ)))
  | load {s φ θ f order next} : φ θ = .waiting (.load order next) →
      sys.pending s θ = some (.wait f) →
      Move sys prog (s, φ) (.busy θ) (s, Function.update φ θ (.waiting (next (sys.value s f))))
  | delay {s φ θ d next} : φ θ = .waiting (.delay d next) →
      Move sys prog (s, φ) (.busy θ) (s, Function.update φ θ (.waiting next))
  | pass {s φ θ f old next} : φ θ = .waiting (.wait old next) →
      sys.pending s θ = some (.wait f) → sys.value s f ≠ old →
      Move sys prog (s, φ) (.busy θ) (s, Function.update φ θ (.waiting next))
  | sleep {s φ θ f old next} : φ θ = .waiting (.wait old next) →
      sys.pending s θ = some (.wait f) → sys.value s f = old →
      Move sys prog (s, φ) (.busy θ) (s, Function.update φ θ (.asleep old next))
  | spurious {s φ θ old next} : φ θ = .asleep old next →
      Move sys prog (s, φ) (.spurious θ) (s, Function.update φ θ (.waiting (.wait old next)))
  | return {s φ θ} : φ θ = .waiting (.ret ()) →
      Move sys prog (s, φ) (.commit θ) (sys.passed s θ, Function.update φ θ .idle)
  | store {s s' φ θ f} : φ θ = .idle → sys.pending s θ = some (.set f) → sys.step s θ s' →
      Move sys prog (s, φ) (.commit θ) (s', Function.update φ θ (.notifying f))
  | notify {s φ θ f θ' old next} : φ θ = .notifying f → φ θ' = .asleep old next →
      sys.pending s θ' = some (.wait f) →
      Move sys prog (s, φ) (.notify θ (some θ'))
        (s, Function.update (Function.update φ θ .idle) θ' (.waiting (.wait old next)))
  | notifyNobody {s φ θ f} : φ θ = .notifying f →
      (∀ θ' old next, φ θ' = .asleep old next → sys.pending s θ' ≠ some (.wait f)) →
      Move sys prog (s, φ) (.notify θ none) (s, Function.update φ θ .idle)

variable {sys : System S Θ F V} {prog : Θ → Prog V Unit} {Reach : S → Prop} {s s' s₀ : S}
  {φ : Θ → Phase F V} {x y : S × (Θ → Phase F V)} {θ : Θ} {f : F} {ph : Phase F V}
  {l : List (Label Θ)} [DecidableEq V]

/-- The knowledge with which a thread returns from waiting. -/
def Acquired : Prog.Knowledge → Unit → Prop := fun κ _ => κ = .acquired

variable (sys) in
/-- What the phase of a thread says about the state. -/
def Sound (s : S) (θ : Θ) : Phase F V → Prop
  | .idle => True
  | .waiting p => ∃ f κ, sys.pending s θ = some (.wait f) ∧
      (κ ≠ .nothing → sys.value s f ≠ sys.old) ∧ p.Ensures sys.old Acquired κ
  | .asleep old next => old = sys.old ∧ (∃ f, sys.pending s θ = some (.wait f)) ∧
      next.Ensures sys.old Acquired .acquired
  | .notifying _ => ∃ a, sys.pending s θ = some a

@[simp] theorem sound_idle : Sound sys s θ (.idle : Phase F V) := trivial

variable (sys Reach) in
/-- The phases are sound, and a thread that sleeps although its flag has been set is about
to be woken up. -/
structure Inv (x : S × (Θ → Phase F V)) : Prop where
  reach : Reach x.1
  sound : ∀ θ, Sound sys x.1 θ (x.2 θ)
  notified : ∀ θ old next f, x.2 θ = .asleep old next →
    sys.pending x.1 θ = some (.wait f) → sys.value x.1 f ≠ sys.old → ∃ θ', x.2 θ' = .notifying f

theorem Inv.initial (h : Reach s₀) : Inv sys Reach (s₀, fun _ => (.idle : Phase F V)) where
  reach := h
  sound := fun _ => trivial
  notified := fun _ _ _ _ h => nomatch h

/-- What other threads do, does not concern a thread. -/
theorem Sound.of_step (hl : Lawful sys Reach) (hs : Reach s) {θ' : Θ} (hθ : θ' ≠ θ)
    (hstep : sys.step s θ' s') (h : Sound sys s θ ph) : Sound sys s' θ ph := by
  cases ph with
  | idle => trivial
  | waiting p =>
      obtain ⟨f, κ, hp, hκ, hend⟩ := h
      exact ⟨f, κ, hl.pending_stable hs hstep hθ hp,
        fun hn => hl.value_stable hs hp hθ hstep (hκ hn), hend⟩
  | asleep old next =>
      obtain ⟨rfl, ⟨f, hp⟩, hend⟩ := h
      exact ⟨rfl, ⟨f, hl.pending_stable hs hstep hθ hp⟩, hend⟩
  | notifying f =>
      obtain ⟨a, hp⟩ := h
      exact ⟨a, hl.pending_stable hs hstep hθ hp⟩

variable [DecidableEq Θ]

/-- A step of a thread that only concerns itself. -/
theorem Inv.update (h : Inv sys Reach (s, φ)) (hφ : ∀ f, φ θ ≠ .notifying f)
    (hsound : Sound sys s θ ph) (hsleep : ∀ old next f, ph = .asleep old next →
      sys.pending s θ = some (.wait f) → sys.value s f = sys.old) :
    Inv sys Reach (s, Function.update φ θ ph) where
  reach := h.reach
  sound := fun θ' => by
    by_cases hθ : θ' = θ
    · subst hθ
      simpa using hsound
    · simpa [hθ] using h.sound θ'
  notified := fun θ' old next f hasleep hp hv => by
    by_cases hθ : θ' = θ
    · subst hθ
      exact absurd (hsleep old next f (by simpa using hasleep) hp) hv
    · obtain ⟨θ'', hn⟩ := h.notified θ' old next f (by simpa [hθ] using hasleep) hp hv
      have hne : θ'' ≠ θ := fun heq => hφ f (heq ▸ hn)
      exact ⟨θ'', by simpa [hne] using hn⟩

theorem Inv.commit (hl : Lawful sys Reach) (h : Inv sys Reach (s, φ)) (hstep : sys.step s θ s')
    (hφ : ∀ f, φ θ ≠ .notifying f) (hsound : Sound sys s' θ ph)
    (hph : ∀ old next, ph ≠ .asleep old next)
    (hset : ∀ f, sys.pending s θ = some (.set f) → ph = .notifying f) :
    Inv sys Reach (s', Function.update φ θ ph) where
  reach := hl.reach h.reach hstep
  sound := fun θ' => by
    by_cases hθ : θ' = θ
    · subst hθ
      simpa using hsound
    · simpa [hθ] using (h.sound θ').of_step hl h.reach (Ne.symm hθ) hstep
  notified := fun θ' old next f hasleep hp hv => by
    have hθ : θ' ≠ θ := by
      rintro rfl
      exact hph old next (by simpa using hasleep)
    have hasleep' : φ θ' = .asleep old next := by simpa [hθ] using hasleep
    obtain ⟨-, ⟨f', hp'⟩, -⟩ : Sound sys s θ' (.asleep old next) := hasleep' ▸ h.sound θ'
    have hp'' := hl.pending_stable h.reach hstep (Ne.symm hθ) hp'
    obtain rfl : f = f' := by simpa using hp.symm.trans hp''
    by_cases hold : sys.value s f = sys.old
    · exact ⟨θ, by simpa using hset f (hl.value_set h.reach hstep hold hv)⟩
    · obtain ⟨θ'', hn⟩ := h.notified θ' old next f hasleep' hp' hold
      have hne : θ'' ≠ θ := fun heq => hφ f (heq ▸ hn)
      exact ⟨θ'', by simpa [hne] using hn⟩

/-- `notify_one` wakes up the thread that waits for the flag. -/
theorem Inv.notify (hl : Lawful sys Reach) (h : Inv sys Reach (s, φ)) {θ' : Θ} {old : V}
    {next : Prog V Unit} (hφ : φ θ = .notifying f) (hφ' : φ θ' = .asleep old next)
    (hp : sys.pending s θ' = some (.wait f)) :
    Inv sys Reach
      (s, Function.update (Function.update φ θ .idle) θ' (.waiting (.wait old next))) where
  reach := h.reach
  sound := fun θ'' => by
    by_cases hθ' : θ'' = θ'
    · subst hθ'
      obtain ⟨hold, -, hend⟩ : Sound sys s θ'' (.asleep old next) := hφ' ▸ h.sound θ''
      simpa using ⟨f, .nothing, hp, fun hn => absurd rfl hn, hold, hend⟩
    · by_cases hθ : θ'' = θ
      · subst hθ
        simp [hθ']
      · simpa [hθ, hθ'] using h.sound θ''
  notified := fun θ'' old' next' f' hasleep hp' hv => by
    have hθ' : θ'' ≠ θ' := by
      rintro rfl
      simp at hasleep
    have hθ : θ'' ≠ θ := by
      rintro rfl
      simp [hθ'] at hasleep
    obtain ⟨θ₁, hn⟩ := h.notified θ'' old' next' f' (by simpa [hθ, hθ'] using hasleep) hp' hv
    -- a flag has one waiter only, so it is another one that has been notified
    have hne : θ₁ ≠ θ := by
      rintro rfl
      obtain rfl : f = f' := by simpa using hφ.symm.trans hn
      exact hθ' (hl.waiter_unique h.reach hp' hp)
    have hne' : θ₁ ≠ θ' := by
      rintro rfl
      simp [hφ'] at hn
    exact ⟨θ₁, by simpa [hne, hne'] using hn⟩

theorem Inv.notifyNobody (h : Inv sys Reach (s, φ)) (hφ : φ θ = .notifying f)
    (hnone : ∀ θ' old next, φ θ' = .asleep old next → sys.pending s θ' ≠ some (.wait f)) :
    Inv sys Reach (s, Function.update φ θ .idle) where
  reach := h.reach
  sound := fun θ' => by
    by_cases hθ : θ' = θ
    · subst hθ
      simp
    · simpa [hθ] using h.sound θ'
  notified := fun θ' old next f' hasleep hp hv => by
    have hθ : θ' ≠ θ := by
      rintro rfl
      simp at hasleep
    have hasleep' : φ θ' = .asleep old next := by simpa [hθ] using hasleep
    obtain ⟨θ₁, hn⟩ := h.notified θ' old next f' hasleep' hp hv
    have hne : θ₁ ≠ θ := by
      rintro rfl
      obtain rfl : f = f' := by simpa using hφ.symm.trans hn
      exact hnone θ' old next hasleep' hp
    exact ⟨θ₁, by simpa [hne] using hn⟩

/-- A step keeps the invariant, and it is one of the abstract system or none. -/
theorem Move.inv (hl : Lawful sys Reach) (hprog : ∀ θ, (prog θ).Awaits sys.old)
    {a : Label Θ} (hm : Move sys prog x a y) (h : Inv sys Reach x) :
    Inv sys Reach y ∧ (∀ θ, a.committed = some θ → sys.step x.1 θ y.1) ∧
      (a.committed = none → y.1 = x.1) := by
  cases hm with
  | @other s s' φ θ hφ hp hstep =>
      have hne : ∀ f, φ θ ≠ .notifying f := fun f hn => by simp [hφ] at hn
      have hinv : Inv sys Reach (s', Function.update φ θ .idle) :=
        h.commit hl hstep hne trivial (fun _ _ h => nomatch h) fun f hf => by simp [hp] at hf
      rw [Function.update_eq_self_iff.2 hφ.symm] at hinv
      exact ⟨hinv, by rintro _ ⟨⟩; exact hstep, fun h => nomatch h⟩
  | @call s φ θ f hφ hp =>
      have hne : ∀ f, φ θ ≠ .notifying f := fun f hn => by simp [hφ] at hn
      exact ⟨h.update hne ⟨f, .nothing, hp, fun hn => absurd rfl hn, hprog θ⟩
        (fun _ _ _ h => nomatch h), (fun _ h => nomatch h), fun _ => rfl⟩
  | @load s φ θ f order next hφ hp =>
      have hne : ∀ f, φ θ ≠ .notifying f := fun f hn => by simp [hφ] at hn
      obtain ⟨f', κ, hp', hκ, hend⟩ : Sound sys s θ (.waiting (.load order next)) :=
        hφ ▸ h.sound θ
      obtain rfl : f = f' := by simpa using hp.symm.trans hp'
      refine ⟨h.update hne ⟨f, _, hp, ?_, hend _ hκ⟩ (fun _ _ _ h => nomatch h),
        (fun _ h => nomatch h), fun _ => rfl⟩
      intro hn
      by_cases hv : sys.value s f = sys.old
      · rw [if_pos hv] at hn
        exact hκ hn
      · exact hv
  | @delay s φ θ d next hφ =>
      have hne : ∀ f, φ θ ≠ .notifying f := fun f hn => by simp [hφ] at hn
      have hsound : Sound sys s θ (.waiting (.delay d next)) := hφ ▸ h.sound θ
      exact ⟨h.update hne hsound (fun _ _ _ h => nomatch h), (fun _ h => nomatch h), fun _ => rfl⟩
  | @pass s φ θ f old next hφ hp hv =>
      have hne : ∀ f, φ θ ≠ .notifying f := fun f hn => by simp [hφ] at hn
      obtain ⟨f', κ, hp', hκ, rfl, hend⟩ : Sound sys s θ (.waiting (.wait old next)) :=
        hφ ▸ h.sound θ
      exact ⟨h.update hne ⟨f, .acquired, hp, fun _ => hv, hend⟩ (fun _ _ _ h => nomatch h),
        (fun _ h => nomatch h), fun _ => rfl⟩
  | @sleep s φ θ f old next hφ hp hv =>
      have hne : ∀ f, φ θ ≠ .notifying f := fun f hn => by simp [hφ] at hn
      obtain ⟨f', κ, hp', hκ, rfl, hend⟩ : Sound sys s θ (.waiting (.wait old next)) :=
        hφ ▸ h.sound θ
      refine ⟨h.update hne ⟨rfl, ⟨f, hp⟩, hend⟩ ?_, (fun _ h => nomatch h), fun _ => rfl⟩
      intro _ _ f'' _ hp''
      obtain rfl : f = f'' := by simpa using hp.symm.trans hp''
      exact hv
  | @spurious s φ θ old next hφ =>
      have hne : ∀ f, φ θ ≠ .notifying f := fun f hn => by simp [hφ] at hn
      obtain ⟨rfl, ⟨f, hp⟩, hend⟩ : Sound sys s θ (.asleep old next) := hφ ▸ h.sound θ
      exact ⟨h.update hne ⟨f, .nothing, hp, fun hn => absurd rfl hn, rfl, hend⟩
        (fun _ _ _ h => nomatch h), (fun _ h => nomatch h), fun _ => rfl⟩
  | @«return» s φ θ hφ =>
      have hne : ∀ f, φ θ ≠ .notifying f := fun f hn => by simp [hφ] at hn
      obtain ⟨f, κ, hp, hκ, hend⟩ : Sound sys s θ (.waiting (.ret ())) := hφ ▸ h.sound θ
      obtain rfl : κ = .acquired := hend
      have hstep := (hl.wait_iff h.reach hp).2 ⟨hκ (by decide), rfl⟩
      exact ⟨h.commit hl hstep hne trivial (fun _ _ h => nomatch h) fun f hf => by simp [hp] at hf,
        by rintro _ ⟨⟩; exact hstep, fun h => nomatch h⟩
  | @store s s' φ θ f hφ hp hstep =>
      have hne : ∀ f, φ θ ≠ .notifying f := fun f hn => by simp [hφ] at hn
      refine ⟨h.commit hl hstep hne (hl.pending_of_set h.reach hstep hp)
        (fun _ _ h => nomatch h) ?_, by rintro _ ⟨⟩; exact hstep, fun h => nomatch h⟩
      intro f' hf'
      obtain rfl : f = f' := by simpa using hp.symm.trans hf'
      rfl
  | notify hφ hφ' hp => exact ⟨h.notify hl hφ hφ' hp, (fun _ h => nomatch h), fun _ => rfl⟩
  | notifyNobody hφ hnone =>
      exact ⟨h.notifyNobody hφ hnone, (fun _ h => nomatch h), fun _ => rfl⟩

/-- A run is one of the abstract system, with steps that are not noticed in between. -/
theorem run_refines (hl : Lawful sys Reach) (hprog : ∀ θ, (prog θ).Awaits sys.old)
    (hs : Reach s₀) (h : Run (Move sys prog) (s₀, fun _ => .idle) l x) :
    Inv sys Reach x ∧ Run sys.step s₀ (l.filterMap Label.committed) x.1 := by
  induction h with
  | nil => exact ⟨.initial hs, .nil⟩
  | @concat l x y a _ hm ih =>
      obtain ⟨hinv, hcommit, hskip⟩ := hm.inv hl hprog ih.1
      refine ⟨hinv, ?_⟩
      rw [List.filterMap_append]
      cases ha : a.committed with
      | none => simpa [ha, hskip ha] using ih.2
      | some θ => simpa [ha] using ih.2.concat (hcommit θ ha)

/-- A thread whose flag has been set gets through what it does to wait. -/
theorem exists_run_ret {p : Prog V Unit} {Q : Prog.Knowledge → Unit → Prop} {κ : Prog.Knowledge}
    (hp : p.Ensures sys.old Q κ) (hφ : φ θ = .waiting p)
    (hpending : sys.pending s θ = some (.wait f)) (hv : sys.value s f ≠ sys.old) :
    ∃ l, Run (Move sys prog) (s, φ) l (s, Function.update φ θ (.waiting (.ret ()))) ∧
      l.filterMap Label.committed = [] := by
  induction p generalizing φ κ with
  | ret b =>
      refine ⟨[], ?_, rfl⟩
      rw [Function.update_eq_self_iff.2 hφ.symm]
      exact .nil
  | load order next ih =>
      obtain ⟨l, hrun, hl⟩ := @ih (sys.value s f) 
        (Function.update φ θ (.waiting (next (sys.value s f)))) _ (hp _ fun _ => hv) (by simp)
      rw [Function.update_idem] at hrun
      exact ⟨.busy θ :: l, (Run.single (.load hφ hpending)).append hrun, hl⟩
  | delay d next ih =>
      obtain ⟨l, hrun, hl⟩ := @ih (Function.update φ θ (.waiting next)) _ hp (by simp)
      rw [Function.update_idem] at hrun
      exact ⟨.busy θ :: l, (Run.single (.delay hφ)).append hrun, hl⟩
  | wait old next ih =>
      obtain ⟨l, hrun, hl⟩ := @ih (Function.update φ θ (.waiting next)) _ hp.2 (by simp)
      rw [Function.update_idem] at hrun
      exact ⟨.busy θ :: l, (Run.single (.pass hφ hpending (hp.1 ▸ hv))).append hrun, hl⟩

/-- All other threads are idle. -/
def onlyPhase (θ : Θ) (ph : Phase F V) : Θ → Phase F V := Function.update (fun _ => .idle) θ ph

omit [DecidableEq V] in
theorem onlyPhase_self (θ : Θ) (ph : Phase F V) : onlyPhase θ ph θ = ph := Function.update_self ..

omit [DecidableEq V] in
theorem update_onlyPhase (θ : Θ) (ph ph' : Phase F V) :
    Function.update (onlyPhase θ ph) θ ph' = onlyPhase θ ph' := Function.update_idem ..

omit [DecidableEq V] in
theorem onlyPhase_idle (θ : Θ) : onlyPhase θ (.idle : Phase F V) = fun _ => .idle :=
  Function.update_eq_self_iff.2 rfl

theorem exists_run (hl : Lawful sys Reach) (hprog : ∀ θ, (prog θ).Awaits sys.old)
    {θs : List Θ} (hs : Reach s₀) (h : Run sys.step s₀ θs s) :
    Reach s ∧ ∃ l, Run (Move sys prog) (s₀, fun _ => .idle) l (s, fun _ => .idle) ∧
      l.filterMap Label.committed = θs := by
  induction h with
  | nil => exact ⟨hs, [], .nil, rfl⟩
  | @concat θs s s' θ _ hstep ih =>
      obtain ⟨hreach, l, hrun, rfl⟩ := ih
      refine ⟨hl.reach hreach hstep, ?_⟩
      obtain ⟨a, hp⟩ := hl.pending_of_step hreach hstep
      cases a with
      | other =>
          refine ⟨l ++ [.commit θ], hrun.concat (.other rfl hp hstep), ?_⟩
          rw [List.filterMap_append]
          rfl
      | set f =>
          have hstore : Move sys prog (s, fun _ => .idle) (.commit θ)
            (s', onlyPhase θ (.notifying f)) := .store rfl hp hstep
          have hnotify : Move sys prog (s', onlyPhase θ (.notifying f)) (.notify θ none)
              (s', Function.update (onlyPhase θ (.notifying f)) θ .idle) := by
            refine .notifyNobody (onlyPhase_self ..) fun θ' old next hasleep => ?_
            rw [onlyPhase, Function.update_apply] at hasleep
            split at hasleep <;> cases hasleep
          rw [update_onlyPhase, onlyPhase_idle] at hnotify
          refine ⟨l ++ [.commit θ] ++ [.notify θ none], (hrun.concat hstore).concat hnotify, ?_⟩
          rw [List.filterMap_append, List.filterMap_append, List.append_assoc]
          rfl
      | wait f =>
          obtain ⟨hv, rfl⟩ := (hl.wait_iff hreach hp).1 hstep
          have hcall : Move sys prog (s, fun _ => .idle) (.busy θ)
            (s, onlyPhase θ (.waiting (prog θ))) := .call rfl hp
          obtain ⟨m, hwait, hm⟩ := exists_run_ret (hprog θ) (onlyPhase_self ..) hp hv
          have hreturn : Move sys prog (s, onlyPhase θ (.waiting (.ret ()))) (.commit θ)
            (sys.passed s θ, Function.update (onlyPhase θ (.waiting (.ret ()))) θ .idle) :=
            .return (onlyPhase_self ..)
          rw [update_onlyPhase] at hwait
          rw [update_onlyPhase, onlyPhase_idle] at hreturn
          refine ⟨l ++ [.busy θ] ++ m ++ [.commit θ],
            ((hrun.concat hcall).append hwait).concat hreturn, ?_⟩
          rw [List.filterMap_append, List.filterMap_append, List.filterMap_append, hm]
          simp [Label.committed]

omit [DecidableEq V] in
theorem exists_notify (hφ : φ θ = .notifying f) :
    ∃ woken y, Move sys prog (s, φ) (.notify θ woken) y := by
  by_cases h : ∃ θ' old next, φ θ' = .asleep old next ∧ sys.pending s θ' = some (.wait f)
  · obtain ⟨θ', old, next, hφ', hp⟩ := h
    exact ⟨_, _, .notify hφ hφ' hp⟩
  · exact ⟨_, _, .notifyNobody hφ fun θ' old next hφ' hp => h ⟨θ', old, next, hφ', hp⟩⟩

/-- As long as the abstract system can make a step, some thread can make one, and not only
by being woken up for no reason. -/
theorem Inv.exists_move (hl : Lawful sys Reach) (h : Inv sys Reach x)
    (hstep : sys.step x.1 θ s') : ∃ a y, Move sys prog x a y ∧ ∀ θ, a ≠ .spurious θ := by
  obtain ⟨s, φ⟩ := x
  obtain ⟨a, hp⟩ := hl.pending_of_step h.reach hstep
  have hsound := h.sound θ
  cases hφ : φ θ with
  | idle =>
      cases a with
      | wait f => exact ⟨_, _, .call hφ hp, by simp⟩
      | set f => exact ⟨_, _, .store hφ hp hstep, by simp⟩
      | other => exact ⟨_, _, .other hφ hp hstep, by simp⟩
  | waiting p =>
      simp only [hφ] at hsound
      obtain ⟨f, κ, hp', -⟩ := hsound
      cases p with
      | ret b => exact ⟨_, _, .return hφ, by simp⟩
      | load order next => exact ⟨_, _, .load hφ hp', by simp⟩
      | delay d next => exact ⟨_, _, .delay hφ, by simp⟩
      | wait old next =>
          by_cases hv : sys.value s f = old
          · exact ⟨_, _, .sleep hφ hp' hv, by simp⟩
          · exact ⟨_, _, .pass hφ hp' hv, by simp⟩
  | asleep old next =>
      simp only [hφ] at hsound
      obtain ⟨-, ⟨f, hp'⟩, -⟩ := hsound
      have hv := ((hl.wait_iff h.reach hp').1 hstep).1
      obtain ⟨θ', hn⟩ := h.notified θ old next f hφ hp' hv
      obtain ⟨woken, y, hm⟩ := exists_notify hn
      exact ⟨_, y, hm, by simp⟩
  | notifying f =>
      obtain ⟨woken, y, hm⟩ := exists_notify hφ
      exact ⟨_, y, hm, by simp⟩

omit [DecidableEq Θ] in
/-- A thread that has nothing left to do is not within one of the functions. -/
theorem Inv.eq_idle (h : Inv sys Reach x) (hp : sys.pending x.1 θ = none) : x.2 θ = .idle := by
  have hsound := h.sound θ
  cases hφ : x.2 θ with
  | idle => rfl
  | waiting p =>
      rw [hφ] at hsound
      obtain ⟨f, κ, hp', -⟩ := hsound
      simp [hp] at hp'
  | asleep old next =>
      rw [hφ] at hsound
      obtain ⟨-, ⟨f, hp'⟩, -⟩ := hsound
      simp [hp] at hp'
  | notifying f =>
      rw [hφ] at hsound
      obtain ⟨a, hp'⟩ := hsound
      simp [hp] at hp'

@[simp] def Label.commits (θ : Θ) : Label Θ → Bool
  | .commit θ' => θ' = θ
  | _ => false

@[simp] def Label.busies (θ : Θ) : Label Θ → Bool
  | .busy θ' | .notify θ' _ => θ' = θ
  | _ => false

@[simp] def Label.wakes (θ : Θ) : Label Θ → Bool
  | .notify _ (some θ') | .spurious θ' => θ' = θ
  | _ => false

/-- A thread in this phase makes at most `c` steps which are none of the abstract system
before it makes one or is woken up. -/
def HasCredit (n c : ℕ) : Phase F V → Prop
  | .idle => c = n + 1
  | .waiting p => p.Within c
  | .asleep _ next => next.Within c
  | .notifying _ => c = n + 2

omit [DecidableEq V] in
theorem Move.credit {n c : ℕ} (hprog : ∀ θ, (prog θ).Within n) {a : Label Θ}
    (hm : Move sys prog x a y) (hc : HasCredit n c (x.2 θ)) :
    ∃ c', HasCredit n c' (y.2 θ) ∧ (a.busies θ).toNat + c' ≤
      c + (n + 2) * (a.commits θ).toNat + (a.wakes θ).toNat := by
  have hother : y.2 θ = x.2 θ → a.busies θ = false → ∃ c', HasCredit n c' (y.2 θ) ∧
      (a.busies θ).toNat + c' ≤ c + (n + 2) * (a.commits θ).toNat + (a.wakes θ).toNat := by
    intro hy ha
    refine ⟨c, hy ▸ hc, ?_⟩
    rw [ha, Bool.toNat_false]
    omega
  cases hm with
  | other hφ hp hstep => exact hother rfl rfl
  | @call s φ θ' f hφ hp =>
      rcases eq_or_ne θ θ' with rfl | hθ
      · obtain rfl : c = n + 1 := by simpa [hφ, HasCredit] using hc
        exact ⟨n, by simpa [HasCredit] using hprog θ, by simp; omega⟩
      · exact hother (by simp [hθ]) (by simp [hθ.symm])
  | @load s φ θ' f order next hφ hp =>
      rcases eq_or_ne θ θ' with rfl | hθ
      · obtain ⟨hpos, hnext⟩ : (Prog.load order next).Within c := by
          simpa only [hφ, HasCredit] using hc
        exact ⟨c - 1, by simpa [HasCredit] using hnext _, by simp; omega⟩
      · exact hother (by simp [hθ]) (by simp [hθ.symm])
  | @delay s φ θ' d next hφ =>
      rcases eq_or_ne θ θ' with rfl | hθ
      · obtain ⟨hpos, hnext⟩ : (Prog.delay d next).Within c := by
          simpa only [hφ, HasCredit] using hc
        exact ⟨c - 1, by simpa [HasCredit] using hnext, by simp; omega⟩
      · exact hother (by simp [hθ]) (by simp [hθ.symm])
  | @pass s φ θ' f old next hφ hp hv =>
      rcases eq_or_ne θ θ' with rfl | hθ
      · obtain ⟨hpos, hnext⟩ : (Prog.wait old next).Within c := by
          simpa only [hφ, HasCredit] using hc
        exact ⟨c - 1, by simpa [HasCredit] using hnext, by simp; omega⟩
      · exact hother (by simp [hθ]) (by simp [hθ.symm])
  | @sleep s φ θ' f old next hφ hp hv =>
      rcases eq_or_ne θ θ' with rfl | hθ
      · obtain ⟨hpos, hnext⟩ : (Prog.wait old next).Within c := by
          simpa only [hφ, HasCredit] using hc
        exact ⟨c - 1, by simpa [HasCredit] using hnext, by simp; omega⟩
      · exact hother (by simp [hθ]) (by simp [hθ.symm])
  | @spurious s φ θ' old next hφ =>
      rcases eq_or_ne θ θ' with rfl | hθ
      · have hnext : next.Within c := by simpa only [hφ, HasCredit] using hc
        exact ⟨c + 1, by simpa [HasCredit, Prog.Within] using hnext, by simp⟩
      · exact hother (by simp [hθ]) rfl
  | @«return» s φ θ' hφ =>
      rcases eq_or_ne θ θ' with rfl | hθ
      · exact ⟨n + 1, by simp [HasCredit], by simp; omega⟩
      · exact hother (by simp [hθ]) rfl
  | @store s s' φ θ' f hφ hp hstep =>
      rcases eq_or_ne θ θ' with rfl | hθ
      · exact ⟨n + 2, by simp [HasCredit], by simp⟩
      · exact hother (by simp [hθ]) rfl
  | @notify s φ θ₁ f θ₂ old next hφ hφ' hp =>
      rcases eq_or_ne θ θ₂ with rfl | hθ₂
      · have hne : θ₁ ≠ θ := by
          rintro rfl
          simp [hφ] at hφ'
        have hnext : next.Within c := by simpa only [hφ', HasCredit] using hc
        exact ⟨c + 1, by simpa [HasCredit, Prog.Within] using hnext, by simp [hne]⟩
      · rcases eq_or_ne θ θ₁ with rfl | hθ₁
        · obtain rfl : c = n + 2 := by simpa only [hφ, HasCredit] using hc
          exact ⟨n + 1, by simp [HasCredit, hθ₂], by simp; omega⟩
        · exact hother (by simp [hθ₁, hθ₂]) (by simp [hθ₁.symm])
  | @notifyNobody s φ θ' f hφ hnone =>
      rcases eq_or_ne θ θ' with rfl | hθ
      · obtain rfl : c = n + 2 := by simpa only [hφ, HasCredit] using hc
        exact ⟨n + 1, by simp [HasCredit], by simp; omega⟩
      · exact hother (by simp [hθ]) (by simp [hθ.symm])

omit [DecidableEq V] in
/-- How often a thread makes a step of waiting is bounded by how often it makes a step of
the abstract system and by how often it is woken up. -/
theorem run_busies_le {n : ℕ} (hprog : ∀ θ, (prog θ).Within n)
    (h : Run (Move sys prog) (s₀, fun _ => .idle) l x) (θ : Θ) :
    l.countP (Label.busies θ) ≤
      (n + 2) * (l.countP (Label.commits θ) + 1) + l.countP (Label.wakes θ) := by
  have hcredit : ∃ c, HasCredit n c (x.2 θ) ∧ l.countP (Label.busies θ) + c ≤
      (n + 2) * (l.countP (Label.commits θ) + 1) + l.countP (Label.wakes θ) := by
    induction h with
    | nil => exact ⟨n + 1, rfl, by simp⟩
    | @concat l x y a _ hm ih =>
        obtain ⟨c, hc, hle⟩ := ih
        obtain ⟨c', hc', hle'⟩ := hm.credit hprog hc
        refine ⟨c', hc', ?_⟩
        have hcount : ∀ p : Label Θ → Bool,
            (l ++ [a]).countP p = l.countP p + (p a).toNat := by
          intro p
          rw [List.countP_append, List.countP_singleton]
          cases p a <;> rfl
        rw [hcount, hcount, hcount]
        linarith
  obtain ⟨c, -, hle⟩ := hcredit
  omega

@[simp] def Label.notifies (θ : Θ) : Label Θ → Bool
  | .notify θ' _ => θ' = θ
  | _ => false

@[simp] def Label.isSpurious : Label Θ → Bool
  | .spurious _ => true
  | _ => false

@[simp] def Phase.isNotifying : Phase F V → Bool
  | .notifying _ => true
  | _ => false

omit [DecidableEq V] in
theorem Move.notifies {a : Label Θ} (hm : Move sys prog x a y) (θ : Θ) :
    (a.notifies θ).toNat + (y.2 θ).isNotifying.toNat ≤
      (x.2 θ).isNotifying.toNat + (a.commits θ).toNat := by
  cases hm with
  | other => simp
  | @call s φ θ' f hφ => rcases eq_or_ne θ θ' with rfl | hθ <;> simp [*]
  | @load s φ θ' f order next hφ => rcases eq_or_ne θ θ' with rfl | hθ <;> simp [*]
  | @delay s φ θ' d next hφ => rcases eq_or_ne θ θ' with rfl | hθ <;> simp [*]
  | @pass s φ θ' f old next hφ => rcases eq_or_ne θ θ' with rfl | hθ <;> simp [*]
  | @sleep s φ θ' f old next hφ => rcases eq_or_ne θ θ' with rfl | hθ <;> simp [*]
  | @spurious s φ θ' old next hφ => rcases eq_or_ne θ θ' with rfl | hθ <;> simp [*]
  | @«return» s φ θ' hφ => rcases eq_or_ne θ θ' with rfl | hθ <;> simp [*]
  | @store s s' φ θ' f hφ => rcases eq_or_ne θ θ' with rfl | hθ <;> simp [*]
  | @notify s φ θ₁ f θ₂ old next hφ hφ' hp =>
      rcases eq_or_ne θ θ₂ with rfl | hθ₂
      · have hne : θ₁ ≠ θ := by
          rintro rfl
          simp [hφ] at hφ'
        simp [hne]
      · rcases eq_or_ne θ θ₁ with rfl | hθ₁
        · simp [hφ, hθ₂]
        · simp [hθ₁, hθ₁.symm, hθ₂]
  | @notifyNobody s φ θ' f hφ hnone =>
      rcases eq_or_ne θ θ' with rfl | hθ
      · simp [hφ]
      · simp [hθ, hθ.symm]

omit [DecidableEq Θ] in
theorem countP_concat (p : Label Θ → Bool) (l : List (Label Θ)) (a : Label Θ) :
    (l ++ [a]).countP p = l.countP p + (p a).toNat := by
  rw [List.countP_append, List.countP_singleton]
  cases p a <;> rfl

omit [DecidableEq V] in
/-- Every call of `notify_one` belongs to a store. -/
theorem run_notifies_le (h : Run (Move sys prog) (s₀, fun _ => .idle) l x) (θ : Θ) :
    l.countP (Label.notifies θ) ≤ l.countP (Label.commits θ) := by
  have hpending : l.countP (Label.notifies θ) + (x.2 θ).isNotifying.toNat ≤
      l.countP (Label.commits θ) := by
    induction h with
    | nil => simp
    | @concat l x y a _ hm ih =>
        have hstep := hm.notifies θ
        rw [countP_concat, countP_concat]
        omega
  omega

/-- A thread that makes a step or wakes up has something to do. -/
theorem Move.exists_pending {a : Label Θ} (hm : Move sys prog x a y) (h : Inv sys Reach x) :
    ∃ p, sys.pending x.1 a.thread = some p := by
  by_contra hnone
  have hp : sys.pending x.1 a.thread = none := by
    simpa [Option.eq_none_iff_forall_ne_some] using hnone
  have hidle := h.eq_idle hp
  cases hm <;> simp_all [Label.thread]

/-- If only the threads `T` ever have something to do, then they make all the steps. -/
theorem run_thread_mem (hl : Lawful sys Reach) (hprog : ∀ θ, (prog θ).Awaits sys.old)
    (hs : Reach s₀) {T : Finset Θ}
    (hT : ∀ s θ p, Reach s → sys.pending s θ = some p → θ ∈ T)
    (h : Run (Move sys prog) (s₀, fun _ => .idle) l x) : ∀ a ∈ l, a.thread ∈ T := by
  induction h with
  | nil => exact fun a ha => nomatch ha
  | @concat l x y a hrun hm ih =>
      have hinv := (run_refines hl hprog hs hrun).1
      obtain ⟨p, hp⟩ := hm.exists_pending hinv
      intro b hb
      rcases List.mem_append.1 hb with hb | hb
      · exact ih b hb
      · exact List.mem_singleton.1 hb ▸ hT _ _ _ hinv.reach hp

theorem length_eq_sum {T : Finset Θ} (hT : ∀ a ∈ l, a.thread ∈ T) :
    l.length = ∑ θ ∈ T, (l.countP (Label.commits θ) + l.countP (Label.busies θ)) +
      l.countP Label.isSpurious := by
  induction l with
  | nil => simp
  | cons a l ih =>
      have ha := hT a List.mem_cons_self
      rw [List.length_cons, ih fun b hb => hT b (List.mem_cons_of_mem a hb)]
      cases a <;> simp_all [List.countP_cons, Finset.sum_add_distrib, Label.thread] <;> omega

/-- A thread is woken up by `notify_one` or for no reason. -/
theorem sum_wakes_le {T : Finset Θ} (hT : ∀ a ∈ l, a.thread ∈ T) :
    ∑ θ ∈ T, l.countP (Label.wakes θ) ≤
      ∑ θ ∈ T, l.countP (Label.notifies θ) + l.countP Label.isSpurious := by
  induction l with
  | nil => simp
  | cons a l ih =>
      have ha := hT a List.mem_cons_self
      have hle := ih fun b hb => hT b (List.mem_cons_of_mem a hb)
      cases a with
      | notify θ woken =>
          cases woken with
          | none =>
              simp_all [List.countP_cons, Finset.sum_add_distrib, Label.thread]
              omega
          | some θ' =>
              have hone : (if θ' ∈ T then 1 else 0) ≤ 1 := by split <;> omega
              simp_all [List.countP_cons, Finset.sum_add_distrib, Label.thread]
              omega
      | _ => simp_all [List.countP_cons, Finset.sum_add_distrib, Label.thread] <;> omega

theorem sum_commits_eq {T : Finset Θ} (hT : ∀ a ∈ l, a.thread ∈ T) :
    ∑ θ ∈ T, l.countP (Label.commits θ) = (l.filterMap Label.committed).length := by
  induction l with
  | nil => simp
  | cons a l ih =>
      have ha := hT a List.mem_cons_self
      have hsum := ih fun b hb => hT b (List.mem_cons_of_mem a hb)
      cases a <;>
        simp_all [List.countP_cons, List.filterMap_cons, Finset.sum_add_distrib, Label.thread,
          Label.committed]

/-- A run is not much longer than the run of the abstract system which it amounts to. -/
theorem run_length_le {n : ℕ} (hl : Lawful sys Reach) (hprog : ∀ θ, (prog θ).Awaits sys.old)
    (hwithin : ∀ θ, (prog θ).Within n) (hs : Reach s₀) {T : Finset Θ}
    (hT : ∀ s θ p, Reach s → sys.pending s θ = some p → θ ∈ T)
    (h : Run (Move sys prog) (s₀, fun _ => .idle) l x) :
    l.length ≤ (n + 4) * (l.filterMap Label.committed).length + (n + 2) * T.card +
      2 * l.countP Label.isSpurious := by
  have hthread := run_thread_mem hl hprog hs hT h
  have hbusies : ∑ θ ∈ T, l.countP (Label.busies θ) ≤
      ∑ θ ∈ T, ((n + 2) * (l.countP (Label.commits θ) + 1) + l.countP (Label.wakes θ)) :=
    Finset.sum_le_sum fun θ _ => run_busies_le hwithin h θ
  have hnotifies : ∑ θ ∈ T, l.countP (Label.notifies θ) ≤ ∑ θ ∈ T, l.countP (Label.commits θ) :=
    Finset.sum_le_sum fun θ _ => run_notifies_le h θ
  have hwakes := sum_wakes_le hthread
  rw [Finset.sum_add_distrib, ← Finset.mul_sum, Finset.sum_add_distrib, Finset.sum_const,
    smul_eq_mul, mul_one] at hbusies
  rw [length_eq_sum hthread, Finset.sum_add_distrib, ← sum_commits_eq hthread]
  linarith

end AtomicWait
