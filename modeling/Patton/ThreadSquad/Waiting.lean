import Patton.Library.WaitNotify
import Patton.ThreadSquad.RunProtocol

/-!
# Spinning, sleeping and waking up

The machine lets a thread pass `wait` once its signal is set. Here `wait` is what it is
in the source, a loop that polls the signal with some backoff and in the end blocks in
`wait` of the atomic object, and `set_and_notify` is a store which is followed by
`notify_one` some time later. Each signal is awaited and reset by one thread only, so
the executions are those of the machine, no wake-up is lost, and a thread does not spin
for ever.
-/

namespace Patton.ThreadSquad

open AtomicWait Causality

def spinCount : ℕ := 6
def spinRep : ℕ := 1
def pauseCountExp : ℕ := 9
def smtPauseCountExp : ℕ := 9
def yieldCountExp : ℕ := 0

section

variable {T : Type} [DecidableEq T]

/-- `if (a.load(std::memory_order_relaxed) != oldValue) return true;` -/
def poll (oldValue : T) : Prog T Bool := .load .relaxed fun v => .ret (decide (v ≠ oldValue))

def waitEqualExponentialBackoff (oldValue : T) : Prog T Bool :=
  (poll oldValue).orElse <|
    (Prog.forLoop (1 <<< pauseCountExp) fun _ =>
      (Prog.forLoop spinCount fun j =>
        -- `n` has been doubled `j` times
        Prog.forLoop spinRep fun _ => .delay (.busy (2 ^ j)) (poll oldValue)).orElse <|
      (poll oldValue).orElse (.delay .pause (.ret false))).orElse <|
    Prog.forLoop (1 <<< yieldCountExp) fun _ =>
      (poll oldValue).orElse (.delay .yield (.ret false))

def waitEqualSmt (oldValue : T) : Prog T Bool :=
  (poll oldValue).orElse <|
    (Prog.forLoop (1 <<< smtPauseCountExp) fun _ =>
      (poll oldValue).orElse (.delay .pause (.ret false))).orElse <|
    Prog.forLoop (1 <<< yieldCountExp) fun _ =>
      (poll oldValue).orElse (.delay .yield (.ret false))

inductive WaitMode
  | wait
  | spinWait
  | smtSpinWait
  deriving DecidableEq

def wait (oldValue : T) (waitMode : WaitMode) : Prog T Unit :=
  Prog.bind
    (match waitMode with
      | .wait => Prog.ret false
      | .spinWait => waitEqualExponentialBackoff oldValue
      | .smtSpinWait => waitEqualSmt oldValue)
    fun changed => if changed then .load .acquire fun _ => .ret () else .wait oldValue (.ret ())

theorem waitEqualExponentialBackoff_detects (oldValue : T) :
    (waitEqualExponentialBackoff oldValue).Detects oldValue := by
  have hpoll : (poll oldValue).Detects oldValue := .load .relaxed
  have hwait : ∀ d, ((poll oldValue).orElse (.delay d (.ret false))).Detects oldValue :=
    fun d => hpoll.orElse (.delay .ret_false)
  refine hpoll.orElse (.orElse (.forLoop fun _ => ?_) (.forLoop fun _ => hwait .yield))
  exact .orElse (.forLoop fun _ => .forLoop fun _ => hpoll.delay) (hwait .pause)

theorem waitEqualSmt_detects (oldValue : T) : (waitEqualSmt oldValue).Detects oldValue := by
  have hpoll : (poll oldValue).Detects oldValue := .load .relaxed
  have hwait : ∀ d, ((poll oldValue).orElse (.delay d (.ret false))).Detects oldValue :=
    fun d => hpoll.orElse (.delay .ret_false)
  exact hpoll.orElse (.orElse (.forLoop fun _ => hwait .pause) (.forLoop fun _ => hwait .yield))

/-- Whichever way a thread waits, it returns only after an acquire operation has read a
value other than the old one. -/
theorem wait_awaits (oldValue : T) (waitMode : WaitMode) :
    (wait oldValue waitMode).Awaits oldValue := by
  have hdetects : ∀ p : Prog T Bool, p.Detects oldValue → (p.bind fun changed =>
      if changed then Prog.load .acquire fun _ => .ret ()
      else .wait oldValue (.ret ())).Awaits oldValue := by
    intro p hp
    refine (hp.ensures .nothing).bind fun κ changed hκ => ?_
    cases changed with
    | false => exact ⟨rfl, rfl⟩
    | true =>
        intro v hv
        rw [if_neg (hv (hκ rfl))]
        exact κ.learn_acquire
  cases waitMode with
  | wait => exact hdetects _ .ret_false
  | spinWait => exact hdetects _ (waitEqualExponentialBackoff_detects oldValue)
  | smtSpinWait => exact hdetects _ (waitEqualSmt_detects oldValue)

/-- The steps of a call of `wait` that is not put to sleep. -/
def waitSteps : ℕ := 7172

theorem wait_within (oldValue : T) (waitMode : WaitMode) :
    (wait oldValue waitMode).Within waitSteps := by
  have hpoll : (poll oldValue).Within 1 := ⟨by decide, fun _ => trivial⟩
  have hdelay : ∀ d (p : Prog T Bool) n, p.Within n → (Prog.delay d p).Within (n + 1) :=
    fun d p n hp => ⟨n.succ_pos, hp⟩
  have hret : (Prog.ret false : Prog T Bool).Within 0 := trivial
  have hpause : ∀ d, ((poll oldValue).orElse (.delay d (.ret false))).Within 2 :=
    fun d => Prog.Within.orElse hpoll (hdelay d _ 0 hret)
  have hend : ∀ (p : Prog T Bool) n, p.Within n → n + 1 ≤ waitSteps → (p.bind fun changed =>
      if changed then Prog.load .acquire fun _ => .ret ()
      else .wait oldValue (.ret ())).Within waitSteps := by
    intro p n hp hn
    refine Prog.Within.mono (Prog.Within.bind hp fun changed => ?_) hn
    cases changed with
    | false => exact ⟨by decide, trivial⟩
    | true => exact ⟨by decide, fun _ => trivial⟩
  cases waitMode with
  | wait => exact hend _ 0 hret (by decide)
  | spinWait =>
      have hspin := Prog.Within.forLoop (n := spinCount) fun j =>
        Prog.Within.forLoop (n := spinRep) fun _ => hdelay (.busy (2 ^ j)) _ 1 hpoll
      have hloop := Prog.Within.forLoop (n := 1 <<< pauseCountExp) fun _ =>
        Prog.Within.orElse hspin (hpause .pause)
      have hyield := Prog.Within.forLoop (n := 1 <<< yieldCountExp) fun _ => hpause .yield
      have h := Prog.Within.orElse hpoll (Prog.Within.orElse hloop hyield)
      exact hend _ _ h (by decide)
  | smtSpinWait =>
      have hloop := Prog.Within.forLoop (n := 1 <<< smtPauseCountExp) fun _ => hpause .pause
      have hyield := Prog.Within.forLoop (n := 1 <<< yieldCountExp) fun _ => hpause .yield
      have h := Prog.Within.orElse hpoll (Prog.Within.orElse hloop hyield)
      exact hend _ _ h (by decide)

end

/-- The constructor of `thread_squad_impl`: the controlling thread waits with `smtWaitMode_`,
the workers with `waitMode_`. -/
def waitMode (spinWait : Bool) : Thread → WaitMode
  | .controller => if spinWait then .smtSpinWait else .wait
  | .worker _ => if spinWait then .spinWait else .wait

variable {V : Type}

/-- What a thread is about to do to the signals. -/
def State.pending (s : State V) (θ : Thread) : Option (Access (Signal × ℕ)) :=
  match s.code θ with
  | [] => none
  | .wait σ i :: _ => some (.wait (σ, i))
  | .store σ i :: _ => some (.set (σ, i))
  | _ :: _ => some .other

/-- The machine as a system that waits for the signals. -/
def Config.system (cfg : Config V) : AtomicWait.System (State V) Thread (Signal × ℕ) Bool where
  pending := State.pending
  step := fun s θ s' => step cfg s θ = .next s'
  value := fun s f => s.signal f.1 f.2
  old := false
  passed := fun s θ => { s with code := Function.update s.code θ (s.code θ).tail }

theorem pending_eq_wait {s : State V} {θ : Thread} {f : Signal × ℕ} :
    s.pending θ = some (.wait f) ↔ ∃ ops, s.code θ = .wait f.1 f.2 :: ops := by
  rw [State.pending]
  constructor
  · intro h
    split at h <;> simp at h
    next σ i ops hcode =>
      subst h
      exact ⟨ops, hcode⟩
  · rintro ⟨ops, hcode⟩
    rw [hcode]

theorem pending_eq_set {s : State V} {θ : Thread} {f : Signal × ℕ} :
    s.pending θ = some (.set f) ↔ ∃ ops, s.code θ = .store f.1 f.2 :: ops := by
  rw [State.pending]
  constructor
  · intro h
    split at h <;> simp at h
    next σ i ops hcode =>
      subst h
      exact ⟨ops, hcode⟩
  · rintro ⟨ops, hcode⟩
    rw [hcode]

theorem exists_pending {s : State V} {θ : Thread} :
    (∃ a, s.pending θ = some a) ↔ s.code θ ≠ [] := by
  rw [State.pending]
  split <;> simp_all

theorem nextSignal_apply (s : State V) (op : Op) (σ : Signal) (i : ℕ) :
    nextSignal s op σ i =
      if op = .reset σ i then false else if op = .store σ i then true else s.signal σ i := by
  have hset : ∀ σ' i' b, (s.setSignal σ' i' b).signal σ i =
      if σ' = σ ∧ i' = i then b else s.signal σ i := by
    intro σ' i' b
    simp only [State.setSignal, Function.update_apply]
    split <;> simp_all [Function.update_apply, eq_comm]
  cases op with
  | reset σ' i' => simp [nextSignal, hset]
  | store σ' i' => simp [nextSignal, hset]
  | _ => simp [nextSignal]

namespace Squad

variable {sq : Squad V} {s s' : State V} {rem : Thread → List Event} {θ θ' : Thread}
  {e : Event} {ops : List Op} {tr : List (Thread × Op)} {σ : Signal} {i j : ℕ}

variable (sq) in
/-- The thread which awaits and resets a signal of worker `i`. -/
def awaiter (i : ℕ) : Signal → Thread
  | .taskAvailable | .broadcasting => .worker i
  | .taskProcessed | .collecting => sq.parentThread i

theorem eq_awaiter (he : e ∈ sq.script θ) (hop : e.op = .wait σ i ∨ e.op = .reset σ i) :
    θ = sq.awaiter i σ := by
  obtain ⟨op, j, k⟩ := e
  cases θ with
  | controller =>
      have hcontrols := (mem_script_controller.1 he).2
      rcases hop with h | h <;> obtain rfl := h <;> cases σ
      case inl.taskProcessed | inr.taskProcessed =>
        obtain ⟨rfl, -⟩ := hcontrols
        exact parentThread_zero.symm
      all_goals exact absurd hcontrols id
  | worker t =>
      have hperforms := (mem_script_worker.1 he).2
      rcases hop with h | h <;> obtain rfl := h <;> cases σ
      case inl.taskAvailable | inr.taskAvailable | inl.broadcasting | inr.broadcasting =>
        exact congrArg Thread.worker hperforms.1.symm
      all_goals exact hperforms.1.parentThread.symm

/-- A thread that is about to wait, whether it can or not, is the one that awaits the signal. -/
theorem Control.eq_awaiter_of_code (h : sq.Control s rem) (hcode : s.code θ = .wait σ i :: ops) :
    θ = sq.awaiter i σ := by
  cases θ with
  | controller =>
      have hctl := h.controller
      rw [hcode] at hctl
      obtain ⟨out, hout, -⟩ := hctl.head
      obtain ⟨e, later, hrem, hop, -⟩ := List.map_eq_cons_iff.1 hout
      exact eq_awaiter (h.mem_script (hrem ▸ List.mem_cons_self)) (.inl hop)
  | worker t =>
      cases h.worker t with
      | unborn _ hnil => rw [hcode] at hnil; cases hnil
      | busy j earlier later now hborn hruns hnow hlast hrem hunf =>
          rw [hcode] at hunf
          obtain ⟨out, hout, -⟩ := hunf.head
          obtain ⟨e, now', hnow', hop, -⟩ := List.map_eq_cons_iff.1 hout
          have he : e ∈ rem (.worker t) := by
            rw [hrem, hnow']
            exact List.mem_append_left _ List.mem_cons_self
          exact eq_awaiter (h.mem_script he) (.inl hop)
      | idle _ _ _ hidle _ =>
          rw [hcode, taskWait] at hidle
          obtain ⟨hop, -⟩ := List.cons.inj hidle
          obtain ⟨rfl, rfl⟩ := Op.wait.inj hop
          rfl
      | gone _ hnil => rw [hcode] at hnil; cases hnil

/-- Something comes after every store to a signal. -/
theorem exists_after_store (he : e ∈ sq.script θ) (hop : e.op = .store σ i) :
    ∃ x ∈ sq.script θ, sq.before e x := by
  obtain ⟨op, j, k⟩ := e
  obtain rfl : op = .store σ i := hop
  cases θ with
  | controller =>
      obtain ⟨hlt, hcontrols⟩ := mem_script_controller.1 he
      refine ⟨⟨.ret j, j, 0⟩, mem_script_controller.2 ⟨hlt, rfl, rfl⟩, .inr ⟨rfl, ?_⟩⟩
      cases σ <;> simp_all [Controls, slot, Slot.before]
  | worker t =>
      obtain ⟨hrun, hperforms⟩ := mem_script_worker.1 he
      refine ⟨⟨.nextPass t, j, 0⟩, mem_script_worker.2 ⟨hrun, rfl, rfl⟩, .inr ⟨rfl, ?_⟩⟩
      cases σ <;> simp_all [Performs, slot, Slot.before]
      omega

theorem code_eq_of_step (h : Exec sq.toConfig tr s) (hstep : step sq.toConfig s θ' = .next s')
    (hθ : θ' ≠ θ) (hcode : s.code θ ≠ []) : s'.code θ = s.code θ := by
  obtain ⟨rem, hinv, -⟩ := exec_inv h
  cases hcode' : s.code θ' with
  | nil => simp [step, hcode'] at hstep
  | cons op ops =>
      rw [step_code hcode' hstep, if_neg (Ne.symm hθ)]
      obtain ⟨rem', e, rfl, a⟩ := hinv.exists_advance hcode' hstep
      by_cases hfork : ∃ i, e.op = .fork i ∧ θ = .worker i
      · -- a worker is forked before it has anything to do
        obtain ⟨i, hop, rfl⟩ := hfork
        obtain ⟨op, j, k⟩ := e
        obtain rfl : op = .fork i := hop
        obtain ⟨rfl, -, -, rfl⟩ := parentThread_of_fork (a.mem_script hinv.toControl)
        exact absurd (hinv.rem_of_forkPending ⟨j, a.head_mem⟩).1 hcode
      · have hnil : spawned e.op θ = [] := by
          cases hop : e.op with
          | fork i =>
              cases θ with
              | controller => rfl
              | worker t => exact if_neg fun ht => hfork ⟨i, hop, congrArg Thread.worker ht⟩
          | _ => rfl
        rw [hnil, List.nil_append]

/-- What the library requires of the machine of a squad. -/
theorem lawful : Lawful sq.toConfig.system fun s => ∃ tr, Exec sq.toConfig tr s where
  reach := by
    rintro s θ s' ⟨tr, h⟩ hstep
    cases hcode : s.code θ with
    | nil => simp [Config.system, step, hcode] at hstep
    | cons op ops => exact ⟨_, h.step hcode hstep⟩
  pending_of_step := by
    rintro s θ s' - hstep
    refine exists_pending.2 fun hcode => ?_
    simp [Config.system, step, hcode] at hstep
  pending_stable := by
    rintro s θ θ' s' a ⟨tr, h⟩ hstep hθ hp
    change s'.pending θ = some a
    rw [State.pending, code_eq_of_step h hstep hθ (exists_pending.1 ⟨a, hp⟩)]
    exact hp
  pending_of_set := by
    rintro s θ s' f ⟨tr, h⟩ hstep hp
    obtain ⟨ops, hcode⟩ := pending_eq_set.1 hp
    obtain ⟨rem, hinv, -⟩ := exec_inv h
    obtain ⟨rem', e, hop, a⟩ := hinv.exists_advance hcode hstep
    obtain ⟨x, hx, hex⟩ := exists_after_store (a.mem_script hinv.toControl) hop
    have hmem := a.mem_later_of_before hinv.toControl hx hex
    obtain ⟨y, later, hrem⟩ := List.exists_cons_of_ne_nil (List.ne_nil_of_mem hmem)
    obtain ⟨ops', b⟩ := (a.inv hinv).exists_head_of_rem hrem
      fun t ht => a.not_forkPending (a.born t ht)
    exact exists_pending.2 (by simp [b.code])
  wait_iff := by
    rintro s θ s' f - hp
    obtain ⟨ops, hcode⟩ := pending_eq_wait.1 hp
    simp only [Config.system, step, hcode, exec, List.tail_cons]
    by_cases hv : s.signal f.1 f.2 <;> simp [hv, eq_comm]
  waiter_unique := by
    rintro s θ θ' f ⟨tr, h⟩ hp hp'
    obtain ⟨ops, hcode⟩ := pending_eq_wait.1 hp
    obtain ⟨ops', hcode'⟩ := pending_eq_wait.1 hp'
    obtain ⟨rem, hinv, -⟩ := exec_inv h
    exact (hinv.eq_awaiter_of_code hcode).trans (hinv.eq_awaiter_of_code hcode').symm
  value_stable := by
    rintro s θ θ' s' f ⟨tr, h⟩ hp hθ hstep hv
    obtain ⟨ops, hcode⟩ := pending_eq_wait.1 hp
    obtain ⟨rem, hinv, -⟩ := exec_inv h
    cases hcode' : s.code θ' with
    | nil => simp [Config.system, step, hcode'] at hstep
    | cons op ops' =>
        obtain ⟨rem', e, rfl, a⟩ := hinv.exists_advance hcode' hstep
        have hreset : e.op ≠ .reset f.1 f.2 := fun hop =>
          hθ ((eq_awaiter (a.mem_script hinv.toControl) (.inr hop)).trans
            (hinv.eq_awaiter_of_code hcode).symm)
        change s'.signal f.1 f.2 ≠ false
        rw [a.effect.signal, nextSignal_apply, if_neg hreset]
        split
        · decide
        · exact hv
  value_set := by
    rintro s θ s' f - hstep hold hnew
    cases hcode : s.code θ with
    | nil => simp [Config.system, step, hcode] at hstep
    | cons op ops =>
        change s.signal f.1 f.2 = false at hold
        change s'.signal f.1 f.2 ≠ false at hnew
        rw [(step_effect hcode hstep).signal, nextSignal_apply, hold] at hnew
        refine pending_eq_set.2 ⟨ops, ?_⟩
        by_contra hop
        have hne : op ≠ .store f.1 f.2 := fun h => hop (h ▸ hcode)
        simp [hne] at hnew

variable (sq) in
/-- `sq.Waiting spinWait l s φ`: the threads make the steps `l` and have come to the state `s`
of the machine, in which each is in the phase `φ` of waiting or notifying. -/
def Waiting (spinWait : Bool) (l : List (Label Thread)) (s : State V)
    (φ : Thread → Phase (Signal × ℕ) Bool) : Prop :=
  Run (Move sq.toConfig.system fun θ => wait false (waitMode spinWait θ))
    (State.initial sq.toConfig, fun _ => .idle) l (s, φ)

variable {spinWait : Bool} {l : List (Label Thread)} {φ : Thread → Phase (Signal × ℕ) Bool}

theorem run_system_exec {θs : List Thread}
    (h : Run sq.toConfig.system.step (State.initial sq.toConfig) θs s) :
    ∃ tr, Exec sq.toConfig tr s ∧ tr.map Prod.fst = θs := by
  induction h with
  | nil => exact ⟨[], .initial, rfl⟩
  | @concat θs s s' θ _ hstep ih =>
      obtain ⟨tr, h, rfl⟩ := ih
      cases hcode : s.code θ with
      | nil => simp [Config.system, step, hcode] at hstep
      | cons op ops => exact ⟨tr ++ [(θ, op)], h.step hcode hstep, by simp⟩

theorem Waiting.inv (h : sq.Waiting spinWait l s φ) :
    AtomicWait.Inv sq.toConfig.system (fun s => ∃ tr, Exec sq.toConfig tr s) (s, φ) :=
  (run_refines lawful (fun _ => wait_awaits _ _) ⟨[], .initial⟩ h).1

theorem exec_run_system (h : Exec sq.toConfig tr s) :
    Run sq.toConfig.system.step (State.initial sq.toConfig) (tr.map Prod.fst) s := by
  induction h with
  | initial => exact .nil
  | step _ _ hnext ih =>
      rw [List.map_append]
      exact ih.concat hnext

/-- What the machine does can be done, and then nobody is waiting or notifying. -/
theorem exists_waiting (spinWait : Bool) (h : Exec sq.toConfig tr s) :
    ∃ l, sq.Waiting spinWait l s (fun _ => .idle) ∧
      l.filterMap Label.committed = tr.map Prod.fst :=
  (exists_run lawful (fun θ => wait_awaits false (waitMode spinWait θ)) ⟨[], .initial⟩
    (exec_run_system h)).2

/-- Spinning, sleeping and waking up change nothing: the states that are reached are those of
the machine, in which a thread passes `wait` exactly if its signal is set, by the same steps
of the threads in the same order. -/
theorem waiting_iff_exec (spinWait : Bool) (θs : List Thread) :
    (∃ l φ, sq.Waiting spinWait l s φ ∧ l.filterMap Label.committed = θs) ↔
      ∃ tr, Exec sq.toConfig tr s ∧ tr.map Prod.fst = θs := by
  constructor
  · rintro ⟨l, φ, h, rfl⟩
    exact run_system_exec (run_refines lawful (fun _ => wait_awaits _ _) ⟨[], .initial⟩ h).2
  · rintro ⟨tr, h, rfl⟩
    obtain ⟨l, hrun, hl⟩ := exists_waiting spinWait h
    exact ⟨l, _, hrun, hl⟩

/-- No wake-up is lost: a thread that sleeps although its signal has been set is going to be
notified, and unless the controlling thread is done, some thread can make a step other than
waking up for no reason. -/
theorem no_lost_wakeup (h : sq.Waiting spinWait l s φ) :
    (∀ θ old next σ i ops, φ θ = .asleep old next → s.code θ = .wait σ i :: ops →
      s.signal σ i = true → ∃ θ', φ θ' = .notifying (σ, i)) ∧
    (s.code .controller ≠ [] → ∃ a s' φ', sq.Waiting spinWait (l ++ [a]) s' φ' ∧
      ∀ θ, a ≠ .spurious θ) := by
  have hinv := h.inv
  constructor
  · intro θ old next σ i ops hφ hcode hsignal
    refine hinv.notified θ old next (σ, i) hφ (pending_eq_wait.2 ⟨ops, hcode⟩) ?_
    change s.signal σ i ≠ false
    rw [hsignal]
    decide
  · intro hcode
    obtain ⟨tr, hexec⟩ := hinv.reach
    obtain ⟨θ, s', hnext⟩ := exec_exists_next hexec hcode
    obtain ⟨a, ⟨s'', φ''⟩, hm, ha⟩ := hinv.exists_move lawful hnext
    exact ⟨a, s'', φ'', h.concat hm, ha⟩

/-- The controlling thread sleeps in its first run. -/
theorem pair_no_lost_wakeup : ∃ l s φ, pairSquad.Waiting false l s φ ∧
    φ .controller = .asleep false (.ret ()) ∧
      ∃ a s' φ', pairSquad.Waiting false (l ++ [a]) s' φ' ∧ ∀ θ, a ≠ .spurious θ := by
  have hreplay : ((replay pairSquad.toConfig [] (State.initial pairSquad.toConfig)
      (.replicate 7 .controller)).map fun r =>
        decide ((r.2.code .controller).head? = some (.wait .taskProcessed 0)) &&
          !r.2.signal .taskProcessed 0) = some true := by decide +kernel
  obtain ⟨⟨tr, s⟩, hr, hwait⟩ := Option.map_eq_some_iff.1 hreplay
  rw [Bool.and_eq_true, decide_eq_true_eq, Bool.not_eq_true'] at hwait
  obtain ⟨ops, hcode⟩ := List.head?_eq_some_iff.1 hwait.1
  obtain ⟨l, hrun, -⟩ := exists_waiting false (Exec.initial.replay hr)
  have hpending : s.pending .controller = some (.wait (.taskProcessed, 0)) :=
    pending_eq_wait.2 ⟨ops, hcode⟩
  have h : pairSquad.Waiting false (l ++ [.busy .controller] ++ [.busy .controller]) s _ :=
    (hrun.concat (.call rfl hpending)).concat
      (.sleep (Function.update_self ..) hpending hwait.2)
  exact ⟨_, s, _, h, Function.update_self .., (no_lost_wakeup h).2 fun hnil =>
    List.cons_ne_nil _ _ (hcode.symm.trans hnil)⟩

theorem mem_threads_of_pending (h : Exec sq.toConfig tr s) (hcode : s.code θ ≠ []) :
    θ ∈ sq.threads := by
  cases θ with
  | controller => exact Finset.mem_insert_self _ _
  | worker t =>
      refine Finset.mem_insert_of_mem (Finset.mem_image_of_mem _ (Finset.mem_range.2 ?_))
      obtain ⟨rem, hinv, -⟩ := exec_inv h
      cases hinv.worker t with
      | unborn _ hnil => exact absurd hnil hcode
      | busy j earlier later now _ hruns =>
          exact lt_numThreads_of_mem_runs (hruns ▸ by simp : j ∈ sq.runs t)
      | idle _ hruns =>
          obtain ⟨j, hj⟩ := List.exists_mem_of_ne_nil _ hruns
          exact lt_numThreads_of_mem_runs hj
      | gone _ hnil => exact absurd hnil hcode

/-- However the threads are scheduled, an execution comes to an end unless threads wake up for
no reason again and again. -/
theorem waiting_length_le (h : sq.Waiting spinWait l s φ) :
    l.length ≤ (waitSteps + 4) * ∑ θ ∈ sq.threads, (sq.script θ).length +
      (waitSteps + 2) * (sq.numThreads + 1) + 2 * l.countP Label.isSpurious := by
  obtain ⟨tr, hexec, htr⟩ :=
    run_system_exec (run_refines lawful (fun _ => wait_awaits _ _) ⟨[], .initial⟩ h).2
  have hcommits : (l.filterMap Label.committed).length ≤
      ∑ θ ∈ sq.threads, (sq.script θ).length := by
    rw [← htr, List.length_map]
    exact exec_length_le hexec
  have hcard : sq.threads.card ≤ sq.numThreads + 1 := by
    refine (Finset.card_insert_le _ _).trans (Nat.succ_le_succ ?_)
    exact Finset.card_image_le.trans_eq (Finset.card_range _)
  have hlength := run_length_le lawful (fun _ => wait_awaits _ _)
    (fun _ => wait_within _ _) ⟨[], .initial⟩
    (fun s θ p ⟨tr, h⟩ hp => mem_threads_of_pending h (exists_pending.1 ⟨p, hp⟩)) h
  refine hlength.trans (Nat.add_le_add_right (Nat.add_le_add ?_ ?_) _)
  · exact Nat.mul_le_mul_left _ hcommits
  · exact Nat.mul_le_mul_left _ hcard

theorem pair_waiting_length_le : ∃ l s, pairSquad.Waiting true l s (fun _ => .idle) ∧
    (l.filterMap Label.committed).length = 14 ∧
    l.length ≤ (waitSteps + 4) * ∑ θ ∈ pairSquad.threads, (pairSquad.script θ).length +
      (waitSteps + 2) * (pairSquad.numThreads + 1) + 2 * l.countP Label.isSpurious := by
  have hreplay : ((replay pairSquad.toConfig [] (State.initial pairSquad.toConfig)
      (.replicate 7 .controller ++ .replicate 7 (.worker 0))).map fun r => r.1.length) =
    some 14 := by decide +kernel
  obtain ⟨⟨tr, s⟩, hr, hlength⟩ := Option.map_eq_some_iff.1 hreplay
  obtain ⟨l, h, hl⟩ := exists_waiting true (Exec.initial.replay hr)
  exact ⟨l, s, h, by rw [hl, List.length_map, hlength], waiting_length_le h⟩

/-- When the run that joins the threads has returned, nobody is in the middle of waiting or
notifying any more, so the signals may be destroyed. -/
theorem quiescent (h : sq.Waiting spinWait l s φ) (hjoin : (sq.task j).joinRequested)
    (hlt : j < sq.tasks.length) (hdone : s.code .controller = []) (θ : Thread) :
    s.code θ = [] ∧ φ θ = .idle := by
  have hinv := h.inv
  obtain ⟨tr, hexec⟩ := hinv.reach
  obtain ⟨rem, hrem, -⟩ := exec_inv hexec
  have hret : ⟨.ret j, j, 0⟩ ∉ rem .controller := by
    intro hmem
    obtain ⟨e, later, hlater⟩ := List.exists_cons_of_ne_nil (List.ne_nil_of_mem hmem)
    have hctl := hrem.controller
    rw [hlater, List.map_cons] at hctl
    obtain ⟨ops, hops⟩ := hctl.eq_cons
    rw [hdone] at hops
    cases hops
  have hcode : s.code θ = [] := by
    cases θ with
    | controller => exact hdone
    | worker t => exact hrem.code_worker_eq_nil hjoin hlt hret t
  refine ⟨hcode, hinv.eq_idle ?_⟩
  change s.pending θ = none
  rw [State.pending, hcode]

theorem pair_quiescent : ∃ l s φ, pairSquad.Waiting true l s φ ∧
    s.code (.worker 1) = [] ∧ φ (.worker 1) = .idle := by
  obtain ⟨tr, s, hexec, hdone⟩ := exec_exists_finished (@Exec.initial _ pairSquad.toConfig)
  obtain ⟨l, h, -⟩ := exists_waiting true hexec
  exact ⟨l, s, _, h, quiescent h (j := 1) rfl (by decide) hdone (.worker 1)⟩

end Squad

end Patton.ThreadSquad
