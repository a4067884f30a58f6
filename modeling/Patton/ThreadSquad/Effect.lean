import Patton.ThreadSquad.Machine

/-!
# The effect of a step

A successful step of a thread replaces the first operation of its code by what
this operation calls, and changes the shared state. This file says so component
by component, once for all operations; the invariants are derived from it and
never look into `exec` again, except for the values that the collectives and the
merges compute.
-/

namespace Patton.ThreadSquad

variable {V : Type}

def called (cfg : Config V) (s : State V) : Op → List Op
  | .run j =>
      if (cfg.task j).concurrency ≠ 0 ∨
          ((cfg.task j).joinRequested ∧ s.haveThreadHandle 0) then
        (cfg.task j).runBody j
      else []
  | .forkRoot _ => if s.haveThreadHandle 0 then [] else [.fork 0]
  | .notifyAndForkSubthreads t =>
      (cfg.toSubthreads t (numThreadsForTask cfg s t)).flatMap fun i =>
        notifyThread i ++ [.fork i]
  | .taskRef t =>
      match s.task with
      | none => []
      | some j => passBody t j (s.pass t = 0)
  | .notifySubthreads t =>
      (cfg.toSubthreads t (numThreadsForTask cfg s t)).flatMap notifyThread
  | .taskRun t j => if t < (cfg.task j).concurrency then [.execute t j] else []
  | .execute t j => (cfg.task j).executeBody t j
  | .waitForSubthreads t =>
      (cfg.fromSubthreads t (numThreadsForTask cfg s t)).flatMap (waitForThread t)
  | .mergeIfParticipant t i =>
      match s.task with
      | none => []
      | some j => if i < (cfg.task j).concurrency then [.merge j t i] else []
  | .nextPass t => if s.joinRequested t then [.joinSubthreads t, .exit t] else taskWait t
  | .joinSubthreads t => (cfg.fromSubthreads t (numThreadsForTask cfg s t)).map .join
  | .synchronizeCollect t =>
      match s.task with
      | none => []
      | some j =>
          (cfg.fromSubthreads t (cfg.task j).concurrency).flatMap (collectFromThread t) ++
            signalCollecting t
  | .synchronizeBroadcast t =>
      match s.task with
      | none => []
      | some j => (cfg.toSubthreads t (cfg.task j).concurrency).flatMap (broadcastToThread t)
  | _ => []

/-- The code which an operation gives to a new thread. -/
def spawned : Op → Thread → List Op
  | .fork i, .worker t => if t = i then runThread i else []
  | _, _ => []

def Op.WritesSynchronizer (t : ℕ) : Op → Prop
  | .enter t' _ _ | .collect t' _ | .transform t' _ _ | .broadcast _ t' | .leave t' _ _ => t' = t
  | _ => False

def Op.WritesSlot (j t : ℕ) : Op → Prop
  | .storeResult t' j' => j' = j ∧ t' = t
  | .merge j' t' i => j' = j ∧ (t' = t ∨ i = t)
  | _ => False

def Op.AddsResult (j t : ℕ) : Op → Prop
  | .leave t' j' _ => j' = j ∧ t' = t
  | _ => False

/-- What the success of a step says about the state before it. -/
def Op.Guard (s : State V) : Op → Prop
  | .wait σ i => s.signal σ i = true
  | .join i => s.exited i = true
  | _ => True

def nextTask (s : State V) : Op → Option ℕ
  | .storeTask j => some j
  | .releaseTask => none
  | _ => s.task

def nextSignal (s : State V) : Op → Signal → ℕ → Bool
  | .reset σ i => (s.setSignal σ i false).signal
  | .store σ i => (s.setSignal σ i true).signal
  | _ => s.signal

def nextHaveThreadHandle (s : State V) : Op → ℕ → Bool
  | .fork i => Function.update s.haveThreadHandle i true
  | .join i => Function.update s.haveThreadHandle i false
  | _ => s.haveThreadHandle

def nextExited (s : State V) : Op → ℕ → Bool
  | .exit t => Function.update s.exited t true
  | _ => s.exited

def nextPasses (s : State V) : Op → ℕ → ℕ
  | .nextPass t => Function.update s.pass t (nextPassCount (s.pass t))
  | _ => s.pass

def nextJoinRequested (cfg : Config V) (s : State V) : Op → ℕ → Bool
  | .taskRef t =>
      match s.task with
      | some j => Function.update s.joinRequested t (cfg.task j).joinRequested
      | none => s.joinRequested
  | _ => s.joinRequested

/-- The effect of a step on everything but the code. -/
structure Effect (cfg : Config V) (s : State V) (op : Op) (s' : State V) : Prop where
  guard : op.Guard s
  task : s'.task = nextTask s op
  signal : s'.signal = nextSignal s op
  haveThreadHandle : s'.haveThreadHandle = nextHaveThreadHandle s op
  exited : s'.exited = nextExited s op
  pass : s'.pass = nextPasses s op
  joinRequested : s'.joinRequested = nextJoinRequested cfg s op
  syncData : ∀ i, op ≠ .storeSyncData i → op ≠ .clearSyncData i → s'.syncData i = s.syncData i
  synchronizer : ∀ t, ¬ op.WritesSynchronizer t → s'.synchronizer t = s.synchronizer t
  subthreadData : ∀ j t, ¬ op.WritesSlot j t → s'.subthreadData j t = s.subthreadData j t
  results : ∀ j t, ¬ op.AddsResult j t → s'.results t j = s.results t j

theorem State.push_code (s : State V) (θ θ' : Thread) (ops : List Op) :
    (s.push θ ops).code θ' = if θ' = θ then ops ++ s.code θ else s.code θ' := by
  by_cases h : θ' = θ
  · subst h
    simp [State.push]
  · simp [State.push, h]

theorem spawned_of_ne {op : Op} (h : ∀ i, op ≠ .fork i) (θ : Thread) : spawned op θ = [] := by
  cases op with
  | fork i => exact absurd rfl (h i)
  | _ => rfl

theorem step_code {cfg : Config V} {s s' : State V} {θ : Thread} {op : Op} {ops : List Op}
    (hcode : s.code θ = op :: ops) (h : step cfg s θ = .next s') (θ' : Thread) :
    s'.code θ' = spawned op θ' ++ if θ' = θ then called cfg s op ++ ops else s.code θ' := by
  simp only [step, hcode] at h
  cases op with
  | fork i =>
      simp only [exec] at h
      split at h <;> cases h
      rw [State.push_code]
      split
      next hi =>
        subst hi
        by_cases hθ : .worker i = θ <;> simp [spawned, called, hθ]
      next hi =>
        have hnil : spawned (.fork i) θ' = [] := by
          cases θ' with
          | controller => rfl
          | worker t => exact if_neg fun h => hi (by rw [h])
        rw [hnil]
        simp [called, Function.update_apply]
  | _ =>
      rw [spawned_of_ne (by simp), List.nil_append]
      simp only [exec] at h
      by_cases hθ : θ' = θ <;> (repeat' split at h) <;> cases h <;>
        simp_all [State.push_code, State.setSynchronizer, State.setSubthreadData,
          State.setSignal, called, numThreadsForTask]

@[simp] theorem State.setSynchronizer_self (s : State V) (t : ℕ)
    (sync : Option (Synchronizer V)) : (s.setSynchronizer t sync).synchronizer t = sync :=
  Function.update_self ..

@[simp] theorem State.setSubthreadData_self (s : State V) (j t : ℕ) (v : Option V) :
    (s.setSubthreadData j t v).subthreadData j t = v := by
  simp [State.setSubthreadData]

theorem State.setSynchronizer_of_ne {s : State V} {t t' : ℕ} {sync : Option (Synchronizer V)}
    (h : ¬ t' = t) : (s.setSynchronizer t' sync).synchronizer t = s.synchronizer t :=
  Function.update_of_ne (Ne.symm h) _ _

theorem State.setSubthreadData_of_ne {s : State V} {j j' t t' : ℕ} {v : Option V}
    (h : ¬ (j' = j ∧ t' = t)) :
    (s.setSubthreadData j' t' v).subthreadData j t = s.subthreadData j t := by
  by_cases hj : j = j'
  · subst hj
    have ht : t ≠ t' := fun ht => h ⟨rfl, ht.symm⟩
    simp [State.setSubthreadData, ht]
  · simp [State.setSubthreadData, hj]

theorem step_effect {cfg : Config V} {s s' : State V} {θ : Thread} {op : Op} {ops : List Op}
    (hcode : s.code θ = op :: ops) (h : step cfg s θ = .next s') : Effect cfg s op s' := by
  simp only [step, hcode] at h
  cases op with
  | storeSyncData t =>
      simp only [exec] at h
      split at h <;> cases h
      refine ⟨trivial, rfl, rfl, rfl, rfl, rfl, rfl, fun i hi _ => ?_, fun _ _ => rfl,
        fun _ _ _ => rfl, fun _ _ _ => rfl⟩
      exact Function.update_of_ne (fun h => hi (by rw [h])) _ _
  | clearSyncData t =>
      cases h
      refine ⟨trivial, rfl, rfl, rfl, rfl, rfl, rfl, fun i _ hi => ?_, fun _ _ => rfl,
        fun _ _ _ => rfl, fun _ _ _ => rfl⟩
      exact Function.update_of_ne (fun h => hi (by rw [h])) _ _
  | taskRef t =>
      simp only [exec] at h
      split at h <;> cases h
      next j hj =>
        refine ⟨trivial, rfl, rfl, rfl, rfl, rfl, ?_, fun _ _ _ => rfl, fun _ _ => rfl,
          fun _ _ _ => rfl, fun _ _ _ => rfl⟩
        simp only [nextJoinRequested, hj]
        rfl
  | leave t j k =>
      simp only [exec] at h
      split at h <;> cases h
      refine ⟨trivial, rfl, rfl, rfl, rfl, rfl, rfl, fun _ _ _ => rfl,
        fun t' ht => State.setSynchronizer_of_ne ht, fun _ _ _ => rfl, fun j' t' hne => ?_⟩
      change Function.update s.results t _ t' j' = s.results t' j'
      by_cases ht : t' = t
      · subst ht
        have hj : j' ≠ j := fun hj => hne ⟨hj.symm, rfl⟩
        simp [hj]
      · simp [ht]
  | merge j t i =>
      simp only [exec] at h
      (repeat' split at h) <;> cases h <;>
        refine ⟨trivial, rfl, rfl, rfl, rfl, rfl, rfl, fun _ _ _ => rfl, fun _ _ => rfl, ?_,
          fun _ _ _ => rfl⟩
      · exact fun _ _ _ => rfl
      · intro j' t' hne
        rw [State.setSubthreadData_of_ne fun h => hne ⟨h.1, .inr h.2⟩,
          State.setSubthreadData_of_ne fun h => hne ⟨h.1, .inl h.2⟩]
  | _ =>
      simp only [exec] at h
      (repeat' split at h) <;> cases h <;>
        refine ⟨?_, rfl, rfl, rfl, rfl, rfl, rfl, fun _ _ _ => rfl, ?_, ?_, ?_⟩ <;>
        first
        | exact trivial
        | assumption
        | exact fun _ _ => rfl
        | exact fun _ _ _ => rfl
        | exact fun _ hne => State.setSynchronizer_of_ne hne
        | exact fun _ _ hne => State.setSubthreadData_of_ne hne

end Patton.ThreadSquad
