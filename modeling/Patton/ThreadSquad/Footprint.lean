import Patton.ThreadSquad.Effect

/-!
# The footprint of an operation

What the threads share is cut into locations: the pointer `task_` and the tasks it
points to, the signals, thread handles and `syncData_` of the workers, the
synchronizers on their stacks, the slots of `subthreadData_`, and the stacks. The
footprint of an operation says which locations it may read and write; which task
and which synchronizer an operation accesses through a pointer depends on the state.
An operation changes nothing but the locations it writes, and what it does to them
depends on the locations it reads only.

The tasks themselves belong to the caller of `run`, who builds a task before the
call and reads its result and destroys it afterwards; `run` and `ret` stand for
that, too.
-/

namespace Patton.ThreadSquad

variable {V : Type}

/-- A part of the state which is accessed as a whole. -/
inductive Location
  | task
  | taskObject (j : ℕ)
  | signal (σ : Signal) (i : ℕ)
  | haveThreadHandle (i : ℕ)
  | exited (i : ℕ)
  | syncData (i : ℕ)
  | synchronizer (t : ℕ)
  | subthreadData (j t : ℕ)
  -- what a thread keeps on its stack and in `pass_`
  | stack (θ : Thread)
  deriving DecidableEq

/-- The two states have the same value at a location. -/
def State.Same (s s' : State V) : Location → Prop
  | .task => s.task = s'.task
  | .taskObject _ => True
  | .signal σ i => s.signal σ i = s'.signal σ i
  | .haveThreadHandle i => s.haveThreadHandle i = s'.haveThreadHandle i
  | .exited i => s.exited i = s'.exited i
  | .syncData i => s.syncData i = s'.syncData i
  | .synchronizer t => s.synchronizer t = s'.synchronizer t
  | .subthreadData j t => s.subthreadData j t = s'.subthreadData j t
  | .stack θ => s.code θ = s'.code θ ∧ ∀ t, θ = .worker t → s.pass t = s'.pass t ∧
      s.joinRequested t = s'.joinRequested t ∧ s.taskRef t = s'.taskRef t ∧
      s.results t = s'.results t

/-- What is accessed by dereferencing `task_`. -/
def State.taskLocations (s : State V) : Set Location :=
  {ℓ | ℓ = .task ∨ ∃ j, s.task = some j ∧ ℓ = .taskObject j}

/-- What `num_threads_for_task` reads: not even the pointer in the initial pass. -/
def State.numThreadsLocations (s : State V) (t : ℕ) : Set Location :=
  {ℓ | ℓ = .stack (.worker t) ∨ s.pass t ≠ 0 ∧ ℓ ∈ s.taskLocations}

/-- What is accessed by dereferencing `syncData_` of worker `i`. -/
def State.syncDataTarget (s : State V) (i : ℕ) : Set Location :=
  {ℓ | ∃ ptr, s.syncData i = some ptr ∧ ℓ = .synchronizer ptr.threadIdx}

def taskLocations (j : ℕ) : Set Location :=
  {ℓ | ℓ = .taskObject j ∨ ∃ t, ℓ = .subthreadData j t}

@[simp] theorem State.mem_taskLocations {s : State V} {ℓ : Location} :
    ℓ ∈ s.taskLocations ↔ ℓ = .task ∨ ∃ j, s.task = some j ∧ ℓ = .taskObject j :=
  Iff.rfl

@[simp] theorem State.mem_numThreadsLocations {s : State V} {t : ℕ} {ℓ : Location} :
    ℓ ∈ s.numThreadsLocations t ↔
      ℓ = .stack (.worker t) ∨ s.pass t ≠ 0 ∧ ℓ ∈ s.taskLocations :=
  Iff.rfl

@[simp] theorem State.mem_syncDataTarget {s : State V} {i : ℕ} {ℓ : Location} :
    ℓ ∈ s.syncDataTarget i ↔ ∃ ptr, s.syncData i = some ptr ∧ ℓ = .synchronizer ptr.threadIdx :=
  Iff.rfl

@[simp] theorem mem_taskLocations {j : ℕ} {ℓ : Location} :
    ℓ ∈ taskLocations j ↔ ℓ = .taskObject j ∨ ∃ t, ℓ = .subthreadData j t :=
  Iff.rfl

/-- What an operation reads, apart from the stack of its thread. -/
@[simp] def Op.reads (s : State V) : Op → Set Location
  | .wait σ i | .load σ i => {.signal σ i}
  | .reset _ _ | .store _ _ | .storeTask _ | .releaseTask | .exit _ | .clearSyncData _ => ∅
  | .fork i => {.haveThreadHandle i, .stack (.worker i)}
  | .join i => {.haveThreadHandle i, .exited i}
  | .run j => {.haveThreadHandle 0} ∪ taskLocations j
  | .forkRoot _ => {.haveThreadHandle 0}
  | .ret j => taskLocations j
  | .notifyAndForkSubthreads t | .notifySubthreads t | .waitForSubthreads t
  | .joinSubthreads t => s.numThreadsLocations t
  | .taskRef t => {.stack (.worker t)} ∪ s.taskLocations
  | .mergeIfParticipant _ _ | .synchronizeCollect _ | .synchronizeBroadcast _ => s.taskLocations
  | .taskRun _ j => {.task, .taskObject j}
  | .execute t j => {.task, .taskObject j, .subthreadData j t}
  | .storeResult t j => {.task, .taskObject j, .subthreadData j t, .stack (.worker t)}
  | .merge j t i => {.task, .taskObject j, .subthreadData j t, .subthreadData j i}
  | .nextPass t => {.stack (.worker t)}
  | .enter t j _ => {.taskObject j, .stack (.worker t)}
  | .collect t i => {.synchronizer t, .syncData i} ∪ s.syncDataTarget i
  | .broadcast t i => {.synchronizer t, .syncData i, .synchronizer i} ∪ s.syncDataTarget i
  | .storeSyncData t => {.synchronizer t}
  | .transform t _ _ => {.synchronizer t}
  | .leave t _ _ => {.synchronizer t, .stack (.worker t)}

/-- What an operation writes, apart from the stack of its thread. -/
@[simp] def Op.writes (s : State V) : Op → Set Location
  | .reset σ i | .store σ i => {.signal σ i}
  | .fork i => {.haveThreadHandle i, .stack (.worker i)}
  | .join i => {.haveThreadHandle i}
  | .run j | .ret j => taskLocations j
  | .storeTask _ | .releaseTask => {.task}
  | .taskRef t | .nextPass t => {.stack (.worker t)}
  | .storeResult t j => {.subthreadData j t}
  | .merge j t i => {.subthreadData j t, .subthreadData j i}
  | .exit t => {.exited t}
  | .enter t _ _ | .collect t _ | .transform t _ _ => {.synchronizer t}
  | .broadcast _ i => {.synchronizer i} ∪ s.syncDataTarget i
  | .leave t _ _ => {.synchronizer t, .stack (.worker t)}
  | .storeSyncData t | .clearSyncData t => {.syncData t}
  | _ => ∅

def readsOf (s : State V) (θ : Thread) (op : Op) : Set Location := {.stack θ} ∪ op.reads s

def writesOf (s : State V) (θ : Thread) (op : Op) : Set Location := {.stack θ} ∪ op.writes s

def Conflict (R W R' W' : Set Location) : Prop :=
  ∃ ℓ, ℓ ∈ W ∧ ℓ ∈ R' ∪ W' ∨ ℓ ∈ R ∧ ℓ ∈ W'

theorem State.Same.symm {s s' : State V} {ℓ : Location} (h : s.Same s' ℓ) : s'.Same s ℓ := by
  cases ℓ with
  | taskObject j => exact trivial
  | stack θ =>
      refine ⟨h.1.symm, fun t ht => ?_⟩
      obtain ⟨h1, h2, h3, h4⟩ := h.2 t ht
      exact ⟨h1.symm, h2.symm, h3.symm, h4.symm⟩
  | _ => exact Eq.symm h

theorem State.Same.trans {s s' s'' : State V} {ℓ : Location} (h : s.Same s' ℓ)
    (h' : s'.Same s'' ℓ) : s.Same s'' ℓ := by
  cases ℓ with
  | taskObject j => exact trivial
  | stack θ =>
      refine ⟨h.1.trans h'.1, fun t ht => ?_⟩
      obtain ⟨h1, h2, h3, h4⟩ := h.2 t ht
      obtain ⟨h1', h2', h3', h4'⟩ := h'.2 t ht
      exact ⟨h1.trans h1', h2.trans h2', h3.trans h3', h4.trans h4'⟩
  | _ => exact Eq.trans h h'

/-- A state is its locations. -/
theorem State.ext_same {s s' : State V} (h : ∀ ℓ, s.Same s' ℓ) : s = s' := by
  have hstack := fun t => (h (.stack (.worker t))).2 t rfl
  obtain ⟨⟩ := s
  obtain ⟨⟩ := s'
  rw [State.mk.injEq]
  exact ⟨h .task, funext₂ fun σ i => h (.signal σ i), funext fun i => h (.haveThreadHandle i),
    funext fun i => h (.exited i), funext fun i => h (.syncData i),
    funext fun t => h (.synchronizer t), funext₂ fun j t => h (.subthreadData j t),
    funext fun θ => (h (.stack θ)).1, funext fun t => (hstack t).1, funext fun t => (hstack t).2.1,
    funext fun t => (hstack t).2.2.1, funext fun t => (hstack t).2.2.2⟩

section

variable {s : State V} {op : Op} {i j t : ℕ}

theorem nextTask_eq (h : .task ∉ op.writes s) : nextTask s op = s.task := by
  cases op <;> first | rfl | simp [Op.writes] at h

theorem nextSignal_eq {σ : Signal} (h : .signal σ i ∉ op.writes s) :
    nextSignal s op σ i = s.signal σ i := by
  have hne : ∀ {σ' i' b}, ¬ (σ = σ' ∧ i = i') →
      (s.setSignal σ' i' b).signal σ i = s.signal σ i := by
    intro σ' i' b hne
    by_cases hσ : σ = σ'
    · subst hσ
      have hi : i ≠ i' := fun hi => hne ⟨Eq.refl _, hi⟩
      simp [State.setSignal, hi]
    · simp [State.setSignal, hσ]
  cases op with
  | reset σ' i' => exact hne (by simpa [Op.writes] using h)
  | store σ' i' => exact hne (by simpa [Op.writes] using h)
  | _ => rfl

theorem nextHaveThreadHandle_eq (h : .haveThreadHandle i ∉ op.writes s) :
    nextHaveThreadHandle s op i = s.haveThreadHandle i := by
  cases op with
  | fork i' => exact Function.update_of_ne (by simpa [Op.writes] using h) _ _
  | join i' => exact Function.update_of_ne (by simpa [Op.writes] using h) _ _
  | _ => rfl

theorem nextExited_eq (h : .exited i ∉ op.writes s) : nextExited s op i = s.exited i := by
  cases op with
  | exit t => exact Function.update_of_ne (by simpa [Op.writes] using h) _ _
  | _ => rfl

theorem nextPasses_eq (h : .stack (.worker t) ∉ op.writes s) :
    nextPasses s op t = s.pass t := by
  cases op with
  | nextPass t' => exact Function.update_of_ne (by simpa [Op.writes] using h) _ _
  | _ => rfl

theorem nextJoinRequested_eq {cfg : Config V} (h : .stack (.worker t) ∉ op.writes s) :
    nextJoinRequested cfg s op t = s.joinRequested t := by
  cases op with
  | taskRef t' =>
      have ht : t ≠ t' := by simpa [Op.writes] using h
      cases hs : s.task with
      | none => simp only [nextJoinRequested, hs]
      | some j => simp only [nextJoinRequested, hs, Function.update_of_ne ht]
  | _ => rfl

theorem mem_writes_of_writesSynchronizer (h : op.WritesSynchronizer t) :
    .synchronizer t ∈ op.writes s := by
  cases op <;> simp_all [Op.WritesSynchronizer, Op.writes]

theorem mem_writes_of_writesSlot (h : op.WritesSlot j t) : .subthreadData j t ∈ op.writes s := by
  cases op <;> simp_all [Op.WritesSlot, Op.writes]
  tauto

theorem mem_writes_of_addsResult (h : op.AddsResult j t) : .stack (.worker t) ∈ op.writes s := by
  cases op <;> simp_all [Op.AddsResult, Op.writes]

theorem step_taskRef {cfg : Config V} {s' : State V} {θ : Thread} {ops : List Op}
    (hcode : s.code θ = op :: ops) (hnext : step cfg s θ = .next s') (hop : op ≠ .taskRef t) :
    s'.taskRef t = s.taskRef t := by
  simp only [step, hcode] at hnext
  cases op with
  | taskRef t' =>
      simp only [exec] at hnext
      split at hnext <;> cases hnext
      exact Function.update_of_ne (fun ht => hop (by rw [ht])) _ _
  | _ =>
      simp only [exec] at hnext
      (repeat' split at hnext) <;> cases hnext <;> rfl

theorem spawned_eq_nil {θ : Thread} (h : .stack θ ∉ op.writes s) : spawned op θ = [] := by
  cases op with
  | fork i =>
      cases θ with
      | controller => rfl
      | worker t => exact if_neg (by simpa [Op.writes] using h)
  | _ => cases θ <;> rfl

end

/-- A step changes nothing but the locations it writes. -/
theorem step_same {cfg : Config V} {s s' : State V} {θ : Thread} {op : Op} {ops : List Op}
    (hcode : s.code θ = op :: ops) (hnext : step cfg s θ = .next s') {ℓ : Location}
    (hℓ : ℓ ∉ writesOf s θ op) : s.Same s' ℓ := by
  have hθ : ℓ ≠ .stack θ := fun h => hℓ (.inl h)
  have hop : ℓ ∉ op.writes s := fun h => hℓ (.inr h)
  have e := step_effect hcode hnext
  cases ℓ with
  | task => exact (e.task.trans (nextTask_eq hop)).symm
  | taskObject j => exact trivial
  | signal σ i => exact ((congrFun₂ e.signal σ i).trans (nextSignal_eq hop)).symm
  | haveThreadHandle i =>
      exact ((congrFun e.haveThreadHandle i).trans (nextHaveThreadHandle_eq hop)).symm
  | exited i => exact ((congrFun e.exited i).trans (nextExited_eq hop)).symm
  | syncData i =>
      exact (e.syncData i (fun h => hop (by simp [h, Op.writes]))
        fun h => hop (by simp [h, Op.writes])).symm
  | synchronizer t =>
      exact (e.synchronizer t fun h => hop (mem_writes_of_writesSynchronizer h)).symm
  | subthreadData j t =>
      exact (e.subthreadData j t fun h => hop (mem_writes_of_writesSlot h)).symm
  | stack θ' =>
      have hcode' : s.code θ' = s'.code θ' := by
        rw [step_code hcode hnext, spawned_eq_nil hop, List.nil_append,
          if_neg fun h => hθ (by rw [h])]
      refine ⟨hcode', ?_⟩
      rintro t rfl
      refine ⟨((congrFun e.pass t).trans (nextPasses_eq hop)).symm,
        ((congrFun e.joinRequested t).trans (nextJoinRequested_eq hop)).symm,
        (step_taskRef hcode hnext fun h => hop (by simp [h, Op.writes])).symm, ?_⟩
      funext j
      exact (e.results j t fun h => hop (mem_writes_of_addsResult h)).symm

/-- Two outcomes agree on a set of locations. -/
def Outcome.Agree (L : Set Location) : Outcome V → Outcome V → Prop
  | .blocked, .blocked => True
  | .fault f, .fault f' => f = f'
  | .next s, .next s' => ∀ ℓ ∈ L, s.Same s' ℓ
  | _, _ => False

section

variable {s₁ s₂ : State V} {θ : Thread} {ℓ : Location}

theorem State.Same.push (h : s₁.Same s₂ ℓ) (θ : Thread) (ops : List Op) :
    (s₁.push θ ops).Same (s₂.push θ ops) ℓ := by
  cases ℓ with
  | stack θ' =>
      refine ⟨?_, h.2⟩
      rw [State.push_code, State.push_code]
      split
      next hθ => rw [← hθ, h.1]
      next => exact h.1
  | taskObject j => exact trivial
  | _ => exact h

theorem State.Same.setSynchronizer (t : ℕ) (sync : Option (Synchronizer V))
    (h : ℓ ≠ .synchronizer t → s₁.Same s₂ ℓ) :
    (s₁.setSynchronizer t sync).Same (s₂.setSynchronizer t sync) ℓ := by
  cases ℓ with
  | synchronizer t' =>
      by_cases ht : t = t'
      · subst ht
        exact (State.setSynchronizer_self ..).trans (State.setSynchronizer_self ..).symm
      · refine (State.setSynchronizer_of_ne ht).trans
          (Eq.trans (h ?_) (State.setSynchronizer_of_ne ht).symm)
        simpa using Ne.symm ht
  | taskObject j => exact trivial
  | _ => exact h (by simp)

theorem State.Same.setSubthreadData (j t : ℕ) (v : Option V)
    (h : ℓ ≠ .subthreadData j t → s₁.Same s₂ ℓ) :
    (s₁.setSubthreadData j t v).Same (s₂.setSubthreadData j t v) ℓ := by
  cases ℓ with
  | subthreadData j' t' =>
      by_cases ht : j = j' ∧ t = t'
      · obtain ⟨rfl, rfl⟩ := ht
        exact (State.setSubthreadData_self ..).trans (State.setSubthreadData_self ..).symm
      · refine (State.setSubthreadData_of_ne ht).trans
          (Eq.trans (h ?_) (State.setSubthreadData_of_ne ht).symm)
        simpa [eq_comm] using ht
  | taskObject j => exact trivial
  | _ => exact h (by simp)

end

section

variable {cfg : Config V} {s₁ s₂ : State V} {θ : Thread} {op : Op} {t i : ℕ}

theorem numThreadsForTask_agree (h : ∀ ℓ ∈ s₁.numThreadsLocations t, s₁.Same s₂ ℓ) :
    numThreadsForTask cfg s₁ t = numThreadsForTask cfg s₂ t := by
  have hpass : s₁.pass t = s₂.pass t := ((h _ (.inl rfl)).2 t rfl).1
  by_cases hzero : s₁.pass t = 0
  · simp [numThreadsForTask, ← hpass, hzero]
  · have htask : s₁.task = s₂.task := h .task (.inr ⟨hzero, .inl rfl⟩)
    simp only [numThreadsForTask, hpass, htask]

theorem deref_agree (hdata : s₁.syncData i = s₂.syncData i)
    (htarget : ∀ ℓ ∈ s₁.syncDataTarget i, s₁.Same s₂ ℓ) :
    (s₁.syncData i).bind s₁.deref = (s₂.syncData i).bind s₂.deref := by
  rw [← hdata]
  cases hptr : s₁.syncData i with
  | none => rfl
  | some ptr =>
      have hsync : s₁.synchronizer ptr.threadIdx = s₂.synchronizer ptr.threadIdx :=
        htarget (.synchronizer ptr.threadIdx) ⟨ptr, hptr, rfl⟩
      simp only [Option.bind_some, State.deref, hsync]

/-- Operations that only call others agree on the stack of their thread. -/
theorem agree_push (h : s₁.Same s₂ (.stack θ)) (ops : List Op) :
    ∀ ℓ ∈ ({.stack θ} ∪ ∅ : Set Location), (s₁.push θ ops).Same (s₂.push θ ops) ℓ := by
  rintro ℓ (rfl | hℓ)
  · exact h.push θ ops
  · exact absurd hℓ id

theorem agree_stack (h : s₁.Same s₂ (.stack θ)) :
    ∀ ℓ ∈ ({.stack θ} ∪ ∅ : Set Location), s₁.Same s₂ ℓ := by
  rintro ℓ (rfl | hℓ)
  · exact h
  · exact absurd hℓ id

end

/-- What an operation does depends on what it reads: in two states that agree on it,
the operation has the same outcome, up to the locations it does not write. -/
theorem exec_agree {cfg : Config V} {s₁ s₂ : State V} {θ : Thread} {op : Op}
    (h : ∀ ℓ ∈ readsOf s₁ θ op, s₁.Same s₂ ℓ) :
    (exec cfg s₁ θ op).Agree (writesOf s₁ θ op) (exec cfg s₂ θ op) := by
  have hstack : s₁.Same s₂ (.stack θ) := h _ (.inl rfl)
  have hreads : ∀ ℓ ∈ op.reads s₁, s₁.Same s₂ ℓ := fun ℓ hℓ => h ℓ (.inr hℓ)
  cases op with
  | wait σ i =>
      have hsignal : s₁.signal σ i = s₂.signal σ i := hreads (.signal σ i) rfl
      simp only [exec, hsignal]
      split
      · exact agree_stack hstack
      · trivial
  | load σ i =>
      have hsignal : s₁.signal σ i = s₂.signal σ i := hreads (.signal σ i) rfl
      simp only [exec, hsignal]
      split
      · rfl
      · exact agree_stack hstack
  | reset σ i =>
      rintro ℓ (rfl | rfl)
      · exact hstack
      · simp [State.Same, State.setSignal]
  | store σ i =>
      rintro ℓ (rfl | rfl)
      · exact hstack
      · simp [State.Same, State.setSignal]
  | fork i =>
      have hhandle : s₁.haveThreadHandle i = s₂.haveThreadHandle i :=
        hreads (.haveThreadHandle i) (.inl rfl)
      have hworker : s₁.Same s₂ (.stack (.worker i)) := hreads (.stack (.worker i)) (.inr rfl)
      simp only [exec, hhandle]
      split
      · rfl
      · rintro ℓ (rfl | rfl | rfl)
        · exact hstack.push _ _
        · simp [State.Same, State.push]
        · exact hworker.push _ _
  | join i =>
      have hhandle : s₁.haveThreadHandle i = s₂.haveThreadHandle i :=
        hreads (.haveThreadHandle i) (.inl rfl)
      have hexited : s₁.exited i = s₂.exited i := hreads (.exited i) (.inr rfl)
      simp only [exec, hhandle, hexited]
      split
      · split
        · rintro ℓ (rfl | rfl)
          · exact hstack
          · simp [State.Same]
        · trivial
      · rfl
  | run j =>
      have hhandle : s₁.haveThreadHandle 0 = s₂.haveThreadHandle 0 :=
        hreads (.haveThreadHandle 0) (.inl rfl)
      simp only [exec, hhandle]
      split
      · rintro ℓ (rfl | hℓ)
        · exact hstack.push θ _
        · exact (hreads ℓ (.inr hℓ)).push θ _
      · rintro ℓ (rfl | hℓ)
        · exact hstack
        · exact hreads ℓ (.inr hℓ)
  | storeTask j =>
      rintro ℓ (rfl | rfl)
      · exact hstack
      · rfl
  | releaseTask =>
      rintro ℓ (rfl | rfl)
      · exact hstack
      · rfl
  | forkRoot j =>
      have hhandle : s₁.haveThreadHandle 0 = s₂.haveThreadHandle 0 :=
        hreads (.haveThreadHandle 0) rfl
      simp only [exec, hhandle]
      split
      · exact agree_stack hstack
      · exact agree_push hstack _
  | ret j =>
      rintro ℓ (rfl | hℓ)
      · exact hstack
      · exact hreads ℓ hℓ
  | notifyAndForkSubthreads t =>
      simp only [exec, numThreadsForTask_agree hreads]
      split
      · exact agree_push hstack _
      · rfl
  | notifySubthreads t =>
      simp only [exec, numThreadsForTask_agree hreads]
      exact agree_push hstack _
  | waitForSubthreads t =>
      simp only [exec, numThreadsForTask_agree hreads]
      exact agree_push hstack _
  | joinSubthreads t =>
      simp only [exec, numThreadsForTask_agree hreads]
      split
      · exact agree_push hstack _
      · rfl
  | taskRef t =>
      have htask : s₁.task = s₂.task := hreads .task (.inr (.inl rfl))
      have hworker : s₁.Same s₂ (.stack (.worker t)) := hreads _ (.inl rfl)
      obtain ⟨hpass, hjoin, href, hresults⟩ := hworker.2 t rfl
      simp only [exec, htask, hpass]
      split
      · rfl
      · rintro ℓ (rfl | rfl)
        · refine State.Same.push ?_ _ _
          refine ⟨hstack.1, ?_⟩
          rintro t' rfl
          obtain ⟨h1, h2, h3, h4⟩ := hstack.2 t' rfl
          exact ⟨h1, by simp only [Function.update_apply, h2],
            by simp only [Function.update_apply, h3], h4⟩
        · refine State.Same.push ?_ _ _
          refine ⟨hworker.1, ?_⟩
          rintro t' ht
          cases ht
          exact ⟨hpass, by simp only [Function.update_self], by simp only [Function.update_self],
            hresults⟩
  | taskRun t j =>
      have htask : s₁.task = s₂.task := hreads .task (.inl rfl)
      simp only [exec, htask]
      split
      · exact agree_push hstack _
      · rfl
  | execute t j =>
      have htask : s₁.task = s₂.task := hreads .task (.inl rfl)
      have hslot : s₁.subthreadData j t = s₂.subthreadData j t :=
        hreads (.subthreadData j t) (.inr (.inr rfl))
      simp only [exec, htask, hslot]
      split
      · split
        · exact agree_push hstack _
        · split
          · rfl
          · exact agree_push hstack _
      · rfl
  | storeResult t j =>
      have htask : s₁.task = s₂.task := hreads .task (.inl rfl)
      have hslot : s₁.subthreadData j t = s₂.subthreadData j t :=
        hreads (.subthreadData j t) (.inr (.inr (.inl rfl)))
      have hworker : s₁.Same s₂ (.stack (.worker t)) := hreads _ (.inr (.inr (.inr rfl)))
      obtain ⟨-, -, -, hresults⟩ := hworker.2 t rfl
      simp only [exec, htask]
      split
      · split
        · rintro ℓ (rfl | rfl)
          · exact hstack
          · exact hslot
        · rintro ℓ (rfl | rfl)
          · exact hstack
          · simp only [State.Same, State.setSubthreadData_self, hresults]
      · rfl
  | mergeIfParticipant t i =>
      have htask : s₁.task = s₂.task := hreads .task (.inl rfl)
      simp only [exec, htask]
      split
      · rfl
      · exact agree_push hstack _
  | merge j t i =>
      have htask : s₁.task = s₂.task := hreads .task (.inl rfl)
      have hslot : s₁.subthreadData j t = s₂.subthreadData j t :=
        hreads (.subthreadData j t) (.inr (.inr (.inl rfl)))
      have hslot' : s₁.subthreadData j i = s₂.subthreadData j i :=
        hreads (.subthreadData j i) (.inr (.inr (.inr rfl)))
      simp only [exec, htask, hslot, hslot']
      split
      · split
        · rintro ℓ (rfl | rfl | rfl)
          · exact hstack
          · exact hslot
          · exact hslot'
        · split
          · rintro ℓ (rfl | rfl | rfl)
            · exact hstack
            · refine State.Same.setSubthreadData j i none fun _ => ?_
              exact State.Same.setSubthreadData j t _ fun h => absurd rfl h
            · exact State.Same.setSubthreadData j i none fun h => absurd rfl h
          · rfl
      · rfl
  | synchronizeCollect t =>
      have htask : s₁.task = s₂.task := hreads .task (.inl rfl)
      simp only [exec, htask]
      split
      · rfl
      · exact agree_push hstack _
  | synchronizeBroadcast t =>
      have htask : s₁.task = s₂.task := hreads .task (.inl rfl)
      simp only [exec, htask]
      split
      · rfl
      · exact agree_push hstack _
  | exit t =>
      rintro ℓ (rfl | rfl)
      · exact hstack
      · simp [State.Same]
  | nextPass t =>
      have hworker : s₁.Same s₂ (.stack (.worker t)) := hreads _ rfl
      obtain ⟨hpass, hjoin, -, -⟩ := hworker.2 t rfl
      simp only [exec, hpass, hjoin]
      rintro ℓ (rfl | rfl)
      · refine State.Same.push ?_ _ _
        refine ⟨hstack.1, ?_⟩
        rintro t' rfl
        obtain ⟨h1, h2⟩ := hstack.2 t' rfl
        exact ⟨by simp only [Function.update_apply, h1], h2⟩
      · refine State.Same.push ?_ _ _
        refine ⟨hworker.1, ?_⟩
        rintro t' ht
        cases ht
        exact ⟨by simp only [Function.update_self], (hworker.2 t rfl).2⟩
  | enter t j k =>
      have hworker : s₁.Same s₂ (.stack (.worker t)) := hreads _ (.inr rfl)
      obtain ⟨-, -, -, hresults⟩ := hworker.2 t rfl
      simp only [exec, hresults]
      split
      · rfl
      · rintro ℓ (rfl | rfl)
        · exact hstack
        · exact State.Same.setSynchronizer t _ fun h => absurd rfl h
  | collect t i =>
      have hsync : s₁.synchronizer t = s₂.synchronizer t :=
        hreads (.synchronizer t) (.inl (.inl rfl))
      have hdata : s₁.syncData i = s₂.syncData i := hreads (.syncData i) (.inl (.inr rfl))
      have hderef := deref_agree hdata fun ℓ hℓ => hreads ℓ (.inr hℓ)
      have hsame : ∀ ℓ ∈ ({.stack θ} ∪ {.synchronizer t} : Set Location), s₁.Same s₂ ℓ := by
        rintro ℓ (rfl | rfl)
        · exact hstack
        · exact hsync
      simp only [exec, hsync, hderef]
      split
      · rfl
      · split
        · exact hsame
        · split
          · rfl
          · exact fun ℓ hℓ => State.Same.setSynchronizer t _ fun _ => hsame ℓ hℓ
  | storeSyncData t =>
      have hsync : s₁.synchronizer t = s₂.synchronizer t := hreads (.synchronizer t) rfl
      simp only [exec, hsync]
      split
      · rfl
      · rintro ℓ (rfl | rfl)
        · exact hstack
        · simp [State.Same]
  | clearSyncData t =>
      rintro ℓ (rfl | rfl)
      · exact hstack
      · simp [State.Same]
  | transform t j k =>
      have hsync : s₁.synchronizer t = s₂.synchronizer t := hreads (.synchronizer t) rfl
      simp only [exec, hsync]
      split
      · rintro ℓ (rfl | rfl)
        · exact hstack
        · exact State.Same.setSynchronizer t _ fun h => absurd rfl h
      · rfl
  | broadcast t i =>
      have hsync : s₁.synchronizer t = s₂.synchronizer t :=
        hreads (.synchronizer t) (.inl (.inl rfl))
      have hdata : s₁.syncData i = s₂.syncData i := hreads (.syncData i) (.inl (.inr (.inl rfl)))
      have hderef := deref_agree hdata fun ℓ hℓ => hreads ℓ (.inr hℓ)
      have hsame : ∀ ℓ ∈ writesOf s₁ θ (.broadcast t i), s₁.Same s₂ ℓ := by
        rintro ℓ (rfl | rfl | hℓ)
        · exact hstack
        · exact hreads _ (.inl (.inr (.inr rfl)))
        · exact hreads ℓ (.inr hℓ)
      simp only [exec, hsync, hderef]
      split
      · rfl
      · split
        · exact hsame
        · split
          · rfl
          · split
            · rfl
            · exact fun ℓ hℓ => State.Same.setSynchronizer i _ fun _ => hsame ℓ hℓ
  | leave t j k =>
      have hsync : s₁.synchronizer t = s₂.synchronizer t := hreads (.synchronizer t) (.inl rfl)
      have hworker : s₁.Same s₂ (.stack (.worker t)) := hreads _ (.inr rfl)
      obtain ⟨hpass, hjoin, href, hresults⟩ := hworker.2 t rfl
      rw [exec, exec, hsync, hresults]
      split
      · rfl
      · rintro ℓ (rfl | rfl | rfl)
        · refine ⟨hstack.1, ?_⟩
          rintro t' rfl
          obtain ⟨h1, h2, h3, h4⟩ := hstack.2 t' rfl
          exact ⟨h1, h2, h3, by simp only [State.setSynchronizer, Function.update_apply, h4]⟩
        · exact State.Same.setSynchronizer t _ fun h => absurd rfl h
        · refine ⟨hworker.1, ?_⟩
          rintro t' ht
          cases ht
          exact ⟨hpass, hjoin, href, by simp only [State.setSynchronizer, Function.update_self]⟩

end Patton.ThreadSquad
