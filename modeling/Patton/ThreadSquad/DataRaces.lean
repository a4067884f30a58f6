import Patton.ThreadSquad.ProtocolOrder
import Patton.ThreadSquad.Footprint

/-!
# The absence of data races

The threads of a squad share plain variables: the pointer `task_` and the task, the
thread handles, `syncData_`, the synchronizers and the slots of `subthreadData_`.
They are ordered by the signals alone, of which `set_and_notify` releases and `wait`
acquires, whereas `reset` and the check of `set_and_notify` are relaxed. Here any two
steps that access a location of which one writes to it are shown to be ordered by
happens-before, in every execution; the accesses to the signals are ordered, too, so
that the relaxed ones read what the interleaving says.
-/

namespace Patton.ThreadSquad

open Handshake Causality

variable {V : Type}

/-- What the operations do to synchronize: `set_and_notify` stores with
`memory_order_release` and `wait` loads with `memory_order_acquire`; `reset` stores
without releasing anything. -/
def synchronization : Actions Thread Op (Signal × ℕ) where
  releases := fun op f => op = .store f.1 f.2
  acquires := fun op f => op = .wait f.1 f.2
  writes := fun op f => op = .store f.1 f.2 ∨ op = .reset f.1 f.2
  forks := fun op θ => ∃ i, op = .fork i ∧ θ = .worker i
  joins := fun op θ => ∃ i, op = .join i ∧ θ = .worker i

namespace Squad

variable {sq : Squad V} {s s' : State V} {rem rem' : Thread → List Event} {θ θ' : Thread}
  {e e' : Event} {ops : List Op} {etr : List Node} {tr : List (Thread × Op)} {x y z : Node}
  {i j k t : ℕ} {ch : Channel}

theorem Performed.step_of_mem (h : sq.Performed tr rem etr) (hx : x ∈ etr) :
    tr[etr.idxOf x]? = some x.step := by
  rw [← h.steps, List.getElem?_map, List.getElem?_idxOf hx]
  rfl

theorem Performed.mem_script (h : sq.Performed tr rem etr) (hx : x ∈ etr) :
    x.2 ∈ sq.script x.1 := by
  rw [h.script]
  exact List.mem_append_left _ (mem_eventsOf.2 hx)

/-- What stands at a position of the trace is the operation of an event. -/
theorem Performed.exists_node (h : sq.Performed tr rem etr) {r : ℕ} {op : Op}
    (hr : tr[r]? = some (θ, op)) : ∃ e, (θ, e) ∈ etr ∧ etr.idxOf (θ, e) = r ∧ e.op = op := by
  rw [← h.steps, List.getElem?_map, Option.map_eq_some_iff] at hr
  obtain ⟨⟨θ', e⟩, hx, hstep⟩ := hr
  obtain ⟨rfl, rfl⟩ := Prod.mk.inj hstep
  refine ⟨e, List.mem_of_getElem? hx, ?_, rfl⟩
  obtain ⟨hlt, hget⟩ := List.getElem?_eq_some_iff.1 hx
  exact hget ▸ h.nodup.idxOf_getElem r hlt

theorem Performed.lt_of_orders (h : sq.Performed tr rem etr) (hy : y ∈ etr)
    (hxy : sq.Orders x y) : x ∈ etr ∧ etr.idxOf x < etr.idxOf y :=
  h.causal.idxOf_lt hy hxy

theorem orders_of_transGen {a b : Request (ℕ × ℕ) ⊕ Response (ℕ × ℕ)}
    (h : Relation.TransGen (fun a b => sq.Edge (sq.accessNode i ch a) (sq.accessNode i ch b)) a b) :
    sq.Orders (sq.accessNode i ch a) (sq.accessNode i ch b) :=
  h.lift _ fun _ _ => id

theorem ofSignal_request (ch : Channel) : Channel.ofSignal ch.request = ch := by
  cases ch <;> rfl

theorem ofSignal_answer (ch : Channel) : Channel.ofSignal ch.answer = ch := by
  cases ch <;> rfl

/-- Between two successive accesses of a handshake, there is no other one. -/
theorem Performed.not_between (h : sq.Performed tr rem etr)
    {a b d : Request (ℕ × ℕ) ⊕ Response (ℕ × ℕ)}
    {c c' : List (Request (ℕ × ℕ) ⊕ Response (ℕ × ℕ))}
    (hsplit : conversation (sq.cycles i ch) = c ++ a :: b :: c')
    (ha : sq.accessNode i ch a ∈ etr) (hd : d ∈ conversation (sq.cycles i ch))
    (hmem : sq.accessNode i ch d ∈ etr)
    (hlt : etr.idxOf (sq.accessNode i ch a) < etr.idxOf (sq.accessNode i ch d))
    (hlt' : etr.idxOf (sq.accessNode i ch d) < etr.idxOf (sq.accessNode i ch b)) : False := by
  have hda : d ≠ a := fun hda => by simp [hda] at hlt
  have hdb : d ≠ b := fun hdb => by simp [hdb] at hlt'
  rcases (handshake_orders i ch).transGen_of_split hsplit hd hda hdb with hz | hz
  · have := (h.lt_of_orders ha (orders_of_transGen hz)).2
    omega
  · have := (h.lt_of_orders hmem (orders_of_transGen hz)).2
    omega

/-- The edges of the protocol are synchronization. -/
theorem Performed.synchronizes (h : sq.Performed tr rem etr) (hy : y ∈ etr)
    (hxy : sq.Edge x y) : Synchronizes synchronization tr (etr.idxOf x) (etr.idxOf y) := by
  have hx := (h.lt_of_orders hy (.single hxy)).1
  have hstep := h.step_of_mem hx
  have hstep' := h.step_of_mem hy
  -- what is stored in the flag is an access of the handshake
  have hnone : ∀ {i ch σ} {a b : Request (ℕ × ℕ) ⊕ Response (ℕ × ℕ)}
      {c c' : List (Request (ℕ × ℕ) ⊕ Response (ℕ × ℕ))}, Channel.ofSignal σ = ch →
      conversation (sq.cycles i ch) = c ++ a :: b :: c' → sq.accessNode i ch a ∈ etr →
      ∀ r θ'' op, etr.idxOf (sq.accessNode i ch a) < r → r < etr.idxOf (sq.accessNode i ch b) →
        tr[r]? = some (θ'', op) → ¬ (op = .store σ i ∨ op = .reset σ i) := by
    rintro i ch σ a b c c' rfl hsplit ha r θ'' op hlt hlt' hr hop
    obtain ⟨e, hmem, rfl, rfl⟩ := h.exists_node hr
    obtain ⟨d, hd, hnode⟩ := exists_accessNode (h.mem_script hmem)
      (hop.elim (fun h => .inr (.inr (.inr h))) fun h => .inr (.inl h))
    rw [hnode] at hmem hlt hlt'
    exact h.not_between hsplit ha hd hmem hlt hlt'
  cases hxy with
  | program hpair => exact .program hstep hstep'
  | request i ch hl =>
      obtain ⟨c, c', hsplit⟩ := exists_split_raiseRequest hl
      exact .flag (f := (ch.request, i)) hstep rfl hstep' rfl
        (hnone (ofSignal_request ch) hsplit hx)
  | answer i ch hl =>
      obtain ⟨c, c', hsplit⟩ := exists_split_raiseAnswer hl
      exact .flag (f := (ch.answer, i)) hstep rfl hstep' rfl
        (hnone (ofSignal_answer ch) hsplit hx)
  | fork hfork he => exact .fork hstep ⟨_, rfl, rfl⟩ hstep'
  | join hjoin he => exact .join hstep hstep' ⟨_, rfl, rfl⟩

/-- What the protocol orders is ordered by happens-before. -/
theorem Performed.happensBefore (h : sq.Performed tr rem etr) (hy : y ∈ etr)
    (hxy : sq.Orders x y) :
    HappensBefore synchronization tr (etr.idxOf x) (etr.idxOf y) := by
  induction hxy with
  | single hxy =>
      exact .single ⟨(h.lt_of_orders hy (.single hxy)).2, h.synchronizes hy hxy⟩
  | tail _ hyz ih =>
      obtain ⟨hmem, hlt⟩ := h.lt_of_orders hy (.single hyz)
      exact .tail (ih hmem) ⟨hlt, h.synchronizes hy hyz⟩

def touchesOf (s : State V) (θ : Thread) (op : Op) : Set Location :=
  readsOf s θ op ∪ writesOf s θ op

/-- A worker accesses its own synchronizer and `syncData_` in its collectives. -/
def OwnSync (i : ℕ) (op : Op) : Prop :=
  op = .storeSyncData i ∨ op = .clearSyncData i ∨
    (∃ j k, op = .enter i j k ∨ op = .transform i j k ∨ op = .leave i j k) ∨
    ∃ i', op = .collect i i' ∨ op = .broadcast i i'

/-- The superordinate worker accesses the synchronizer and `syncData_` of a worker. -/
def ParentSync (i : ℕ) (op : Op) : Prop := ∃ t, op = .collect t i ∨ op = .broadcast t i

/-- The pointers to the data of a synchronizer point to the worker's own one. -/
def OwnPointers (s : State V) : Prop := ∀ i ptr, s.syncData i = some ptr → ptr.threadIdx = i

theorem exec_ownPointers {cfg : Config V} (h : Exec cfg tr s) : OwnPointers s := by
  induction h with
  | initial => exact fun i ptr h => nomatch h
  | @step tr s s' θ op ops _ hcode hnext ih =>
      intro i ptr hptr
      have e := step_effect hcode hnext
      by_cases hstore : op = .storeSyncData i
      · subst hstore
        simp only [step, hcode, exec] at hnext
        split at hnext <;> cases hnext
        next sync _ =>
          simp only [Function.update_self, Synchronizer.syncData] at hptr
          split at hptr <;> cases hptr
          rfl
      · by_cases hclear : op = .clearSyncData i
        · subst hclear
          simp only [step, hcode, exec] at hnext
          cases hnext
          simp at hptr
        · exact ih i ptr (e.syncData i hstore hclear ▸ hptr)

section

variable {op : Op} {σ : Signal}

@[simp] theorem mem_touchesOf {ℓ : Location} :
    ℓ ∈ touchesOf s θ op ↔ ℓ = .stack θ ∨ ℓ ∈ op.reads s ∨ ℓ ∈ op.writes s := by
  simp [touchesOf, readsOf, writesOf]
  tauto

/-- The stack of a worker is touched by the worker itself and by its fork. -/
theorem touches_stack (he : e ∈ sq.script θ) (h : .stack θ' ∈ touchesOf s θ e.op) :
    θ' = θ ∨ ∃ i, θ' = .worker i ∧ e.op = .fork i := by
  obtain ⟨op, j, k⟩ := e
  cases θ with
  | controller =>
      have hcontrols := (mem_script_controller.1 he).2
      cases op <;> simp [Controls] at hcontrols h <;> simp [h]
  | worker t =>
      have hperforms := (mem_script_worker.1 he).2
      cases op <;> simp [Performs] at hperforms h <;> simp_all

theorem touches_signal (h : .signal σ i ∈ touchesOf s θ op) :
    op = .wait σ i ∨ op = .reset σ i ∨ op = .load σ i ∨ op = .store σ i := by
  cases op <;> simp at h <;> simp [h]

theorem touches_haveThreadHandle (h : .haveThreadHandle i ∈ touchesOf s θ op) :
    op = .fork i ∨ op = .join i ∨ i = 0 ∧ ∃ j, op = .run j ∨ op = .forkRoot j := by
  cases op <;> simp at h <;> simp [h]

theorem touches_exited (h : .exited i ∈ touchesOf s θ op) : op = .exit i ∨ op = .join i := by
  cases op <;> simp at h <;> simp [h]

theorem touches_syncData (h : .syncData i ∈ touchesOf s θ op) :
    OwnSync i op ∨ ParentSync i op := by
  have hor : op = .storeSyncData i ∨ op = .clearSyncData i ∨
      ∃ t, op = .collect t i ∨ op = .broadcast t i := by
    cases op <;> simp at h <;> simp [h]
  rcases hor with h | h | h
  · exact .inl (.inl h)
  · exact .inl (.inr (.inl h))
  · exact .inr h

theorem touches_synchronizer (hs : OwnPointers s) (h : .synchronizer t ∈ touchesOf s θ op) :
    OwnSync t op ∨ ParentSync t op := by
  have htarget : ∀ {i}, (∃ ptr, s.syncData i = some ptr ∧ t = ptr.threadIdx) → t = i := by
    rintro i ⟨ptr, hptr, rfl⟩
    exact hs i ptr hptr
  cases op with
  | collect t' i =>
      have hor : t = t' ∨ t = i := by
        simp at h
        rcases h with (rfl | h) | rfl
        · exact .inl rfl
        · exact .inr (htarget h)
        · exact .inl rfl
      rcases hor with rfl | rfl
      · exact .inl (.inr (.inr (.inr ⟨i, .inl rfl⟩)))
      · exact .inr ⟨t', .inl rfl⟩
  | broadcast t' i =>
      have hor : t = t' ∨ t = i := by
        simp at h
        rcases h with ((rfl | rfl) | h) | rfl | h
        · exact .inl rfl
        · exact .inr rfl
        · exact .inr (htarget h)
        · exact .inr rfl
        · exact .inr (htarget h)
      rcases hor with rfl | rfl
      · exact .inl (.inr (.inr (.inr ⟨i, .inr rfl⟩)))
      · exact .inr ⟨t', .inr rfl⟩
  | _ => simp at h <;> simp [h, OwnSync]

theorem touches_subthreadData (h : .subthreadData j t ∈ touchesOf s θ op) :
    op = .run j ∨ op = .ret j ∨ op = .execute t j ∨ op = .storeResult t j ∨
      ∃ i, op = .merge j t i ∨ op = .merge j i t := by
  cases op with
  | merge j' t' i =>
      have hor : j = j' ∧ (t = t' ∨ t = i) := by
        simp at h
        tauto
      obtain ⟨rfl, rfl | rfl⟩ := hor <;> simp
  | _ => simp at h <;> simp [h]

theorem writes_task (h : .task ∈ writesOf s θ op) : op.handlesTask := by
  cases op <;> simp [writesOf] at h <;> rfl

theorem writes_taskObject (h : .taskObject j ∈ writesOf s θ op) : op.handlesTask := by
  cases op <;> simp [writesOf] at h <;> rfl

theorem touches_ne_nextPass {ℓ : Location} (h : ℓ ∈ touchesOf s θ op) (hℓ : ∀ θ, ℓ ≠ .stack θ) :
    op ≠ .nextPass t := by
  rintro rfl
  simp [hℓ] at h

end

variable {s₁ s₂ : State V}

theorem controller_of_handlesTask (he : e ∈ sq.script θ) (h : e.op.handlesTask) :
    θ = .controller := by
  cases θ with
  | controller => rfl
  | worker t =>
      obtain ⟨op, j, k⟩ := e
      have hperforms := (mem_script_worker.1 he).2
      cases op <;> first | exact absurd hperforms id | cases h

theorem orders_or_of_handlesTask (he : e ∈ sq.script θ) (he' : e' ∈ sq.script θ')
    (hθ : θ ≠ θ') (h : e.op.handlesTask) (h' : ∀ t, e'.op ≠ .nextPass t) :
    sq.Orders (θ, e) (θ', e') ∨ sq.Orders (θ', e') (θ, e) := by
  obtain rfl := controller_of_handlesTask he h
  cases θ' with
  | controller => exact absurd rfl hθ
  | worker t => exact orders_or_of_controller he h he' (h' t)

/-- What accesses a thread handle belongs to the thread which forks and joins. -/
theorem parentThread_of_touches (he : e ∈ sq.script θ)
    (h : .haveThreadHandle i ∈ touchesOf s θ e.op) : θ = sq.parentThread i := by
  obtain ⟨op, j, k⟩ := e
  rcases touches_haveThreadHandle h with hop | hop | ⟨rfl, j', hop | hop⟩ <;> obtain rfl := hop
  · exact (parentThread_of_fork he).1
  · exact (parentThread_of_join he).1
  · exact (controller_of_handlesTask he rfl).trans parentThread_zero.symm
  · cases θ with
    | controller => exact parentThread_zero.symm
    | worker t => exact absurd (mem_script_worker.1 he).2 id

/-- What the controlling thread never does is done by a worker. -/
theorem worker_of_not_controls {op : Op} (he : ⟨op, j, k⟩ ∈ sq.script θ)
    (h : ¬ sq.Controls j k op) : ∃ t, θ = .worker t ∧ sq.Performs t j k op := by
  cases θ with
  | controller => exact absurd (mem_script_controller.1 he).2 h
  | worker t => exact ⟨t, rfl, (mem_script_worker.1 he).2⟩

/-- The slot of a worker is accessed by the controlling thread, by the worker before it
completes the run, and by the superordinate worker which merges it. -/
theorem slot_cases (he : e ∈ sq.script θ) (h : .subthreadData j t ∈ touchesOf s θ e.op) :
    e.op.handlesTask ∨
      θ = .worker t ∧ e.run = j ∧ sq.before e ⟨.store .taskProcessed t, j, 0⟩ ∨
      ∃ p, θ = .worker p ∧ e = ⟨.merge j p t, j, 0⟩ ∧ sq.parent t = p := by
  obtain ⟨op, j', k⟩ := e
  rcases touches_subthreadData h with hop | hop | hop | hop | ⟨i, hop | hop⟩ <;> obtain rfl := hop
  · exact .inl rfl
  · exact .inl rfl
  all_goals
    obtain ⟨t', rfl, hperforms⟩ := worker_of_not_controls he id
  · obtain ⟨rfl, rfl, -⟩ := hperforms
    exact .inr (.inl ⟨rfl, rfl, .inr ⟨rfl, by simp [slot, Slot.before]⟩⟩)
  · obtain ⟨rfl, rfl, -⟩ := hperforms
    exact .inr (.inl ⟨rfl, rfl, .inr ⟨rfl, by simp [slot, Slot.before]⟩⟩)
  · obtain ⟨rfl, rfl, -⟩ := hperforms
    exact .inr (.inl ⟨rfl, rfl, .inr ⟨rfl, by simp [slot, Slot.before]⟩⟩)
  · obtain ⟨rfl, rfl, hchild, rfl⟩ := hperforms
    exact .inr (.inr ⟨_, rfl, rfl, hchild.2.2⟩)

theorem OwnSync.inRound {op : Op} (h : OwnSync i op) (hi : 0 < i)
    (he : ⟨op, j, k⟩ ∈ sq.script (.worker i)) :
    InRound sq i j k ⟨op, j, k⟩ ∧ (j, k) ∈ sq.cycles i .sync := by
  obtain ⟨hrun, hperforms⟩ := mem_script_worker.1 he
  have hin : (2 * k + 2 ≤ (sq.slot j k op).stage ∧ (sq.slot j k op).stage ≤ 2 * k + 3) ∧
      ((sq.slot j k op).before ⟨2 * k + 2, 3, 1⟩ ∨ (⟨2 * k + 3, 0, 0⟩ : Slot).before
        (sq.slot j k op)) ∧ i < (sq.task j).concurrency ∧ k < sq.rounds j := by
    rcases h with rfl | rfl | ⟨j', k', rfl | rfl | rfl⟩ | ⟨i', rfl | rfl⟩
    · simpa [slot, Slot.before, Performs, hi] using hperforms
    · simpa [slot, Slot.before, Performs, hi] using hperforms
    · obtain ⟨-, rfl, rfl, hc, hk⟩ := hperforms
      simp [slot, Slot.before, hc, hk]
    · exact absurd hperforms.2.2.2.1 hi.ne'
    · obtain ⟨-, rfl, rfl, hc, hk⟩ := hperforms
      simp [slot, Slot.before, hc, hk]
    · obtain ⟨-, hchild, hk⟩ := hperforms
      simp [slot, Slot.before, hchild.lt, hk]
    · obtain ⟨-, hchild, hk⟩ := hperforms
      simp [slot, Slot.before, hchild.lt, hk]
  obtain ⟨hstage, hside, hc, hk⟩ := hin
  exact ⟨⟨rfl, hstage, hside.imp (fun h => .inr ⟨rfl, h⟩) fun h => .inr ⟨rfl, h⟩⟩,
    mem_cycles_sync.2 ⟨hrun, hi, hc, hk⟩⟩

/-- What a worker does with its synchronizer and what its superordinate worker does
with it is ordered. -/
theorem orders_or_of_sync (he : e ∈ sq.script (.worker i)) (he' : e' ∈ sq.script θ')
    (hown : OwnSync i e.op) (hparent : ParentSync i e'.op) :
    sq.Orders (.worker i, e) (θ', e') ∨ sq.Orders (θ', e') (.worker i, e) := by
  obtain ⟨op, j, k⟩ := e
  obtain ⟨op', j', k'⟩ := e'
  cases θ' with
  | controller =>
      obtain ⟨t, h | h⟩ := hparent <;> obtain rfl := h <;>
        exact absurd (mem_script_controller.1 he').2 id
  | worker t' =>
      obtain ⟨hrun', hperforms'⟩ := mem_script_worker.1 he'
      have hin : sq.Child (sq.task j').concurrency t' i ∧ k' < sq.rounds j' ∧
          sq.before ⟨.wait .collecting i, j', k'⟩ ⟨op', j', k'⟩ ∧
          sq.before ⟨op', j', k'⟩ ⟨.store .broadcasting i, j', k'⟩ := by
        obtain ⟨t, h | h⟩ := hparent <;> obtain rfl := h <;>
          obtain ⟨rfl, hchild, hk⟩ := hperforms' <;>
          exact ⟨hchild, hk, .inr ⟨rfl, by simp [slot, Slot.before]⟩,
            .inr ⟨rfl, by simp [slot, Slot.before]⟩⟩
      obtain ⟨hchild, hk', hcollected, hbroadcast⟩ := hin
      obtain ⟨hin, hl⟩ := OwnSync.inRound hown hchild.1 he
      have hl' : (j', k') ∈ sq.cycles i .sync := mem_cycles_sync.2
        ⟨mem_runs_of_lt_concurrency hchild.2.1 (sq.mem_runs.1 hrun').1, hchild.1, hchild.2.1, hk'⟩
      rw [← hchild.parentThread] at he' ⊢
      exact orders_or_of_round he hin hl he' hl' hcollected hbroadcast

/-- What a worker keeps for a collective is accessed by itself and by its superordinate
worker. -/
theorem sync_cases (he : e ∈ sq.script θ) (h : OwnSync i e.op ∨ ParentSync i e.op) :
    θ = .worker i ∧ OwnSync i e.op ∨ θ = sq.parentThread i ∧ ParentSync i e.op := by
  obtain ⟨op, j, k⟩ := e
  cases θ with
  | controller =>
      have hcontrols := (mem_script_controller.1 he).2
      rcases h with (rfl | rfl | ⟨j', k', rfl | rfl | rfl⟩ | ⟨i', rfl | rfl⟩) | ⟨t, rfl | rfl⟩ <;>
        exact absurd hcontrols id
  | worker t' =>
      have hperforms := (mem_script_worker.1 he).2
      rcases h with h | ⟨t, h⟩
      · refine .inl ⟨?_, h⟩
        rcases h with h | h | ⟨j', k', h | h | h⟩ | ⟨i', h | h⟩ <;> obtain rfl := h <;>
          exact congrArg Thread.worker hperforms.1.symm
      · refine .inr ⟨?_, t, h⟩
        rcases h with h | h <;> obtain rfl := h <;> exact hperforms.2.1.parentThread.symm

theorem orders_or_of_syncs (he : e ∈ sq.script θ) (he' : e' ∈ sq.script θ') (hθ : θ ≠ θ')
    (h : OwnSync i e.op ∨ ParentSync i e.op) (h' : OwnSync i e'.op ∨ ParentSync i e'.op) :
    sq.Orders (θ, e) (θ', e') ∨ sq.Orders (θ', e') (θ, e) := by
  rcases sync_cases he h with ⟨rfl, hown⟩ | ⟨rfl, hparent⟩
  · rcases sync_cases he' h' with ⟨rfl, -⟩ | ⟨-, hparent'⟩
    · exact absurd rfl hθ
    · exact orders_or_of_sync he he' hown hparent'
  · rcases sync_cases he' h' with ⟨rfl, hown'⟩ | ⟨rfl, -⟩
    · exact (orders_or_of_sync he' he hown' hparent).symm
    · exact absurd rfl hθ

/-- Two events of the scripts that conflict are ordered by the protocol. -/
theorem orders_or_of_conflict (he : e ∈ sq.script θ) (he' : e' ∈ sq.script θ')
    (hne : (θ, e) ≠ (θ', e')) (hs₁ : OwnPointers s₁) (hs₂ : OwnPointers s₂)
    (h : Conflict (readsOf s₁ θ e.op) (writesOf s₁ θ e.op) (readsOf s₂ θ' e'.op)
      (writesOf s₂ θ' e'.op)) :
    sq.Orders (θ, e) (θ', e') ∨ sq.Orders (θ', e') (θ, e) := by
  by_cases hθ : θ = θ'
  · subst hθ
    exact orders_or_of_thread he he' fun h => hne (by rw [h])
  obtain ⟨ℓ, hℓ⟩ := h
  have htouch : ℓ ∈ touchesOf s₁ θ e.op := by
    rcases hℓ with ⟨hw, -⟩ | ⟨hr, -⟩
    · exact .inr hw
    · exact .inl hr
  have htouch' : ℓ ∈ touchesOf s₂ θ' e'.op := by
    rcases hℓ with ⟨-, hrw⟩ | ⟨-, hw⟩
    · exact hrw
    · exact .inr hw
  have hwrite : ℓ ∈ writesOf s₁ θ e.op ∨ ℓ ∈ writesOf s₂ θ' e'.op :=
    hℓ.imp And.left And.right
  clear hℓ
  have htask : (e.op.handlesTask ∨ e'.op.handlesTask) → (∀ θ, ℓ ≠ .stack θ) →
      sq.Orders (θ, e) (θ', e') ∨ sq.Orders (θ', e') (θ, e) := by
    rintro (h | h) hstack
    · exact orders_or_of_handlesTask he he' hθ h fun t => touches_ne_nextPass htouch' hstack
    · exact (orders_or_of_handlesTask he' he (Ne.symm hθ) h
        fun t => touches_ne_nextPass htouch hstack).symm
  cases ℓ with
  | task => exact htask (hwrite.imp writes_task writes_task) (by simp)
  | taskObject j => exact htask (hwrite.imp writes_taskObject writes_taskObject) (by simp)
  | signal σ i =>
      obtain ⟨a, ha, hnode⟩ := exists_accessNode he (touches_signal htouch)
      obtain ⟨b, hb, hnode'⟩ := exists_accessNode he' (touches_signal htouch')
      rw [hnode, hnode'] at hne ⊢
      exact ((handshake_orders i _).transGen_or ha hb fun h => hne (by rw [h])).imp
        orders_of_transGen orders_of_transGen
  | haveThreadHandle i =>
      exact absurd ((parentThread_of_touches he htouch).trans
        (parentThread_of_touches he' htouch').symm) hθ
  | exited i =>
      obtain ⟨op, j, k⟩ := e
      obtain ⟨op', j', k'⟩ := e'
      have hexit : ∀ {θ j k}, ⟨.exit i, j, k⟩ ∈ sq.script θ → θ = .worker i := by
        intro θ j k he
        cases θ with
        | controller => exact absurd (mem_script_controller.1 he).2 id
        | worker t => exact congrArg Thread.worker (mem_script_worker.1 he).2.1.symm
      rcases touches_exited htouch with h | h <;> rcases touches_exited htouch' with h' | h' <;>
        obtain rfl := h <;> obtain rfl := h'
      · exact absurd ((hexit he).trans (hexit he').symm) hθ
      · obtain rfl := hexit he
        obtain ⟨rfl, -, -, rfl⟩ := parentThread_of_join he'
        exact .inl (.single (.join he' he))
      · obtain rfl := hexit he'
        obtain ⟨rfl, -, -, rfl⟩ := parentThread_of_join he
        exact .inr (.single (.join he he'))
      · exact absurd ((parentThread_of_join he).1.trans (parentThread_of_join he').1.symm) hθ
  | syncData i =>
      exact orders_or_of_syncs he he' hθ (touches_syncData htouch) (touches_syncData htouch')
  | synchronizer t =>
      exact orders_or_of_syncs he he' hθ (touches_synchronizer hs₁ htouch)
        (touches_synchronizer hs₂ htouch')
  | subthreadData j t =>
      rcases slot_cases he htouch with h | ⟨rfl, rfl, h⟩ | ⟨p, rfl, rfl, rfl⟩
      · exact htask (.inl h) (by simp)
      · rcases slot_cases he' htouch' with h' | ⟨rfl, -⟩ | ⟨p, rfl, rfl, rfl⟩
        · exact htask (.inr h') (by simp)
        · exact absurd rfl hθ
        · exact .inl (orders_merge he h rfl he')
      · rcases slot_cases he' htouch' with h' | ⟨rfl, rfl, h'⟩ | ⟨p, rfl, rfl, rfl⟩
        · exact htask (.inr h') (by simp)
        · exact .inr (orders_merge he' h' rfl he)
        · exact absurd rfl hθ
  | stack θ'' =>
      rcases touches_stack he htouch with rfl | ⟨i, rfl, hop⟩
      · rcases touches_stack he' htouch' with rfl | ⟨i, rfl, hop⟩
        · exact absurd rfl hθ
        · obtain ⟨op, j, k⟩ := e'
          obtain rfl : op = .fork i := hop
          obtain ⟨rfl, -, -, rfl⟩ := parentThread_of_fork he'
          exact .inr (.single (.fork he' he))
      · obtain ⟨op, j, k⟩ := e
        obtain rfl : op = .fork i := hop
        obtain ⟨rfl, -, -, rfl⟩ := parentThread_of_fork he
        rcases touches_stack he' htouch' with rfl | ⟨i', hi', hop'⟩
        · exact .inl (.single (.fork he he'))
        · obtain ⟨op', j', k'⟩ := e'
          obtain rfl : op' = .fork i' := hop'
          cases hi'
          exact absurd (parentThread_of_fork he').1.symm hθ

/-- No data races: of two steps that access a location, of which one writes to it, the
earlier one happens before the later one, in every execution of the squad. -/
theorem conflicts_ordered {tr₁ tr₂ tr₃ : List (Thread × Op)} {op op' : Op}
    (h : Exec sq.toConfig (tr₁ ++ (θ, op) :: tr₂ ++ (θ', op') :: tr₃) s)
    (h₁ : Exec sq.toConfig tr₁ s₁) (h₂ : Exec sq.toConfig (tr₁ ++ (θ, op) :: tr₂) s₂)
    (hc : Conflict (readsOf s₁ θ op) (writesOf s₁ θ op) (readsOf s₂ θ' op')
      (writesOf s₂ θ' op')) :
    HappensBefore synchronization (tr₁ ++ (θ, op) :: tr₂ ++ (θ', op') :: tr₃) tr₁.length
      (tr₁ ++ (θ, op) :: tr₂).length := by
  obtain ⟨rem, etr, -, hp⟩ := exec_performed h
  have hget : (tr₁ ++ (θ, op) :: tr₂ ++ (θ', op') :: tr₃)[tr₁.length]? = some (θ, op) := by simp
  have hget' : (tr₁ ++ (θ, op) :: tr₂ ++ (θ', op') :: tr₃)[(tr₁ ++ (θ, op) :: tr₂).length]? =
    some (θ', op') := by simp
  obtain ⟨e, he, hidx, rfl⟩ := hp.exists_node hget
  obtain ⟨e', he', hidx', rfl⟩ := hp.exists_node hget'
  have hlt : etr.idxOf (θ, e) < etr.idxOf (θ', e') := by
    rw [hidx, hidx', List.length_append, List.length_cons]
    omega
  have hne : (θ, e) ≠ (θ', e') := by
    intro h
    rw [h] at hlt
    exact lt_irrefl _ hlt
  have horder : sq.Orders (θ, e) (θ', e') := by
    refine (orders_or_of_conflict (hp.mem_script he) (hp.mem_script he') hne
      (exec_ownPointers h₁) (exec_ownPointers h₂) hc).resolve_right fun h => ?_
    exact lt_asymm hlt (hp.lt_of_orders he h).2
  rw [← hidx, ← hidx']
  exact hp.happensBefore he' horder

/-- Between the store of the task pointer and the load of the first worker. -/
theorem pair_conflicts_ordered : ∃ (tr : List (Thread × Op)) (s : State ℕ),
    Exec pairSquad.toConfig tr s ∧ tr[1]? = some (.controller, .storeTask 0) ∧
      tr[13]? = some (.worker 0, .taskRef 0) ∧ HappensBefore synchronization tr 1 13 := by
  have hreplay : (replay pairSquad.toConfig [] (State.initial pairSquad.toConfig)
      (.replicate 7 .controller ++ .replicate 7 (.worker 0))).map Prod.fst =
    some ([(.controller, .run 0)] ++ (.controller, .storeTask 0) ::
      [(.controller, .reset .taskProcessed 0), (.controller, .load .taskAvailable 0),
        (.controller, .store .taskAvailable 0), (.controller, .forkRoot 0),
        (.controller, .fork 0), (.worker 0, .notifyAndForkSubthreads 0),
        (.worker 0, .reset .taskProcessed 1), (.worker 0, .load .taskAvailable 1),
        (.worker 0, .store .taskAvailable 1), (.worker 0, .fork 1),
        (.worker 0, .wait .taskAvailable 0)] ++ [(.worker 0, .taskRef 0)]) := by decide +kernel
  obtain ⟨⟨tr, s⟩, hr, rfl⟩ := Option.map_eq_some_iff.1 hreplay
  have h := Exec.initial.replay hr
  obtain ⟨s₂, -, -, h₂, -⟩ := exec_split h
  obtain ⟨s₁, -, -, h₁, -⟩ := exec_split h₂
  exact ⟨_, s, h, rfl, rfl,
    conflicts_ordered h h₁ h₂ ⟨.task, .inl ⟨by simp [writesOf], .inl (by simp [readsOf])⟩⟩⟩

end Squad

end Patton.ThreadSquad
