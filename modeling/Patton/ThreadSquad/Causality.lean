import Patton.Library.HappensBefore
import Patton.Library.Conversation
import Patton.ThreadSquad.RunProtocol

/-!
# What the protocol orders

An event of a script must wait for the earlier events of its thread, for the event
which raises the flag it awaits, for the fork of its thread, and a join for all
events of the joined worker. These edges do not depend on the schedule. In every
execution they are respected, and they order the accesses of both handshakes of a
worker completely.
-/

namespace Patton.ThreadSquad

open Handshake Causality

variable {V : Type}

abbrev Node := Thread × Event

def Node.step (x : Node) : Thread × Op := (x.1, x.2.op)

namespace Channel

def requestEvent (ch : Channel) (i : ℕ) : Request (ℕ × ℕ) → Event
  | .clearAnswer l => ⟨.reset ch.answer i, l.1, l.2⟩
  | .loadRequest l => ⟨.load ch.request i, l.1, l.2⟩
  | .raiseRequest l => ⟨.store ch.request i, l.1, l.2⟩
  | .awaitAnswer l => ⟨.wait ch.answer i, l.1, l.2⟩

def responseEvent (ch : Channel) (i : ℕ) : Response (ℕ × ℕ) → Event
  | .awaitRequest l => ⟨.wait ch.request i, l.1, l.2⟩
  | .clearRequest l => ⟨.reset ch.request i, l.1, l.2⟩
  | .loadAnswer l => ⟨.load ch.answer i, l.1, l.2⟩
  | .raiseAnswer l => ⟨.store ch.answer i, l.1, l.2⟩

variable {ch : Channel} {i : ℕ} {e : Event}

theorem asRequest_eq_some {r : Request (ℕ × ℕ)} :
    ch.asRequest i e = some r ↔ e = ch.requestEvent i r := by
  obtain ⟨op, j, k⟩ := e
  cases r <;> cases op <;> simp [asRequest, requestEvent, Prod.ext_iff, eq_comm]

theorem asResponse_eq_some {r : Response (ℕ × ℕ)} :
    ch.asResponse i e = some r ↔ e = ch.responseEvent i r := by
  obtain ⟨op, j, k⟩ := e
  cases r <;> cases op <;> simp [asResponse, responseEvent, Prod.ext_iff, eq_comm]

/-- The handshake which a signal belongs to. -/
def ofSignal : Signal → Channel
  | .taskAvailable | .taskProcessed => task
  | .collecting | .broadcasting => sync

end Channel

namespace Squad

variable (sq : Squad V)

def accessNode (i : ℕ) (ch : Channel) : Request (ℕ × ℕ) ⊕ Response (ℕ × ℕ) → Node
  | .inl r => (sq.requester i ch, ch.requestEvent i r)
  | .inr r => (sq.responder i ch, ch.responseEvent i r)

/-- The first event must be over before the second one can take place. -/
inductive Edge : Node → Node → Prop
  | program {θ : Thread} {e e' : Event} : [e, e'].Sublist (sq.script θ) → Edge (θ, e) (θ, e')
  | request (i : ℕ) (ch : Channel) {l : ℕ × ℕ} : l ∈ sq.cycles i ch →
      Edge (sq.accessNode i ch (.inl (.raiseRequest l)))
        (sq.accessNode i ch (.inr (.awaitRequest l)))
  | answer (i : ℕ) (ch : Channel) {l : ℕ × ℕ} : l ∈ sq.cycles i ch →
      Edge (sq.accessNode i ch (.inr (.raiseAnswer l)))
        (sq.accessNode i ch (.inl (.awaitAnswer l)))
  | fork {i j : ℕ} {e : Event} : ⟨.fork i, j, 0⟩ ∈ sq.script (sq.parentThread i) →
      e ∈ sq.script (.worker i) → Edge (sq.parentThread i, ⟨.fork i, j, 0⟩) (.worker i, e)
  | join {i j : ℕ} {e : Event} : ⟨.join i, j, 0⟩ ∈ sq.script (sq.parentThread i) →
      e ∈ sq.script (.worker i) → Edge (.worker i, e) (sq.parentThread i, ⟨.join i, j, 0⟩)

/-- The protocol orders the first event before the second one. -/
def Orders : Node → Node → Prop := Relation.TransGen sq.Edge

variable {sq}

theorem exists_pair_of_filterMap {P : Type*} {f : Event → Option P} {a b : P} {l : List Event}
    (h : [a, b].Sublist (l.filterMap f)) :
    ∃ x y, [x, y].Sublist l ∧ f x = some a ∧ f y = some b := by
  obtain ⟨l', hl', hab⟩ := List.sublist_filterMap_iff.1 h
  obtain ⟨l₁, x, l₂, rfl, -, hx, hb⟩ := List.filterMap_eq_cons_iff.1 hab.symm
  obtain ⟨l₃, y, l₄, rfl, -, hy, -⟩ := List.filterMap_eq_cons_iff.1 hb
  refine ⟨x, y, List.Sublist.trans ?_ hl', hx, hy⟩
  refine (List.Sublist.cons_cons x ?_).trans (List.sublist_append_right l₁ _)
  exact (List.Sublist.cons_cons y (List.nil_sublist l₄)).trans (List.sublist_append_right l₃ _)

theorem handshake_orders (i : ℕ) (ch : Channel) :
    Handshake.Orders (sq.cycles i ch)
      fun a b => sq.Edge (sq.accessNode i ch a) (sq.accessNode i ch b) where
  request := fun a b hab => by
    rw [← requests_script] at hab
    obtain ⟨x, y, hxy, hx, hy⟩ := exists_pair_of_filterMap hab
    rw [Channel.asRequest_eq_some] at hx hy
    exact .program (hx ▸ hy ▸ hxy)
  response := fun a b hab => by
    rw [← responses_script] at hab
    obtain ⟨x, y, hxy, hx, hy⟩ := exists_pair_of_filterMap hab
    rw [Channel.asResponse_eq_some] at hx hy
    exact .program (hx ▸ hy ▸ hxy)
  raiseRequest := fun _ hl => .request i ch hl
  raiseAnswer := fun _ hl => .answer i ch hl

/-- Every access to a signal is an access of a handshake. -/
theorem exists_accessNode {θ : Thread} {e : Event} {σ : Signal} {i : ℕ}
    (he : e ∈ sq.script θ)
    (hop : e.op = .wait σ i ∨ e.op = .reset σ i ∨ e.op = .load σ i ∨ e.op = .store σ i) :
    ∃ a ∈ conversation (sq.cycles i (.ofSignal σ)), (θ, e) = sq.accessNode i (.ofSignal σ) a := by
  have hrequest : ∀ r, (Channel.ofSignal σ).asRequest i e = some r →
      ∃ a ∈ conversation (sq.cycles i (.ofSignal σ)), (θ, e) = sq.accessNode i (.ofSignal σ) a := by
    intro r hr
    refine ⟨.inl r, inl_mem_conversation.2 ?_, ?_⟩
    · rw [← requests_script, ← eq_requester he hr]
      exact List.mem_filterMap.2 ⟨e, he, hr⟩
    · rw [accessNode, ← eq_requester he hr, ← Channel.asRequest_eq_some.1 hr]
  have hresponse : ∀ r, (Channel.ofSignal σ).asResponse i e = some r →
      ∃ a ∈ conversation (sq.cycles i (.ofSignal σ)), (θ, e) = sq.accessNode i (.ofSignal σ) a := by
    intro r hr
    refine ⟨.inr r, inr_mem_conversation.2 ?_, ?_⟩
    · rw [← responses_script, ← eq_responder he hr]
      exact List.mem_filterMap.2 ⟨e, he, hr⟩
    · rw [accessNode, ← eq_responder he hr, ← Channel.asResponse_eq_some.1 hr]
  obtain ⟨op, j, k⟩ := e
  rcases hop with h | h | h | h <;> obtain rfl := h <;> cases σ <;>
    first
    | exact hrequest _ (if_pos ⟨rfl, rfl⟩)
    | exact hresponse _ (if_pos ⟨rfl, rfl⟩)

theorem accessNode_mem {i : ℕ} {ch : Channel} {a : Request (ℕ × ℕ) ⊕ Response (ℕ × ℕ)}
    (ha : a ∈ conversation (sq.cycles i ch)) :
    (sq.accessNode i ch a).2 ∈ sq.script (sq.accessNode i ch a).1 := by
  cases a with
  | inl r =>
      rw [inl_mem_conversation, ← requests_script, List.mem_filterMap] at ha
      obtain ⟨e, he, hr⟩ := ha
      rwa [accessNode, ← Channel.asRequest_eq_some.1 hr]
  | inr r =>
      rw [inr_mem_conversation, ← responses_script, List.mem_filterMap] at ha
      obtain ⟨e, he, hr⟩ := ha
      rwa [accessNode, ← Channel.asResponse_eq_some.1 hr]

theorem pair_asymm {X : Type*} {l : List X} (hl : l.Nodup) {x y : X}
    (hxy : [x, y].Sublist l) : ¬ [y, x].Sublist l := by
  classical
  have hidx : l.Pairwise fun a b => l.idxOf a < l.idxOf b := by
    rw [List.pairwise_iff_getElem]
    intro i j hi hj hij
    rwa [hl.idxOf_getElem, hl.idxOf_getElem]
  intro hyx
  have h := List.pairwise_pair.1 (hidx.sublist hxy)
  have h' := List.pairwise_pair.1 (hidx.sublist hyx)
  omega

theorem pair_of_mem {X : Type*} {l : List X} {x y : X} (hx : x ∈ l) (hy : y ∈ l)
    (hne : x ≠ y) : [x, y].Sublist l ∨ [y, x].Sublist l := by
  obtain ⟨l₁, l₂, rfl⟩ := List.append_of_mem hx
  rcases List.mem_append.1 hy with hy | hy
  · refine .inr ((List.singleton_sublist.2 hy).append ?_)
    exact List.singleton_sublist.2 List.mem_cons_self
  · have hy' : y ∈ l₂ := (List.mem_cons.1 hy).resolve_left (Ne.symm hne)
    refine .inl (List.Sublist.trans ?_ (List.sublist_append_right l₁ _))
    exact (List.singleton_sublist.2 hy').cons_cons x

theorem pair_of_before {θ : Thread} {e e' : Event} (he : e ∈ sq.script θ)
    (he' : e' ∈ sq.script θ) (h : sq.before e e') : [e, e'].Sublist (sq.script θ) := by
  refine (pair_of_mem he he' ?_).resolve_right fun hpair => ?_
  · rintro rfl
    exact not_before_self _ h
  · exact List.pairwise_pair.1 ((script_sorted θ).sublist hpair) h

def eventsOf (θ : Thread) (etr : List Node) : List Event :=
  (etr.filter fun x => x.1 = θ).map Prod.snd

theorem mem_eventsOf {θ : Thread} {e : Event} {etr : List Node} :
    e ∈ eventsOf θ etr ↔ (θ, e) ∈ etr := by
  simp [eventsOf]

theorem eventsOf_append_singleton (θ : Thread) (x : Node) (etr : List Node) :
    eventsOf θ (etr ++ [x]) = eventsOf θ etr ++ if x.1 = θ then [x.2] else [] := by
  by_cases h : x.1 = θ <;> simp [eventsOf, h]

variable (sq) in
/-- The trace performs the events of a history, which are those that are not
pending, and the history respects the edges. -/
structure Performed (tr : List (Thread × Op)) (rem : Thread → List Event)
    (etr : List Node) : Prop where
  steps : etr.map Node.step = tr
  script : ∀ θ, sq.script θ = eventsOf θ etr ++ rem θ
  causal : Causal sq.Edge etr

variable {s s' : State V} {rem rem' : Thread → List Event} {θ : Thread} {e : Event}
  {ops : List Op} {etr : List Node} {tr : List (Thread × Op)}

theorem Performed.nodup (h : sq.Performed tr rem etr) : etr.Nodup := by
  rw [List.nodup_iff_count_le_one]
  rintro ⟨θ, e⟩
  have hnodup : (eventsOf θ etr).Nodup := (h.script θ ▸ script_nodup θ).of_append_left
  have hcount : etr.count (θ, e) = (eventsOf θ etr).count e := by
    rw [eventsOf, List.count_eq_countP, List.count_eq_countP, List.countP_map,
      List.countP_filter]
    refine List.countP_congr fun x _ => ?_
    obtain ⟨θ', e'⟩ := x
    simp [and_comm]
  rw [hcount]
  exact List.nodup_iff_count_le_one.1 hnodup e

theorem parentThread_ne (i : ℕ) : sq.parentThread i ≠ .worker i := by
  rcases Nat.eq_zero_or_pos i with rfl | hi
  · rw [parentThread_zero]
    exact Thread.noConfusion
  · rw [parentThread_of_pos hi]
    have hlt := sq.parent_lt hi
    intro h
    injection h
    omega

theorem Edge.ne {x y : Node} (h : sq.Edge x y) : x ≠ y := by
  cases h with
  | program hpair =>
      rintro ⟨⟩
      exact pair_asymm (script_nodup _) hpair hpair
  | request i ch hl => exact fun h => by simp [accessNode, Channel.requestEvent,
      Channel.responseEvent] at h
  | answer i ch hl => exact fun h => by simp [accessNode, Channel.requestEvent,
      Channel.responseEvent] at h
  | fork hfork he => exact fun h => parentThread_ne _ (Prod.mk.inj h).1
  | join hjoin he => exact fun h => parentThread_ne _ (Prod.mk.inj h).1.symm

theorem Edge.mem_script {x y : Node} (h : sq.Edge x y) : x.2 ∈ sq.script x.1 := by
  cases h with
  | program hpair => exact hpair.subset (by simp)
  | request i ch hl =>
      exact accessNode_mem (inl_mem_conversation.2 (mem_requests_raiseRequest.2 hl))
  | answer i ch hl =>
      exact accessNode_mem (inr_mem_conversation.2 (mem_responses_raiseAnswer.2 hl))
  | fork hfork he => exact hfork
  | join hjoin he => exact he

/-- What an event that is taken depends on has been taken before. -/
theorem Advance.not_mem_of_edge (a : sq.Advance s s' rem rem' θ e ops) (h : sq.Inv s rem)
    (h' : sq.Inv s' rem') {x : Node} (hx : sq.Edge x (θ, e)) : x.2 ∉ rem' x.1 := by
  have htaken : e ∉ rem' θ := fun hmem => ((a.mem_iff h.toControl).1 hmem).2 ⟨rfl, rfl⟩
  generalize hy : (θ, e) = y at hx
  cases hx with
  | @program θ' e' e'' hpair =>
      obtain ⟨rfl, rfl⟩ := Prod.mk.inj hy
      intro hmem
      -- the rest of the script starts with `e`
      refine pair_asymm (script_nodup _) hpair ?_
      refine List.Sublist.trans ?_ (h.suffix θ).sublist
      rw [a.rem_eq]
      exact (List.singleton_sublist.2 hmem).cons_cons e
  | request i ch hl =>
      obtain ⟨rfl, rfl⟩ := Prod.mk.inj hy
      exact fun hmem => htaken (h'.await_request ch hmem)
  | answer i ch hl =>
      obtain ⟨rfl, rfl⟩ := Prod.mk.inj hy
      exact fun hmem => htaken (h'.await_answer ch hmem)
  | @fork i j e' hfork he =>
      obtain ⟨rfl, rfl⟩ := Prod.mk.inj hy
      exact fun hmem => a.born i rfl ⟨j, a.mem_rem_of_mem hmem⟩
  | @join i j e' hjoin he =>
      obtain ⟨rfl, rfl⟩ := Prod.mk.inj hy
      have hexited := h'.joined i j hjoin htaken
      obtain ⟨-, hrequested, hrun, -⟩ := parentThread_of_join hjoin
      intro hmem
      by_cases hne : e' = ⟨.exit i, j, 0⟩
      · exact hexited (hne ▸ hmem)
      · refine hexited (h'.mem_of_before hmem (mem_script_worker.2 ⟨hrun, rfl, hrequested, rfl⟩) ?_)
        exact before_exit he hrequested (sq.mem_runs.1 hrun).1 hne

theorem Performed.advance (hp : sq.Performed tr rem etr)
    (a : sq.Advance s s' rem rem' θ e ops) (h : sq.Inv s rem) :
    sq.Performed (tr ++ [(θ, e.op)]) rem' (etr ++ [(θ, e)]) := by
  have hscript : ∀ θ', sq.script θ' = eventsOf θ' (etr ++ [(θ, e)]) ++ rem' θ' := by
    intro θ'
    rw [eventsOf_append_singleton, hp.script θ']
    by_cases hθ : θ = θ'
    · subst hθ
      simp [a.rem_eq]
    · simp [hθ, a.frame θ' (Ne.symm hθ)]
  refine ⟨by simp [hp.steps, Node.step], hscript, hp.causal.concat fun x hx => ?_⟩
  have hmem := hx.mem_script
  rw [hscript x.1, List.mem_append] at hmem
  have hdone := mem_eventsOf.1 (hmem.resolve_right (a.not_mem_of_edge h (a.inv h) hx))
  exact (List.mem_append.1 hdone).resolve_right fun h => hx.ne (List.mem_singleton.1 h)

/-- Every execution performs the events of a history that respects the edges. -/
theorem exec_performed (h : Exec sq.toConfig tr s) :
    ∃ rem etr, sq.Inv s rem ∧ sq.Performed tr rem etr := by
  induction h with
  | initial => exact ⟨sq.script, [], Inv.initial, rfl, fun θ => rfl, Causal.nil⟩
  | @step tr s s' θ op ops _ hcode hnext ih =>
      obtain ⟨rem, etr, hinv, hp⟩ := ih
      obtain ⟨rem', e, rfl, a⟩ := hinv.exists_advance hcode hnext
      exact ⟨rem', etr ++ [(θ, e)], a.inv hinv, hp.advance a hinv⟩

end Squad

end Patton.ThreadSquad
