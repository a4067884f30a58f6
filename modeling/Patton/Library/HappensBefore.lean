import Mathlib

/-!
# Happens-before

The steps of an execution are totally ordered by its trace, but the threads can
only rely on the order which synchronization gives them. `Synchronizes` relates
two steps of a trace if they are steps of one thread, if the later one acquires a
flag and reads the value which the earlier one released, or if one of them forks
or joins the thread of the other. `HappensBefore` is its transitive closure.

What a program guarantees is usually argued for the events of the program and not
for the positions of a trace: `edge` relates two events if the first one must be
over before the second one can take place. A history is `Causal` if it respects
the edges, and in a causal history two events that are connected by edges occur in
the order of the edges.
-/

namespace Causality

section Traces

variable {T A F : Type*}

/-- What the actions of threads `T` do with flags `F` and with other threads. -/
structure Actions (T A F : Type*) where
  releases : A → F → Prop
  acquires : A → F → Prop
  writes : A → F → Prop
  forks : A → T → Prop
  joins : A → T → Prop

/-- Step `p` of the trace synchronizes with the later step `q`. -/
inductive Synchronizes (acts : Actions T A F) (tr : List (T × A)) (p q : ℕ) : Prop
  | program {θ : T} {a b : A} : tr[p]? = some (θ, a) → tr[q]? = some (θ, b) →
      Synchronizes acts tr p q
  | flag {θ θ' : T} {a b : A} {f : F} : tr[p]? = some (θ, a) → acts.releases a f →
      tr[q]? = some (θ', b) → acts.acquires b f →
      (∀ r θ'' c, p < r → r < q → tr[r]? = some (θ'', c) → ¬ acts.writes c f) →
      Synchronizes acts tr p q
  | fork {θ θ' : T} {a b : A} : tr[p]? = some (θ, a) → acts.forks a θ' →
      tr[q]? = some (θ', b) → Synchronizes acts tr p q
  | join {θ θ' : T} {a b : A} : tr[p]? = some (θ', a) → tr[q]? = some (θ, b) →
      acts.joins b θ' → Synchronizes acts tr p q

/-- Step `p` of the trace happens before step `q`. -/
def HappensBefore (acts : Actions T A F) (tr : List (T × A)) : ℕ → ℕ → Prop :=
  Relation.TransGen fun p q => p < q ∧ Synchronizes acts tr p q

end Traces

section Histories

variable {X : Type*} {edge : X → X → Prop} {l : List X} {x y : X}

/-- Before an event takes place, everything it depends on is over. -/
def Causal (edge : X → X → Prop) (l : List X) : Prop :=
  ∀ l₁ y l₂, l = l₁ ++ y :: l₂ → ∀ x, edge x y → x ∈ l₁

theorem Causal.nil : Causal edge [] := by
  intro l₁ y l₂ h
  simp at h

theorem Causal.concat (h : Causal edge l) (hy : ∀ x, edge x y → x ∈ l) :
    Causal edge (l ++ [y]) := by
  intro l₁ z l₂ hl x hx
  rcases List.eq_nil_or_concat l₂ with rfl | ⟨l₃, w, rfl⟩
  · obtain ⟨rfl, hlast⟩ := List.append_inj' hl rfl
    rw [← List.singleton_inj.1 hlast] at hx
    exact hy x hx
  · rw [List.concat_eq_append, ← List.cons_append, ← List.append_assoc] at hl
    exact h l₁ z l₃ (List.append_inj' hl rfl).1 x hx

theorem Causal.mem_of_transGen (h : Causal edge l) {l₁ l₂ : List X} (hl : l = l₁ ++ y :: l₂)
    (hxy : Relation.TransGen edge x y) : x ∈ l₁ := by
  induction hxy using Relation.TransGen.head_induction_on with
  | single hx => exact h l₁ y l₂ hl _ hx
  | head hx _ ih =>
      obtain ⟨l₃, l₄, hsplit⟩ := List.append_of_mem ih
      have hmem := h l₃ _ (l₄ ++ y :: l₂) (by rw [hl, hsplit]; simp) _ hx
      rw [hsplit]
      exact List.mem_append_left _ hmem

/-- Events that are connected by edges occur in the order of the edges. -/
theorem Causal.idxOf_lt [BEq X] [LawfulBEq X] (h : Causal edge l) (hy : y ∈ l)
    (hxy : Relation.TransGen edge x y) : x ∈ l ∧ l.idxOf x < l.idxOf y := by
  obtain ⟨l₁, l₂, rfl, hnot⟩ := List.eq_append_cons_of_mem hy
  have hx := h.mem_of_transGen rfl hxy
  refine ⟨List.mem_append_left _ hx, ?_⟩
  rw [List.idxOf_append_of_mem hx, List.idxOf_append_of_notMem hnot, List.idxOf_cons_self]
  exact (List.idxOf_lt_length_of_mem hx).trans_le (Nat.le_add_right _ _)

end Histories

end Causality
