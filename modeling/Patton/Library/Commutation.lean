import Patton.Library.HappensBefore

/-!
# Runs that do not depend on the schedule

A deterministic system takes labelled steps. Suppose that the labels of a run are
distinct and respect the edges of a causality relation, and that two successive
steps which no edges connect can be taken in the other order with the same outcome.
Then a run is determined by the labels it consists of: two runs with the same labels
in any two orders lead to the same state.
-/

namespace Causality

variable {S X : Type*}

inductive Run (next : S → X → S → Prop) (s₀ : S) : List X → S → Prop
  | nil : Run next s₀ [] s₀
  | concat {l : List X} {s s' : S} {x : X} :
      Run next s₀ l s → next s x s' → Run next s₀ (l ++ [x]) s'

variable {next : S → X → S → Prop} {s₀ s s' : S} {l l' m : List X} {x : X}

theorem Run.of_concat (h : Run next s₀ (l ++ [x]) s') :
    ∃ s, Run next s₀ l s ∧ next s x s' := by
  generalize hl : l ++ [x] = l' at h
  cases h with
  | nil => simp at hl
  | concat h hnext =>
      obtain ⟨rfl, hlast⟩ := List.append_inj' hl rfl
      obtain rfl := List.singleton_inj.1 hlast
      exact ⟨_, h, hnext⟩

theorem Run.of_append (h : Run next s₀ (l ++ m) s') :
    ∃ s, Run next s₀ l s ∧ Run next s m s' := by
  induction m using List.reverseRecOn generalizing s' with
  | nil => exact ⟨s', by simpa using h, .nil⟩
  | append_singleton m x ih =>
      rw [← List.append_assoc] at h
      obtain ⟨s₁, h₁, hnext⟩ := h.of_concat
      obtain ⟨s, hl, hm⟩ := ih h₁
      exact ⟨s, hl, hm.concat hnext⟩

theorem Run.append (h : Run next s₀ l s) (h' : Run next s m s') :
    Run next s₀ (l ++ m) s' := by
  induction h' with
  | nil => simpa using h
  | concat _ hnext ih =>
      rw [← List.append_assoc]
      exact ih.concat hnext

theorem Run.single (h : next s x s') : Run next s [x] s' := Run.concat .nil h

def Deterministic (next : S → X → S → Prop) : Prop :=
  ∀ s x s₁ s₂, next s x s₁ → next s x s₂ → s₁ = s₂

/-- What the runs of a system with a causality relation satisfy. -/
structure Commuting (edge : X → X → Prop) (next : S → X → S → Prop) (s₀ : S) : Prop where
  deterministic : Deterministic next
  nodup : ∀ {l s}, Run next s₀ l s → l.Nodup
  causal : ∀ {l s}, Run next s₀ l s → Causal edge l
  swap : ∀ {l s x s₁ y s₂}, Run next s₀ l s → next s x s₁ → next s₁ y s₂ →
    ¬ Relation.TransGen edge x y → ∃ s₁', next s y s₁' ∧ next s₁' x s₂

variable {edge : X → X → Prop}

/-- A step can be postponed behind steps that do not depend on it. -/
theorem Commuting.postpone (hc : Commuting edge next s₀)
    (hm : ∀ y ∈ m, ¬ Relation.TransGen edge x y) (h : Run next s₀ (l ++ x :: m) s) :
    Run next s₀ (l ++ m ++ [x]) s := by
  induction m generalizing l with
  | nil => simpa using h
  | cons y m ih =>
      have hsplit : l ++ x :: y :: m = (l ++ [x]) ++ [y] ++ m := by simp
      rw [hsplit] at h
      obtain ⟨s₂, h₂, hrest⟩ := h.of_append
      obtain ⟨s₁, h₁, hy⟩ := h₂.of_concat
      obtain ⟨s₁', hl, hx⟩ := h₁.of_concat
      obtain ⟨s₃, hy', hx'⟩ := hc.swap hl hx hy (hm y List.mem_cons_self)
      have hswapped : Run next s₀ ((l ++ [y]) ++ x :: m) s := by
        have := ((hl.concat hy').concat hx').append hrest
        simpa using this
      have := ih (fun z hz => hm z (List.mem_cons_of_mem y hz)) hswapped
      simpa using this

/-- Two runs with the same steps lead to the same state. -/
theorem Commuting.eq_of_perm (hc : Commuting edge next s₀) (h : Run next s₀ l s)
    (h' : Run next s₀ l' s') (hperm : l.Perm l') : s = s' := by
  induction h generalizing l' s' with
  | nil =>
      obtain rfl := List.nil_perm.1 hperm
      generalize hl : ([] : List X) = l' at h'
      cases h' with
      | nil => rfl
      | concat => simp at hl
  | @concat l s s₁ x hl hnext ih =>
      have hmem : x ∈ l' := hperm.subset (by simp)
      obtain ⟨m, m', rfl⟩ := List.append_of_mem hmem
      have hrest : l.Perm (m ++ m') := by
        refine (List.perm_cons x).1 (((List.perm_append_singleton x l).symm.trans hperm).trans ?_)
        exact List.perm_middle
      -- in the first run, the step is the last one
      have hlater : ∀ y ∈ m', ¬ Relation.TransGen edge x y := by
        intro y hy hxy
        have hyl : y ∈ l := hrest.symm.subset (List.mem_append_right m hy)
        obtain ⟨l₁, l₂, rfl⟩ := List.append_of_mem hyl
        have hx := (hc.causal hl).mem_of_transGen rfl hxy
        have hnodup := hc.nodup (hl.concat hnext)
        refine (List.nodup_append.1 hnodup).2.2 x (List.mem_append_left _ hx) x ?_ rfl
        simp
      obtain ⟨s₂, h₂, hnext'⟩ := (hc.postpone hlater h').of_concat
      obtain rfl := ih h₂ hrest
      exact hc.deterministic _ _ _ _ hnext hnext'

end Causality
