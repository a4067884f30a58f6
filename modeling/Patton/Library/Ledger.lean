import Mathlib

/-!
# A ledger of resources

A program acquires and releases resources. The ledger is the multiset of what has been
acquired and not been released; nothing is released which is not on it. What is not
touched by a list of events can be added to the ledger.
-/

namespace Ledger

variable {τ : Type*}

inductive Event (τ : Type*)
  | acquire (t : τ)
  | release (t : τ)
  deriving DecidableEq

variable [DecidableEq τ]

/-- The ledger after one event, if this is allowed. -/
def step (m : Multiset τ) : Event τ → Option (Multiset τ)
  | .acquire t => some (t ::ₘ m)
  | .release t => if t ∈ m then some (m.erase t) else none

def run (m : Multiset τ) (events : List (Event τ)) : Option (Multiset τ) := events.foldlM step m

variable {m m' f : Multiset τ} {t : τ} {es es' : List (Event τ)}

@[simp] theorem run_nil (m : Multiset τ) : run m [] = some m := rfl

theorem run_cons (m : Multiset τ) (e : Event τ) (es : List (Event τ)) :
    run m (e :: es) = (step m e).bind fun m' => run m' es := rfl

@[simp] theorem run_acquire (m : Multiset τ) (t : τ) (es : List (Event τ)) :
    run m (.acquire t :: es) = run (t ::ₘ m) es := rfl

theorem run_append (m : Multiset τ) (es es' : List (Event τ)) :
    run m (es ++ es') = (run m es).bind fun m' => run m' es' := by
  induction es generalizing m with
  | nil => rfl
  | cons e es ih =>
      rw [List.cons_append, run_cons, run_cons]
      cases step m e with
      | none => rfl
      | some m' => exact ih m'

theorem run_append_of_eq (h : run m es = some m') : run m (es ++ es') = run m' es' := by
  rw [run_append, h, Option.bind_some]

theorem run_map_acquire (m : Multiset τ) (l : List τ) :
    run m (l.map .acquire) = some (↑l + m) := by
  induction l generalizing m with
  | nil => simp
  | cons t l ih =>
      rw [List.map_cons, run_acquire, ih, ← Multiset.cons_coe, Multiset.cons_add,
        Multiset.add_cons]

theorem run_release (m : Multiset τ) (t : τ) (es : List (Event τ)) :
    run (t ::ₘ m) (.release t :: es) = run m es := by
  simp [run_cons, step]

/-- What a list releases may stand on the ledger in any order. -/
theorem run_map_release (m : Multiset τ) (l : List τ) :
    run ((l : Multiset τ) + m) (l.map .release) = some m := by
  induction l with
  | nil => simp
  | cons t l ih => rw [List.map_cons, ← Multiset.cons_coe, Multiset.cons_add, run_release, ih]

theorem run_add (f : Multiset τ) (h : run m es = some m') : run (m + f) es = some (m' + f) := by
  induction es generalizing m with
  | nil => cases h; rfl
  | cons e es ih =>
      cases e with
      | acquire t =>
          rw [run_acquire] at h ⊢
          rw [← Multiset.cons_add]
          exact ih h
      | release t =>
          rw [run_cons, step] at h ⊢
          by_cases ht : t ∈ m
          · rw [if_pos ht] at h
            rw [if_pos (Multiset.mem_add.2 (.inl ht)), Multiset.erase_add_left_pos _ ht]
            exact ih h
          · rw [if_neg ht] at h
            cases h

/-- Events which are run on a part of the ledger. -/
theorem run_append_add {m₀ : Multiset τ} (h : run m₀ es = some (m + f))
    (h' : run m es' = some m') : run m₀ (es ++ es') = some (m' + f) := by
  rw [run_append_of_eq h, run_add f h']

def acquired (es : List (Event τ)) (t : τ) : ℕ := es.count (.acquire t)

def released (es : List (Event τ)) (t : τ) : ℕ := es.count (.release t)

/-- The ledger keeps account: what has been acquired is there or has been released. -/
theorem count_add_acquired (h : run m es = some m') (t : τ) :
    m.count t + acquired es t = m'.count t + released es t := by
  induction es generalizing m with
  | nil => cases h; simp [acquired, released]
  | cons e es ih =>
      rw [run_cons] at h
      cases e with
      | acquire u =>
          have hrest := ih h
          rw [Multiset.count_cons] at hrest
          rw [acquired, released, List.count_cons, List.count_cons] at *
          by_cases hut : t = u
          · subst hut
            simp only [if_true, beq_self_eq_true, beq_iff_eq, reduceCtorEq, if_false] at *
            omega
          · have hne : ¬ u = t := fun h => hut h.symm
            simp only [hut, hne, if_false, beq_iff_eq, Event.acquire.injEq, reduceCtorEq] at *
            omega
      | release u =>
          by_cases hu : u ∈ m
          · rw [step, if_pos hu, Option.bind_some] at h
            have hrest := ih h
            rw [acquired, released, List.count_cons, List.count_cons] at *
            by_cases hut : t = u
            · subst hut
              have hpos := Multiset.count_pos.2 hu
              rw [Multiset.count_erase_self] at hrest
              simp only [if_true, beq_self_eq_true, beq_iff_eq, reduceCtorEq, if_false] at *
              omega
            · have hne : ¬ u = t := fun h => hut h.symm
              rw [Multiset.count_erase_of_ne hut] at hrest
              simp only [hne, if_false, beq_iff_eq, Event.release.injEq, reduceCtorEq] at *
              omega
          · rw [step, if_neg hu] at h
            cases h

end Ledger
