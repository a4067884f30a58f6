import Mathlib

/-!
# Loops that end on an inequality test

The loop `for (i = i₀; i != e; i += d)` over a signed integer type. Its body may leave
the loop, by an exception or a `return`. The loop has no result if its body has none, if
`i` leaves the range of its type, or if it never ends.
-/

namespace ForLoop

variable {σ : Type*}

/-- At most `fuel` iterations of the loop: the state after it is `.ok` if the loop has
run to its end, and `.error` if its body has left it. -/
def forLoop (lo hi : ℤ) (body : ℤ → σ → Option (Except σ σ)) (d e : ℤ) :
    ℕ → ℤ → σ → Option (Except σ σ)
  | 0, _, _ => none
  | fuel + 1, i, s =>
      if i = e then some (.ok s)
      else
        match body i s with
        | some (.ok s) =>
            if lo ≤ i + d ∧ i + d ≤ hi then forLoop lo hi body d e fuel (i + d) s else none
        | r => r

def iterations (body : ℤ → σ → Option (Except σ σ)) (d : ℤ) :
    ℤ → ℕ → σ → Option (Except σ σ)
  | _, 0, s => some (.ok s)
  | i, m + 1, s =>
      match body i s with
      | some (.ok s) => iterations body d (i + d) m s
      | r => r

variable {lo hi d e i : ℤ} {body : ℤ → σ → Option (Except σ σ)} {fuel m k : ℕ} {s s' : σ}
  {r : Except σ σ}

@[simp] theorem iterations_zero : iterations body d i 0 s = some (.ok s) := rfl

theorem iterations_succ_of_ok (h : body i s = some (.ok s')) :
    iterations body d i (m + 1) s = iterations body d (i + d) m s' := by
  rw [iterations, h]

/-- What the first iteration does other than to go on is what the loop does. -/
theorem iterations_succ_of_not_ok (h : ∀ s', body i s ≠ some (.ok s')) :
    iterations body d i (m + 1) s = body i s := by
  rw [iterations]
  split
  · next s' hs' => exact absurd hs' (h s')
  · rfl

/-- The body goes from each state of a sequence to the next. -/
theorem iterations_eq_ok {f : ℕ → σ}
    (h : ∀ k < m, body (i + k * d) (f k) = some (.ok (f (k + 1)))) :
    iterations body d i m (f 0) = some (.ok (f m)) := by
  induction m generalizing i f with
  | zero => rfl
  | succ m ih =>
      have hfirst : body i (f 0) = some (.ok (f 1)) := by simpa using h 0 (by omega)
      rw [iterations_succ_of_ok hfirst]
      refine ih (f := fun k => f (k + 1)) fun k hk => ?_
      have hi : i + d + k * d = i + (k + 1 : ℕ) * d := by
        push_cast
        ring
      rw [hi]
      exact h (k + 1) (by omega)

/-- The body leaves the loop in iteration `k`. -/
theorem iterations_eq_error {f : ℕ → σ} (hkm : k < m)
    (h : ∀ j < k, body (i + j * d) (f j) = some (.ok (f (j + 1))))
    (hk : body (i + k * d) (f k) = some (.error s')) :
    iterations body d i m (f 0) = some (.error s') := by
  induction k generalizing i m f with
  | zero =>
      obtain ⟨m, rfl⟩ : ∃ n, m = n + 1 := ⟨m - 1, by omega⟩
      have hleft : body i (f 0) = some (.error s') := by simpa using hk
      rw [iterations_succ_of_not_ok (by simp [hleft]), hleft]
  | succ k ih =>
      obtain ⟨m, rfl⟩ : ∃ n, m = n + 1 := ⟨m - 1, by omega⟩
      have hi : ∀ j : ℕ, i + d + j * d = i + (j + 1 : ℕ) * d := by
        intro j
        push_cast
        ring
      have hfirst : body i (f 0) = some (.ok (f 1)) := by simpa using h 0 (by omega)
      rw [iterations_succ_of_ok hfirst]
      refine ih (f := fun j => f (j + 1)) (by omega) (fun j hj => ?_) ?_
      · rw [hi]
        exact h (j + 1) (by omega)
      · rw [hi]
        exact hk

/-- A loop which reaches its end after `m` iterations. -/
theorem forLoop_eq_iterations (hd : 0 < d) (he : e = i + m * d) (hlo : lo ≤ i) (hhi : e ≤ hi)
    (hfuel : m < fuel) :
    forLoop lo hi body d e fuel i s = iterations body d i m s := by
  induction m generalizing i s fuel with
  | zero =>
      obtain ⟨fuel, rfl⟩ : ∃ n, fuel = n + 1 := ⟨fuel - 1, by omega⟩
      rw [forLoop, if_pos (by simpa using he.symm), iterations_zero]
  | succ m ih =>
      obtain ⟨fuel, rfl⟩ : ∃ n, fuel = n + 1 := ⟨fuel - 1, by omega⟩
      have hrest : e = i + d + m * d := by
        rw [he]
        push_cast
        ring
      have hpos : 0 ≤ (m : ℤ) * d := by positivity
      rw [forLoop, if_neg (by omega), iterations]
      split
      · rw [if_pos (by omega), ih hrest (by omega) (by omega)]
      · rfl

/-- A loop which is never left by its body ends only at `e`. -/
theorem exists_of_forLoop_eq_some (hbody : ∀ i s, ∃ s', body i s = some (.ok s'))
    (h : forLoop lo hi body d e fuel i s = some r) :
    ∃ m : ℕ, e = i + m * d ∧ iterations body d i m s = some r := by
  induction fuel generalizing i s with
  | zero => cases h
  | succ fuel ih =>
      rw [forLoop] at h
      by_cases hie : i = e
      · rw [if_pos hie] at h
        exact ⟨0, by simp [hie], h⟩
      · obtain ⟨s', hs'⟩ := hbody i s
        rw [if_neg hie, hs'] at h
        dsimp only at h
        split at h
        · obtain ⟨m, he, hr⟩ := ih h
          refine ⟨m + 1, ?_, ?_⟩
          · rw [he]
            push_cast
            ring
          · rw [iterations_succ_of_ok hs', hr]
        · cases h

end ForLoop
