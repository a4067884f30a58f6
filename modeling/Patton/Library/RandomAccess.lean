import Mathlib

/-!
# Random access

An algorithm moves cursors over a sequence, compares them and looks at elements, and what it
does next depends on what it has seen. If the cursors of one kind stand for those of another
kind and show the same, then no algorithm makes a difference between them.
-/

namespace RandomAccess

inductive Move
  | inc
  | dec
  | add (d : ℤ)
  | sub (d : ℤ)

def Move.amount : Move → ℤ
  | .inc => 1
  | .dec => -1
  | .add d => d
  | .sub d => -d

/-- What can be done with cursors. They do not always show something. -/
structure Cursors (I ε : Type*) where
  move : Move → I → I
  equal : I → I → Option Bool
  less : I → I → Option Bool
  difference : I → I → Option ℤ
  deref : I → Option ε
  subscript : I → ℤ → Option ε

/-- An algorithm, with its cursors in registers -/
inductive Algorithm (ε α : Type*)
  | ret (a : α)
  | move (r : ℕ) (m : Move) (rest : Algorithm ε α)
  | copy (r r' : ℕ) (rest : Algorithm ε α)
  | equal (r r' : ℕ) (next : Bool → Algorithm ε α)
  | less (r r' : ℕ) (next : Bool → Algorithm ε α)
  | difference (r r' : ℕ) (next : ℤ → Algorithm ε α)
  | deref (r : ℕ) (next : ε → Algorithm ε α)
  | subscript (r : ℕ) (d : ℤ) (next : ε → Algorithm ε α)

variable {I J ε α : Type*}

/-- The result of an algorithm, if the cursors show all that it wants to see. -/
def Cursors.eval (c : Cursors I ε) : Algorithm ε α → (ℕ → I) → Option α
  | .ret a, _ => some a
  | .move r m rest, s => c.eval rest (Function.update s r (c.move m (s r)))
  | .copy r r' rest, s => c.eval rest (Function.update s r (s r'))
  | .equal r r' next, s => (c.equal (s r) (s r')).bind fun b => c.eval (next b) s
  | .less r r' next, s => (c.less (s r) (s r')).bind fun b => c.eval (next b) s
  | .difference r r' next, s => (c.difference (s r) (s r')).bind fun d => c.eval (next d) s
  | .deref r next, s => (c.deref (s r)).bind fun e => c.eval (next e) s
  | .subscript r d next, s => (c.subscript (s r) d).bind fun e => c.eval (next e) s

/-- What cursors show, those show which stand for them. -/
structure Represents (c : Cursors I ε) (c' : Cursors J ε) (R : I → J → Prop) : Prop where
  move : ∀ m i j, R i j → R (c.move m i) (c'.move m j)
  equal : ∀ i j i' j' b, R i j → R i' j' → c.equal i i' = some b → c'.equal j j' = some b
  less : ∀ i j i' j' b, R i j → R i' j' → c.less i i' = some b → c'.less j j' = some b
  difference : ∀ i j i' j' d, R i j → R i' j' → c.difference i i' = some d →
    c'.difference j j' = some d
  deref : ∀ i j e, R i j → c.deref i = some e → c'.deref j = some e
  subscript : ∀ i j d e, R i j → c.subscript i d = some e → c'.subscript j d = some e

variable {c : Cursors I ε} {c' : Cursors J ε} {R : I → J → Prop} {s : ℕ → I} {t : ℕ → J} {a : α}

theorem update_represents (hst : ∀ r, R (s r) (t r)) {i : I} {j : J} (hij : R i j) (r : ℕ) :
    ∀ r', R (Function.update s r i r') (Function.update t r j r') := by
  intro r'
  by_cases hr : r' = r
  · subst hr
    rwa [Function.update_self, Function.update_self]
  · rw [Function.update_of_ne hr, Function.update_of_ne hr]
    exact hst r'

/-- No algorithm makes a difference between cursors and those that stand for them. -/
theorem Represents.eval (h : Represents c c' R) (p : Algorithm ε α)
    (hst : ∀ r, R (s r) (t r)) (heval : c.eval p s = some a) : c'.eval p t = some a := by
  induction p generalizing s t with
  | ret b => exact heval
  | move r m rest ih => exact ih (update_represents hst (h.move m _ _ (hst r)) r) heval
  | copy r r' rest ih => exact ih (update_represents hst (hst r') r) heval
  | equal r r' next ih =>
      obtain ⟨b, hb, hrest⟩ := Option.bind_eq_some_iff.1 heval
      exact Option.bind_eq_some_iff.2 ⟨b, h.equal _ _ _ _ b (hst r) (hst r') hb, ih b hst hrest⟩
  | less r r' next ih =>
      obtain ⟨b, hb, hrest⟩ := Option.bind_eq_some_iff.1 heval
      exact Option.bind_eq_some_iff.2 ⟨b, h.less _ _ _ _ b (hst r) (hst r') hb, ih b hst hrest⟩
  | difference r r' next ih =>
      obtain ⟨d, hd, hrest⟩ := Option.bind_eq_some_iff.1 heval
      exact Option.bind_eq_some_iff.2
        ⟨d, h.difference _ _ _ _ d (hst r) (hst r') hd, ih d hst hrest⟩
  | deref r next ih =>
      obtain ⟨e, he, hrest⟩ := Option.bind_eq_some_iff.1 heval
      exact Option.bind_eq_some_iff.2 ⟨e, h.deref _ _ e (hst r) he, ih e hst hrest⟩
  | subscript r d next ih =>
      obtain ⟨e, he, hrest⟩ := Option.bind_eq_some_iff.1 heval
      exact Option.bind_eq_some_iff.2 ⟨e, h.subscript _ _ d e (hst r) he, ih e hst hrest⟩

/-- The cursors of a sequence: positions which may be anywhere, but are only looked at from
the first element to the end, and have an element before the end. -/
def positions (size : ℕ) (elem : ℕ → ε) : Cursors ℤ ε where
  move m i := i + m.amount
  equal i j := if (0 ≤ i ∧ i ≤ size) ∧ 0 ≤ j ∧ j ≤ size then some (i = j) else none
  less i j := if (0 ≤ i ∧ i ≤ size) ∧ 0 ≤ j ∧ j ≤ size then some (i < j) else none
  difference i j := if (0 ≤ i ∧ i ≤ size) ∧ 0 ≤ j ∧ j ≤ size then some (i - j) else none
  deref i := if 0 ≤ i ∧ i < size then some (elem i.toNat) else none
  subscript i d := if 0 ≤ i + d ∧ i + d < size then some (elem (i + d).toNat) else none

section

variable {size : ℕ} {elem : ℕ → ε} {i j d : ℤ} {b : Bool} {e : ε}

theorem positions_equal_eq_some : (positions size elem).equal i j = some b ↔
    ((0 ≤ i ∧ i ≤ size) ∧ 0 ≤ j ∧ j ≤ size) ∧ decide (i = j) = b := by
  simp [positions]

theorem positions_less_eq_some : (positions size elem).less i j = some b ↔
    ((0 ≤ i ∧ i ≤ size) ∧ 0 ≤ j ∧ j ≤ size) ∧ decide (i < j) = b := by
  simp [positions]

theorem positions_difference_eq_some : (positions size elem).difference i j = some d ↔
    ((0 ≤ i ∧ i ≤ size) ∧ 0 ≤ j ∧ j ≤ size) ∧ i - j = d := by
  simp [positions]

theorem positions_deref_eq_some : (positions size elem).deref i = some e ↔
    (0 ≤ i ∧ i < size) ∧ elem i.toNat = e := by
  simp [positions]

theorem positions_subscript_eq_some : (positions size elem).subscript i d = some e ↔
    (0 ≤ i + d ∧ i + d < size) ∧ elem (i + d).toNat = e := by
  simp [positions]

end

/-- The first position in all registers but one, in which the end is. -/
def bounds (first last : I) : ℕ → I := Function.update (fun _ => first) 1 last

/-- `for (; it != end; ++it)`, with at most `n` iterations: the elements that are visited -/
def forEach : ℕ → List ε → Algorithm ε (Option (List ε))
  | 0, _ => .ret none
  | n + 1, visited => .equal 0 1 fun b =>
      if b then .ret (some visited)
      else .deref 0 fun e => .move 0 .inc (forEach n (visited ++ [e]))

/-- From a position on, the loop visits the elements that follow, one after the other. -/
theorem eval_forEach_from {size : ℕ} {elem : ℕ → ε} (m i : ℕ) (hm : i + m = size)
    (visited : List ε) {s : ℕ → ℤ} (h₀ : s 0 = i) (h₁ : s 1 = size) :
    (positions size elem).eval (forEach (m + 1) visited) s =
      some (some (visited ++ (List.range' i m).map elem)) := by
  induction m generalizing i visited s with
  | zero =>
      have heq : (positions size elem).equal (s 0) (s 1) = some true := by
        rw [positions_equal_eq_some, h₀, h₁]
        exact ⟨by omega, decide_eq_true (by omega)⟩
      rw [forEach, Cursors.eval, heq]
      simp [Cursors.eval]
  | succ m ih =>
      have hne : (positions size elem).equal (s 0) (s 1) = some false := by
        rw [positions_equal_eq_some, h₀, h₁]
        exact ⟨by omega, decide_eq_false (by omega)⟩
      have hderef : (positions size elem).deref (s 0) = some (elem i) := by
        rw [positions_deref_eq_some, h₀]
        exact ⟨by omega, congrArg elem (Int.toNat_natCast i)⟩
      rw [forEach, Cursors.eval, hne, Option.bind_some, if_neg Bool.false_ne_true, Cursors.eval,
        hderef, Option.bind_some, Cursors.eval, ih (i + 1) (by omega)]
      · rw [List.range'_succ, List.map_cons, List.append_assoc, List.singleton_append]
      · rw [Function.update_self, h₀]
        rfl
      · rw [Function.update_of_ne Nat.one_ne_zero, h₁]

theorem eval_forEach (size : ℕ) (elem : ℕ → ε) :
    (positions size elem).eval (forEach (size + 1) []) (bounds 0 (size : ℤ)) =
      some (some ((List.range size).map elem)) := by
  have hfirst : bounds 0 (size : ℤ) 0 = (0 : ℕ) := rfl
  have hlast : bounds 0 (size : ℤ) 1 = size := Function.update_self ..
  rw [eval_forEach_from size 0 (Nat.zero_add size) [] hfirst hlast, List.range_eq_range',
    List.nil_append]

end RandomAccess
