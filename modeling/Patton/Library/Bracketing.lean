import Mathlib

/-!
# Bracketings of an ordered fold

A fold of the values `v a₁, v a₂, …` with a binary operation is an expression
tree: an element of the free magma over the indices. Evaluating it needs no law
of the operation; for an associative operation only the order of the leaves
counts.
-/

namespace Bracketing

variable {α β V : Type*}

def eval (op : V → V → V) (v : α → V) : FreeMagma α → V
  | .of a => v a
  | .mul x y => op (eval op v x) (eval op v y)

def leaves : FreeMagma α → List α
  | .of a => [a]
  | .mul x y => leaves x ++ leaves y

@[simp] theorem eval_of (op : V → V → V) (v : α → V) (a : α) : eval op v (.of a) = v a := rfl

@[simp] theorem eval_mul (op : V → V → V) (v : α → V) (x y : FreeMagma α) :
    eval op v (x * y) = op (eval op v x) (eval op v y) := rfl

@[simp] theorem leaves_of (a : α) : leaves (.of a) = [a] := rfl

@[simp] theorem leaves_mul (x y : FreeMagma α) : leaves (x * y) = leaves x ++ leaves y := rfl

/-- Only the values of the leaves count. -/
theorem eval_congr (op : V → V → V) {v v' : α → V} {x : FreeMagma α}
    (h : ∀ a ∈ leaves x, v a = v' a) : eval op v x = eval op v' x := by
  induction x with
  | ih1 a => exact h a (by simp)
  | ih2 x y ihx ihy =>
      rw [eval_mul, eval_mul, ihx fun a ha => h a (by simp [ha]),
        ihy fun a ha => h a (by simp [ha])]

def orderedFold (op : V → V → V) (v : α → V) : List α → Option V
  | [] => none
  | a :: l => some ((l.map v).foldl op (v a))

theorem orderedFold_append (op : V → V → V) [Std.Associative op] (v : α → V) {l l' : List α}
    {x y : V} (hx : orderedFold op v l = some x) (hy : orderedFold op v l' = some y) :
    orderedFold op v (l ++ l') = some (op x y) := by
  cases l with
  | nil => cases hx
  | cons a l =>
      cases l' with
      | nil => cases hy
      | cons b l' =>
          cases hx
          cases hy
          rw [List.cons_append, orderedFold, List.map_append, List.foldl_append, List.map_cons,
            List.foldl_cons, List.foldl_assoc]

/-- A fold which starts with `init` appends the ordered fold to it. -/
theorem foldl_eq_of_orderedFold (op : V → V → V) [Std.Associative op] (v : α → V) {l : List α}
    {x : V} (h : orderedFold op v l = some x) (init : V) : (l.map v).foldl op init = op init x := by
  cases l with
  | nil => cases h
  | cons a l =>
      cases h
      rw [List.map_cons, List.foldl_cons, List.foldl_assoc]

/-- For an associative operation, the value is the ordered fold of the leaves. -/
theorem orderedFold_leaves (op : V → V → V) [Std.Associative op] (v : α → V)
    (x : FreeMagma α) : orderedFold op v (leaves x) = some (eval op v x) := by
  induction x with
  | ih1 a => rfl
  | ih2 x y ihx ihy => exact orderedFold_append op v ihx ihy

/-- The tree which starts with `x` and appends the trees of a list one by one. -/
def gather (f : β → FreeMagma α) (x : FreeMagma α) (l : List β) : FreeMagma α :=
  l.foldl (fun acc b => acc * f b) x

theorem gather_append_singleton (f : β → FreeMagma α) (x : FreeMagma α) (l : List β) (b : β) :
    gather f x (l ++ [b]) = gather f x l * f b := by
  rw [gather, List.foldl_append]
  rfl

theorem leaves_gather (f : β → FreeMagma α) (x : FreeMagma α) (l : List β) :
    leaves (gather f x l) = leaves x ++ l.flatMap fun b => leaves (f b) := by
  induction l generalizing x with
  | nil => simp [gather]
  | cons b l ih =>
      have hstep : gather f x (b :: l) = gather f (x * f b) l := rfl
      rw [hstep, ih, leaves_mul, List.flatMap_cons, List.append_assoc]

end Bracketing
