import Mathlib

/-!
# Calls and what they perform

A program is a list of operations. Performing an operation may call others,
which come before the rest of the program. When what an operation calls is given
by a function `expand`, the operations performed by a program are determined by
the program: `Unfolds expand code out` says that running `code` performs `out`.
-/

namespace Calls

variable {O : Type*} {expand : O → List O}

/-- Running the first list performs the second one. -/
inductive Unfolds (expand : O → List O) : List O → List O → Prop
  | nil : Unfolds expand [] []
  | cons {op : O} {ops out : List O} :
      Unfolds expand (expand op ++ ops) out → Unfolds expand (op :: ops) (op :: out)

theorem Unfolds.append {a b x y : List O} (h : Unfolds expand a x) (h' : Unfolds expand b y) :
    Unfolds expand (a ++ b) (x ++ y) := by
  induction h with
  | nil => exact h'
  | cons _ ih =>
      rw [List.append_assoc] at ih
      exact .cons ih

theorem Unfolds.call {op : O} {called out : List O} (hop : expand op = called)
    (h : Unfolds expand called out) : Unfolds expand [op] (op :: out) :=
  .cons (by rwa [List.append_nil, hop])

theorem Unfolds.leaf {op : O} (hop : expand op = []) : Unfolds expand [op] [op] :=
  .call hop .nil

theorem Unfolds.leaves {ops : List O} (h : ∀ op ∈ ops, expand op = []) :
    Unfolds expand ops ops := by
  induction ops with
  | nil => exact .nil
  | cons op ops ih =>
      exact (Unfolds.leaf (h op List.mem_cons_self)).append
        (ih fun op' h' => h op' (List.mem_cons_of_mem op h'))

theorem Unfolds.flatMap {A : Type*} {l : List A} {code out : A → List O}
    (h : ∀ a ∈ l, Unfolds expand (code a) (out a)) :
    Unfolds expand (l.flatMap code) (l.flatMap out) := by
  induction l with
  | nil => exact .nil
  | cons a l ih =>
      rw [List.flatMap_cons, List.flatMap_cons]
      exact (h a List.mem_cons_self).append (ih fun b hb => h b (List.mem_cons_of_mem a hb))

/-- The first operation of a program is the first one performed. -/
theorem Unfolds.head {op : O} {ops out : List O} (h : Unfolds expand (op :: ops) out) :
    ∃ out', out = op :: out' ∧ Unfolds expand (expand op ++ ops) out' := by
  cases h with
  | cons h => exact ⟨_, rfl, h⟩

theorem Unfolds.eq_nil {code : List O} (h : Unfolds expand code []) : code = [] := by
  cases h
  rfl

theorem Unfolds.eq_cons {code : List O} {op : O} {out : List O}
    (h : Unfolds expand code (op :: out)) : ∃ ops, code = op :: ops := by
  cases h
  exact ⟨_, rfl⟩

end Calls
