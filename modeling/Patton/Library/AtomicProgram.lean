import Mathlib

/-!
# Programs that poll an atomic object

What a thread does between the call and the return of a function that waits for an
atomic object to change: it loads the object with some memory order, lets time pass,
or blocks in `wait` of the object. Two things are said of a program by recursion on
it: what it has learned about the object when it ends, provided that a value which
differs from the old one stays; and how many steps it makes unless it is woken up.
-/

namespace AtomicWait

inductive MemoryOrder
  | relaxed
  | acquire
  deriving DecidableEq

/-- The ways in which a polling thread lets time pass. -/
inductive Delay
  | busy (n : ℕ)  -- a loop of `n` iterations that has no effect
  | pause
  | yield
  deriving DecidableEq

/-- A program that polls an atomic object of type `V`; `wait old` is the member function
of the object, called with `memory_order_acquire`. -/
inductive Prog (V β : Type*)
  | ret (b : β)
  | load (order : MemoryOrder) (next : V → Prog V β)
  | delay (d : Delay) (next : Prog V β)
  | wait (old : V) (next : Prog V β)

namespace Prog

variable {V α β : Type*}

def bind (p : Prog V α) (q : α → Prog V β) : Prog V β :=
  match p with
  | ret b => q b
  | load order next => load order fun v => (next v).bind q
  | delay d next => delay d (next.bind q)
  | wait old next => wait old (next.bind q)

/-- `if (p) return true;`, followed by `q` -/
def orElse (p q : Prog V Bool) : Prog V Bool :=
  p.bind fun b => if b then ret true else q

/-- `for (int i = 0; i < n; ++i)`, whose body may return `true` early -/
@[irreducible] def forLoop (n : ℕ) (body : ℕ → Prog V Bool) : Prog V Bool :=
  (List.range n).foldr (fun i q => (body i).orElse q) (ret false)

/-- What a thread knows about the object: whether a load has returned a value that
differs from the old one, and whether such a load was an acquire operation. -/
inductive Knowledge
  | nothing
  | seen
  | acquired
  deriving DecidableEq

def Knowledge.learn : Knowledge → MemoryOrder → Knowledge
  | _, .acquire => .acquired
  | .acquired, .relaxed => .acquired
  | _, .relaxed => .seen

/-- If the thread knows `κ`, then the program ends with an answer and a knowledge for
which `Q` holds. Only the old value is waited for. -/
def Ensures [DecidableEq V] (old : V) (Q : Knowledge → β → Prop) : Knowledge → Prog V β → Prop
  | κ, ret b => Q κ b
  | κ, load order next => ∀ v, (κ ≠ .nothing → v ≠ old) →
      Ensures old Q (if v = old then κ else κ.learn order) (next v)
  | κ, delay _ next => Ensures old Q κ next
  | _, wait old' next => old' = old ∧ Ensures old Q .acquired next

section

variable [DecidableEq V] {old : V} {κ : Knowledge}

theorem Ensures.bind {Q : Knowledge → α → Prop} {R : Knowledge → β → Prop} {p : Prog V α}
    {q : α → Prog V β} (h : Ensures old Q κ p) (hq : ∀ κ b, Q κ b → Ensures old R κ (q b)) :
    Ensures old R κ (p.bind q) := by
  induction p generalizing κ with
  | ret b => exact hq κ b h
  | load order next ih => exact fun v hv => ih v (h v hv)
  | delay d next ih => exact ih h
  | wait old' next ih => exact ⟨h.1, ih h.2⟩

theorem Knowledge.learn_ne_nothing (κ : Knowledge) (order : MemoryOrder) :
    κ.learn order ≠ .nothing := by
  cases κ <;> cases order <;> decide

theorem Knowledge.learn_acquire (κ : Knowledge) : κ.learn .acquire = .acquired := by
  cases κ <;> rfl

/-- Started with any knowledge, the program answers `true` only if it has seen the object
change. -/
structure Detects (old : V) (p : Prog V Bool) : Prop where
  ensures : ∀ κ, Ensures old (fun κ b => b = true → κ ≠ .nothing) κ p

theorem Detects.ret_false : Detects old (ret false) := ⟨fun _ h => absurd h (by decide)⟩

theorem Detects.delay {d : Delay} {p : Prog V Bool} (h : Detects old p) :
    Detects old (.delay d p) := ⟨h.ensures⟩

theorem Detects.load (order : MemoryOrder) :
    Detects old (.load order fun v => .ret (decide (v ≠ old))) := by
  refine ⟨fun κ v hv hne => ?_⟩
  rw [if_neg (of_decide_eq_true hne)]
  exact κ.learn_ne_nothing order

theorem Detects.orElse {p q : Prog V Bool} (hp : Detects old p) (hq : Detects old q) :
    Detects old (p.orElse q) := by
  refine ⟨fun κ => (hp.ensures κ).bind fun κ b hb => ?_⟩
  cases b with
  | true => exact fun _ => hb rfl
  | false => exact hq.ensures κ

theorem Detects.forLoop {n : ℕ} {body : ℕ → Prog V Bool} (h : ∀ i, Detects old (body i)) :
    Detects old (forLoop n body) := by
  rw [Prog.forLoop]
  induction List.range n with
  | nil => exact .ret_false
  | cons i l ih => exact (h i).orElse ih

/-- The program returns only after an acquire operation has read a value other than the
old one. -/
def Awaits (old : V) (p : Prog V Unit) : Prop :=
  Ensures old (fun κ _ => κ = .acquired) .nothing p

end

def Within : ℕ → Prog V β → Prop
  | _, ret _ => True
  | n, load _ next => 0 < n ∧ ∀ v, Within (n - 1) (next v)
  | n, delay _ next => 0 < n ∧ Within (n - 1) next
  | n, wait _ next => 0 < n ∧ Within (n - 1) next

theorem Within.mono {m n : ℕ} {p : Prog V β} (h : Within m p) (hmn : m ≤ n) : Within n p := by
  induction p generalizing m n with
  | ret b => trivial
  | load order next ih => exact ⟨h.1.trans_le hmn, fun v => ih v (h.2 v) (by omega)⟩
  | delay d next ih => exact ⟨h.1.trans_le hmn, ih h.2 (by omega)⟩
  | wait old next ih => exact ⟨h.1.trans_le hmn, ih h.2 (by omega)⟩

theorem Within.bind {m n : ℕ} {p : Prog V α} {q : α → Prog V β} (hp : Within m p)
    (hq : ∀ b, Within n (q b)) : Within (m + n) (p.bind q) := by
  induction p generalizing m with
  | ret b => exact (hq b).mono (Nat.le_add_left n m)
  | load order next ih =>
      refine ⟨Nat.add_pos_left hp.1 n, fun v => ?_⟩
      rw [Nat.sub_add_comm hp.1]
      exact ih v (hp.2 v)
  | delay d next ih =>
      refine ⟨Nat.add_pos_left hp.1 n, ?_⟩
      rw [Nat.sub_add_comm hp.1]
      exact ih hp.2
  | wait old next ih =>
      refine ⟨Nat.add_pos_left hp.1 n, ?_⟩
      rw [Nat.sub_add_comm hp.1]
      exact ih hp.2

theorem Within.orElse {m n : ℕ} {p q : Prog V Bool} (hp : Within m p) (hq : Within n q) :
    Within (m + n) (p.orElse q) := by
  refine hp.bind fun b => ?_
  cases b with
  | true => trivial
  | false => exact hq

theorem Within.forLoop {m n : ℕ} {body : ℕ → Prog V Bool} (h : ∀ i, Within m (body i)) :
    Within (n * m) (forLoop n body) := by
  have hfold : ∀ l : List ℕ,
      Within (l.length * m) (l.foldr (fun i q => (body i).orElse q) (ret false)) := by
    intro l
    induction l with
    | nil => trivial
    | cons i l ih =>
        rw [List.length_cons, Nat.succ_mul, Nat.add_comm]
        exact (h i).orElse ih
  have h := hfold (List.range n)
  rwa [List.length_range, ← Prog.forLoop] at h

end Prog

end AtomicWait
