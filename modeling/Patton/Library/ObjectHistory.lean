import Mathlib
import Patton.Library.Ledger

/-!
# Histories of objects that own resources

Objects of one class are constructed, moved and destroyed in any order. If each special
member function turns the resources of the objects it works on into those that they own
afterwards, then in every history the ledger holds just what the living objects own.
-/

namespace ObjectHistory

open Ledger

variable {τ β ι μ : Type*}

/-- What the special member functions of a class do. A function has no result if its
behaviour is undefined; a constructor which throws leaves no object. Moving yields the
new target and the new source; the move constructor may get arguments from outside. -/
structure ObjectClass (τ β ι μ : Type*) where
  construct : ι → Option (List (Event τ) × Option β)
  moveConstruct : μ → β → Option (List (Event τ) × β × β)
  moveAssign : β → β → Option (List (Event τ) × β × β)
  selfMoveAssign : β → Option (List (Event τ) × β)
  destruct : β → Option (List (Event τ))

inductive Op (ι μ : Type*)
  | construct (o : ℕ) (args : ι)
  | moveConstruct (o : ℕ) (args : μ) (src : ℕ)
  | moveAssign (o src : ℕ)
  | destruct (o : ℕ)

/-- The living objects, and what has been done so far. -/
structure State (τ β : Type*) where
  live : Finset ℕ
  object : ℕ → β
  events : List (Event τ)

structure State.Initial (s : State τ β) : Prop where
  live_eq : s.live = ∅
  events_eq : s.events = []

def step (C : ObjectClass τ β ι μ) (s : State τ β) : Op ι μ → Option (State τ β)
  | .construct o args =>
      match C.construct args with
      | none => none
      | some (es, none) => some { s with events := s.events ++ es }
      | some (es, some b) => some
          { live := insert o s.live, object := Function.update s.object o b,
            events := s.events ++ es }
  | .moveConstruct o args src =>
      match C.moveConstruct args (s.object src) with
      | none => none
      | some (es, b, rhs) => some
          { live := insert o s.live,
            object := Function.update (Function.update s.object src rhs) o b,
            events := s.events ++ es }
  | .moveAssign o src =>
      if o = src then
        match C.selfMoveAssign (s.object o) with
        | none => none
        | some (es, b) => some
            { s with object := Function.update s.object o b, events := s.events ++ es }
      else
        match C.moveAssign (s.object o) (s.object src) with
        | none => none
        | some (es, b, rhs) => some
            { s with
              object := Function.update (Function.update s.object src rhs) o b,
              events := s.events ++ es }
  | .destruct o =>
      match C.destruct (s.object o) with
      | none => none
      | some es => some { s with live := s.live.erase o, events := s.events ++ es }

def run (C : ObjectClass τ β ι μ) (s : State τ β) : List (Op ι μ) → Option (State τ β)
  | [] => some s
  | op :: ops => (step C s op).bind fun s => run C s ops

/-- Only living objects are moved and destroyed, and new ones get new names. -/
def Allowed (s : State τ β) : Op ι μ → Prop
  | .construct o _ => o ∉ s.live
  | .moveConstruct o _ src => o ∉ s.live ∧ src ∈ s.live
  | .moveAssign o src => o ∈ s.live ∧ src ∈ s.live
  | .destruct o => o ∈ s.live

instance (s : State τ β) : ∀ op : Op ι μ, Decidable (Allowed s op)
  | .construct o _ => inferInstanceAs (Decidable (o ∉ s.live))
  | .moveConstruct o _ src => inferInstanceAs (Decidable (o ∉ s.live ∧ src ∈ s.live))
  | .moveAssign o src => inferInstanceAs (Decidable (o ∈ s.live ∧ src ∈ s.live))
  | .destruct o => inferInstanceAs (Decidable (o ∈ s.live))

structure Guard (β ι μ : Type*) where
  construct : ι → Prop
  moveConstruct : μ → β → Prop
  moveAssign : β → β → Prop
  selfMoveAssign : β → Prop

def Guard.Meets (g : Guard β ι μ) (s : State τ β) : Op ι μ → Prop
  | .construct _ args => g.construct args
  | .moveConstruct _ args src => g.moveConstruct args (s.object src)
  | .moveAssign o src =>
      (o = src → g.selfMoveAssign (s.object o)) ∧
        (o ≠ src → g.moveAssign (s.object o) (s.object src))
  | .destruct _ => True

/-- Each operation of the history is allowed and meets the conditions in the state in
which it is carried out. -/
def Admissible (C : ObjectClass τ β ι μ) (g : Guard β ι μ) : State τ β → List (Op ι μ) → Prop
  | _, [] => True
  | s, op :: ops =>
      Allowed s op ∧ g.Meets s op ∧ ∀ s', step C s op = some s' → Admissible C g s' ops

def Guard.unconditional : Guard β ι μ :=
  ⟨fun _ => True, fun _ _ => True, fun _ _ => True, fun _ => True⟩

theorem admissible_cons {C : ObjectClass τ β ι μ} {g : Guard β ι μ} {s s' : State τ β}
    {op : Op ι μ} {ops : List (Op ι μ)} (hstep : step C s op = some s') (hop : Allowed s op)
    (hg : g.Meets s op) (hops : Admissible C g s' ops) : Admissible C g s (op :: ops) := by
  refine ⟨hop, hg, fun s₁ hs₁ => ?_⟩
  obtain rfl : s' = s₁ := Option.some.inj (hstep.symm.trans hs₁)
  exact hops

variable [DecidableEq τ]

/-- Under the conditions, each special member function turns what the objects own before
into what they own afterwards. A constructor may leave some resources behind. -/
structure Sound (C : ObjectClass τ β ι μ) (g : Guard β ι μ) (valid : β → Prop)
    (owned : β → Multiset τ) (leftBehind : τ → Prop) : Prop where
  construct : ∀ args, g.construct args →
    (∃ es, C.construct args = some (es, none) ∧ Ledger.run 0 es = some 0) ∨
    ∃ es b m, C.construct args = some (es, some b) ∧ valid b ∧ (∀ t ∈ m, leftBehind t) ∧
      Ledger.run 0 es = some (owned b + m)
  moveConstruct : ∀ args b, valid b → g.moveConstruct args b →
    ∃ es b' rhs, C.moveConstruct args b = some (es, b', rhs) ∧ valid b' ∧ valid rhs ∧
      Ledger.run (owned b) es = some (owned b' + owned rhs)
  moveAssign : ∀ b rhs, valid b → valid rhs → g.moveAssign b rhs →
    ∃ es b' rhs', C.moveAssign b rhs = some (es, b', rhs') ∧ valid b' ∧ valid rhs' ∧
      Ledger.run (owned b + owned rhs) es = some (owned b' + owned rhs')
  selfMoveAssign : ∀ b, valid b → g.selfMoveAssign b →
    ∃ es b', C.selfMoveAssign b = some (es, b') ∧ valid b' ∧
      Ledger.run (owned b) es = some (owned b')
  destruct : ∀ b, valid b → ∃ es, C.destruct b = some es ∧ Ledger.run (owned b) es = some 0

def State.owns (s : State τ β) (owned : β → Multiset τ) : Multiset τ :=
  ∑ o ∈ s.live, owned (s.object o)

/-- The objects are valid, and the ledger holds what they own and what has been left
behind. -/
structure Inv (valid : β → Prop) (owned : β → Multiset τ) (leftBehind : τ → Prop)
    (s : State τ β) : Prop where
  valid : ∀ o ∈ s.live, valid (s.object o)
  ledger : ∃ m, (∀ t ∈ m, leftBehind t) ∧ Ledger.run 0 s.events = some (s.owns owned + m)

variable {C : ObjectClass τ β ι μ} {g : Guard β ι μ} {valid : β → Prop} {owned : β → Multiset τ}
  {leftBehind : τ → Prop} {s s' : State τ β} {op : Op ι μ} {ops : List (Op ι μ)}

omit [DecidableEq τ] in
theorem owns_update (owned : β → Multiset τ) (f : ℕ → β) {live : Finset ℕ} {o : ℕ} (b : β)
    (h : o ∉ live) (es : List (Event τ)) :
    State.owns ⟨live, Function.update f o b, es⟩ owned = State.owns ⟨live, f, es⟩ owned := by
  refine Finset.sum_congr rfl fun i hi => ?_
  dsimp only
  rw [Function.update_of_ne]
  rintro rfl
  exact h hi

omit [DecidableEq τ] in
theorem owns_erase (owned : β → Multiset τ) (f : ℕ → β) {live : Finset ℕ} {o : ℕ} (h : o ∈ live)
    (es : List (Event τ)) : State.owns ⟨live, f, es⟩ owned =
      owned (f o) + State.owns ⟨live.erase o, f, es⟩ owned :=
  (Finset.add_sum_erase live (fun i => owned (f i)) h).symm

omit [DecidableEq τ] in
/-- An object that is new or has changed, and the others. -/
theorem owns_erase_update (owned : β → Multiset τ) (f : ℕ → β) {live : Finset ℕ} {o : ℕ} (b : β)
    (h : o ∈ live) (es : List (Event τ)) : State.owns ⟨live, Function.update f o b, es⟩ owned =
      owned b + State.owns ⟨live.erase o, f, es⟩ owned := by
  rw [owns_erase owned _ h, Function.update_self,
    owns_update owned f b (Finset.notMem_erase o live)]

theorem valid_update (f : ℕ → β) {live : Finset ℕ} {o : ℕ} {b : β} (hb : valid b)
    (h : ∀ i ∈ live, i ≠ o → valid (f i)) : ∀ i ∈ live, valid (Function.update f o b i) := by
  intro i hi
  by_cases hio : i = o
  · rw [hio, Function.update_self]
    exact hb
  · rw [Function.update_of_ne hio]
    exact h i hi hio

theorem Inv.initial (h : s.Initial) : Inv valid owned leftBehind s where
  valid o ho := by
    rw [h.live_eq] at ho
    cases ho
  ledger := by
    refine ⟨0, fun t ht => absurd ht (Multiset.notMem_zero t), ?_⟩
    rw [h.events_eq, State.owns, h.live_eq]
    rfl

theorem Inv.construct (hs : Sound C g valid owned leftBehind) (h : Inv valid owned leftBehind s)
    {o : ℕ} {args : ι} (ho : o ∉ s.live) (hg : g.construct args) :
    ∃ s', step C s (.construct o args) = some s' ∧ Inv valid owned leftBehind s' := by
  obtain ⟨m, hm, hledger⟩ := h.ledger
  rw [← zero_add (s.owns owned + m)] at hledger
  rcases hs.construct args hg with ⟨es, hes, hrun⟩ | ⟨es, b, m', hes, hb, hm', hrun⟩
  · refine ⟨{ s with events := s.events ++ es }, by rw [step, hes], h.valid, m, hm, ?_⟩
    have happend := run_append_add hledger hrun
    rw [zero_add] at happend
    exact happend
  · refine ⟨⟨insert o s.live, Function.update s.object o b, s.events ++ es⟩, by rw [step, hes],
      valid_update s.object hb fun i hi hio => ?_, m' + m, fun t ht => ?_, ?_⟩
    · exact h.valid i (Finset.mem_of_mem_insert_of_ne hi hio)
    · exact (Multiset.mem_add.1 ht).elim (hm' t) (hm t)
    · rw [owns_erase_update owned _ _ (Finset.mem_insert_self o s.live), Finset.erase_insert ho,
        add_add_add_comm]
      exact run_append_add hledger hrun

theorem Inv.moveConstruct (hs : Sound C g valid owned leftBehind)
    (h : Inv valid owned leftBehind s) {o src : ℕ} {args : μ} (ho : o ∉ s.live)
    (hsrc : src ∈ s.live) (hg : g.moveConstruct args (s.object src)) :
    ∃ s', step C s (.moveConstruct o args src) = some s' ∧ Inv valid owned leftBehind s' := by
  obtain ⟨es, b, rhs, hes, hb, hrhs, hrun⟩ :=
    hs.moveConstruct args (s.object src) (h.valid src hsrc) hg
  obtain ⟨m, hm, hledger⟩ := h.ledger
  refine ⟨⟨insert o s.live, Function.update (Function.update s.object src rhs) o b,
    s.events ++ es⟩, by rw [step, hes], ?_, m, hm, ?_⟩
  · refine valid_update _ hb fun i hi hio => ?_
    exact valid_update s.object hrhs (fun i hi _ => h.valid i hi) i
      (Finset.mem_of_mem_insert_of_ne hi hio)
  · rw [owns_erase_update owned _ _ (Finset.mem_insert_self o s.live), Finset.erase_insert ho,
      owns_erase_update owned _ _ hsrc, ← add_assoc, add_assoc]
    rw [State.owns, ← Finset.add_sum_erase _ _ hsrc, add_assoc] at hledger
    exact run_append_add hledger hrun

theorem Inv.moveAssign (hs : Sound C g valid owned leftBehind) (h : Inv valid owned leftBehind s)
    {o src : ℕ} (ho : o ∈ s.live) (hsrc : src ∈ s.live) (hg : g.Meets s (.moveAssign o src)) :
    ∃ s', step C s (.moveAssign o src : Op ι μ) = some s' ∧ Inv valid owned leftBehind s' := by
  obtain ⟨m, hm, hledger⟩ := h.ledger
  by_cases hosrc : o = src
  · obtain ⟨es, b, hes, hb, hrun⟩ :=
      hs.selfMoveAssign (s.object o) (h.valid o ho) (hg.1 hosrc)
    refine ⟨⟨s.live, Function.update s.object o b, s.events ++ es⟩,
      by rw [step, if_pos hosrc, hes], valid_update _ hb fun i hi _ => h.valid i hi, m, hm, ?_⟩
    rw [owns_erase_update owned _ _ ho, add_assoc]
    rw [State.owns, ← Finset.add_sum_erase _ _ ho, add_assoc] at hledger
    exact run_append_add hledger hrun
  · obtain ⟨es, b, rhs, hes, hb, hrhs, hrun⟩ :=
      hs.moveAssign (s.object o) (s.object src) (h.valid o ho) (h.valid src hsrc) (hg.2 hosrc)
    have hsrc' : src ∈ s.live.erase o := Finset.mem_erase.2 ⟨Ne.symm hosrc, hsrc⟩
    refine ⟨⟨s.live, Function.update (Function.update s.object src rhs) o b, s.events ++ es⟩,
      by rw [step, if_neg hosrc, hes], ?_, m, hm, ?_⟩
    · exact valid_update _ hb fun i hi _ =>
        valid_update s.object hrhs (fun i hi _ => h.valid i hi) i hi
    · rw [owns_erase_update owned _ _ ho, owns_erase_update owned _ _ hsrc', ← add_assoc,
        add_assoc]
      rw [State.owns, ← Finset.add_sum_erase _ _ ho, ← Finset.add_sum_erase _ _ hsrc',
        ← add_assoc, add_assoc] at hledger
      exact run_append_add hledger hrun

theorem Inv.destruct (hs : Sound C g valid owned leftBehind) (h : Inv valid owned leftBehind s)
    {o : ℕ} (ho : o ∈ s.live) :
    ∃ s', step C s (.destruct o : Op ι μ) = some s' ∧ Inv valid owned leftBehind s' := by
  obtain ⟨es, hes, hrun⟩ := hs.destruct (s.object o) (h.valid o ho)
  obtain ⟨m, hm, hledger⟩ := h.ledger
  refine ⟨⟨s.live.erase o, s.object, s.events ++ es⟩, by rw [step, hes], ?_, m, hm, ?_⟩
  · exact fun i hi => h.valid i (Finset.mem_of_mem_erase hi)
  · rw [State.owns, ← Finset.add_sum_erase _ _ ho, add_assoc] at hledger
    have happend := run_append_add hledger hrun
    rw [zero_add] at happend
    exact happend

theorem Inv.step (hs : Sound C g valid owned leftBehind) (h : Inv valid owned leftBehind s)
    (hop : Allowed s op) (hg : g.Meets s op) :
    ∃ s', step C s op = some s' ∧ Inv valid owned leftBehind s' := by
  cases op with
  | construct o args => exact h.construct hs hop hg
  | moveConstruct o args src => exact h.moveConstruct hs hop.1 hop.2 hg
  | moveAssign o src => exact h.moveAssign hs hop.1 hop.2 hg
  | destruct o => exact h.destruct hs hop

/-- Every history keeps the invariant, and no behaviour in it is undefined. -/
theorem Inv.run (hs : Sound C g valid owned leftBehind) (h : Inv valid owned leftBehind s)
    (hops : Admissible C g s ops) :
    ∃ s', run C s ops = some s' ∧ Inv valid owned leftBehind s' := by
  induction ops generalizing s with
  | nil => exact ⟨s, rfl, h⟩
  | cons op ops ih =>
      obtain ⟨hop, hg, hrest⟩ := hops
      obtain ⟨s₁, hs₁, h₁⟩ := h.step hs hop hg
      obtain ⟨s', hs', h'⟩ := ih h₁ (hrest s₁ hs₁)
      exact ⟨s', by rw [ObjectHistory.run, hs₁, Option.bind_some, hs'], h'⟩

/-- The books of a state: the ledger holds what the living objects own and what has been
left behind, and when all the objects are gone, each resource that is not of this kind has
been released as often as it has been acquired. -/
structure Balanced (owned : β → Multiset τ) (leftBehind : τ → Prop) (s : State τ β) : Prop where
  ledger : ∃ m, (∀ t ∈ m, leftBehind t) ∧ Ledger.run 0 s.events = some (s.owns owned + m)
  settled : s.live = ∅ → ∀ t, ¬ leftBehind t → acquired s.events t = released s.events t

theorem Inv.balanced (h : Inv valid owned leftBehind s) : Balanced owned leftBehind s where
  ledger := h.ledger
  settled hlive t ht := by
    obtain ⟨m, hm, hledger⟩ := h.ledger
    rw [State.owns, hlive, Finset.sum_empty, zero_add] at hledger
    have hcount := count_add_acquired hledger t
    rw [Multiset.count_zero, Multiset.count_eq_zero.2 fun hmem => ht (hm t hmem)] at hcount
    omega

theorem Sound.balanced (hs : Sound C g valid owned leftBehind) (h : s.Initial)
    (hops : Admissible C g s ops) :
    ∃ s', run C s ops = some s' ∧ Balanced owned leftBehind s' := by
  obtain ⟨s', hs', hinv⟩ := (Inv.initial h).run hs hops
  exact ⟨s', hs', hinv.balanced⟩

/-- The strict books, where nothing is left behind. -/
structure Settled (owned : β → Multiset τ) (s : State τ β) : Prop where
  ledger : Ledger.run 0 s.events = some (s.owns owned)
  settled : s.live = ∅ → ∀ t, acquired s.events t = released s.events t

theorem Balanced.strict (h : Balanced owned (fun _ => False) s) : Settled owned s where
  ledger := by
    obtain ⟨m, hm, hledger⟩ := h.ledger
    rw [hledger, Multiset.eq_zero_of_forall_notMem hm, add_zero]
  settled hlive t := h.settled hlive t not_false

theorem Sound.settled (hs : Sound C g valid owned fun _ => False) (h : s.Initial)
    (hops : Admissible C g s ops) : ∃ s', run C s ops = some s' ∧ Settled owned s' := by
  obtain ⟨s', hs', hbalanced⟩ := hs.balanced h hops
  exact ⟨s', hs', hbalanced.strict⟩

end ObjectHistory
