import Patton.CpuInfo.Parameters
import Patton.ThreadSquad.Script

/-!
# The life of a squad

`thread_squad` is a handle: the implementation it owns is created by the constructor, passed
on by moves, and deleted either by a call on an rvalue, once its task has been run, or by
the deleter, which runs an empty task that joins the threads. Here the histories of any
number of such objects are followed, whatever is called on them in which order. No
implementation is used or deleted after it has been deleted, each is deleted in the end,
and the tasks it has been given by then make it a squad: all of them fit, and it is the
last one, and no other, that joins.
-/

namespace Patton.ThreadSquad.Lifetime

open CpuInfo

/-- `thread_squad_impl`: its size, the tasks it has been given, and how often it has been
deleted. -/
structure Impl (V : Type) where
  numThreads : ℤ
  tasks : List (Task V) := []
  deleted : ℕ := 0

/-- The checks that fail, and the use of an implementation which has been deleted. -/
inductive Fault
  | params (v : Violation)
  | concurrency
  | nullHandle
  | deleted (i : ℕ)
  deriving DecidableEq

/-- The `thread_squad` objects that exist, their `handle_`s, and the implementations in the
order in which they have been created. -/
structure State (V : Type) where
  live : Finset ℕ
  handle : ℕ → Option ℕ
  impls : List (Impl V)

variable {V : Type}

def State.initial : State V := ⟨∅, fun _ => none, []⟩

def State.deref (s : State V) (i : ℕ) : Except Fault (Impl V) :=
  match s.impls[i]? with
  | some impl => if impl.deleted = 0 then .ok impl else .error (.deleted i)
  | none => .error (.deleted i)

/-- Access through the `not_null` handle of an object. -/
def State.pointer (s : State V) (o : ℕ) : Except Fault ℕ :=
  match s.handle o with
  | some i => .ok i
  | none => .error .nullHandle

def State.setImpl (s : State V) (i : ℕ) (impl : Impl V) : State V :=
  { s with impls := s.impls.set i impl }

/-- `thread_squad_impl::run` -/
def implRun (s : State V) (i : ℕ) (task : Task V) : Except Fault (State V) := do
  let impl ← s.deref i
  .ok (s.setImpl i { impl with tasks := impl.tasks ++ [task] })

/-- `delete`, as called by the memory guards -/
def implDelete (s : State V) (i : ℕ) : Except Fault (State V) := do
  let impl ← s.deref i
  .ok (s.setImpl i { impl with deleted := impl.deleted + 1 })

/-- `thread_squad_impl_deleter::operator ()` -/
def implDeleter (s : State V) (i : ℕ) : Except Fault (State V) := do
  let s ← implRun s i (threadSquadNop V)
  implDelete s i

def doRun (s : State V) (o : ℕ) (task : Task V) : Except Fault (State V) := do
  let i ← s.pointer o
  if !task.joinRequested then implRun s i task
  else
    let s ← implRun { s with handle := Function.update s.handle o none } i task
    implDelete s i

/-- `handle_->numThreads` -/
def numThreads (s : State V) (o : ℕ) : Except Fault ℤ := do
  let i ← s.pointer o
  let impl ← s.deref i
  .ok impl.numThreads

/-- How `run` and `transform_reduce` check and replace the argument `concurrency`. -/
def resolveConcurrency (s : State V) (o : ℕ) (concurrency : ℤ) : Except Fault ℤ :=
  if concurrency ≥ -1 then do
    let numThreads ← numThreads s o
    if concurrency ≤ numThreads then
      .ok (if concurrency = -1 then numThreads else concurrency)
    else .error .concurrency
  else .error .concurrency

/-- How `transform_reduce_first` does. -/
def resolveConcurrencyFirst (s : State V) (o : ℕ) (concurrency : ℤ) : Except Fault ℤ :=
  if concurrency = -1 then numThreads s o
  else if concurrency ≥ 1 then do
    let numThreads ← numThreads s o
    if concurrency ≤ numThreads then .ok concurrency else .error .concurrency
  else .error .concurrency

def run (s : State V) (o : ℕ) (rvalue : Bool) (collectives : List (Collective V))
    (concurrency : ℤ) : Except Fault (State V) := do
  let concurrency ← resolveConcurrency s o concurrency
  doRun s o ⟨concurrency.toNat, rvalue, collectives, .action⟩

def transformReduce (s : State V) (o : ℕ) (rvalue : Bool) (collectives : List (Collective V))
    (transform : ℕ → List (Option V) → V) (reduceOp : V → V → V) (concurrency : ℤ) :
    Except Fault (State V) := do
  let concurrency ← resolveConcurrency s o concurrency
  if concurrency ≠ 0 then
    doRun s o ⟨concurrency.toNat, rvalue, collectives, .transformReduce transform reduceOp⟩
  else .ok s

def transformReduceFirst (s : State V) (o : ℕ) (rvalue : Bool)
    (collectives : List (Collective V)) (transform : ℕ → List (Option V) → V)
    (reduceOp : V → V → V) (concurrency : ℤ) : Except Fault (State V) := do
  let concurrency ← resolveConcurrencyFirst s o concurrency
  doRun s o ⟨concurrency.toNat, rvalue, collectives, .transformReduce transform reduceOp⟩

/-- A check of the parameters, which throws or terminates. -/
def checked {α : Type} (x : Except Violation α) : Except Fault α := x.mapError .params

def construct (s : State V) (o hardwareConcurrency : ℕ) (p : Params) :
    Except Fault (State V) := do
  checked (checkParams p)
  let p ← checked (create hardwareConcurrency p)
  let _ ← checked ((List.range p.numThreads.toNat).mapM (pinWorker p))
  .ok { live := insert o s.live,
        handle := Function.update s.handle o (some s.impls.length),
        impls := s.impls ++ [{ numThreads := p.numThreads }] }

def moveConstruct (s : State V) (o rhs : ℕ) : State V where
  live := insert o s.live
  handle := Function.update (Function.update s.handle rhs none) o (s.handle rhs)
  impls := s.impls

/-- The move assignment operator: what the target owned is deleted, a self-move changes
nothing. -/
def moveAssign (s : State V) (o rhs : ℕ) : Except Fault (State V) :=
  if o = rhs then .ok s
  else
    let s' : State V :=
      { s with handle := Function.update (Function.update s.handle rhs none) o (s.handle rhs) }
    match s.handle o with
    | none => .ok s'
    | some i => implDeleter s' i

def destruct (s : State V) (o : ℕ) : Except Fault (State V) :=
  let s' : State V :=
    { s with live := s.live.erase o, handle := Function.update s.handle o none }
  match s.handle o with
  | none => .ok s'
  | some i => implDeleter s' i

/-- What is called on the objects, which are named by numbers. -/
inductive Call (V : Type)
  | construct (o hardwareConcurrency : ℕ) (p : Params)
  | run (o : ℕ) (rvalue : Bool) (collectives : List (Collective V)) (concurrency : ℤ)
  | transformReduce (o : ℕ) (rvalue : Bool) (collectives : List (Collective V))
      (transform : ℕ → List (Option V) → V) (reduceOp : V → V → V) (concurrency : ℤ)
  | transformReduceFirst (o : ℕ) (rvalue : Bool) (collectives : List (Collective V))
      (transform : ℕ → List (Option V) → V) (reduceOp : V → V → V) (concurrency : ℤ)
  | moveConstruct (o rhs : ℕ)
  | moveAssign (o rhs : ℕ)
  | destruct (o : ℕ)

def Call.exec (s : State V) : Call V → Except Fault (State V)
  | .construct o hardwareConcurrency p => Lifetime.construct s o hardwareConcurrency p
  | .run o rvalue collectives concurrency => Lifetime.run s o rvalue collectives concurrency
  | .transformReduce o rvalue collectives transform reduceOp concurrency =>
      Lifetime.transformReduce s o rvalue collectives transform reduceOp concurrency
  | .transformReduceFirst o rvalue collectives transform reduceOp concurrency =>
      Lifetime.transformReduceFirst s o rvalue collectives transform reduceOp concurrency
  | .moveConstruct o rhs => .ok (Lifetime.moveConstruct s o rhs)
  | .moveAssign o rhs => Lifetime.moveAssign s o rhs
  | .destruct o => Lifetime.destruct s o

/-- Only existing objects are used, new ones get new names, and the number of hardware
threads is known. -/
def Call.Allowed (s : State V) : Call V → Prop
  | .construct o hardwareConcurrency _ => o ∉ s.live ∧ 1 ≤ hardwareConcurrency
  | .moveConstruct o rhs => o ∉ s.live ∧ rhs ∈ s.live
  | .moveAssign o rhs => o ∈ s.live ∧ rhs ∈ s.live
  | .run o _ _ _ | .transformReduce o _ _ _ _ _ | .transformReduceFirst o _ _ _ _ _
  | .destruct o => o ∈ s.live

/-- `History calls r`: the calls end in `r`, which is a state or the fault of the last call. -/
inductive History : List (Call V) → Except Fault (State V) → Prop
  | initial : History [] (.ok .initial)
  | call {calls : List (Call V)} {s : State V} {c : Call V} :
      History calls (.ok s) → c.Allowed s → History (calls ++ [c]) (c.exec s)

structure Impl.Fits (impl : Impl V) : Prop where
  one_le_numThreads : 1 ≤ impl.numThreads
  concurrency_le : ∀ task ∈ impl.tasks, (task.concurrency : ℤ) ≤ impl.numThreads

/-- Nothing has been joined or deleted. -/
structure Impl.Open (impl : Impl V) : Prop where
  deleted : impl.deleted = 0
  tasks : ∀ task ∈ impl.tasks, task.joinRequested = false

/-- The last task has joined, then the implementation has been deleted. -/
structure Impl.Closed (impl : Impl V) : Prop where
  deleted : impl.deleted = 1
  tasks : ∃ tasks task, impl.tasks = tasks ++ [task] ∧ task.joinRequested = true ∧
    ∀ task ∈ tasks, task.joinRequested = false

/-- An implementation is open as long as an object has its handle, or as long as it is `held`
by a memory guard, and then nobody else has its handle. All others are closed. -/
structure Inv (s : State V) (held : Option ℕ) : Prop where
  fits : ∀ impl ∈ s.impls, impl.Fits
  owned : ∀ o ∈ s.live, ∀ i, s.handle o = some i → ∃ impl, s.impls[i]? = some impl ∧ impl.Open
  unique : ∀ o ∈ s.live, ∀ o' ∈ s.live, ∀ i, s.handle o = some i → s.handle o' = some i → o = o'
  guarded : ∀ i, held = some i →
    (∃ impl, s.impls[i]? = some impl ∧ impl.Open) ∧ ∀ o ∈ s.live, s.handle o ≠ some i
  closed : ∀ i impl, s.impls[i]? = some impl → held ≠ some i →
    (∀ o ∈ s.live, s.handle o ≠ some i) → impl.Closed

variable {s s' : State V} {o rhs i : ℕ} {impl : Impl V} {task : Task V} {held : Option ℕ}

theorem setImpl_self (h : i < s.impls.length) : (s.setImpl i impl).impls[i]? = some impl :=
  List.getElem?_set_self h

theorem setImpl_of_ne {j : ℕ} (h : i ≠ j) : (s.setImpl i impl).impls[j]? = s.impls[j]? :=
  List.getElem?_set_ne h

theorem mem_setImpl {x : Impl V} (h : x ∈ (s.setImpl i impl).impls) : x ∈ s.impls ∨ x = impl :=
  List.mem_or_eq_of_mem_set h

theorem deref_eq (h : s.impls[i]? = some impl) (ho : impl.Open) : s.deref i = .ok impl := by
  rw [State.deref, h]
  exact if_pos ho.deleted

theorem implRun_eq (h : s.impls[i]? = some impl) (ho : impl.Open) : implRun s i task =
    .ok (s.setImpl i { impl with tasks := impl.tasks ++ [task] }) := by
  rw [implRun, deref_eq h ho]
  rfl

theorem Impl.Fits.run (h : impl.Fits) (hc : (task.concurrency : ℤ) ≤ impl.numThreads) (n : ℕ) :
    Impl.Fits ⟨impl.numThreads, impl.tasks ++ [task], n⟩ where
  one_le_numThreads := h.one_le_numThreads
  concurrency_le := fun t ht => (List.mem_append.1 ht).elim (h.concurrency_le t) fun ht =>
    List.mem_singleton.1 ht ▸ hc

/-- A task that does not join leaves the implementation open. -/
theorem Inv.implRun (h : Inv s none) (ho : o ∈ s.live) (hi : s.handle o = some i)
    (himpl : s.impls[i]? = some impl) (hopen : impl.Open)
    (hc : (task.concurrency : ℤ) ≤ impl.numThreads) (hjoin : task.joinRequested = false) :
    ∃ s', Lifetime.implRun s i task = .ok s' ∧ Inv s' none := by
  have hlt := (List.getElem?_eq_some_iff.1 himpl).1
  refine ⟨_, implRun_eq himpl hopen, ?_, ?_, h.unique, fun j hj => (nomatch hj), ?_⟩
  · intro x hx
    rcases mem_setImpl hx with hx | rfl
    · exact h.fits x hx
    · exact (h.fits impl (List.mem_of_getElem? himpl)).run hc _
  · intro o' ho' j hj
    by_cases hij : i = j
    · subst hij
      refine ⟨_, setImpl_self hlt, hopen.deleted, fun t ht => ?_⟩
      exact (List.mem_append.1 ht).elim (hopen.tasks t) fun ht => List.mem_singleton.1 ht ▸ hjoin
    · obtain ⟨x, hx, hx'⟩ := h.owned o' ho' j hj
      exact ⟨x, by rwa [setImpl_of_ne hij], hx'⟩
  · intro j x hx _ hnone
    have hij : i ≠ j := by
      rintro rfl
      exact hnone o ho hi
    rw [setImpl_of_ne hij] at hx
    exact h.closed j x hx (by simp) hnone

/-- A task that joins is run by what holds the implementation, which is deleted then. -/
theorem Inv.close (h : Inv s (some i)) (himpl : s.impls[i]? = some impl)
    (hc : (task.concurrency : ℤ) ≤ impl.numThreads) (hjoin : task.joinRequested = true) :
    ∃ s', ((Lifetime.implRun s i task).bind fun s => implDelete s i) = .ok s' ∧
      s'.live = s.live ∧ s'.handle = s.handle ∧ Inv s' none := by
  obtain ⟨⟨impl', himpl', hopen⟩, hguard⟩ := h.guarded i rfl
  obtain rfl : impl = impl' := Option.some.inj (himpl.symm.trans himpl')
  have hlt := (List.getElem?_eq_some_iff.1 himpl).1
  have hdelete : implDelete (s.setImpl i { impl with tasks := impl.tasks ++ [task] }) i =
      .ok (s.setImpl i { impl with tasks := impl.tasks ++ [task], deleted := 1 }) := by
    rw [implDelete, State.deref, setImpl_self hlt]
    simp [hopen.deleted, bind, Except.bind, State.setImpl]
  refine ⟨s.setImpl i { impl with tasks := impl.tasks ++ [task], deleted := 1 }, ?_, rfl, rfl,
    ?_, ?_, h.unique, fun j hj => (nomatch hj), ?_⟩
  · rw [implRun_eq himpl hopen]
    exact hdelete
  · intro x hx
    rcases mem_setImpl hx with hx | rfl
    · exact h.fits x hx
    · exact (h.fits impl (List.mem_of_getElem? himpl)).run hc _
  · intro o' ho' j hj
    have hij : i ≠ j := by
      rintro rfl
      exact hguard o' ho' hj
    obtain ⟨x, hx, hx'⟩ := h.owned o' ho' j hj
    exact ⟨x, by rwa [setImpl_of_ne hij], hx'⟩
  · intro j x hx _ hnone
    by_cases hij : i = j
    · subst hij
      rw [setImpl_self hlt] at hx
      obtain rfl := Option.some.inj hx
      exact ⟨rfl, impl.tasks, task, rfl, hjoin, hopen.tasks⟩
    · rw [setImpl_of_ne hij] at hx
      exact h.closed j x hx (by simpa using hij) hnone

theorem Inv.implDeleter (h : Inv s (some i)) : ∃ s', Lifetime.implDeleter s i = .ok s' ∧
    s'.live = s.live ∧ s'.handle = s.handle ∧ Inv s' none := by
  obtain ⟨⟨impl, himpl, -⟩, -⟩ := h.guarded i rfl
  have hfits := h.fits impl (List.mem_of_getElem? himpl)
  have hone := hfits.one_le_numThreads
  have hc : ((threadSquadNop V).concurrency : ℤ) ≤ impl.numThreads := by
    rw [threadSquadNop, Nat.cast_zero]
    omega
  exact h.close himpl hc rfl

/-- An object gives up its handle, and a memory guard holds the implementation. -/
theorem Inv.release (h : Inv s none) (ho : o ∈ s.live) (hi : s.handle o = some i) :
    Inv { s with handle := Function.update s.handle o none } (some i) := by
  have hback : ∀ o' j, Function.update s.handle o none o' = some j →
      o' ≠ o ∧ s.handle o' = some j := by
    intro o' j hj
    by_cases hoo : o' = o
    · simp [hoo] at hj
    · exact ⟨hoo, by simpa [hoo] using hj⟩
  refine ⟨h.fits, ?_, ?_, ?_, ?_⟩
  · exact fun o' ho' j hj => h.owned o' ho' j (hback o' j hj).2
  · exact fun o₁ ho₁ o₂ ho₂ j hj₁ hj₂ =>
      h.unique o₁ ho₁ o₂ ho₂ j (hback o₁ j hj₁).2 (hback o₂ j hj₂).2
  · rintro j ⟨⟩
    refine ⟨h.owned o ho i hi, fun o' ho' hi' => ?_⟩
    obtain ⟨hne, hi'⟩ := hback o' i hi'
    exact hne (h.unique o' ho' o ho i hi' hi)
  · intro j impl hj hij hnone
    refine h.closed j impl hj (by simp) fun o' ho' hj' => hnone o' ho' ?_
    have hne : o' ≠ o := by
      rintro rfl
      exact hij (hi.symm.trans hj')
    exact (Function.update_of_ne hne _ _).trans hj'

theorem Inv.erase (h : Inv s held) (hn : s.handle o = none) :
    Inv { s with live := s.live.erase o } held where
  fits := h.fits
  owned := fun o' ho' => h.owned o' (Finset.mem_of_mem_erase ho')
  unique := fun o₁ ho₁ o₂ ho₂ =>
    h.unique o₁ (Finset.mem_of_mem_erase ho₁) o₂ (Finset.mem_of_mem_erase ho₂)
  guarded := fun j hj =>
    ⟨(h.guarded j hj).1, fun o' ho' => (h.guarded j hj).2 o' (Finset.mem_of_mem_erase ho')⟩
  closed := fun j impl hj hij hnone => by
    refine h.closed j impl hj hij fun o' ho' hj' => ?_
    by_cases hoo : o' = o
    · rw [hoo, hn] at hj'
      cases hj'
    · exact hnone o' (Finset.mem_erase.2 ⟨hoo, ho'⟩) hj'

/-- The handle of `rhs` goes to `o`, which has none. -/
theorem Inv.transfer (h : Inv s held) (hrhs : rhs ∈ s.live) (hne : o ≠ rhs)
    (hn : o ∈ s.live → s.handle o = none) : Inv (moveConstruct s o rhs) held := by
  have hself : (moveConstruct s o rhs).handle o = s.handle rhs := Function.update_self ..
  have hsrc : (moveConstruct s o rhs).handle rhs = none :=
    (Function.update_of_ne hne.symm _ _).trans (Function.update_self ..)
  have hother : ∀ o', o' ≠ o → o' ≠ rhs → (moveConstruct s o rhs).handle o' = s.handle o' :=
    fun o' h₁ h₂ => (Function.update_of_ne h₁ _ _).trans (Function.update_of_ne h₂ _ _)
  -- who has a handle now, and who had it before
  have hback : ∀ o' ∈ (moveConstruct s o rhs).live, ∀ j,
      (moveConstruct s o rhs).handle o' = some j → (o' = o ∧ s.handle rhs = some j) ∨
        (o' ≠ o ∧ o' ≠ rhs ∧ o' ∈ s.live ∧ s.handle o' = some j) := by
    intro o' ho' j hj
    by_cases h₁ : o' = o
    · subst h₁
      exact .inl ⟨rfl, hself ▸ hj⟩
    · have h₂ : o' ≠ rhs := by
        rintro rfl
        rw [hsrc] at hj
        cases hj
      exact .inr ⟨h₁, h₂, Finset.mem_of_mem_insert_of_ne ho' h₁, hother o' h₁ h₂ ▸ hj⟩
  refine ⟨h.fits, ?_, ?_, ?_, ?_⟩
  · intro o' ho' j hj
    rcases hback o' ho' j hj with ⟨-, hj⟩ | ⟨-, -, ho', hj⟩
    · exact h.owned rhs hrhs j hj
    · exact h.owned o' ho' j hj
  · intro o₁ ho₁ o₂ ho₂ j hj₁ hj₂
    rcases hback o₁ ho₁ j hj₁ with ⟨rfl, h₁⟩ | ⟨-, hr₁, hl₁, h₁⟩
    · rcases hback o₂ ho₂ j hj₂ with ⟨rfl, -⟩ | ⟨-, hr₂, hl₂, h₂⟩
      · rfl
      · exact absurd (h.unique o₂ hl₂ rhs hrhs j h₂ h₁) hr₂
    · rcases hback o₂ ho₂ j hj₂ with ⟨rfl, h₂⟩ | ⟨-, -, hl₂, h₂⟩
      · exact absurd (h.unique o₁ hl₁ rhs hrhs j h₁ h₂) hr₁
      · exact h.unique o₁ hl₁ o₂ hl₂ j h₁ h₂
  · intro j hj
    obtain ⟨hopen, hguard⟩ := h.guarded j hj
    refine ⟨hopen, fun o' ho' hj' => ?_⟩
    rcases hback o' ho' j hj' with ⟨-, hj'⟩ | ⟨-, -, ho', hj'⟩
    · exact hguard rhs hrhs hj'
    · exact hguard o' ho' hj'
  · intro j impl hj hheld hnone
    refine h.closed j impl hj hheld fun o' ho' hj' => ?_
    by_cases h₁ : o' = o
    · subst h₁
      rw [hn ho'] at hj'
      cases hj'
    · by_cases h₂ : o' = rhs
      · subst h₂
        exact hnone o (Finset.mem_insert_self o s.live) (hself.trans hj')
      · exact hnone o' (Finset.mem_insert_of_mem ho') ((hother o' h₁ h₂).trans hj')

/-- A new object has the handle of a new implementation. -/
theorem Inv.create (h : Inv s none) (ho : o ∉ s.live) (hfits : impl.Fits) (hopen : impl.Open) :
    Inv ⟨insert o s.live, Function.update s.handle o (some s.impls.length), s.impls ++ [impl]⟩
      none := by
  have hlt : ∀ o' ∈ s.live, ∀ j, s.handle o' = some j → j < s.impls.length := by
    intro o' ho' j hj
    obtain ⟨x, hx, -⟩ := h.owned o' ho' j hj
    exact (List.getElem?_eq_some_iff.1 hx).1
  have hback : ∀ o' ∈ insert o s.live, ∀ j,
      Function.update s.handle o (some s.impls.length) o' = some j →
        (o' = o ∧ j = s.impls.length) ∨ (o' ≠ o ∧ o' ∈ s.live ∧ s.handle o' = some j) := by
    intro o' ho' j hj
    by_cases h₁ : o' = o
    · subst h₁
      rw [Function.update_self] at hj
      exact .inl ⟨rfl, (Option.some.inj hj).symm⟩
    · rw [Function.update_of_ne h₁] at hj
      exact .inr ⟨h₁, Finset.mem_of_mem_insert_of_ne ho' h₁, hj⟩
  refine ⟨?_, ?_, ?_, fun j hj => (nomatch hj), ?_⟩
  · intro x hx
    rcases List.mem_append.1 hx with hx | hx
    · exact h.fits x hx
    · exact List.mem_singleton.1 hx ▸ hfits
  · intro o' ho' j hj
    rcases hback o' ho' j hj with ⟨-, rfl⟩ | ⟨-, ho', hj⟩
    · exact ⟨impl, by simp, hopen⟩
    · obtain ⟨x, hx, hx'⟩ := h.owned o' ho' j hj
      exact ⟨x, by rwa [List.getElem?_append_left (hlt o' ho' j hj)], hx'⟩
  · intro o₁ ho₁ o₂ ho₂ j hj₁ hj₂
    rcases hback o₁ ho₁ j hj₁ with ⟨rfl, h₁⟩ | ⟨-, hl₁, h₁⟩
    · rcases hback o₂ ho₂ j hj₂ with ⟨rfl, -⟩ | ⟨-, hl₂, h₂⟩
      · rfl
      · exact absurd (hlt o₂ hl₂ j h₂) (by omega)
    · rcases hback o₂ ho₂ j hj₂ with ⟨rfl, h₂⟩ | ⟨-, hl₂, h₂⟩
      · exact absurd (hlt o₁ hl₁ j h₁) (by omega)
      · exact h.unique o₁ hl₁ o₂ hl₂ j h₁ h₂
  · intro j x hx _ hnone
    have hj : j < s.impls.length := by
      have hle := (List.getElem?_eq_some_iff.1 hx).1
      rw [List.length_append, List.length_singleton] at hle
      refine lt_of_le_of_ne (by omega) ?_
      rintro rfl
      exact hnone o (Finset.mem_insert_self o s.live) (Function.update_self ..)
    rw [List.getElem?_append_left hj] at hx
    refine h.closed j x hx (by simp) fun o' ho' hj' => ?_
    have hne : o' ≠ o := fun heq => ho (heq ▸ ho')
    exact hnone o' (Finset.mem_insert_of_mem ho') (by simpa [hne] using hj')

/-- A call ends in a state in which no memory guard holds anything, or in a failed check. -/
structure Ends (r : Except Fault (State V)) : Prop where
  inv : ∀ s, r = .ok s → Inv s none
  fault : ∀ i, r ≠ .error (.deleted i)

theorem Inv.ends (h : Inv s none) : Ends (.ok s) := by
  refine ⟨fun _ hs => ?_, fun i hi => (nomatch hi)⟩
  cases hs
  exact h

theorem Ends.of_error {f : Fault} (hf : ∀ i, f ≠ .deleted i) :
    Ends (.error f : Except Fault (State V)) :=
  ⟨fun _ hs => (nomatch hs), fun i hi => hf i (Except.error.inj hi)⟩

theorem Ends.bind {α : Type} {x : Except Fault α} {f : α → Except Fault (State V)}
    (hx : ∀ i, x ≠ .error (.deleted i)) (hf : ∀ a, x = .ok a → Ends (f a)) :
    Ends (x.bind f) := by
  cases x with
  | error e => exact .of_error fun i hi => hx i (hi ▸ rfl)
  | ok a => exact hf a rfl

theorem checked_ne_deleted {α : Type} (x : Except Violation α) (i : ℕ) :
    checked x ≠ .error (.deleted i) := by
  cases x <;> simp [checked, Except.mapError]

theorem eq_ok_of_checked {α : Type} {x : Except Violation α} {a : α} (h : checked x = .ok a) :
    x = .ok a := by
  cases x with
  | error e => cases h
  | ok a => exact congrArg _ (Except.ok.inj h)

theorem pointer_eq_ok (h : s.pointer o = .ok i) : s.handle o = some i := by
  rw [State.pointer] at h
  split at h
  · next hi => exact hi.trans (congrArg some (Except.ok.inj h))
  · cases h

theorem pointer_ne_deleted : s.pointer o ≠ .error (.deleted i) := by
  rw [State.pointer]
  split <;> simp

/-- Through its handle, an object reaches an open implementation. -/
theorem Inv.numThreads_eq (h : Inv s none) (ho : o ∈ s.live) (hi : s.handle o = some i)
    (himpl : s.impls[i]? = some impl) : numThreads s o = .ok impl.numThreads := by
  obtain ⟨impl', himpl', hopen⟩ := h.owned o ho i hi
  obtain rfl : impl = impl' := Option.some.inj (himpl.symm.trans himpl')
  rw [numThreads, State.pointer, hi]
  change (s.deref i).bind _ = _
  rw [deref_eq himpl hopen]
  rfl

theorem Inv.numThreads_ne_deleted (h : Inv s none) (ho : o ∈ s.live) (j : ℕ) :
    numThreads s o ≠ .error (.deleted j) := by
  cases hi : s.handle o with
  | none => simp [numThreads, State.pointer, hi, bind, Except.bind]
  | some i =>
      obtain ⟨impl, himpl, -⟩ := h.owned o ho i hi
      simp [h.numThreads_eq ho hi himpl]

/-- A call of `run` on the implementation, by a squad or by the guard that has taken it -/
theorem Inv.doRun (h : Inv s none) (ho : o ∈ s.live)
    (hc : ∀ n, numThreads s o = .ok n → (task.concurrency : ℤ) ≤ n) :
    Ends (Lifetime.doRun s o task) := by
  refine Ends.bind (fun j => pointer_ne_deleted) fun i hi => ?_
  have hi := pointer_eq_ok hi
  obtain ⟨impl, himpl, hopen⟩ := h.owned o ho i hi
  have hle := hc _ (h.numThreads_eq ho hi himpl)
  cases hjoin : task.joinRequested with
  | false =>
      obtain ⟨s', hs', hinv⟩ := h.implRun ho hi himpl hopen hle hjoin
      simpa [hs'] using hinv.ends
  | true =>
      obtain ⟨s', hs', -, -, hinv⟩ := (h.release ho hi).close himpl hle hjoin
      simpa [bind, hs'] using hinv.ends

/-- A resolved argument is at most the size of the squad. -/
structure Resolves (s : State V) (o : ℕ) (x : Except Fault ℤ) : Prop where
  ne_deleted : ∀ i, x ≠ .error (.deleted i)
  le : ∀ c, x = .ok c → ∃ n, numThreads s o = .ok n ∧ c ≤ n

theorem Resolves.of_concurrency : Resolves s o (.error .concurrency) :=
  ⟨fun _ h => (nomatch h), fun _ h => (nomatch h)⟩

theorem Inv.resolves_numThreads (h : Inv s none) (ho : o ∈ s.live) :
    Resolves s o (numThreads s o) :=
  ⟨h.numThreads_ne_deleted ho, fun n hn => ⟨n, hn, le_rfl⟩⟩

theorem Inv.resolves_bind (h : Inv s none) (ho : o ∈ s.live) {f : ℤ → Except Fault ℤ}
    (hne : ∀ n i, f n ≠ .error (.deleted i)) (hle : ∀ n c, f n = .ok c → c ≤ n) :
    Resolves s o ((numThreads s o).bind f) := by
  cases hn : numThreads s o with
  | error e =>
      exact ⟨fun i hi => h.numThreads_ne_deleted ho i (hn.trans hi), fun _ hc => nomatch hc⟩
  | ok n => exact ⟨hne n, fun c hc => ⟨n, hn, hle n c hc⟩⟩

theorem Inv.resolveConcurrency (h : Inv s none) (ho : o ∈ s.live) (c : ℤ) :
    Resolves s o (Lifetime.resolveConcurrency s o c) := by
  rw [Lifetime.resolveConcurrency]
  split
  · refine h.resolves_bind ho (fun n i => ?_) fun n c' hc' => ?_
    · split <;> simp
    · split at hc'
      · obtain rfl := Except.ok.inj hc'
        split <;> omega
      · cases hc'
  · exact .of_concurrency

theorem Inv.resolveConcurrencyFirst (h : Inv s none) (ho : o ∈ s.live) (c : ℤ) :
    Resolves s o (Lifetime.resolveConcurrencyFirst s o c) := by
  rw [Lifetime.resolveConcurrencyFirst]
  split_ifs with hall hpos
  · exact h.resolves_numThreads ho
  · refine h.resolves_bind ho (fun n i => ?_) fun n c' hc' => ?_
    · split <;> simp
    · split at hc'
      · next hle => exact Except.ok.inj hc' ▸ hle
      · cases hc'
  · exact .of_concurrency

/-- The argument `concurrency` is checked against the size of the squad before a task is made
of it. -/
theorem Inv.submit (h : Inv s none) (ho : o ∈ s.live) {x : Except Fault ℤ}
    {f : ℤ → Except Fault (State V)} (hx : Resolves s o x)
    (hf : ∀ c : ℤ, (∀ n, numThreads s o = .ok n → (c.toNat : ℤ) ≤ n) → Ends (f c)) :
    Ends (x.bind f) := by
  refine Ends.bind hx.ne_deleted fun c hc => hf c fun n hn => ?_
  obtain ⟨n', hn', hle⟩ := hx.le c hc
  obtain rfl : n = n' := Except.ok.inj (hn.symm.trans hn')
  obtain ⟨i, hi, -⟩ := exists_of_bind_eq_ok hn
  have hi := pointer_eq_ok hi
  obtain ⟨impl, himpl, -⟩ := h.owned o ho i hi
  have heq : impl.numThreads = n := Except.ok.inj ((h.numThreads_eq ho hi himpl).symm.trans hn)
  have hone := (h.fits impl (List.mem_of_getElem? himpl)).one_le_numThreads
  omega

theorem one_le_of_create {n : ℕ} {given p : Params} (hcheck : checkParams given = .ok ())
    (hn : 1 ≤ n) (hcreate : create n given = .ok p) : 1 ≤ p.numThreads := by
  have hnonneg := (accepted_of_checkParams_eq_ok hcheck).numThreads_nonneg
  rw [(resolved_of_create_eq_ok hcreate).numThreads_eq]
  split <;> omega

theorem Inv.construct (h : Inv s none) {n : ℕ} (p : Params) (ho : o ∉ s.live) (hn : 1 ≤ n) :
    Ends (Lifetime.construct s o n p) := by
  refine Ends.bind (checked_ne_deleted _) fun _ hcheck => ?_
  refine Ends.bind (checked_ne_deleted _) fun q hcreate => ?_
  refine Ends.bind (checked_ne_deleted _) fun _ _ => ?_
  have hone := one_le_of_create (eq_ok_of_checked hcheck) hn (eq_ok_of_checked hcreate)
  exact (h.create ho ⟨hone, List.forall_mem_nil _⟩ ⟨rfl, List.forall_mem_nil _⟩).ends

theorem Inv.moveAssign (h : Inv s none) (ho : o ∈ s.live) (hrhs : rhs ∈ s.live) :
    Ends (Lifetime.moveAssign s o rhs) := by
  rw [Lifetime.moveAssign]
  split
  · exact h.ends
  · next hne =>
      -- what the target owns is released before it gets the other handle
      have heq : State.mk s.live
          (Function.update (Function.update s.handle rhs none) o (s.handle rhs)) s.impls =
          moveConstruct { s with handle := Function.update s.handle o none } o rhs := by
        dsimp only [moveConstruct]
        rw [Function.update_of_ne (Ne.symm hne), Finset.insert_eq_of_mem ho,
          Function.update_comm hne, Function.update_idem]
      cases hi : s.handle o with
      | none =>
          have hself : Function.update s.handle o none = s.handle := by
            rw [← hi, Function.update_eq_self]
          simp only [heq, hself]
          exact (h.transfer hrhs hne fun _ => hi).ends
      | some i =>
          simp only [heq]
          obtain ⟨s', hs', -, -, hinv⟩ := ((h.release ho hi).transfer hrhs hne
            fun _ => Function.update_self ..).implDeleter
          rw [hs']
          exact hinv.ends

theorem Inv.destruct (h : Inv s none) (ho : o ∈ s.live) : Ends (Lifetime.destruct s o) := by
  rw [Lifetime.destruct]
  cases hi : s.handle o with
  | none =>
      have hself : Function.update s.handle o none = s.handle := by
        rw [← hi, Function.update_eq_self]
      simp only [hself]
      exact (h.erase hi).ends
  | some i =>
      obtain ⟨s', hs', -, -, hinv⟩ :=
        ((h.release ho hi).erase (Function.update_self ..)).implDeleter
      simp only [hs']
      exact hinv.ends

theorem Inv.exec (h : Inv s none) {c : Call V} (hc : c.Allowed s) : Ends (c.exec s) := by
  cases c with
  | construct o n p => exact h.construct p hc.1 hc.2
  | run o rvalue collectives concurrency =>
      exact h.submit hc (h.resolveConcurrency hc concurrency) fun _ hle => h.doRun hc hle
  | transformReduce o rvalue collectives transform reduceOp concurrency =>
      refine h.submit hc (h.resolveConcurrency hc concurrency) fun c hle => ?_
      split
      · exact h.doRun hc hle
      · exact h.ends
  | transformReduceFirst o rvalue collectives transform reduceOp concurrency =>
      exact h.submit hc (h.resolveConcurrencyFirst hc concurrency) fun _ hle => h.doRun hc hle
  | moveConstruct o rhs =>
      have hne : o ≠ rhs := fun heq => hc.1 (heq ▸ hc.2)
      exact (h.transfer hc.2 hne fun ho => absurd ho hc.1).ends
  | moveAssign o rhs => exact h.moveAssign hc.1 hc.2
  | destruct o => exact h.destruct hc

theorem inv_initial : Inv (State.initial : State V) none where
  fits := fun _ h => (nomatch h)
  owned := fun _ h => absurd h (Finset.notMem_empty _)
  unique := fun _ h => absurd h (Finset.notMem_empty _)
  guarded := fun _ h => (nomatch h)
  closed := fun _ _ h => (nomatch h)

theorem History.ends {calls : List (Call V)} {r : Except Fault (State V)}
    (h : History calls r) : Ends r := by
  induction h with
  | initial => exact inv_initial.ends
  | call _ hc ih => exact (ih.inv _ rfl).exec hc

theorem Inv.join_last (h : Inv s none) (hi : s.impls[i]? = some impl) :
    ∀ task ∈ impl.tasks.dropLast, task.joinRequested = false := by
  by_cases howned : ∃ o ∈ s.live, s.handle o = some i
  · obtain ⟨o, ho, hoi⟩ := howned
    obtain ⟨impl', himpl', hopen⟩ := h.owned o ho i hoi
    obtain rfl : impl = impl' := Option.some.inj (hi.symm.trans himpl')
    exact fun t ht => hopen.tasks t (List.mem_of_mem_dropLast ht)
  · push Not at howned
    obtain ⟨tasks, task, heq, -, htasks⟩ := (h.closed i impl hi (by simp) howned).tasks
    rw [heq, List.dropLast_concat]
    exact htasks

/-- What an implementation has been given is a squad. -/
theorem Impl.Fits.exists_squad (h : impl.Fits)
    (hjoin : ∀ task ∈ impl.tasks.dropLast, task.joinRequested = false)
    (hnested : Nested impl.numThreads.toNat) :
    ∃ sq : Squad V, sq.numThreads = impl.numThreads.toNat ∧ sq.tasks = impl.tasks := by
  have hone := h.one_le_numThreads
  have hle : ∀ task ∈ impl.tasks, task.concurrency ≤ impl.numThreads.toNat := fun task ht => by
    have hc := h.concurrency_le task ht
    omega
  have hone' : 1 ≤ impl.numThreads.toNat := by omega
  exact ⟨⟨⟨impl.numThreads.toNat, impl.tasks⟩, hone', hnested, hle, hjoin⟩, rfl, rfl⟩

/-- The fate of an implementation: exactly one object owns it until its last task joins, and
with that, and once only, it is deleted. All its tasks fit, and no other one joins. -/
structure Fate (s : State V) (i : ℕ) (impl : Impl V) : Prop where
  fits : impl.Fits
  deleted_le : impl.deleted ≤ 1
  deleted_iff : impl.deleted = 1 ↔ ∀ o ∈ s.live, s.handle o ≠ some i
  owner : ∀ o ∈ s.live, ∀ o' ∈ s.live, s.handle o = some i → s.handle o' = some i → o = o'
  joined_iff : impl.deleted = 1 ↔ ∃ task ∈ impl.tasks, task.joinRequested = true
  join_last : ∀ task ∈ impl.tasks.dropLast, task.joinRequested = false
  squad : Nested impl.numThreads.toNat →
    ∃ sq : Squad V, sq.numThreads = impl.numThreads.toNat ∧ sq.tasks = impl.tasks

/-- In no history, a squad uses or deletes an implementation after its deletion, and each
implementation is deleted once, when the last object that has owned it is gone or has run
its last task. -/
theorem history_fate {calls : List (Call V)} {r : Except Fault (State V)}
    (h : History calls r) : (∀ i, r ≠ .error (.deleted i)) ∧
      ∀ s, r = .ok s → ∀ i impl, s.impls[i]? = some impl → Fate s i impl := by
  refine ⟨h.ends.fault, fun s hs i impl hi => ?_⟩
  have hinv := h.ends.inv s hs
  have hfits := hinv.fits impl (List.mem_of_getElem? hi)
  have hlast := hinv.join_last hi
  have hsquad := hfits.exists_squad hlast
  have howner : ∀ o ∈ s.live, ∀ o' ∈ s.live, s.handle o = some i → s.handle o' = some i →
      o = o' := fun o ho o' ho' => hinv.unique o ho o' ho' i
  by_cases howned : ∃ o ∈ s.live, s.handle o = some i
  · obtain ⟨o, ho, hoi⟩ := howned
    obtain ⟨impl', himpl', hopen⟩ := hinv.owned o ho i hoi
    obtain rfl : impl = impl' := Option.some.inj (hi.symm.trans himpl')
    have hdeleted := hopen.deleted
    refine ⟨hfits, by omega, iff_of_false (by omega) fun hnone => hnone o ho hoi, howner,
      iff_of_false (by omega) ?_, hlast, hsquad⟩
    rintro ⟨task, ht, hjoin⟩
    rw [hopen.tasks task ht] at hjoin
    cases hjoin
  · push Not at howned
    have hclosed := hinv.closed i impl hi (by simp) howned
    obtain ⟨tasks, task, heq, hjoin, -⟩ := hclosed.tasks
    exact ⟨hfits, hclosed.deleted.le, iff_of_true hclosed.deleted howned, howner,
      iff_of_true hclosed.deleted ⟨task, by simp [heq], hjoin⟩, hlast, hsquad⟩

/-- A squad runs a task, is moved, and the target runs the last one. -/
theorem moved_history_fate : Fate
    ⟨{1, 0}, Function.update (Function.update (Function.update (Function.update (fun _ => none)
      0 (some 0)) 0 none) 1 (some 0)) 1 none, [⟨1, [⟨1, false, [], .action⟩,
        ⟨1, true, [], .action⟩], 1⟩]⟩ 0
    (⟨1, [⟨1, false, [], .action⟩, ⟨1, true, [], .action⟩], 1⟩ : Impl ℕ) :=
  have hconstruct : History [.construct 0 1 ⟨1, false, 0, []⟩] (.ok ⟨{0}, _, _⟩) :=
    .call .initial ⟨Finset.notMem_empty _, le_rfl⟩
  have hrun : History [_, .run 0 false [] 1] (.ok ⟨{0}, _, _⟩) :=
    .call hconstruct (Finset.mem_singleton_self 0)
  have hmove : History [_, _, .moveConstruct 1 0] (.ok ⟨{1, 0}, _, _⟩) :=
    .call hrun ⟨by decide, Finset.mem_singleton_self 0⟩
  have hjoin : History [_, _, _, .run 1 true [] (-1)] (.ok ⟨{1, 0}, _, _⟩) :=
    .call hmove (Finset.mem_insert_self 1 {0})
  (history_fate hjoin).2 _ rfl 0 _ rfl

end Patton.ThreadSquad.Lifetime
