import Patton.Library.Interleaving

/-!
# Values that are initialised lazily

A cell holds a default value until somebody needs it. Then it is computed and stored, and
the computation may need other cells. Any number of threads do so at the same time without
any lock, and a load may yield the default value although the cell has been set. Still
everybody gets the value that a computation without cells would give, after a number of
steps which does not depend on the other threads.
-/

namespace LazyInit

open Interleaving

variable {κ V ε ω : Type*}

/-- A computation that needs the values of cells. -/
inductive Prog (κ V ε : Type*)
  | ret (result : Except ε V)
  | query (c : κ) (next : V → Prog κ V ε)

def Prog.eval (value : κ → Except ε V) : Prog κ V ε → Except ε V
  | .ret result => result
  | .query c next => (value c).bind fun v => (next v).eval value

/-- A cell that is being initialised, and what its value is needed for. -/
structure Frame (κ V ε : Type*) where
  cell : κ
  next : V → Prog κ V ε

/-- A thread does nothing, or it works on the value of the cell `root`. -/
inductive Pc (κ V ε : Type*)
  | idle
  | busy (root : κ) (p : Prog κ V ε) (frames : List (Frame κ V ε))

/-- Which cell an idle thread asks for, whether a load misses what has been stored, and what
a computation finds in its environment when it begins. -/
structure Choice (κ ω : Type*) where
  cell : κ
  stale : Bool
  env : ω

section

variable [DecidableEq κ] [DecidableEq V] (init : ω → κ → Prog κ V ε) (default : V)

/-- A step of a thread: a load or a store of a cell, or the return to the caller. An
exception is passed on to the caller. -/
def next (sh : κ → V) : Pc κ V ε → Choice κ ω →
    Option ((κ → V) × Pc κ V ε × List (κ × Except ε V))
  | .idle, choice =>
      some (sh, .busy choice.cell (.query choice.cell fun v => .ret (.ok v)) [], [])
  | .busy root (.query c next) frames, choice =>
      let result := if choice.stale then default else sh c
      if result = default then
        some (sh, .busy root (init choice.env c) (⟨c, next⟩ :: frames), [])
      else some (sh, .busy root (next result) frames, [])
  | .busy root (.ret (.ok v)) (frame :: frames), _ =>
      some (Function.update sh frame.cell v, .busy root (frame.next v) frames, [])
  | .busy root (.ret (.ok v)) [], _ => some (sh, .idle, [(root, .ok v)])
  | .busy root (.ret (.error e)) _, _ => some (sh, .idle, [(root, .error e)])

end

/-- Cells have the values that their computations yield in every environment. -/
def Consistent (init : ω → κ → Prog κ V ε) (value : κ → Except ε V) : Prop :=
  ∀ env c, (init env c).eval value = value c

/-- A cell holds the default value or its own. -/
def CellFacts (default : V) (value : κ → Except ε V) (sh : κ → V) : Prop :=
  ∀ c, sh c = default ∨ value c = .ok (sh c)

def Yields (value : κ → Except ε V) (root : κ) : Prog κ V ε → List (Frame κ V ε) → Prop
  | p, [] => p.eval value = value root
  | p, frame :: frames => p.eval value = value frame.cell ∧
      Yields value root (.query frame.cell frame.next) frames

/-- What a thread does yields the value it has been asked for. -/
def PcFacts (value : κ → Except ε V) : Pc κ V ε → Prop
  | .idle => True
  | .busy root p frames => Yields value root p frames

variable {init : ω → κ → Prog κ V ε} {default : V} {value : κ → Except ε V} {sh sh' : κ → V}
  {root c : κ} {p p' : Prog κ V ε} {frame : Frame κ V ε} {frames : List (Frame κ V ε)}
  {pc pc' : Pc κ V ε} {choice : Choice κ ω} {as : List (κ × Except ε V)} {v : V} {e : ε}

theorem Yields.congr (h : Yields value root p frames) (heq : p'.eval value = p.eval value) :
    Yields value root p' frames := by
  cases frames with
  | nil => exact heq.trans h
  | cons frame frames => exact ⟨heq.trans h.1, h.2⟩

/-- A failure is that of all the cells which are waiting. -/
theorem Yields.error (h : Yields value root (.ret (.error e)) frames) :
    value root = .error e := by
  induction frames with
  | nil => exact h.symm
  | cons frame frames ih =>
      refine ih (h.2.congr ?_)
      rw [Prog.eval, Prog.eval, ← h.1, Prog.eval]
      rfl

section

variable [DecidableEq κ] [DecidableEq V]

/-- What a thread does to the cells in one step, and what it answers. -/
theorem own_of_next (hinit : Consistent init value)
    (h : next init default sh pc choice = some (sh', pc', as))
    (hsh : CellFacts default value sh) (hpc : PcFacts value pc) :
    CellFacts default value sh' ∧ PcFacts value pc' ∧ ∀ a ∈ as, value a.1 = a.2 := by
  cases pc with
  | idle =>
      cases h
      refine ⟨hsh, ?_, by simp⟩
      change (value choice.cell).bind _ = _
      cases value choice.cell <;> rfl
  | busy root p frames =>
      cases p with
      | query c next =>
          rw [LazyInit.next] at h
          by_cases hload : (if choice.stale then default else sh c) = default
          · rw [if_pos hload] at h
            cases h
            exact ⟨hsh, ⟨hinit choice.env c, hpc⟩, by simp⟩
          · rw [if_neg hload] at h
            cases h
            have hstale : ¬ choice.stale = true := fun hstale => hload (if_pos hstale)
            rw [if_neg hstale] at hload ⊢
            refine ⟨hsh, Yields.congr hpc ?_, by simp⟩
            rw [Prog.eval, (hsh c).resolve_left hload]
            rfl
      | ret result =>
          cases result with
          | error e =>
              cases h
              exact ⟨hsh, trivial, List.forall_mem_singleton.2 (Yields.error hpc)⟩
          | ok v =>
              cases frames with
              | nil =>
                  cases h
                  exact ⟨hsh, trivial, List.forall_mem_singleton.2 hpc.symm⟩
              | cons frame frames =>
                  cases h
                  obtain ⟨hcell, hrest⟩ := hpc
                  refine ⟨fun c => ?_, hrest.congr ?_, by simp⟩
                  · by_cases hc : c = frame.cell
                    · subst hc
                      rw [Function.update_self]
                      exact .inr hcell.symm
                    · rw [Function.update_of_ne hc]
                      exact hsh c
                  · rw [Prog.eval, ← hcell]
                    rfl

theorem kept (hinit : Consistent init value) :
    Kept (next init default) (CellFacts default value) (fun _ => PcFacts value)
      (fun _ _ => True) (fun _ a => value a.1 = a.2) where
  symm := fun _ _ h => h
  own := fun _ _ _ _ _ _ h hsh hpc => own_of_next hinit h hsh hpc
  others := fun _ _ _ _ _ _ _ _ _ _ hq _ => ⟨hq, trivial⟩
  answers := fun _ _ _ _ _ _ _ _ _ _ ha => ha

end

/-- A computation ends after at most `n` steps, of which `cost c` go into the cell `c`. -/
def Prog.Within (cost : κ → ℕ) : Prog κ V ε → ℕ → Prop
  | .ret _, n => 1 ≤ n
  | .query c next, n => ∃ m, cost c + m + 1 ≤ n ∧ ∀ v, (next v).Within cost m

/-- A thread returns to its caller after at most `n` steps of its own. -/
def Returns (cost : κ → ℕ) : Prog κ V ε → List (Frame κ V ε) → ℕ → Prop
  | p, [], n => p.Within cost n
  | p, frame :: frames, n => ∃ k m, p.Within cost k ∧
      (∀ v, Returns cost (frame.next v) frames m) ∧ k + m ≤ n

variable {cost : κ → ℕ} {n m : ℕ}

theorem Prog.Within.mono (h : p.Within cost n) (hnm : n ≤ m) : p.Within cost m := by
  cases p with
  | ret result => exact le_trans h hnm
  | query c next =>
      obtain ⟨k, hk, hnext⟩ := h
      exact ⟨k, hk.trans hnm, hnext⟩

theorem Returns.mono (h : Returns cost p frames n) (hnm : n ≤ m) : Returns cost p frames m := by
  cases frames with
  | nil => exact Prog.Within.mono h hnm
  | cons frame frames =>
      obtain ⟨k, l, hp, hframes, hle⟩ := h
      exact ⟨k, l, hp, hframes, hle.trans hnm⟩

theorem Returns.pos (h : Returns cost p frames n) : 1 ≤ n := by
  have hwithin : ∀ k, p.Within cost k → 1 ≤ k := by
    intro k hk
    cases p with
    | ret result => exact hk
    | query c next =>
        obtain ⟨l, hl, -⟩ := hk
        omega
  cases frames with
  | nil => exact hwithin n h
  | cons frame frames =>
      obtain ⟨k, l, hp, -, hle⟩ := h
      have hk := hwithin k hp
      omega

/-- A step of a call is its last one, or fewer are left. -/
theorem Returns.next [DecidableEq κ] [DecidableEq V]
    (hcost : ∀ env c, (init env c).Within cost (cost c)) (hp : Returns cost p frames n)
    (h : next init default sh (.busy root p frames) choice = some (sh', pc', as)) :
    pc' = .idle ∨ ∃ root' p' frames' m, pc' = .busy root' p' frames' ∧ m < n ∧
      Returns cost p' frames' m := by
  cases p with
  | query c next =>
      -- the bound covers the computation of the cell, whether it is needed or not
      have hnext : ∃ m, cost c + m + 1 ≤ n ∧ ∀ v, Returns cost (next v) frames m := by
        cases frames with
        | nil => exact hp
        | cons frame frames =>
            obtain ⟨k, l, ⟨m, hk, hwithin⟩, hframes, hle⟩ := hp
            exact ⟨m + l, by omega, fun v => ⟨m, l, hwithin v, hframes, le_rfl⟩⟩
      obtain ⟨m, hm, hreturns⟩ := hnext
      rw [LazyInit.next] at h
      by_cases hload : (if choice.stale then default else sh c) = default
      · rw [if_pos hload] at h
        cases h
        exact .inr ⟨root, _, _, cost c + m, rfl, by omega, cost c, m,
          hcost choice.env c, hreturns, le_rfl⟩
      · rw [if_neg hload] at h
        cases h
        exact .inr ⟨root, _, _, m, rfl, by omega, hreturns _⟩
  | ret result =>
      cases result with
      | error e =>
          cases h
          exact .inl rfl
      | ok v =>
          cases frames with
          | nil =>
              cases h
              exact .inl rfl
          | cons frame frames =>
              cases h
              obtain ⟨k, m, hk, hframes, hle⟩ := hp
              change 1 ≤ k at hk
              exact .inr ⟨root, _, _, m, rfl, by omega, hframes v⟩

/-- No call takes more than `n` steps. -/
def ReturnsWithin (cost : κ → ℕ) (n : ℕ) (pc : Pc κ V ε) : Prop :=
  ∀ root p frames, pc = .busy root p frames → ∃ k ≤ n, Returns cost p frames k

section

variable {ι : Type*} [DecidableEq ι] [DecidableEq κ] [DecidableEq V]
  {s s' : State ι (κ → V) (Pc κ V ε) (κ × Except ε V)} {t : ι} {schedule : List (ι × Choice κ ω)}

theorem kept_returnsWithin (hcost : ∀ env c, (init env c).Within cost (cost c))
    (hn : ∀ c, cost c + 2 ≤ n) : Kept (next init default) (fun _ => True)
      (fun _ => ReturnsWithin cost n) (fun _ _ => True) (fun _ _ => True) where
  symm := fun _ _ h => h
  own := by
    intro sh pc choice sh' pc' as h _ hpc
    refine ⟨trivial, fun root' p' frames' hpc' => ?_, fun _ _ => trivial⟩
    cases pc with
    | idle =>
        cases h
        cases hpc'
        exact ⟨_, hn choice.cell, 1, by omega, fun v => le_refl 1⟩
    | busy root p frames =>
        obtain ⟨k, hk, hreturns⟩ := hpc root p frames rfl
        rcases hreturns.next hcost h with hidle | ⟨root₁, p₁, frames₁, m, hbusy, hm, hleft⟩
        · cases hidle.symm.trans hpc'
        · cases hbusy.symm.trans hpc'
          exact ⟨m, by omega, hleft⟩
  others := fun _ _ _ _ _ _ _ _ _ _ hq _ => ⟨hq, trivial⟩
  answers := fun _ _ _ _ _ _ _ _ _ _ _ => trivial

/-- A thread that makes enough steps has returned in between, whatever the others do. -/
theorem exists_idle (hcost : ∀ env c, (init env c).Within cost (cost c))
    (ht : ∀ root p frames, s.thread t = .busy root p frames → Returns cost p frames n)
    (hrun : run (next init default) s schedule = some s')
    (hcount : n ≤ (schedule.map Prod.fst).count t) :
    ∃ pre s₁, pre <+: schedule ∧ run (next init default) s pre = some s₁ ∧
      s₁.thread t = .idle := by
  induction schedule generalizing s n with
  | nil =>
      refine ⟨[], s, List.prefix_rfl, rfl, ?_⟩
      cases hpc : s.thread t with
      | idle => rfl
      | busy root p frames =>
          have hpos := (ht root p frames hpc).pos
          have hzero : n ≤ 0 := by simpa using hcount
          omega
  | cons u schedule ih =>
      obtain ⟨u, choice⟩ := u
      obtain ⟨s₁, hstep, hrest⟩ := Option.bind_eq_some_iff.1 hrun
      -- a prefix of the rest, after the first step
      have hcons : ∀ m, (∀ root p frames, s₁.thread t = .busy root p frames →
          Returns cost p frames m) → m ≤ (schedule.map Prod.fst).count t → ∃ pre s₂,
            pre <+: (u, choice) :: schedule ∧ run (next init default) s pre = some s₂ ∧
              s₂.thread t = .idle := by
        intro m hm hle
        obtain ⟨pre, s₂, hpre, hs₂, hidle⟩ := ih hm hrest hle
        refine ⟨(u, choice) :: pre, s₂, List.cons_prefix_cons.2 ⟨rfl, hpre⟩, ?_, hidle⟩
        rw [run, hstep]
        exact hs₂
      obtain ⟨sh, pc, as, hnext, rfl⟩ := exists_of_step_eq_some hstep
      rw [List.map_cons, List.count_cons] at hcount
      by_cases hut : u = t
      · subst hut
        rw [if_pos (beq_self_eq_true u)] at hcount
        cases hpc : s.thread u with
        | idle => exact ⟨[], s, List.nil_prefix, rfl, hpc⟩
        | busy root p frames =>
            rw [hpc] at hnext
            have hself : Function.update s.thread u pc u = pc := Function.update_self ..
            rcases (ht root p frames hpc).next hcost hnext with
              rfl | ⟨root', p', frames', m, rfl, hm, hleft⟩
            · refine ⟨[(u, choice)], ⟨sh, Function.update s.thread u .idle, s.answers ++ as⟩,
                List.cons_prefix_cons.2 ⟨rfl, List.nil_prefix⟩, ?_, hself⟩
              rw [run, hstep]
              rfl
            · refine hcons m (fun root₁ p₁ frames₁ h₁ => ?_) (by omega)
              cases hself.symm.trans h₁
              exact hleft
      · rw [if_neg (by simpa using hut)] at hcount
        refine hcons n (fun root p frames h₁ => ?_) hcount
        have hother : Function.update s.thread u pc t = s.thread t :=
          Function.update_of_ne (Ne.symm hut) ..
        exact ht root p frames (hother.symm.trans h₁)

end

end LazyInit
