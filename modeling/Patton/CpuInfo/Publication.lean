import Patton.Library.Interleaving
import Patton.Memory.OperatingSystem

/-!
# The publication of the core list

The first calls of `physical_concurrency()` and `physical_core_ids()` detect the cores.
They publish the number of cores and the list of their ids one after the other, and any
number of threads may do so at the same time.
-/

namespace Patton.CpuInfo

open Interleaving Memory

inductive Query
  | physicalConcurrency
  | physicalCoreIds

/-- The variables of `cpu_info`, where a vector is the address of its elements, and the
elements of all the vectors that are alive. -/
structure Shared where
  physicalConcurrency : ℕ
  coreThreadIdsPtr : ℕ
  coreThreadIds : ℕ
  elements : ℕ → Option (List ℤ)

/-- What a thread does next. A number is the value of the local variable
`physicalConcurrency`, and an address is the local vector `coreThreadIds`. -/
inductive Pc
  | idle
  | load (query : Query)
  | loadPtr (physicalConcurrency : ℕ)
  | initLoad (query : Query)
  | initFunc (query : Query)
  | initStore (query : Query) (coreThreadIds : ℕ)
  | initCompareExchange (query : Query) (coreThreadIds : ℕ)
  | initMove (query : Query) (coreThreadIds : ℕ)
  | initDestroy (query : Query) (coreThreadIds : ℕ)
  | reload (query : Query)
  | reloadPtr (physicalConcurrency : ℕ)

inductive Answer
  | concurrency (n : ℕ)
  | coreIds (data size : ℕ)

/-- What is not determined: which function an idle thread calls, and where a new vector
keeps its elements. -/
structure Choice where
  query : Query
  data : ℕ

/-- One atomic operation of a thread, up to the next one. Every execution of `initFunc`
computes the list `ids`. -/
def threadStep (ids : List ℤ) (sh : Shared) :
    Pc → Choice → Option (Shared × Pc × List Answer)
  | .idle, choice => some (sh, .load choice.query, [])
  | .load .physicalConcurrency, _ =>
      let physicalConcurrency := sh.physicalConcurrency
      if physicalConcurrency = 0 then some (sh, .initLoad .physicalConcurrency, [])
      else some (sh, .idle, [.concurrency physicalConcurrency])
  | .load .physicalCoreIds, _ => some (sh, .loadPtr sh.physicalConcurrency, [])
  | .loadPtr physicalConcurrency, _ =>
      let coreThreadIdsPtr := sh.coreThreadIdsPtr
      if physicalConcurrency = 0 ∨ coreThreadIdsPtr = nullptr then
        some (sh, .initLoad .physicalCoreIds, [])
      else some (sh, .idle, [.coreIds coreThreadIdsPtr physicalConcurrency])
  | .initLoad query, _ =>
      if sh.physicalConcurrency = 0 then some (sh, .initFunc query, [])
      else some (sh, .reload query, [])
  | .initFunc query, choice =>
      if choice.data ≠ nullptr ∧ sh.elements choice.data = none then
        some ({ sh with elements := Function.update sh.elements choice.data (some ids) },
          .initStore query choice.data, [])
      else none
  | .initStore query data, _ =>
      some ({ sh with physicalConcurrency := ids.length }, .initCompareExchange query data, [])
  | .initCompareExchange query data, _ =>
      if sh.coreThreadIdsPtr = nullptr then
        some ({ sh with coreThreadIdsPtr := data }, .initMove query data, [])
      else some (sh, .initDestroy query data, [])
  | .initMove query data, _ =>
      some ({ sh with
        coreThreadIds := data
        elements := Function.update sh.elements sh.coreThreadIds none }, .reload query, [])
  | .initDestroy query data, _ =>
      some ({ sh with elements := Function.update sh.elements data none }, .reload query, [])
  | .reload .physicalConcurrency, _ => some (sh, .idle, [.concurrency sh.physicalConcurrency])
  | .reload .physicalCoreIds, _ => some (sh, .reloadPtr sh.physicalConcurrency, [])
  | .reloadPtr physicalConcurrency, _ =>
      some (sh, .idle, [.coreIds sh.coreThreadIdsPtr physicalConcurrency])

variable {ι : Type*}

structure Initial (s : State ι Shared Pc Answer) : Prop where
  physicalConcurrency_eq : s.shared.physicalConcurrency = 0
  coreThreadIdsPtr_eq : s.shared.coreThreadIdsPtr = nullptr
  coreThreadIds_eq : s.shared.coreThreadIds = nullptr
  elements_eq : ∀ data, s.shared.elements data = none
  thread_eq : ∀ t, s.thread t = .idle
  answers_eq : s.answers = []

/-- An answer is right: the number of cores, or a span of that size whose elements are
alive. -/
def Answer.Right (ids : List ℤ) (sh : Shared) : Answer → Prop
  | .concurrency n => n = ids.length
  | .coreIds data size => size = ids.length ∧ data ≠ nullptr ∧ sh.elements data = some ids

/-- The number of cores has been published, and the list has not. -/
def Window (sh : Shared) : Prop :=
  sh.physicalConcurrency ≠ 0 ∧ sh.coreThreadIdsPtr = nullptr

/-- A call of `physical_core_ids()` loads the pointer for the second time, in the window. -/
def ReloadsInWindow (sh : Shared) (p : Pc) : Prop :=
  (∃ n, p = .reloadPtr n) ∧ Window sh

/-- The local vector of a thread. -/
def Pc.data : Pc → Option ℕ
  | .initStore _ data => some data
  | .initCompareExchange _ data => some data
  | .initMove _ data => some data
  | .initDestroy _ data => some data
  | _ => none

/-- What a step may do to the shared state. -/
inductive Change (ids : List ℤ) (sh : Shared) (p p' : Pc) : Shared → Prop
  | nothing (h : p'.data = p.data ∨ p'.data = none) : Change ids sh p p' sh
  | compute (data : ℕ) (hne : data ≠ nullptr) (hfree : sh.elements data = none)
      (hdata : p'.data = some data) : Change ids sh p p'
        { sh with elements := Function.update sh.elements data (some ids) }
  | store (h : p'.data = p.data) :
      Change ids sh p p' { sh with physicalConcurrency := ids.length }
  | publish (query : Query) (data : ℕ) (hptr : sh.coreThreadIdsPtr = nullptr)
      (hp : p = .initCompareExchange query data) (hdata' : p'.data = some data) :
      Change ids sh p p' { sh with coreThreadIdsPtr := data }
  | move (query : Query) (data : ℕ) (hp : p = .initMove query data) (hdata' : p'.data = none) :
      Change ids sh p p' { sh with
        coreThreadIds := data
        elements := Function.update sh.elements sh.coreThreadIds none }
  | destroy (query : Query) (data : ℕ) (hp : p = .initDestroy query data)
      (hdata' : p'.data = none) :
      Change ids sh p p' { sh with elements := Function.update sh.elements data none }

variable {ids : List ℤ} {sh sh' : Shared} {p p' q : Pc} {choice : Choice} {as : List Answer}

theorem change_of_threadStep (h : threadStep ids sh p choice = some (sh', p', as)) :
    Change ids sh p p' sh' := by
  cases p with
  | idle =>
      cases h
      exact .nothing (.inl rfl)
  | load query =>
      cases query with
      | physicalConcurrency =>
          simp only [threadStep] at h
          split at h <;> cases h <;> exact .nothing (.inr rfl)
      | physicalCoreIds =>
          cases h
          exact .nothing (.inr rfl)
  | loadPtr n =>
      simp only [threadStep] at h
      split at h <;> cases h <;> exact .nothing (.inr rfl)
  | initLoad query =>
      simp only [threadStep] at h
      split at h <;> cases h <;> exact .nothing (.inr rfl)
  | initFunc query =>
      simp only [threadStep] at h
      split at h
      · next hfree =>
          cases h
          exact .compute choice.data hfree.1 hfree.2 rfl
      · cases h
  | initStore query data =>
      cases h
      exact .store rfl
  | initCompareExchange query data =>
      simp only [threadStep] at h
      split at h
      · next hptr =>
          cases h
          exact .publish query data hptr rfl rfl
      · cases h
        exact .nothing (.inl rfl)
  | initMove query data =>
      cases h
      exact .move query data rfl rfl
  | initDestroy query data =>
      cases h
      exact .destroy query data rfl rfl
  | reload query =>
      cases query with
      | physicalConcurrency =>
          cases h
          exact .nothing (.inr rfl)
      | physicalCoreIds =>
          cases h
          exact .nothing (.inr rfl)
  | reloadPtr n =>
      cases h
      exact .nothing (.inr rfl)

/-- The list is published after the number, by one thread only, and it stays alive. -/
structure SharedFacts (ids : List ℤ) (sh : Shared) : Prop where
  concurrency : sh.physicalConcurrency = 0 ∨ sh.physicalConcurrency = ids.length
  published : sh.coreThreadIdsPtr ≠ nullptr →
    sh.physicalConcurrency = ids.length ∧ sh.elements sh.coreThreadIdsPtr = some ids
  unpublished : sh.coreThreadIdsPtr = nullptr → sh.coreThreadIds = nullptr

/-- What a thread knows at each point. -/
def PcFacts (ids : List ℤ) (sh : Shared) : Pc → Prop
  | .loadPtr n => n = 0 ∨ n = ids.length
  | .initStore _ data => data ≠ sh.coreThreadIdsPtr
  | .initCompareExchange _ data =>
      sh.physicalConcurrency = ids.length ∧ data ≠ sh.coreThreadIdsPtr
  | .initMove _ data => data = sh.coreThreadIdsPtr ∧ sh.coreThreadIds = nullptr
  | .initDestroy _ data => sh.coreThreadIdsPtr ≠ nullptr ∧ data ≠ sh.coreThreadIdsPtr
  | .reload _ => sh.physicalConcurrency = ids.length
  | .reloadPtr n => n = ids.length ∧ sh.physicalConcurrency = ids.length
  | _ => True

/-- What a thread knows, with its local vector. -/
structure ThreadFacts (ids : List ℤ) (sh : Shared) (p : Pc) : Prop where
  pc : PcFacts ids sh p
  data : ∀ data, p.data = some data → data ≠ nullptr ∧ sh.elements data = some ids

/-- Two threads do not share a vector. -/
def Apart (p q : Pc) : Prop := ∀ data, p.data = some data → q.data ≠ some data

/-- A span that has been returned is empty, or it is the published list. -/
def AnswerFacts (ids : List ℤ) (sh : Shared) : Answer → Prop
  | .concurrency n => n = ids.length
  | .coreIds data size => size = ids.length ∧ (data ≠ nullptr → data = sh.coreThreadIdsPtr)

theorem Apart.symm (h : Apart p q) : Apart q p := fun data hq hp => h data hp hq

theorem Apart.of_data_eq (h : Apart p q) (hdata : p'.data = p.data ∨ p'.data = none) :
    Apart p' q := by
  intro data hp'
  rcases hdata with hdata | hdata
  · exact h data (hdata ▸ hp')
  · rw [hdata] at hp'
    cases hp'

/-- What a thread knows does not depend on the elements of vectors. -/
theorem pcFacts_elements (elements : ℕ → Option (List ℤ)) (q : Pc) :
    PcFacts ids { sh with elements := elements } q ↔ PcFacts ids sh q := by
  cases q <;> rfl

theorem PcFacts.store (h : PcFacts ids sh q) :
    PcFacts ids { sh with physicalConcurrency := ids.length } q := by
  cases q with
  | initCompareExchange query data => exact ⟨rfl, h.2⟩
  | reload query => rfl
  | reloadPtr n => exact ⟨h.1, rfl⟩
  | _ => exact h

theorem SharedFacts.change (hchange : Change ids sh p p' sh') (h : SharedFacts ids sh)
    (hp : ThreadFacts ids sh p) : SharedFacts ids sh' := by
  cases hchange with
  | nothing _ => exact h
  | compute data hne hfree _ =>
      refine ⟨h.concurrency, fun hptr => ⟨(h.published hptr).1, ?_⟩, h.unpublished⟩
      have halive := (h.published hptr).2
      dsimp only
      rw [Function.update_of_ne, halive]
      rintro hdata
      rw [hdata, hfree] at halive
      cases halive
  | store _ => exact ⟨.inr rfl, fun hptr => ⟨rfl, (h.published hptr).2⟩, h.unpublished⟩
  | publish query data hptr hpc _ =>
      subst hpc
      have hdata := hp.data data rfl
      exact ⟨h.concurrency, fun _ => ⟨hp.pc.1, hdata.2⟩, fun hnull => absurd hnull hdata.1⟩
  | move query data hpc _ =>
      subst hpc
      have hdata := hp.data data rfl
      obtain ⟨hptr, hvector⟩ := hp.pc
      refine ⟨h.concurrency, fun hne => ⟨(h.published hne).1, ?_⟩, fun hnull => ?_⟩
      · dsimp only
        rw [Function.update_of_ne (hvector ▸ hne), (h.published hne).2]
      · exact absurd (hptr.trans hnull) hdata.1
  | destroy query data hpc _ =>
      subst hpc
      refine ⟨h.concurrency, fun hne => ⟨(h.published hne).1, ?_⟩, h.unpublished⟩
      dsimp only
      rw [Function.update_of_ne hp.pc.2.symm, (h.published hne).2]

/-- What another thread knows stays true. -/
theorem ThreadFacts.change (hchange : Change ids sh p p' sh') (hp : ThreadFacts ids sh p)
    (hq : ThreadFacts ids sh q) (hapart : Apart p q) : ThreadFacts ids sh' q ∧ Apart p' q := by
  cases hchange with
  | nothing hdata => exact ⟨hq, hapart.of_data_eq hdata⟩
  | compute data hne hfree hdata' =>
      have hne : ∀ d, q.data = some d → d ≠ data := by
        rintro d hd rfl
        have halive := (hq.data d hd).2
        rw [hfree] at halive
        cases halive
      refine ⟨⟨(pcFacts_elements _ q).2 hq.pc, fun d hd => ⟨(hq.data d hd).1, ?_⟩⟩, ?_⟩
      · dsimp only
        rw [Function.update_of_ne (hne d hd), (hq.data d hd).2]
      · intro d hd hqd
        rw [hdata'] at hd
        exact hne d hqd (Option.some.inj hd).symm
  | store hdata => exact ⟨⟨hq.pc.store, hq.data⟩, hapart.of_data_eq (.inl hdata)⟩
  | publish query data hptr hpc hdata' =>
      subst hpc
      have hne : q.data ≠ some data := hapart data rfl
      refine ⟨⟨?_, hq.data⟩, hapart.of_data_eq (.inl hdata')⟩
      have hpcfacts := hq.pc
      cases q with
      | initStore query' d => exact fun hd => hne (congrArg some hd)
      | initCompareExchange query' d => exact ⟨hpcfacts.1, fun hd => hne (congrArg some hd)⟩
      | initMove query' d => exact absurd (hpcfacts.1.trans hptr) (hq.data d rfl).1
      | initDestroy query' d => exact absurd hptr hpcfacts.1
      | _ => exact hpcfacts
  | move query data hpc hdata' =>
      subst hpc
      obtain ⟨hptr, hvector⟩ := hp.pc
      refine ⟨⟨?_, fun d hd => ⟨(hq.data d hd).1, ?_⟩⟩, hapart.of_data_eq (.inr hdata')⟩
      · have hpcfacts := hq.pc
        cases q with
        | initMove query' d =>
            exact absurd (congrArg some (hpcfacts.1.trans hptr.symm)) (hapart data rfl)
        | _ => exact hpcfacts
      · dsimp only
        rw [hvector, Function.update_of_ne (hq.data d hd).1, (hq.data d hd).2]
  | destroy query data hpc hdata' =>
      subst hpc
      refine ⟨⟨(pcFacts_elements _ q).2 hq.pc, fun d hd => ⟨(hq.data d hd).1, ?_⟩⟩,
        hapart.of_data_eq (.inr hdata')⟩
      have hne : d ≠ data := by
        rintro rfl
        exact hapart d rfl hd
      dsimp only
      rw [Function.update_of_ne hne, (hq.data d hd).2]

/-- The list is not replaced once it has been published. -/
theorem AnswerFacts.change {a : Answer} (hchange : Change ids sh p p' sh')
    (h : AnswerFacts ids sh a) : AnswerFacts ids sh' a := by
  cases a with
  | concurrency n => exact h
  | coreIds data size =>
      cases hchange with
      | publish query d hptr _ _ =>
          exact ⟨h.1, fun hne => absurd ((h.2 hne).trans hptr) hne⟩
      | _ => exact h

theorem ThreadFacts.of_data_eq_none (h : PcFacts ids sh p) (hdata : p.data = none) :
    ThreadFacts ids sh p := by
  refine ⟨h, fun data hp => ?_⟩
  rw [hdata] at hp
  cases hp

theorem concurrency_eq_length (hsh : SharedFacts ids sh) (hne : sh.physicalConcurrency ≠ 0) :
    sh.physicalConcurrency = ids.length := hsh.concurrency.resolve_left hne

/-- What a thread knows after its step, and what it returns. -/
theorem own_of_threadStep (h : threadStep ids sh p choice = some (sh', p', as))
    (hsh : SharedFacts ids sh) (hp : ThreadFacts ids sh p) :
    ThreadFacts ids sh' p' ∧ ∀ a ∈ as, AnswerFacts ids sh' a := by
  cases p with
  | idle =>
      cases h
      exact ⟨.of_data_eq_none trivial rfl, by simp⟩
  | load query =>
      cases query with
      | physicalConcurrency =>
          simp only [threadStep] at h
          split at h
          · cases h
            exact ⟨.of_data_eq_none trivial rfl, by simp⟩
          · next hne =>
              cases h
              exact ⟨.of_data_eq_none trivial rfl, by
                simpa [AnswerFacts] using concurrency_eq_length hsh hne⟩
      | physicalCoreIds =>
          cases h
          exact ⟨.of_data_eq_none hsh.concurrency rfl, by simp⟩
  | loadPtr n =>
      simp only [threadStep] at h
      split at h
      · cases h
        exact ⟨.of_data_eq_none trivial rfl, by simp⟩
      · next hloaded =>
          cases h
          obtain ⟨hn, -⟩ := not_or.1 hloaded
          refine ⟨.of_data_eq_none trivial rfl, ?_⟩
          simpa [AnswerFacts] using hp.pc.resolve_left hn
  | initLoad query =>
      simp only [threadStep] at h
      split at h
      · cases h
        exact ⟨.of_data_eq_none trivial rfl, by simp⟩
      · next hne =>
          cases h
          exact ⟨.of_data_eq_none (concurrency_eq_length hsh hne) rfl, by simp⟩
  | initFunc query =>
      simp only [threadStep] at h
      split at h
      · next hfree =>
          cases h
          refine ⟨⟨?_, fun data hdata => ?_⟩, by simp⟩
          · rintro hptr
            have halive := (hsh.published (hptr ▸ hfree.1)).2
            dsimp only at hptr
            rw [← hptr, hfree.2] at halive
            cases halive
          · obtain rfl := Option.some.inj hdata
            exact ⟨hfree.1, Function.update_self _ _ _⟩
      · cases h
  | initStore query data =>
      cases h
      exact ⟨⟨⟨rfl, hp.pc⟩, hp.data⟩, by simp⟩
  | initCompareExchange query data =>
      simp only [threadStep] at h
      split at h
      · next hptr =>
          cases h
          exact ⟨⟨⟨rfl, hsh.unpublished hptr⟩, hp.data⟩, by simp⟩
      · next hptr =>
          cases h
          exact ⟨⟨⟨hptr, hp.pc.2⟩, hp.data⟩, by simp⟩
  | initMove query data =>
      cases h
      have hptr : sh.coreThreadIdsPtr ≠ nullptr := hp.pc.1 ▸ (hp.data data rfl).1
      exact ⟨.of_data_eq_none (hsh.published hptr).1 rfl, by simp⟩
  | initDestroy query data =>
      cases h
      exact ⟨.of_data_eq_none (hsh.published hp.pc.1).1 rfl, by simp⟩
  | reload query =>
      have hlength : sh.physicalConcurrency = ids.length := hp.pc
      cases query with
      | physicalConcurrency =>
          cases h
          exact ⟨.of_data_eq_none trivial rfl, by simpa [AnswerFacts] using hlength⟩
      | physicalCoreIds =>
          cases h
          exact ⟨.of_data_eq_none ⟨hlength, hlength⟩ rfl, by simp⟩
  | reloadPtr n =>
      cases h
      exact ⟨.of_data_eq_none trivial rfl, by simpa [AnswerFacts] using hp.pc.1⟩

theorem kept (ids : List ℤ) : Kept (threadStep ids) (SharedFacts ids) (ThreadFacts ids) Apart
    (AnswerFacts ids) where
  symm _ _ h := h.symm
  own _ _ _ _ _ _ h hsh hp :=
    ⟨hsh.change (change_of_threadStep h) hp, own_of_threadStep h hsh hp⟩
  others _ _ _ _ _ _ _ h _ hp hq hapart := hp.change (change_of_threadStep h) hq hapart
  answers _ _ _ _ _ _ _ h _ _ ha := ha.change (change_of_threadStep h)

theorem inv_initial {s : State ι Shared Pc Answer} (h : Initial s) :
    Inv (SharedFacts ids) (ThreadFacts ids) Apart (AnswerFacts ids) s where
  shared := by
    refine ⟨.inl h.physicalConcurrency_eq, fun hptr => ?_, fun _ => h.coreThreadIds_eq⟩
    exact absurd h.coreThreadIdsPtr_eq hptr
  thread t := by
    rw [h.thread_eq]
    exact .of_data_eq_none trivial rfl
  apart t u _ := by
    rw [h.thread_eq]
    rintro data ⟨⟩
  answer a ha := by
    rw [h.answers_eq] at ha
    cases ha

/-- A span without elements but with a size -/
def Answer.IsNull : Answer → Prop
  | .concurrency _ => False
  | .coreIds data _ => data = nullptr

/-- A null pointer is returned just by those calls that load it in the window. -/
theorem exists_isNull_iff (hids : ids ≠ []) (h : threadStep ids sh p choice = some (sh', p', as))
    (hp : ThreadFacts ids sh p) : (∃ a ∈ as, a.IsNull) ↔ ReloadsInWindow sh p := by
  cases p with
  | reloadPtr n =>
      cases h
      have hne : sh.physicalConcurrency ≠ 0 := by
        rw [hp.pc.2]
        exact mt List.length_eq_zero_iff.1 hids
      simp [Answer.IsNull, ReloadsInWindow, Window, hne]
  | load query =>
      cases query with
      | physicalConcurrency =>
          simp only [threadStep] at h
          split at h <;> cases h <;> simp [Answer.IsNull, ReloadsInWindow]
      | physicalCoreIds =>
          cases h
          simp [ReloadsInWindow]
  | loadPtr n =>
      simp only [threadStep] at h
      split at h
      · cases h
        simp [ReloadsInWindow]
      · next hloaded =>
          cases h
          simpa [Answer.IsNull, ReloadsInWindow] using (not_or.1 hloaded).2
  | reload query =>
      cases query with
      | physicalConcurrency =>
          cases h
          simp [Answer.IsNull, ReloadsInWindow]
      | physicalCoreIds =>
          cases h
          simp [ReloadsInWindow]
  | idle =>
      cases h
      simp [ReloadsInWindow]
  | initStore query data =>
      cases h
      simp [ReloadsInWindow]
  | initMove query data =>
      cases h
      simp [ReloadsInWindow]
  | initDestroy query data =>
      cases h
      simp [ReloadsInWindow]
  | initLoad query =>
      simp only [threadStep] at h
      split at h <;> cases h <;> simp [ReloadsInWindow]
  | initFunc query =>
      simp only [threadStep] at h
      split at h <;> cases h
      simp [ReloadsInWindow]
  | initCompareExchange query data =>
      simp only [threadStep] at h
      split at h <;> cases h <;> simp [ReloadsInWindow]

/-- An answer is right unless it is a null pointer. -/
theorem AnswerFacts.right_iff {a : Answer} (hsh : SharedFacts ids sh) (h : AnswerFacts ids sh a) :
    a.Right ids sh ↔ ¬ a.IsNull := by
  cases a with
  | concurrency n => exact ⟨fun _ => id, fun _ => h⟩
  | coreIds data size =>
      refine ⟨fun hright => hright.2.1, fun hne => ⟨h.1, hne, ?_⟩⟩
      have hdata := h.2 hne
      rw [hdata] at hne ⊢
      exact (hsh.published hne).2

/-- In each run of any number of threads: all that has been returned is right, and the list
is still alive, if and only if no call of `physical_core_ids()` has loaded the pointer for
the second time while the number had been published and the list had not. -/
theorem publication_iff [DecidableEq ι] (hids : ids ≠ []) {s s' : State ι Shared Pc Answer}
    (hs : Initial s) {schedule : List (ι × Choice)}
    (hrun : run (threadStep ids) s schedule = some s') :
    (∀ a ∈ s'.answers, a.Right ids s'.shared) ↔
      ¬ Somewhere (threadStep ids) ReloadsInWindow s schedule := by
  have hinv : Inv (SharedFacts ids) (ThreadFacts ids) Apart (AnswerFacts ids) s' :=
    (inv_initial hs).run (kept ids) hrun
  have hiff : (∃ a ∈ s'.answers, a.IsNull) ↔ (∃ a ∈ s.answers, a.IsNull) ∨
      Somewhere (threadStep ids) ReloadsInWindow s schedule :=
    exists_answer_iff (kept ids) (fun _ _ _ _ _ _ h _ hp => exists_isNull_iff hids h hp)
      (inv_initial hs) hrun
  rw [hs.answers_eq] at hiff
  have hnull : (∃ a ∈ s'.answers, a.IsNull) ↔
      Somewhere (threadStep ids) ReloadsInWindow s schedule := by simpa using hiff
  rw [← hnull, not_exists]
  refine forall_congr' fun a => ?_
  rw [not_and]
  exact imp_congr_right fun ha => (hinv.answer a ha).right_iff hinv.shared

def twoThreads : State Bool Shared Pc Answer :=
  ⟨⟨0, nullptr, nullptr, fun _ => none⟩, fun _ => .idle, []⟩

theorem twoThreads_initial : Initial twoThreads := ⟨rfl, rfl, rfl, fun _ => rfl, fun _ => rfl, rfl⟩

/-- Steps of a thread that calls `physical_core_ids()`, with a vector at 4096. -/
def stepsOf (t : Bool) (n : ℕ) : List (Bool × Choice) :=
  List.replicate n (t, ⟨.physicalCoreIds, 4096⟩)

/-- Two calls at the same time, both of which compute the list. The second one does so while
only the number has been published, and destroys its list again. -/
def overlappingCalls : List (Bool × Choice) :=
  stepsOf true 4 ++ stepsOf false 6 ++ [(true, ⟨.physicalCoreIds, 8192⟩)] ++ stepsOf false 1 ++
    stepsOf true 5 ++ stepsOf false 3

theorem twoThreads_publication_iff :
    ∃ s', run (threadStep [0]) twoThreads overlappingCalls = some s' ∧
      s'.answers = [.coreIds 4096 1, .coreIds 4096 1] ∧
      (∀ a ∈ s'.answers, a.Right [0] s'.shared) ∧
      ¬ Somewhere (threadStep [0]) ReloadsInWindow twoThreads overlappingCalls := by
  obtain ⟨s', hrun, hanswers, halive⟩ : ∃ s', run (threadStep [0]) twoThreads overlappingCalls =
      some s' ∧ s'.answers = [.coreIds 4096 1, .coreIds 4096 1] ∧
        s'.shared.elements 4096 = some [0] := ⟨_, rfl, rfl, rfl⟩
  have hright : ∀ a ∈ s'.answers, a.Right [0] s'.shared := by
    simp [hanswers, Answer.Right, halive, nullptr]
  exact ⟨s', hrun, hanswers, hright,
    (publication_iff (by simp) twoThreads_initial hrun).1 hright⟩

/-- The first thread has published the number, when the second thread calls
`physical_core_ids()`. -/
theorem not_right_twoThreads :
    ∃ s', run (threadStep [0]) twoThreads (stepsOf false 6 ++ stepsOf true 6) = some s' ∧
      s'.answers = [.coreIds nullptr 1] ∧ ¬ ∀ a ∈ s'.answers, a.Right [0] s'.shared :=
  ⟨_, rfl, rfl, fun h => (h (.coreIds nullptr 1) (List.mem_singleton_self _)).2.1 rfl⟩

end Patton.CpuInfo
