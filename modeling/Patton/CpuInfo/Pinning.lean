import Patton.CpuInfo.CoreIds
import Patton.ThreadSquad.SpanningTree

/-!
# One pinned thread for each core

A thread squad with `physical_concurrency()` threads, pinned to the hardware threads in
`physical_core_ids()`: the contract checks on the way to the CPU set of each worker. The
workers are forked along the wake tree, so that those checks fail as well if the tree is
broken and hands a worker to two others.
-/

namespace Patton.CpuInfo

open ThreadSquad (Nested IsSpanningTree wakeEdges mem_wakeEdges wakes_parentOff
  isSpanningTree_of_stridesDivide stridesDivide_of_isSpanningTree)

inductive Violation
  | narrowFailfast
  | checkParams
  | getHardwareThreadId
  | haveThreadHandle
  | setCpuFlag
  deriving DecidableEq

def expects (v : Violation) (condition : Prop) [Decidable condition] : Except Violation Unit :=
  if condition then .ok () else .error v

/-- `gsl::narrow_failfast<int>`, from an unsigned type -/
def narrowToInt (n : ℕ) : Except Violation ℤ :=
  if (n : ℤ) ≤ intMax then .ok n else .error .narrowFailfast

/-- `gsl::narrow_failfast<std::size_t>`, from `int` -/
def narrowToSize (n : ℤ) : Except Violation ℕ :=
  if 0 ≤ n then .ok n.toNat else .error .narrowFailfast

/-- `thread_squad::params` -/
structure Params where
  numThreads : ℤ := 0
  pinToHardwareThreads : Bool := false
  maxNumHardwareThreads : ℤ := 0
  hardwareThreadMappings : List ℤ := []

def checkParams (p : Params) : Except Violation Unit := do
  expects .checkParams (p.numThreads ≥ 0)
  expects .checkParams (p.maxNumHardwareThreads ≥ 0)
  expects .checkParams (p.numThreads = 0 ∨ p.maxNumHardwareThreads ≤ p.numThreads)
  expects .checkParams (p.hardwareThreadMappings = [] ∨
    p.maxNumHardwareThreads ≤ p.hardwareThreadMappings.length ∧
      p.numThreads ≤ p.hardwareThreadMappings.length)

/-- `create`, up to the constructor of the implementation: placeholders are replaced. -/
def create (hardwareConcurrency : ℕ) (p : Params) : Except Violation Params := do
  let hardwareConcurrency ← narrowToInt hardwareConcurrency
  let numThreads := if p.numThreads = 0 then hardwareConcurrency else p.numThreads
  let maxNumHardwareThreads ←
    if p.maxNumHardwareThreads = 0 then
      if p.hardwareThreadMappings ≠ [] then narrowToInt p.hardwareThreadMappings.length
      else pure hardwareConcurrency
    else pure p.maxNumHardwareThreads
  pure { p with
    numThreads := numThreads
    maxNumHardwareThreads := min maxNumHardwareThreads hardwareConcurrency }

def getHardwareThreadId (threadIdx maxNumHardwareThreads : ℤ) (hardwareThreadMappings : List ℤ) :
    Except Violation ℕ := do
  expects .getHardwareThreadId (threadIdx ≥ 0)
  expects .getHardwareThreadId (maxNumHardwareThreads > 0)
  expects .getHardwareThreadId (hardwareThreadMappings = [] ∨
    maxNumHardwareThreads ≤ hardwareThreadMappings.length)
  let subidx := threadIdx % maxNumHardwareThreads
  narrowToSize (if hardwareThreadMappings ≠ [] then hardwareThreadMappings.getD subidx.toNat 0
    else subidx)

structure OsThread where
  haveThreadHandle : Bool := false
  coreAffinity : ℕ := 2 ^ 64 - 1
  deriving DecidableEq

def OsThread.setCoreAffinity (t : OsThread) (coreAffinity : ℕ) : Except Violation OsThread := do
  expects .haveThreadHandle (t.haveThreadHandle = false)
  pure { t with coreAffinity := coreAffinity }

/-- The constructor of `thread_squad_impl`: what it does to worker `i`. -/
def pinWorker (p : Params) (i : ℕ) : Except Violation OsThread :=
  if p.pinToHardwareThreads then do
    let coreAffinity ← getHardwareThreadId i p.maxNumHardwareThreads p.hardwareThreadMappings
    OsThread.setCoreAffinity {} coreAffinity
  else pure {}

/-- `cpu_set`, with the flags that are set -/
structure CpuSet where
  cpuCount : ℕ
  flags : List ℕ
  deriving DecidableEq

def CpuSet.setCpuFlag (s : CpuSet) (coreIdx : ℕ) : Except Violation CpuSet := do
  expects .setCpuFlag (coreIdx < s.cpuCount)
  pure { s with flags := coreIdx :: s.flags }

/-- `fork`: the CPU set of the new thread, if it is pinned. -/
def OsThread.fork (hardwareConcurrency : ℕ) (t : OsThread) : Except Violation (Option CpuSet) := do
  expects .haveThreadHandle (t.haveThreadHandle = false)
  if t.coreAffinity ≠ 2 ^ 64 - 1 then
    some <$> CpuSet.setCpuFlag ⟨hardwareConcurrency, []⟩ t.coreAffinity
  else pure none

/-- The workers that are woken and forked in the first run: worker `0`, and what the others
hand to `fork_thread`. -/
def forkTargets (numThreads : ℕ) : List ℕ :=
  if numThreads = 0 then [] else 0 :: (wakeEdges numThreads).map Prod.snd

/-- The forks of the first run, with the CPU sets. A worker that is handed over again has a
thread handle by then, unless the check of its signal has failed before. -/
def forkWorkers (hardwareConcurrency : ℕ) (workers : List OsThread) :
    List ℕ → Except Violation (List (ℕ × Option CpuSet))
  | [] => .ok []
  | i :: targets => do
      let t := workers.getD i {}
      let set ← OsThread.fork hardwareConcurrency t
      let sets ← forkWorkers hardwareConcurrency
        (workers.set i { t with haveThreadHandle := true }) targets
      pure ((i, set) :: sets)

/-- The example of the documentation: the squad is constructed and run. -/
def runPinned (hardwareConcurrency : ℕ) (info : Detected) :
    Except Violation (List (ℕ × Option CpuSet)) := do
  let numThreads ← narrowToInt info.physicalConcurrency
  let p : Params :=
    { numThreads, pinToHardwareThreads := true, hardwareThreadMappings := info.coreThreadIds }
  checkParams p
  let p ← create hardwareConcurrency p
  let workers ← (List.range p.numThreads.toNat).mapM (pinWorker p)
  forkWorkers hardwareConcurrency workers (forkTargets p.numThreads.toNat)

/-- A computation that succeeds has a first step that succeeds. -/
theorem exists_of_bind_eq_ok {ε β γ : Type _} {x : Except ε β} {f : β → Except ε γ} {y : γ}
    (h : x.bind f = .ok y) : ∃ a, x = .ok a ∧ f a = .ok y := by
  cases x with
  | error e => cases h
  | ok a => exact ⟨a, rfl, h⟩

section Lists

variable {ε β γ : Type*} {f : β → Except ε γ} {g : β → γ} {l : List β}

theorem mapM_eq_ok (h : ∀ x ∈ l, f x = .ok (g x)) : l.mapM f = .ok (l.map g) := by
  induction l with
  | nil => rfl
  | cons x l ih =>
      rw [List.mapM_cons, h x List.mem_cons_self,
        ih fun x hx => h x (List.mem_cons_of_mem _ hx)]
      rfl

end Lists

variable {n i id : ℕ} {ids : List ℤ} {t : OsThread} {info : Detected}

theorem expects_of (v : Violation) {condition : Prop} [Decidable condition] (h : condition) :
    expects v condition = .ok () := if_pos h

theorem narrowToInt_of_le (h : (n : ℤ) ≤ intMax) : narrowToInt n = .ok n := if_pos h

theorem of_narrowToInt_eq_ok {m : ℤ} (h : narrowToInt n = .ok m) : m = n ∧ (n : ℤ) ≤ intMax := by
  rw [narrowToInt] at h
  split at h
  · next hle =>
      cases h
      exact ⟨rfl, hle⟩
  · cases h

theorem narrowToSize_of_nonneg {m : ℤ} (h : 0 ≤ m) : narrowToSize m = .ok m.toNat := if_pos h

theorem getHardwareThreadId_eq_narrowToSize {threadIdx max : ℤ} (hidx : threadIdx ≥ 0)
    (hmax : max > 0) (hle : ids = [] ∨ max ≤ ids.length) :
    getHardwareThreadId threadIdx max ids = narrowToSize
      (if ids ≠ [] then ids.getD (threadIdx % max).toNat 0 else threadIdx % max) := by
  simp only [getHardwareThreadId, bind, Except.bind]
  rw [expects_of _ hidx, expects_of _ hmax, expects_of _ hle]

/-- With as many mappings as threads, each worker gets its own mapping. -/
theorem getHardwareThreadId_eq (h : i < ids.length) (hnonneg : 0 ≤ ids[i]) :
    getHardwareThreadId i ids.length ids = .ok ids[i].toNat := by
  have hne : ids ≠ [] := List.ne_nil_of_length_pos (by omega)
  have hmod : ((i : ℤ) % (ids.length : ℤ)).toNat = i := by
    rw [Int.emod_eq_of_lt (by omega) (by omega), Int.toNat_natCast]
  have hget : ids.getD i 0 = ids[i] := by simp [List.getD_eq_getElem?_getD, h]
  rw [getHardwareThreadId_eq_narrowToSize (by omega) (by omega) (.inr le_rfl), if_pos hne, hmod,
    hget, narrowToSize_of_nonneg hnonneg]

/-- A new thread is pinned if its core index is small enough. -/
theorem fork_eq (hid : id ≠ 2 ^ 64 - 1) : OsThread.fork n ⟨false, id⟩ =
    if id < n then .ok (some ⟨n, [id]⟩) else .error .setCpuFlag := by
  simp only [OsThread.fork, bind, Except.bind, CpuSet.setCpuFlag]
  rw [expects_of _ trivial]
  dsimp only
  rw [if_pos hid]
  by_cases h : id < n
  · rw [expects_of _ h, if_pos h]
    rfl
  · rw [expects, if_neg h, if_neg h]
    rfl

theorem pinWorker_eq {p : Params} (hpin : p.pinToHardwareThreads = true)
    (hmax : p.maxNumHardwareThreads = p.hardwareThreadMappings.length)
    (h : i < p.hardwareThreadMappings.length) (hnonneg : 0 ≤ p.hardwareThreadMappings[i]) :
    pinWorker p i = .ok ⟨false, p.hardwareThreadMappings[i].toNat⟩ := by
  rw [pinWorker, if_pos hpin, hmax, getHardwareThreadId_eq h hnonneg]
  rfl

def pinnedParams (ids : List ℤ) : Params :=
  ⟨ids.length, true, ids.length, ids⟩

theorem create_eq (hn : (n : ℤ) ≤ intMax) (hids : ids.length ≤ n) (hempty : ids = [] → n = 0) :
    create n ⟨ids.length, true, 0, ids⟩ = .ok (pinnedParams ids) := by
  have hlength : (ids.length : ℤ) ≤ intMax := by omega
  have hmin : min (ids.length : ℤ) n = ids.length := min_eq_left (by omega)
  simp only [create, bind, Except.bind, pure, Except.pure, narrowToInt_of_le hn,
    narrowToInt_of_le hlength, if_true]
  by_cases h : ids = []
  · subst h
    rw [hempty rfl]
    rfl
  · simp [h, hmin, pinnedParams]

/-- The first thing that `create` does is to convert `hardware_concurrency()`. -/
theorem le_of_runPinned_eq_ok {sets : List (ℕ × Option CpuSet)} (h : runPinned n info = .ok sets) :
    (n : ℤ) ≤ intMax := by
  obtain ⟨numThreads, -, h⟩ := exists_of_bind_eq_ok h
  obtain ⟨u, -, h⟩ := exists_of_bind_eq_ok h
  obtain ⟨p, hcreate, -⟩ := exists_of_bind_eq_ok h
  obtain ⟨m, hm, -⟩ := exists_of_bind_eq_ok hcreate
  exact (of_narrowToInt_eq_ok hm).2

/-- The checks up to the construction of the squad pass. -/
theorem runPinned_eq (hn : (n : ℤ) ≤ intMax) (hids : info.coreThreadIds.length ≤ n)
    (hempty : info.coreThreadIds = [] → n = 0)
    (hconcurrency : info.physicalConcurrency = info.coreThreadIds.length)
    (hnonneg : ∀ id ∈ info.coreThreadIds, 0 ≤ id) :
    runPinned n info =
      forkWorkers n (info.coreThreadIds.map fun id => OsThread.mk false id.toNat)
        (forkTargets info.coreThreadIds.length) := by
  have hlength : (info.coreThreadIds.length : ℤ) ≤ intMax := by omega
  have hcheck : checkParams ⟨info.coreThreadIds.length, true, 0, info.coreThreadIds⟩ = .ok () := by
    simp only [checkParams, bind, Except.bind]
    rw [expects_of _ (by omega), expects_of _ (by omega), expects_of _ (by omega)]
    exact expects_of _ (.inr ⟨by omega, le_rfl⟩)
  have hpin : (List.range info.coreThreadIds.length).mapM
      (pinWorker (pinnedParams info.coreThreadIds)) =
      .ok (info.coreThreadIds.map fun id => OsThread.mk false id.toNat) := by
    have hmap : info.coreThreadIds.map (fun id => OsThread.mk false id.toNat) =
        (List.range info.coreThreadIds.length).map fun i =>
          OsThread.mk false (info.coreThreadIds.getD i 0).toNat := by
      refine List.ext_getElem (by simp) fun i hi hi' => ?_
      have h : i < info.coreThreadIds.length := by simpa using hi
      simp [List.getD_eq_getElem?_getD, h]
    rw [hmap]
    refine mapM_eq_ok fun i hi => ?_
    have h : i < info.coreThreadIds.length := List.mem_range.1 hi
    have hget : info.coreThreadIds.getD i 0 = info.coreThreadIds[i] := by
      simp [List.getD_eq_getElem?_getD, h]
    rw [hget]
    exact pinWorker_eq rfl rfl h (hnonneg _ (List.getElem_mem h))
  simp only [runPinned, hconcurrency, narrowToInt_of_le hlength, bind, Except.bind, hcheck,
    create_eq hn hids hempty]
  rw [show (pinnedParams info.coreThreadIds).numThreads.toNat = info.coreThreadIds.length from
    Int.toNat_natCast _, hpin]

/-- Every worker is a target. -/
theorem mem_forkTargets (hn : 0 < n) : i ∈ forkTargets n ↔ i < n := by
  rw [forkTargets, if_neg hn.ne', List.mem_cons, List.mem_map]
  constructor
  · rintro (rfl | ⟨⟨t, i⟩, hedge, rfl⟩)
    · exact hn
    · exact (mem_wakeEdges.1 hedge).2.2
  · intro hi
    rcases Nat.eq_zero_or_pos i with rfl | hpos
    · exact .inl rfl
    · have hwakes := wakes_parentOff hpos hi
      exact .inr ⟨_, mem_wakeEdges.2 ⟨hwakes.1.trans hi, hwakes, hi⟩, rfl⟩

/-- No worker is a target twice if and only if the wake ranges nest. -/
theorem forkTargets_nodup_iff (hn : 0 < n) : (forkTargets n).Nodup ↔ Nested n := by
  have hpos : ∀ {t i : ℕ}, (t, i) ∈ wakeEdges n → 0 < i ∧ i < n := fun hedge => by
    obtain ⟨-, hwakes, hi⟩ := mem_wakeEdges.1 hedge
    exact ⟨Nat.lt_of_le_of_lt (Nat.zero_le _) hwakes.1, hi⟩
  have hroot : 0 ∉ (wakeEdges n).map Prod.snd := by
    rintro hmem
    obtain ⟨⟨t, i⟩, hedge, rfl⟩ := List.mem_map.1 hmem
    exact absurd (hpos hedge).1 (lt_irrefl 0)
  rw [forkTargets, if_neg hn.ne', List.nodup_cons, and_iff_right hroot]
  constructor
  · intro hnodup
    refine (stridesDivide_of_isSpanningTree ⟨fun i hi hlt => ?_, ?_⟩).nested
    · have hwakes := wakes_parentOff hi hlt
      exact List.count_eq_one_of_mem hnodup
        (List.mem_map.2 ⟨_, mem_wakeEdges.2 ⟨hwakes.1.trans hlt, hwakes, hlt⟩, rfl⟩)
    · rintro ⟨t, i⟩ hedge
      exact ⟨(mem_wakeEdges.1 hedge).2.1.1, hpos hedge⟩
  · intro hnested
    have htree := isSpanningTree_of_stridesDivide (hnested.stridesDivide hn)
    refine List.nodup_iff_count_le_one.2 fun i => ?_
    by_cases hmem : i ∈ (wakeEdges n).map Prod.snd
    · obtain ⟨⟨t, i⟩, hedge, rfl⟩ := List.mem_map.1 hmem
      exact (htree.1 i (hpos hedge).1 (hpos hedge).2).le
    · rw [List.count_eq_zero.2 hmem]
      exact Nat.zero_le 1

theorem forkTargets_perm (hn : 0 < n) (h : Nested n) : (forkTargets n).Perm (List.range n) := by
  refine (List.perm_ext_iff_of_nodup ((forkTargets_nodup_iff hn).2 h) List.nodup_range).2
    fun i => ?_
  rw [mem_forkTargets hn, List.mem_range]

theorem getD_set_of_ne {workers : List OsThread} {i j : ℕ} (h : i ≠ j) (t : OsThread) :
    (workers.set i t).getD j {} = workers.getD j {} := by
  rw [List.getD_eq_getElem?_getD, List.getD_eq_getElem?_getD, List.getElem?_set_ne h]

theorem forkWorkers_eq_ok {workers : List OsThread} {targets : List ℕ} {g : ℕ → Option CpuSet}
    (hnodup : targets.Nodup)
    (hfork : ∀ i ∈ targets, OsThread.fork n (workers.getD i {}) = .ok (g i)) :
    forkWorkers n workers targets = .ok (targets.map fun i => (i, g i)) := by
  induction targets generalizing workers with
  | nil => rfl
  | cons i targets ih =>
      obtain ⟨hi, hnodup⟩ := List.nodup_cons.1 hnodup
      have hrest : ∀ j ∈ targets, ∀ t,
          OsThread.fork n ((workers.set i t).getD j {}) = .ok (g j) := by
        intro j hj t
        rw [getD_set_of_ne (ne_of_mem_of_not_mem hj hi).symm]
        exact hfork j (List.mem_cons_of_mem _ hj)
      simp only [forkWorkers, bind, Except.bind, hfork i List.mem_cons_self,
        ih hnodup fun j hj => hrest j hj _]
      rfl

/-- A worker with a thread handle is not forked again. -/
theorem of_forkWorkers_eq_ok {workers : List OsThread} {targets : List ℕ}
    {sets : List (ℕ × Option CpuSet)} (h : forkWorkers n workers targets = .ok sets)
    (hlt : ∀ i ∈ targets, i < workers.length) :
    targets.Nodup ∧ ∀ i ∈ targets, ∃ set, OsThread.fork n (workers.getD i {}) = .ok set := by
  induction targets generalizing workers sets with
  | nil => exact ⟨List.nodup_nil, List.forall_mem_nil _⟩
  | cons i targets ih =>
      obtain ⟨set, hset, h⟩ := exists_of_bind_eq_ok h
      obtain ⟨sets', hsets', -⟩ := exists_of_bind_eq_ok h
      obtain ⟨hnodup, hforks⟩ := ih hsets' fun j hj => by
        rw [List.length_set]
        exact hlt j (List.mem_cons_of_mem _ hj)
      have hi : i ∉ targets := by
        intro hmem
        obtain ⟨set', hset'⟩ := hforks i hmem
        have hlen := hlt i List.mem_cons_self
        rw [List.getD_eq_getElem?_getD, List.getElem?_set_self hlen] at hset'
        cases hset'
      refine ⟨List.nodup_cons.2 ⟨hi, hnodup⟩, fun j hj => ?_⟩
      rcases List.mem_cons.1 hj with rfl | hj
      · exact ⟨set, hset⟩
      · obtain ⟨set', hset'⟩ := hforks j hj
        rw [getD_set_of_ne (ne_of_mem_of_not_mem hj hi).symm] at hset'
        exact ⟨set', hset'⟩

variable {rs : List Record} {r r' : Record}

/-- A record has the smallest processor id of its core. -/
def Record.First (rs : List Record) (r : Record) : Prop :=
  ∀ r' ∈ rs, r'.coreId = r.coreId → r'.physicalId = r.physicalId → r.processor ≤ r'.processor

/-- What `initFunc` makes of complete records. -/
def detectedOf (rs : List Record) : Detected :=
  ⟨(uniqueCoreIds (triplesOf rs)).length,
    ((uniqueCoreIds (triplesOf rs)).map PhysicalCoreId.processor).insertionSort (· ≤ ·)⟩

theorem detect_eq_detectedOf (hrs : (rs.map Record.processor).Nodup) (h : ∀ r ∈ rs, r.Complete) :
    detect (linesOf rs) = .ok (detectedOf rs) :=
  detect_of_complete hrs fun r hr => h r (List.mem_of_mem_dropLast hr)

theorem Record.exists_triple (h : r.Complete) : ∃ a, r.triple = some a ∧
    a.processor = r.processor ∧ some a.coreId = r.coreId ∧ some a.physicalId = r.physicalId := by
  obtain ⟨c, p, hc, hp, ht⟩ := Record.triple_of_complete h
  exact ⟨_, ht, rfl, hc.symm, hp.symm⟩

theorem Record.eq_of_triple {a : PhysicalCoreId} (h : r.triple = some a) :
    a.processor = r.processor ∧ some a.coreId = r.coreId ∧ some a.physicalId = r.physicalId := by
  rw [Record.triple] at h
  split at h
  · next c p hc hp =>
      cases h
      exact ⟨rfl, hc.symm, hp.symm⟩
  · cases h

/-- The published list holds the first processors of the cores. -/
theorem mem_coreThreadIds_iff (hrs : (rs.map Record.processor).Nodup)
    (h : ∀ r ∈ rs, r.Complete) (id : ℤ) : id ∈ (detectedOf rs).coreThreadIds ↔
      ∃ r ∈ rs, r.processor = id ∧ r.First rs := by
  rw [detectedOf,
    (describes (hrs.sublist (map_processor_triplesOf_sublist rs))).mem_coreThreadIds_iff]
  constructor
  · rintro ⟨a, ha, rfl, hleast⟩
    obtain ⟨r, hr, ht⟩ := mem_triplesOf_iff.1 ha
    obtain ⟨hprocessor, hcore, hphysical⟩ := Record.eq_of_triple ht
    refine ⟨r, hr, hprocessor.symm, fun r' hr' hcore' hphysical' => ?_⟩
    obtain ⟨b, hb, hbprocessor, hbcore, hbphysical⟩ := Record.exists_triple (h r' hr')
    rw [← hprocessor, ← hbprocessor]
    refine hleast b (mem_triplesOf_iff.2 ⟨r', hr', hb⟩) ?_ ?_
    · exact Option.some.inj (hbcore.trans (hcore'.trans hcore.symm))
    · exact Option.some.inj (hbphysical.trans (hphysical'.trans hphysical.symm))
  · rintro ⟨r, hr, rfl, hfirst⟩
    obtain ⟨a, ha, hprocessor, hcore, hphysical⟩ := Record.exists_triple (h r hr)
    refine ⟨a, mem_triplesOf_iff.2 ⟨r, hr, ha⟩, hprocessor, fun b hb hbcore hbphysical => ?_⟩
    obtain ⟨r', hr', ht⟩ := mem_triplesOf_iff.1 hb
    obtain ⟨hprocessor', hcore', hphysical'⟩ := Record.eq_of_triple ht
    rw [hprocessor']
    refine hfirst r' hr' ?_ ?_
    · rw [← hcore', hbcore, hcore]
    · rw [← hphysical', hbphysical, hphysical]

theorem length_coreThreadIds (rs : List Record) :
    (detectedOf rs).coreThreadIds.length = (detectedOf rs).physicalConcurrency := by
  simp [detectedOf]

theorem length_coreThreadIds_le (rs : List Record) :
    (detectedOf rs).coreThreadIds.length ≤ rs.length := by
  have hunique : (uniqueCoreIds (triplesOf rs)).length ≤ (triplesOf rs).length := by
    have hle := (List.destutter_sublist (fun a b => ¬ PhysicalCoreId.eq a b = true)
      ((triplesOf rs).insertionSort fun a b => PhysicalCoreId.lt b a = false)).length_le
    rwa [List.length_insertionSort] at hle
  have htriples : (triplesOf rs).length ≤ rs.length := List.length_filterMap_le _ _
  rw [length_coreThreadIds]
  exact hunique.trans htriples

theorem coreThreadIds_eq_nil (h : ∀ r ∈ rs, r.Complete)
    (hnil : (detectedOf rs).coreThreadIds = []) : rs = [] := by
  refine List.eq_nil_iff_forall_not_mem.2 fun r hr => ?_
  obtain ⟨a, ha, -⟩ := Record.exists_triple (h r hr)
  obtain ⟨b, hb, -⟩ :=
    SortUnique.exists_mem_sortUnique grouped (mem_triplesOf_iff.2 ⟨r, hr, ha⟩)
  have hlength := List.length_pos_of_mem hb
  have hzero : (detectedOf rs).physicalConcurrency = 0 := by
    rw [← length_coreThreadIds, hnil]
    rfl
  exact hlength.ne' hzero

def numCores (rs : List Record) : ℕ :=
  (rs.map fun r => (r.coreId, r.physicalId)).toFinset.card

theorem physicalConcurrency_eq_numCores (h : ∀ r ∈ rs, r.Complete) :
    (detectedOf rs).physicalConcurrency = numCores rs := by
  have hcores : (triplesOf rs).map (fun a => (some a.coreId, some a.physicalId)) =
      rs.map fun r => (r.coreId, r.physicalId) := by
    induction rs with
    | nil => rfl
    | cons r rs ih =>
        obtain ⟨a, ha, -, hcore, hphysical⟩ := Record.exists_triple (h r List.mem_cons_self)
        rw [triplesOf, List.filterMap_cons_some ha, List.map_cons, List.map_cons, hcore,
          hphysical]
        exact congrArg _ (ih fun r hr => h r (List.mem_cons_of_mem _ hr))
  have hinj : Function.Injective fun core : ℤ × ℤ => (some core.1, some core.2) := by
    rintro ⟨c, p⟩ ⟨c', p'⟩ heq
    simpa using heq
  have himage : ((triplesOf rs).map fun a => (some a.coreId, some a.physicalId)).toFinset =
      ((triplesOf rs).map PhysicalCoreId.core).toFinset.image
        fun core => (some core.1, some core.2) := by
    ext core
    simp [PhysicalCoreId.core]
  rw [numCores, ← hcores, himage, Finset.card_image_of_injective _ hinj, detectedOf,
    length_uniqueCoreIds]

/-- Each worker is pinned to one processor, and no two workers to processors of one core. -/
structure PinnedToCores (rs : List Record) (sets : List (Option CpuSet)) : Prop where
  pinned : ∀ s ∈ sets, ∃ r ∈ rs, s = some ⟨rs.length, [r.processor.toNat]⟩
  apart : sets.Pairwise fun s s' => ∀ r ∈ rs, ∀ r' ∈ rs,
    s = some ⟨rs.length, [r.processor.toNat]⟩ → s' = some ⟨rs.length, [r'.processor.toNat]⟩ →
      ¬ (r.coreId = r'.coreId ∧ r.physicalId = r'.physicalId)

/-- The example runs on a machine where `hardware_concurrency()` is the number of records:
each worker is forked once. -/
def RunsPinned (rs : List Record) : Prop :=
  ∃ info sets, detect (linesOf rs) = .ok info ∧ runPinned rs.length info = .ok sets ∧
    (sets.map Prod.fst).Perm (List.range info.physicalConcurrency) ∧
    PinnedToCores rs (sets.map Prod.snd)

/-- The first processor of each core has an id below the number of processors, and this
number is an `int`. The wake ranges of a squad with a worker for each core nest. -/
structure SmallIds (rs : List Record) : Prop where
  length_le : (rs.length : ℤ) ≤ intMax
  processor_lt : ∀ r ∈ rs, r.First rs → r.processor < rs.length
  nested : Nested (numCores rs)

theorem PinnedToCores.perm {sets sets' : List (Option CpuSet)} (h : PinnedToCores rs sets)
    (hperm : sets.Perm sets') : PinnedToCores rs sets' where
  pinned s hs := h.pinned s (hperm.mem_iff.2 hs)
  apart := by
    refine (hperm.pairwise_iff fun hab r hr r' hr' hs hs' hcore => ?_).1 h.apart
    exact hab r' hr' r hr hs' hs ⟨hcore.1.symm, hcore.2.symm⟩

theorem runPinned_detectedOf (hn : (rs.length : ℤ) ≤ intMax)
    (hrs : (rs.map Record.processor).Nodup) (h : ∀ r ∈ rs, r.Complete) :
    runPinned rs.length (detectedOf rs) =
      forkWorkers rs.length ((detectedOf rs).coreThreadIds.map fun id => ⟨false, id.toNat⟩)
        (forkTargets (detectedOf rs).coreThreadIds.length) := by
  refine runPinned_eq hn (length_coreThreadIds_le rs) (fun hnil => ?_)
    (length_coreThreadIds rs).symm fun id hid => ?_
  · rw [coreThreadIds_eq_nil h hnil]
    rfl
  · obtain ⟨r, -, rfl, -⟩ := (mem_coreThreadIds_iff hrs h id).1 hid
    exact r.processor_mem.1

/-- A worker whose processor id is too large is not forked. -/
theorem fork_processor (n : ℕ) (r : Record) :
    OsThread.fork n ⟨false, r.processor.toNat⟩ =
      if r.processor < n then .ok (some ⟨n, [r.processor.toNat]⟩) else .error .setCpuFlag := by
  obtain ⟨hnonneg, hle⟩ := r.processor_mem
  rw [intMax] at hle
  have hiff : r.processor.toNat < n ↔ r.processor < n := by omega
  rw [fork_eq (by omega)]
  simp only [hiff]

/-- The set of one processor belongs to no other one. -/
theorem eq_of_set_eq (hrs : (rs.map Record.processor).Nodup) (hr : r ∈ rs) (hr' : r' ∈ rs)
    (h : (some ⟨rs.length, [r.processor.toNat]⟩ : Option CpuSet) =
      some ⟨rs.length, [r'.processor.toNat]⟩) : r = r' := by
  have hnat : r.processor.toNat = r'.processor.toNat := by simpa using h
  have hnonneg := r.processor_mem.1
  have hnonneg' := r'.processor_mem.1
  exact List.inj_on_of_nodup_map hrs hr hr' (by omega)

theorem pinnedToCores (hrs : (rs.map Record.processor).Nodup) (h : ∀ r ∈ rs, r.Complete) :
    PinnedToCores rs
      ((detectedOf rs).coreThreadIds.map fun id => some ⟨rs.length, [id.toNat]⟩) where
  pinned s hs := by
    obtain ⟨id, hid, rfl⟩ := List.mem_map.1 hs
    obtain ⟨r, hr, rfl, -⟩ := (mem_coreThreadIds_iff hrs h id).1 hid
    exact ⟨r, hr, rfl⟩
  apart := by
    have hascending :=
      (describes (hrs.sublist (map_processor_triplesOf_sublist rs))).ascending
    refine List.pairwise_map.2 (hascending.imp_of_mem ?_)
    rintro id id' hid hid' hlt r hr r' hr' hs hs' ⟨hcore, hphysical⟩
    obtain ⟨r₁, hr₁, rfl, hfirst⟩ := (mem_coreThreadIds_iff hrs h id).1 hid
    obtain ⟨r₂, hr₂, rfl, hfirst'⟩ := (mem_coreThreadIds_iff hrs h id').1 hid'
    obtain rfl := eq_of_set_eq hrs hr₁ hr hs
    obtain rfl := eq_of_set_eq hrs hr₂ hr' hs'
    have hle := hfirst' r₁ hr₁ hcore hphysical
    omega

theorem getD_workers {ids : List ℤ} (hi : i < ids.length) :
    (ids.map fun id => OsThread.mk false id.toNat).getD i {} = ⟨false, ids[i].toNat⟩ := by
  simp [List.getD_eq_getElem?_getD, hi]

/-- On a machine with complete records of different processors, the example runs if and only
if the ids it selects are below the number of processors, and the wake ranges nest. -/
theorem runsPinned_iff (hne : rs ≠ []) (hrs : (rs.map Record.processor).Nodup)
    (h : ∀ r ∈ rs, r.Complete) : RunsPinned rs ↔ SmallIds rs := by
  have hpos : 0 < (detectedOf rs).coreThreadIds.length :=
    List.length_pos_of_ne_nil fun hnil => hne (coreThreadIds_eq_nil h hnil)
  have hcores : (detectedOf rs).coreThreadIds.length = numCores rs :=
    (length_coreThreadIds rs).trans (physicalConcurrency_eq_numCores h)
  constructor
  · rintro ⟨info, sets, hinfo, hsets, -, -⟩
    rw [detect_eq_detectedOf hrs h] at hinfo
    cases hinfo
    have hn := le_of_runPinned_eq_ok hsets
    rw [runPinned_detectedOf hn hrs h] at hsets
    obtain ⟨hnodup, hforks⟩ := of_forkWorkers_eq_ok hsets fun i hi => by
      rw [List.length_map]
      exact (mem_forkTargets hpos).1 hi
    refine ⟨hn, fun r hr hfirst => ?_, hcores ▸ (forkTargets_nodup_iff hpos).1 hnodup⟩
    have hmem : r.processor ∈ (detectedOf rs).coreThreadIds :=
      (mem_coreThreadIds_iff hrs h _).2 ⟨r, hr, rfl, hfirst⟩
    obtain ⟨i, hi, hget⟩ := List.mem_iff_getElem.1 hmem
    obtain ⟨s, hs⟩ := hforks i ((mem_forkTargets hpos).2 hi)
    rw [getD_workers hi, hget, fork_processor] at hs
    by_contra hlt
    rw [if_neg hlt] at hs
    cases hs
  · rintro ⟨hn, hlt, hnested⟩
    rw [← hcores] at hnested
    have hperm := forkTargets_perm hpos hnested
    have hsets : runPinned rs.length (detectedOf rs) =
        .ok ((forkTargets (detectedOf rs).coreThreadIds.length).map fun i =>
          (i, some ⟨rs.length, [((detectedOf rs).coreThreadIds.getD i 0).toNat]⟩)) := by
      rw [runPinned_detectedOf hn hrs h]
      refine forkWorkers_eq_ok ((forkTargets_nodup_iff hpos).2 hnested) fun i hi => ?_
      have hi' := (mem_forkTargets hpos).1 hi
      have hget : (detectedOf rs).coreThreadIds.getD i 0 = (detectedOf rs).coreThreadIds[i] := by
        simp [List.getD_eq_getElem?_getD, hi']
      obtain ⟨r, hr, hprocessor, hfirst⟩ :=
        (mem_coreThreadIds_iff hrs h _).1 (List.getElem_mem hi')
      rw [getD_workers hi', hget, ← hprocessor, fork_processor, if_pos (hlt r hr hfirst)]
    refine ⟨_, _, detect_eq_detectedOf hrs h, hsets, ?_, ?_⟩
    · rw [List.map_map, ← length_coreThreadIds]
      exact (List.map_id' _).symm ▸ hperm
    · refine (pinnedToCores hrs h).perm ?_
      have hmap : (detectedOf rs).coreThreadIds.map
          (fun id => (some ⟨rs.length, [id.toNat]⟩ : Option CpuSet)) =
          (List.range (detectedOf rs).coreThreadIds.length).map fun i =>
            some ⟨rs.length, [((detectedOf rs).coreThreadIds.getD i 0).toNat]⟩ := by
        refine List.ext_getElem (by simp) fun i hi hi' => ?_
        have hlen : i < (detectedOf rs).coreThreadIds.length := by simpa using hi
        simp [List.getD_eq_getElem?_getD, hlen]
      rw [hmap, List.map_map]
      exact (hperm.map _).symm

theorem sampleRecords_runsPinned : RunsPinned sampleRecords := by
  have hnested : Nested (numCores sampleRecords) := by
    have hcores : numCores sampleRecords = 2 := by decide
    rw [hcores]
    decide +kernel
  refine (runsPinned_iff (by simp [sampleRecords]) (by decide) fun r hr => ?_).2
    ⟨by decide, fun r hr _ => ?_, hnested⟩
  · simp only [sampleRecords, List.mem_cons, List.not_mem_nil, or_false] at hr
    rcases hr with rfl | rfl | rfl <;> exact ⟨by decide, by decide⟩
  · simp only [sampleRecords, List.mem_cons, List.not_mem_nil, or_false] at hr
    rcases hr with rfl | rfl | rfl <;> decide

/-- Two cores with one processor each. Processor 1 is offline. -/
def offlineRecords : List Record :=
  [sampleRecord 0 ["processor\t: 0", "physical id\t: 0", "core id\t\t: 0"] (by decide) (by decide),
    sampleRecord 2 ["processor\t: 2", "physical id\t: 0", "core id\t\t: 1"] (by decide) (by decide)]

theorem offlineRecords_complete : ∀ r ∈ offlineRecords, r.Complete := by
  intro r hr
  simp only [offlineRecords, List.mem_cons, List.not_mem_nil, or_false] at hr
  rcases hr with rfl | rfl <;> exact ⟨by decide, by decide⟩

theorem detectedOf_offlineRecords : detectedOf offlineRecords = ⟨2, [0, 2]⟩ := by decide

/-- The check of `set_cpu_flag` fails for processor 2. -/
theorem not_runsPinned_offlineRecords : offlineRecords ≠ [] ∧
    (offlineRecords.map Record.processor).Nodup ∧ (∀ r ∈ offlineRecords, r.Complete) ∧
      detect (linesOf offlineRecords) = .ok ⟨2, [0, 2]⟩ ∧
      runPinned 2 ⟨2, [0, 2]⟩ = .error .setCpuFlag ∧ ¬ RunsPinned offlineRecords := by
  have hnodup : (offlineRecords.map Record.processor).Nodup := by decide
  have hdetect : detect (linesOf offlineRecords) = .ok ⟨2, [0, 2]⟩ := by
    rw [detect_eq_detectedOf hnodup offlineRecords_complete, detectedOf_offlineRecords]
  have hrun : runPinned 2 ⟨2, [0, 2]⟩ = .error .setCpuFlag := by decide +kernel
  refine ⟨by simp [offlineRecords], hnodup, offlineRecords_complete, hdetect, hrun, ?_⟩
  rintro ⟨info, sets, hinfo, hsets, -, -⟩
  rw [hdetect] at hinfo
  cases hinfo
  cases hrun.symm.trans hsets

end Patton.CpuInfo
