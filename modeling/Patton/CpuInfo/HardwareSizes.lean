import Patton.CpuInfo.Meminfo
import Patton.Library.LazyInit
import Patton.Memory.Alignment

/-!
# The sizes of the hardware

The sizes of cache lines, pages and large pages are found out when they are needed, each
checked against the one before, and kept in atomic variables which threads set without a
lock. Whoever asks gets what the operating system says, or the program ends.
-/

namespace Patton.CpuInfo

open Interleaving LazyInit Memory

/-- The variables `hardware_large_page_size_value` and so on -/
inductive SizeValue
  | cacheLineSize
  | pageSize
  | largePageSize
  deriving DecidableEq

/-- What the operating system says: the values of `sysconf`, and what a file contains if it
can be opened. The contents of `/proc/meminfo` change, but for the size of large pages. -/
structure SizeSources where
  level1DcacheLinesize : ℤ
  coherencyLineSize : Option (List Char)
  pagesize : ℕ
  pagesize_pos : 0 < pagesize
  hugepagesize : Except SizeFailure ℕ

/-- What `hardware_large_page_size` gets from `/proc/meminfo` -/
def readMeminfo : Option (List (List Char)) → Except SizeFailure ℕ
  | none => .error (.runtimeError "cannot open /proc/meminfo")
  | some lines => readHugepagesize lines

/-- What can be found in `/proc/meminfo` -/
abbrev SizeSources.Meminfo (os : SizeSources) : Type :=
  {file : Option (List (List Char)) // readMeminfo file = os.hugepagesize}

/-- `initFunc` in `hardware_cache_line_size` -/
def initCacheLineSize (os : SizeSources) : Except SizeFailure ℕ :=
  if os.level1DcacheLinesize > 0 then narrowLong os.level1DcacheLinesize
  else
    match os.coherencyLineSize with
    | none => .error (.runtimeError
        "cannot open /sys/devices/system/cpu/cpu0/cache/index0/coherency_line_size")
    | some s =>
        match scan (directives "%ld".toList) s with
        | [.long result] =>
            if result = 0 then .error (.runtimeError
              "error parsing /sys/devices/system/cpu/cpu0/cache/index0/coherency_line_size")
            else narrowLong result
        | _ => .error (.runtimeError
            "error parsing /sys/devices/system/cpu/cpu0/cache/index0/coherency_line_size")

/-- The check that a size is a multiple of another one -/
def checkMultiple (result size : ℕ) : Except SizeFailure ℕ :=
  if result % size ≠ 0 then .error .failFast else .ok result

/-- `initFunc` in the three functions -/
def initFunc (os : SizeSources) (meminfo : os.Meminfo) : SizeValue → Prog SizeValue ℕ SizeFailure
  | .cacheLineSize => .ret (initCacheLineSize os)
  | .pageSize => .query .cacheLineSize fun size => .ret (checkMultiple os.pagesize size)
  | .largePageSize =>
      match readMeminfo meminfo.val with
      | .error e => .ret (.error e)
      | .ok result => .query .pageSize fun size => .ret (checkMultiple result size)

variable (os : SizeSources)

/-- `hardware_cache_line_size`, if nothing is kept -/
def hardwareCacheLineSize : Except SizeFailure ℕ := initCacheLineSize os

@[inherit_doc hardwareCacheLineSize]
def hardwarePageSize : Except SizeFailure ℕ :=
  (hardwareCacheLineSize os).bind fun size => checkMultiple os.pagesize size

@[inherit_doc hardwareCacheLineSize]
def hardwareLargePageSize : Except SizeFailure ℕ :=
  os.hugepagesize.bind fun result =>
    (hardwarePageSize os).bind fun size => checkMultiple result size

def hardwareSize : SizeValue → Except SizeFailure ℕ
  | .cacheLineSize => hardwareCacheLineSize os
  | .pageSize => hardwarePageSize os
  | .largePageSize => hardwareLargePageSize os

variable {os} {cacheLineSize pageSize largePageSize result size n : ℕ}

theorem consistent_initFunc : Consistent (initFunc os) (hardwareSize os) := by
  intro meminfo value
  cases value with
  | cacheLineSize => rfl
  | pageSize => rfl
  | largePageSize =>
      rw [initFunc, meminfo.property, hardwareSize, hardwareLargePageSize]
      cases os.hugepagesize with
      | error e => rfl
      | ok result => rfl

theorem of_checkMultiple_eq_ok (h : checkMultiple result size = .ok n) :
    n = result ∧ size ∣ result := by
  rw [checkMultiple] at h
  split at h
  · cases h
  · next hmod => exact ⟨(Except.ok.inj h).symm, Nat.dvd_of_mod_eq_zero (not_not.1 hmod)⟩

theorem pos_of_narrowLong_eq_ok {m : ℤ} (hm : m ≠ 0) (h : narrowLong m = .ok n) : 0 < n := by
  rw [narrowLong] at h
  split at h
  · have heq := Except.ok.inj h
    omega
  · cases h

theorem cacheLineSize_pos (h : hardwareCacheLineSize os = .ok n) : 0 < n := by
  rw [hardwareCacheLineSize, initCacheLineSize] at h
  split at h
  · next hpos => exact pos_of_narrowLong_eq_ok hpos.ne' h
  · split at h
    · cases h
    · split at h
      · next result _ =>
          split at h
          · cases h
          · next hne => exact pos_of_narrowLong_eq_ok hne h
      · cases h

theorem sizes_dvd (hcache : hardwareCacheLineSize os = .ok cacheLineSize)
    (hpage : hardwarePageSize os = .ok pageSize)
    (hlarge : hardwareLargePageSize os = .ok largePageSize) :
    0 < cacheLineSize ∧ 0 < pageSize ∧ cacheLineSize ∣ pageSize ∧ pageSize ∣ largePageSize := by
  refine ⟨cacheLineSize_pos hcache, ?_⟩
  rw [hardwarePageSize, hcache] at hpage
  rw [hardwareLargePageSize] at hlarge
  obtain ⟨rfl, hdvd⟩ := of_checkMultiple_eq_ok hpage
  refine ⟨os.pagesize_pos, hdvd, ?_⟩
  cases hhuge : os.hugepagesize with
  | error e => rw [hhuge] at hlarge; cases hlarge
  | ok result =>
      have heq : hardwarePageSize os = .ok os.pagesize := by
        rw [hardwarePageSize, hcache]
        exact hpage
      rw [hhuge, heq] at hlarge
      obtain ⟨rfl, hdvd⟩ := of_checkMultiple_eq_ok hlarge
      exact hdvd

/-- The placeholder for a value that has not been set -/
def unset : ℕ := 2 ^ 64 - 1

structure Unset {ι : Type*}
    (s : State ι (SizeValue → ℕ) (Pc SizeValue ℕ SizeFailure) (SizeValue × Except SizeFailure ℕ)) :
    Prop where
  shared_eq : ∀ value, s.shared value = unset
  thread_eq : ∀ t, s.thread t = .idle
  answers_eq : s.answers = []

variable {ι : Type*} [DecidableEq ι]
  {s s₁ s' : State ι (SizeValue → ℕ) (Pc SizeValue ℕ SizeFailure)
    (SizeValue × Except SizeFailure ℕ)}
  {schedule schedule' : List (ι × Choice SizeValue os.Meminfo)} {t : ι}

/-- Every call gets what the operating system says, however the threads interleave and
whatever they see of what others have set, and the sizes fit together. -/
theorem hardware_sizes_answers (h : Unset s)
    (hrun : run (next (initFunc os) unset) s schedule = some s') :
    (∀ a ∈ s'.answers, a.2 = hardwareSize os a.1) ∧
    ∀ cacheLineSize pageSize largePageSize, (.cacheLineSize, .ok cacheLineSize) ∈ s'.answers →
      (.pageSize, .ok pageSize) ∈ s'.answers → (.largePageSize, .ok largePageSize) ∈ s'.answers →
        0 < cacheLineSize ∧ 0 < pageSize ∧ cacheLineSize ∣ pageSize ∧
          pageSize ∣ largePageSize := by
  have hinv : Inv (CellFacts unset (hardwareSize os)) (fun _ => PcFacts (hardwareSize os))
      (fun _ _ => True) (fun _ a => hardwareSize os a.1 = a.2) s := by
    refine ⟨fun value => .inl (h.shared_eq value), fun t => ?_, fun _ _ _ => trivial, ?_⟩
    · rw [h.thread_eq t]
      trivial
    · rw [h.answers_eq]
      exact List.forall_mem_nil _
  have hanswer := (hinv.run (kept consistent_initFunc) hrun).answer
  refine ⟨fun a ha => (hanswer a ha).symm, fun _ _ _ hcache hpage hlarge => ?_⟩
  exact sizes_dvd (hanswer _ hcache) (hanswer _ hpage) (hanswer _ hlarge)

/-- A machine with pages of 8192 bytes and large pages of two megabytes -/
def sampleSources : SizeSources where
  level1DcacheLinesize := 64
  coherencyLineSize := none
  pagesize := 8192
  pagesize_pos := by decide
  hugepagesize := .ok (2048 * 1024)

def sampleMeminfo : sampleSources.Meminfo := ⟨some ["Hugepagesize:    2048 kB".toList], by rfl⟩

def twoIdle : State Bool (SizeValue → ℕ) (Pc SizeValue ℕ SizeFailure)
    (SizeValue × Except SizeFailure ℕ) := ⟨fun _ => unset, fun _ => .idle, []⟩

theorem twoIdle_unset : Unset twoIdle := ⟨fun _ => rfl, fun _ => rfl, rfl⟩

/-- Some steps of a thread, all of them with the same choice -/
def sizeSteps (t : Bool) (n : ℕ) (value : SizeValue) :
    List (Bool × Choice SizeValue sampleSources.Meminfo) :=
  List.replicate n (t, ⟨value, false, sampleMeminfo⟩)

/-- One thread asks for the size of large pages, and the other one for the size of pages and
of cache lines in the meantime. -/
theorem twoIdle_hardware_sizes_answers : ∃ s', run (next (initFunc sampleSources) unset) twoIdle
    (sizeSteps true 3 .largePageSize ++ sizeSteps false 6 .pageSize ++
      sizeSteps false 3 .cacheLineSize ++ sizeSteps true 4 .largePageSize) = some s' ∧
    s'.answers.map Prod.fst = [.pageSize, .cacheLineSize, .largePageSize] ∧
    ∀ a ∈ s'.answers, a.2 = hardwareSize sampleSources a.1 := by
  have hrun : (run (next (initFunc sampleSources) unset) twoIdle
    (sizeSteps true 3 .largePageSize ++ sizeSteps false 6 .pageSize ++
      sizeSteps false 3 .cacheLineSize ++ sizeSteps true 4 .largePageSize)).map
        (fun s' => s'.answers.map Prod.fst) =
          some [.pageSize, .cacheLineSize, .largePageSize] := by rfl
  obtain ⟨s', hs', hanswers⟩ := Option.map_eq_some_iff.1 hrun
  exact ⟨s', hs', hanswers, (hardware_sizes_answers twoIdle_unset hs').1⟩

/-- What an initialisation costs, with the values it needs -/
def cost : SizeValue → ℕ
  | .cacheLineSize => 1
  | .pageSize => 3
  | .largePageSize => 5

theorem within_cost (meminfo : os.Meminfo) (value : SizeValue) :
    (initFunc os meminfo value).Within cost (cost value) := by
  cases value with
  | cacheLineSize => exact le_refl 1
  | pageSize => exact ⟨1, by decide, fun _ => le_refl 1⟩
  | largePageSize =>
      rw [initFunc]
      cases readMeminfo meminfo.val with
      | error e => exact Nat.succ_pos 4
      | ok result => exact ⟨1, by decide, fun _ => le_refl 1⟩

/-- A call returns within seven steps of its thread, whatever the other threads do. -/
theorem hardware_sizes_return (h : Unset s)
    (hrun : run (next (initFunc os) unset) s schedule = some s₁)
    (hrun' : run (next (initFunc os) unset) s₁ schedule' = some s')
    (hcount : 7 ≤ (schedule'.map Prod.fst).count t) :
    ∃ pre s₂, pre <+: schedule' ∧ run (next (initFunc os) unset) s₁ pre = some s₂ ∧
      s₂.thread t = .idle := by
  have hn : ∀ value, cost value + 2 ≤ 7 := by rintro ⟨⟩ <;> decide
  have hinv : Inv (fun _ => True) (fun _ => ReturnsWithin cost 7) (fun _ _ => True)
      (fun _ _ => True) s := by
    refine ⟨trivial, fun t root p frames hbusy => ?_, fun _ _ _ => trivial, fun _ _ => trivial⟩
    cases (h.thread_eq t).symm.trans hbusy
  have hreturns := (hinv.run (kept_returnsWithin within_cost hn) hrun).thread t
  refine exists_idle within_cost (fun root p frames hbusy => ?_) hrun' hcount
  obtain ⟨k, hk, hleft⟩ := hreturns root p frames hbusy
  exact hleft.mono hk

/-- One thread has begun, and returns while the other one begins. -/
theorem twoIdle_hardware_sizes_return : ∃ s₁, run (next (initFunc sampleSources) unset) twoIdle
    (sizeSteps true 2 .largePageSize) = some s₁ ∧ s₁.thread true ≠ .idle ∧
    ∃ pre s₂, pre <+: sizeSteps false 2 .pageSize ++ sizeSteps true 7 .largePageSize ∧
      run (next (initFunc sampleSources) unset) s₁ pre = some s₂ ∧ s₂.thread true = .idle := by
  have hrun : run (next (initFunc sampleSources) unset) twoIdle
    (sizeSteps true 2 .largePageSize) = some _ := rfl
  exact ⟨_, hrun, nofun, hardware_sizes_return twoIdle_unset hrun rfl (by decide)⟩

end Patton.CpuInfo
