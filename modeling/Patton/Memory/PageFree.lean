import Patton.Memory.PageAlloc

/-!
# Freeing pages

A block of pages is mapped with its size rounded up to the page size, or to the large
page size. When it is freed the trap is checked for the same rounded size, but
`munmap` is given the size of the data.
-/

namespace Patton.Memory

open ByteMemory RoundUp

variable {os : Os} {s s' s₁ : Machine} {advice : Option Advice} {size data len granule : ℕ}

/-- The allocation of `size` bytes that has left the state `s'` is still there in the
state `s₁`: its `len` bytes are mapped, and nothing has been written to its trap. -/
structure Live (os : Os) (s' s₁ : Machine) (data size len : ℕ) : Prop where
  mmap_eq : os.mmap len = .ok data
  mapped : pages os.pageSize data len ⊆ s₁.mapped
  trap : ∀ x, data + size ≤ x → x < data + size + trapSize size len →
    s₁.memory x = s'.memory x

/-- The program goes on, and of the mapped pages exactly those of the mapping are gone. -/
def Released (os : Os) (s₁ : Machine) (data len : ℕ) (result : Machine × Except Failure Unit) :
    Prop :=
  result.2 = .ok () ∧ result.1.mapped = s₁.mapped \ pages os.pageSize data len

/-- The pages of a range that starts at a page are those of the rounded size. -/
theorem pages_eq (hdvd : os.pageSize ∣ data) :
    pages os.pageSize data len =
      Finset.Ico (data / os.pageSize) (data / os.pageSize + len ⌈/⌉ os.pageSize) := by
  obtain ⟨k, rfl⟩ := hdvd
  have hpos := os.pageSize_pos
  have hadd : os.pageSize * k + len + os.pageSize - 1 =
      os.pageSize * k + (len + os.pageSize - 1) := by omega
  rw [pages, Nat.ceilDiv_eq_add_pred_div, hadd, Nat.mul_add_div hpos,
    Nat.mul_div_cancel_left _ hpos, Nat.ceilDiv_eq_add_pred_div]

/-- `munmap` of the data reaches the pages of its size rounded up to whole pages. -/
theorem pages_roundUp (hdvd : os.pageSize ∣ data) :
    pages os.pageSize data (roundUp len os.pageSize) = pages os.pageSize data len := by
  have hpos := os.pageSize_pos
  have hround : roundUp len os.pageSize ⌈/⌉ os.pageSize = len ⌈/⌉ os.pageSize := by
    rw [Nat.ceilDiv_eq_add_pred_div, roundUp, Nat.mul_comm, Nat.add_sub_assoc hpos,
      Nat.mul_add_div hpos, Nat.div_eq_of_lt (by omega), Nat.add_zero]
  rw [pages_eq hdvd, pages_eq hdvd, hround]

/-- Ranges of whole pages with the same pages have the same size. -/
theorem pages_inj {len' : ℕ} (hdvd : os.pageSize ∣ data) (hlen : os.pageSize ∣ len)
    (hlen' : os.pageSize ∣ len') :
    pages os.pageSize data len = pages os.pageSize data len' ↔ len = len' := by
  have hpos := os.pageSize_pos
  constructor
  · intro h
    have hcard := congrArg Finset.card h
    rw [pages_eq hdvd, pages_eq hdvd, Nat.card_Ico, Nat.card_Ico, Nat.add_sub_cancel_left,
      Nat.add_sub_cancel_left] at hcard
    obtain ⟨k, rfl⟩ := hlen
    obtain ⟨k', rfl⟩ := hlen'
    have hceil : ∀ k, (os.pageSize * k) ⌈/⌉ os.pageSize = k := by
      intro k
      rw [← smul_eq_mul, smul_ceilDiv hpos]
    rw [hceil, hceil] at hcard
    rw [hcard]
  · rintro rfl
    rfl

theorem mapAndAdvise_ok (hmmap : os.mmap len = .ok data)
    (h : mapAndAdvise os advice s size len = (s', .ok data)) :
    s'.memory = setOutOfBoundsWriteTrap s.memory data size len := by
  obtain ⟨-, hnull, -⟩ := os.mmap_ok len data hmmap
  simp only [mapAndAdvise, Os.callMmap, hmmap, if_neg hnull] at h
  cases advice with
  | none =>
      obtain ⟨rfl, -⟩ := Prod.mk.inj h
      rfl
  | some a =>
      cases hadvise : os.madvise a data len with
      | none =>
          simp only [Os.callMadvise, hadvise, ne_eq, not_true_eq_false, if_false] at h
          obtain ⟨rfl, -⟩ := Prod.mk.inj h
          rfl
      | some e => simp [Os.callMadvise, hadvise] at h

/-- The assertion and the check of the trap let the call of `munmap` through. -/
theorem checkAndUnmap_eq (hpos : 0 < granule) (hfits : roundUp size granule ≤ sizeMax)
    (hlive : Live os s' s₁ data size (roundUp size granule))
    (htrap : s'.memory = setOutOfBoundsWriteTrap s.memory data size (roundUp size granule)) :
    checkAndUnmap os granule s₁ data size =
      ({ s₁ with mapped := s₁.mapped \ pages os.pageSize data size }, .ok ()) := by
  obtain ⟨hdvd, -, -⟩ := os.mmap_ok _ _ hlive.mmap_eq
  have hsize : size ≠ 0 := by
    rintro rfl
    have hzero := hlive.mmap_eq
    rw [roundUp_zero] at hzero
    exact os.mmap_zero _ hzero
  have hcheck : checkOutOfBoundsWriteTrap s₁.memory data size (roundUp size granule) = true := by
    refine (checkOutOfBoundsWriteTrap_iff (m := s.memory)).2 fun x hle hlt => ?_
    rw [← htrap]
    exact hlive.trap x hle hlt
  simp [checkAndUnmap, tryCeili_eq hpos, checked_of_le hfits, hcheck, Os.callMunmap, hdvd, hsize]

/-- What is released are the pages of the size rounded up to whole pages. -/
theorem released_checkAndUnmap_iff (hpos : 0 < granule) (hgranule : os.pageSize ∣ granule)
    (hfits : roundUp size granule ≤ sizeMax)
    (hlive : Live os s' s₁ data size (roundUp size granule))
    (htrap : s'.memory = setOutOfBoundsWriteTrap s.memory data size (roundUp size granule)) :
    Released os s₁ data (roundUp size granule) (checkAndUnmap os granule s₁ data size) ↔
      roundUp size os.pageSize = roundUp size granule := by
  obtain ⟨hdvd, -, -⟩ := os.mmap_ok _ _ hlive.mmap_eq
  have hround := dvd_roundUp size os.pageSize
  have hlen := hgranule.trans (dvd_roundUp size granule)
  rw [checkAndUnmap_eq hpos hfits hlive htrap, Released, ← pages_roundUp hdvd,
    ← pages_inj hdvd hround hlen]
  have hsub : pages os.pageSize data (roundUp size os.pageSize) ⊆ s₁.mapped := by
    refine Finset.Subset.trans ?_ hlive.mapped
    rw [pages_eq hdvd, pages_eq hdvd]
    refine Finset.Ico_subset_Ico_right (Nat.add_le_add_left ?_ _)
    exact (gc_mul_ceilDiv os.pageSize_pos).monotone_l
      (roundUp_le_roundUp os.pageSize_pos hpos hgranule size)
  constructor
  · rintro ⟨-, h⟩
    dsimp only at h
    rw [← Finset.inter_eq_right.2 hsub, ← Finset.inter_eq_right.2 hlive.mapped,
      ← Finset.sdiff_sdiff_self_left, h, Finset.sdiff_sdiff_self_left]
  · intro h
    exact ⟨rfl, by rw [h]⟩

theorem released_pageFree {build : Build}
    (halloc : pageAlloc build os s size = (s', .ok data))
    (hlive : Live os s' s₁ data size (roundUp size os.pageSize)) :
    Released os s₁ data (roundUp size os.pageSize) (pageFree os s₁ data size) := by
  have hpos := os.pageSize_pos
  rw [pageAlloc, if_neg hpos.ne', tryCeili_eq hpos] at halloc
  by_cases hfits : roundUp size os.pageSize ≤ sizeMax
  · rw [checked_of_le hfits, if_neg (by simp)] at halloc
    exact (released_checkAndUnmap_iff hpos dvd_rfl hfits hlive
      (mapAndAdvise_ok hlive.mmap_eq halloc)).2 rfl
  · rw [checked_of_lt (not_le.1 hfits), if_pos (by decide)] at halloc
    cases halloc

theorem released_largePageFree_iff (halloc : largePageAlloc os s size = (s', .ok data))
    (hlive : Live os s' s₁ data size (roundUp size os.largePageSize)) :
    Released os s₁ data (roundUp size os.largePageSize) (largePageFree os s₁ data size) ↔
      roundUp size os.pageSize = roundUp size os.largePageSize := by
  rw [largePageAlloc] at halloc
  rcases Nat.eq_zero_or_pos os.largePageSize with hzero | hpos
  · rw [if_neg (not_not.2 hzero)] at halloc
    cases halloc
  · rw [if_pos hpos.ne', tryCeili_eq hpos] at halloc
    by_cases hfits : roundUp size os.largePageSize ≤ sizeMax
    · rw [checked_of_le hfits, if_neg (by simp)] at halloc
      exact released_checkAndUnmap_iff hpos os.pageSize_dvd hfits hlive
        (mapAndAdvise_ok hlive.mmap_eq halloc)
    · rw [checked_of_lt (not_le.1 hfits), if_pos (by decide)] at halloc
      cases halloc

/-- Pages are always released completely; large pages are if and only if the size takes
up all the small pages of its last large page. -/
theorem pages_released_iff (os : Os) (size : ℕ) :
    (∀ build s s' s₁ data, pageAlloc build os s size = (s', .ok data) →
      Live os s' s₁ data size (roundUp size os.pageSize) →
        Released os s₁ data (roundUp size os.pageSize) (pageFree os s₁ data size)) ∧
    ∀ s s' s₁ data, largePageAlloc os s size = (s', .ok data) →
      Live os s' s₁ data size (roundUp size os.largePageSize) →
        (Released os s₁ data (roundUp size os.largePageSize) (largePageFree os s₁ data size) ↔
          roundUp size os.pageSize = roundUp size os.largePageSize) :=
  ⟨fun _ _ _ _ _ halloc hlive => released_pageFree halloc hlive,
    fun _ _ _ _ halloc hlive => released_largePageFree_iff halloc hlive⟩

/-- Pages of 4 KiB and 2 MiB. The calls succeed, with a mapping at 1 GiB. -/
def ampleOs : Os where
  pageSize := 4096
  largePageSize := 2097152
  mmap len := if len = 0 then .error EINVAL else .ok 1073741824
  madvise _ data _ := if 4096 ∣ data then none else some EINVAL
  pageSize_pos := exhaustedOs.pageSize_pos
  pageSize_dvd := exhaustedOs.pageSize_dvd
  mmap_zero := by
    intro data h
    cases h
  mmap_ok := by
    intro len data h
    split at h
    · cases h
    · cases h
      decide
  madvise_unaligned := exhaustedOs.madvise_unaligned

/-- The state after the allocation of `size` bytes in large pages. -/
def ampleMachine (size : ℕ) : Machine := (largePageAlloc ampleOs initialMachine size).1

theorem ampleMachine_live :
    Live ampleOs (ampleMachine 1) (ampleMachine 1) 1073741824 1 2097152 where
  mmap_eq := rfl
  mapped := Finset.subset_union_right
  trap _ _ _ := rfl

/-- One byte in a large page: 511 of its 512 small pages stay mapped. -/
theorem not_released_ampleOs :
    largePageAlloc ampleOs initialMachine 1 = (ampleMachine 1, .ok 1073741824) ∧
    Live ampleOs (ampleMachine 1) (ampleMachine 1) 1073741824 1 2097152 ∧
    (1073741824 / 4096 + 511 ∈
      (largePageFree ampleOs (ampleMachine 1) 1073741824 1).1.mapped) ∧
    ¬ Released ampleOs (ampleMachine 1) 1073741824 2097152
      (largePageFree ampleOs (ampleMachine 1) 1073741824 1) := by
  have halloc : largePageAlloc ampleOs initialMachine 1 = (ampleMachine 1, .ok 1073741824) := rfl
  have hunmap : largePageFree ampleOs (ampleMachine 1) 1073741824 1 =
      ({ ampleMachine 1 with
          mapped := (ampleMachine 1).mapped \ pages 4096 1073741824 1 }, .ok ()) :=
    checkAndUnmap_eq (s := initialMachine) (by decide) (by decide) ampleMachine_live rfl
  have hmapped : (ampleMachine 1).mapped = pages 4096 1073741824 2097152 :=
    Finset.empty_union _
  refine ⟨halloc, ampleMachine_live, ?_, ?_⟩
  · rw [hunmap, hmapped, Finset.mem_sdiff, mem_pages (by decide), mem_pages (by decide)]
    decide
  · intro h
    have hround := (released_largePageFree_iff halloc ampleMachine_live).1 h
    exact absurd hround (by decide)

theorem ampleOs_pages_released :
    Released ampleOs (pageAlloc .linux ampleOs initialMachine 1).1 1073741824 4096
        (pageFree ampleOs (pageAlloc .linux ampleOs initialMachine 1).1 1073741824 1) ∧
    (Released ampleOs (ampleMachine 1) 1073741824 2097152
        (largePageFree ampleOs (ampleMachine 1) 1073741824 1) ↔
      roundUp 1 4096 = roundUp 1 2097152) := by
  have hlive : Live ampleOs (pageAlloc .linux ampleOs initialMachine 1).1
      (pageAlloc .linux ampleOs initialMachine 1).1 1073741824 1 4096 :=
    ⟨rfl, Finset.subset_union_right, fun _ _ _ => rfl⟩
  exact ⟨(pages_released_iff ampleOs 1).1 .linux initialMachine _ _ 1073741824 rfl hlive,
    (pages_released_iff ampleOs 1).2 initialMachine _ _ 1073741824 rfl ampleMachine_live⟩

end Patton.Memory
