import Patton.CpuInfo.Detection

/-!
# The list of core ids

From the triples that have been read, sorting and `std::unique` leave the triple with the
smallest processor id of each core.
-/

namespace Patton.CpuInfo

open SortUnique

variable {a b : PhysicalCoreId} {ids : List PhysicalCoreId} {rs : List Record}

theorem PhysicalCoreId.eq_iff :
    PhysicalCoreId.eq a b = true ↔ a.coreId = b.coreId ∧ a.physicalId = b.physicalId := by
  simp [PhysicalCoreId.eq]

theorem PhysicalCoreId.not_lt_iff :
    PhysicalCoreId.lt b a = false ↔
      a.coreId < b.coreId ∨ a.coreId = b.coreId ∧ (a.physicalId < b.physicalId ∨
        a.physicalId = b.physicalId ∧ a.processor ≤ b.processor) := by
  rw [PhysicalCoreId.lt]
  split_ifs <;> simp <;> omega

/-- In sorted order the triples of one core are next to each other. -/
theorem grouped : Grouped (fun a b => PhysicalCoreId.lt b a = false)
    (fun a b => PhysicalCoreId.eq a b = true) where
  total a b := by
    rw [PhysicalCoreId.not_lt_iff, PhysicalCoreId.not_lt_iff]
    omega
  trans a b c hab hbc := by
    rw [PhysicalCoreId.not_lt_iff] at *
    omega
  antisymm a b hab hba := by
    rw [PhysicalCoreId.not_lt_iff] at hab hba
    have hcore : a.coreId = b.coreId := by omega
    have hphysical : a.physicalId = b.physicalId := by omega
    have hprocessor : a.processor = b.processor := by omega
    cases a
    cases b
    simp_all
  equiv := by
    refine ⟨fun a => ?_, fun {a b} hab => ?_, fun {a b c} hab hbc => ?_⟩
    · rw [PhysicalCoreId.eq_iff]
      exact ⟨rfl, rfl⟩
    · rw [PhysicalCoreId.eq_iff] at *
      exact ⟨hab.1.symm, hab.2.symm⟩
    · rw [PhysicalCoreId.eq_iff] at *
      exact ⟨hab.1.trans hbc.1, hab.2.trans hbc.2⟩
  between a b c hab hbc hac := by
    rw [PhysicalCoreId.not_lt_iff] at hab hbc
    rw [PhysicalCoreId.eq_iff] at *
    omega

/-- Of each core the triple with the smallest processor id is left. -/
theorem mem_uniqueCoreIds_iff : a ∈ uniqueCoreIds ids ↔
    a ∈ ids ∧ ∀ b ∈ ids, b.coreId = a.coreId → b.physicalId = a.physicalId →
      a.processor ≤ b.processor := by
  rw [uniqueCoreIds, mem_sortUnique_iff grouped]
  refine and_congr_right fun _ => forall₂_congr fun b _ => ?_
  rw [PhysicalCoreId.eq_iff, PhysicalCoreId.not_lt_iff]
  constructor
  · intro h hcore hphysical
    have hle := h ⟨hcore.symm, hphysical.symm⟩
    omega
  · rintro h ⟨hcore, hphysical⟩
    have hle := h hcore.symm hphysical.symm
    omega

def PhysicalCoreId.core (id : PhysicalCoreId) : ℤ × ℤ := (id.coreId, id.physicalId)

theorem PhysicalCoreId.core_eq_iff : a.core = b.core ↔ PhysicalCoreId.eq a b = true := by
  rw [PhysicalCoreId.eq_iff, PhysicalCoreId.core, PhysicalCoreId.core, Prod.mk.injEq]

theorem nodup_core_uniqueCoreIds (ids : List PhysicalCoreId) :
    ((uniqueCoreIds ids).map PhysicalCoreId.core).Nodup := by
  refine List.pairwise_map.2 ((pairwise_sortUnique grouped ids).imp fun h heq => ?_)
  exact h (PhysicalCoreId.core_eq_iff.1 heq)

/-- There are as many triples left as there are cores. -/
theorem length_uniqueCoreIds (ids : List PhysicalCoreId) :
    (uniqueCoreIds ids).length = (ids.map PhysicalCoreId.core).toFinset.card := by
  have hlength : ((uniqueCoreIds ids).map PhysicalCoreId.core).length =
      (uniqueCoreIds ids).length := List.length_map _
  rw [← hlength, ← List.toFinset_card_of_nodup (nodup_core_uniqueCoreIds ids)]
  congr 1
  ext core
  simp only [List.mem_toFinset, List.mem_map]
  constructor
  · rintro ⟨a, ha, rfl⟩
    exact ⟨a, (mem_uniqueCoreIds_iff.1 ha).1, rfl⟩
  · rintro ⟨b, hb, rfl⟩
    obtain ⟨a, ha, hab⟩ := exists_mem_sortUnique grouped hb
    exact ⟨a, ha, PhysicalCoreId.core_eq_iff.2 hab⟩

theorem nodup_processor_uniqueCoreIds (h : (ids.map PhysicalCoreId.processor).Nodup) :
    ((uniqueCoreIds ids).map PhysicalCoreId.processor).Nodup := by
  have hperm : (ids.insertionSort fun a b => PhysicalCoreId.lt b a = false).Perm ids :=
    List.perm_insertionSort _ ids
  have hsorted := (hperm.map PhysicalCoreId.processor).nodup_iff.2 h
  exact hsorted.sublist ((List.destutter_sublist _ _).map PhysicalCoreId.processor)

/-- Different values of `int` which are not negative -/
theorem length_le_of_nodup {l : List ℤ} (hl : l.Nodup) (h : ∀ x ∈ l, 0 ≤ x ∧ x ≤ intMax) :
    (l.length : ℤ) ≤ intMax + 1 := by
  have hsub : l.toFinset ⊆ Finset.Icc 0 intMax := fun x hx =>
    Finset.mem_Icc.2 (h x (List.mem_toFinset.1 hx))
  have hcard := Finset.card_le_card hsub
  rw [List.toFinset_card_of_nodup hl, Int.card_Icc] at hcard
  rw [intMax] at *
  omega

theorem mem_triplesOf_iff : a ∈ triplesOf rs ↔ ∃ r ∈ rs, r.triple = some a := by
  rw [triplesOf, List.mem_filterMap]

theorem Record.processor_of_triple {r : Record} (h : r.triple = some a) :
    a.processor = r.processor := by
  rw [Record.triple] at h
  split at h
  · cases h
    rfl
  · cases h

theorem map_processor_triplesOf_sublist (rs : List Record) :
    ((triplesOf rs).map PhysicalCoreId.processor).Sublist (rs.map Record.processor) := by
  induction rs with
  | nil => exact List.Sublist.refl _
  | cons r rs ih =>
      rw [triplesOf]
      cases ht : r.triple with
      | none =>
          rw [List.filterMap_cons_none ht]
          exact ih.cons _
      | some a =>
          rw [List.filterMap_cons_some ht, List.map_cons, List.map_cons,
            Record.processor_of_triple ht]
          exact ih.cons_cons _

/-- What is published, given the triples. -/
structure Describes (info : Detected) (triples : List PhysicalCoreId) : Prop where
  ascending : info.coreThreadIds.Pairwise (· < ·)
  mem_coreThreadIds_iff : ∀ id, id ∈ info.coreThreadIds ↔
    ∃ a ∈ triples, a.processor = id ∧ ∀ b ∈ triples,
      b.coreId = a.coreId → b.physicalId = a.physicalId → id ≤ b.processor
  physicalConcurrency_eq : info.physicalConcurrency =
    (triples.map fun a => (a.coreId, a.physicalId)).toFinset.card

theorem describes (h : (ids.map PhysicalCoreId.processor).Nodup) :
    Describes ⟨(uniqueCoreIds ids).length,
      ((uniqueCoreIds ids).map PhysicalCoreId.processor).insertionSort (· ≤ ·)⟩ ids where
  ascending := by
    have hnodup := (List.perm_insertionSort (· ≤ ·)
      ((uniqueCoreIds ids).map PhysicalCoreId.processor)).nodup_iff.2
        (nodup_processor_uniqueCoreIds h)
    exact ((List.pairwise_insertionSort (· ≤ ·) _).and hnodup).imp fun hab =>
      lt_of_le_of_ne hab.1 hab.2
  mem_coreThreadIds_iff id := by
    rw [List.mem_insertionSort, List.mem_map]
    constructor
    · rintro ⟨a, ha, rfl⟩
      obtain ⟨hmem, hleast⟩ := mem_uniqueCoreIds_iff.1 ha
      exact ⟨a, hmem, rfl, hleast⟩
    · rintro ⟨a, hmem, rfl, hleast⟩
      exact ⟨a, mem_uniqueCoreIds_iff.2 ⟨hmem, hleast⟩, rfl⟩
  physicalConcurrency_eq := length_uniqueCoreIds ids

theorem unsignedMax_not_lt (h : (rs.map Record.processor).Nodup) :
    ¬ unsignedMax < (uniqueCoreIds (triplesOf rs)).length := by
  have hnodup := nodup_processor_uniqueCoreIds (h.sublist (map_processor_triplesOf_sublist rs))
  have hlength := length_le_of_nodup hnodup fun x hx => by
    obtain ⟨a, ha, rfl⟩ := List.mem_map.1 hx
    obtain ⟨r, -, ht⟩ := mem_triplesOf_iff.1 (mem_uniqueCoreIds_iff.1 ha).1
    rw [Record.processor_of_triple ht]
    exact r.processor_mem
  rw [List.length_map, intMax] at hlength
  rw [unsignedMax]
  omega

/-- The result, if all records but the last one are complete. -/
theorem detect_of_complete (hrs : (rs.map Record.processor).Nodup)
    (h : ∀ r ∈ rs.dropLast, r.Complete) :
    detect (linesOf rs) = .ok ⟨(uniqueCoreIds (triplesOf rs)).length,
      ((uniqueCoreIds (triplesOf rs)).map PhysicalCoreId.processor).insertionSort (· ≤ ·)⟩ := by
  obtain ⟨s, hs, hids⟩ := parse_of_complete [] h
  rw [List.nil_append] at hids
  simp only [detect, hs, hids]
  rw [if_neg (unsignedMax_not_lt hrs)]

/-- The loop throws if and only if some record other than the last one is not complete.
Otherwise each triple is made of the values of one complete record, and the smallest
processor id of each core is published. -/
theorem core_detection (rs : List Record) (hrs : (rs.map Record.processor).Nodup) :
    ((∃ what, detect (linesOf rs) = .error (.runtimeError what)) ↔
      ∃ r ∈ rs.dropLast, ¬ r.Complete) ∧
    ((∀ r ∈ rs.dropLast, r.Complete) →
      (∃ s, parse (.reset []) (linesOf rs) = .ok s ∧ s.ids = triplesOf rs) ∧
      ∃ info, detect (linesOf rs) = .ok info ∧ Describes info (triplesOf rs)) := by
  refine ⟨⟨?_, fun hnot => ?_⟩, fun h => ⟨?_, ?_⟩⟩
  · rintro ⟨what, hwhat⟩
    by_contra hnot
    have hcomplete : ∀ r ∈ rs.dropLast, r.Complete := by
      intro r hr
      by_contra hr'
      exact hnot ⟨r, hr, hr'⟩
    rw [detect_of_complete hrs hcomplete] at hwhat
    cases hwhat
  · have hthrows : detect (linesOf rs) = .error missingProcessor := by
      rw [detect, parse_of_not_complete [] hnot]
    exact ⟨_, hthrows⟩
  · obtain ⟨s, hs, hids⟩ := parse_of_complete [] h
    exact ⟨s, hs, by rw [hids, List.nil_append]⟩
  · exact ⟨_, detect_of_complete hrs h,
      describes (hrs.sublist (map_processor_triplesOf_sublist rs))⟩

/-- The record of a processor; the core id comes first. -/
def sampleRecord (processor : ℤ) (lines : List String)
    (hprocessor : fieldOf (lines.headD "").toList = .processor processor ∧ 0 ≤ processor ∧
      processor ≤ intMax)
    (hlines : processorIdsOf (lines.tail.map String.toList) = [] ∧
      (physicalIdsOf (lines.tail.map String.toList)).length ≤ 1 ∧
      (coreIdsOf (lines.tail.map String.toList)).length ≤ 1 ∧
      (∀ id ∈ physicalIdsOf (lines.tail.map String.toList), 0 ≤ id ∧ id ≤ intMax) ∧
      ∀ id ∈ coreIdsOf (lines.tail.map String.toList), 0 ≤ id ∧ id ≤ intMax) : Record where
  processor := processor
  processorLine := (lines.headD "").toList
  otherLines := lines.tail.map String.toList
  fieldOf_processorLine := hprocessor.1
  processorIds_eq := hlines.1
  physicalIds_le := hlines.2.1
  coreIds_le := hlines.2.2.1
  processor_mem := hprocessor.2
  physicalId_mem := hlines.2.2.2.1
  coreId_mem := hlines.2.2.2.2

/-- Two processors of one core, and one of another core. -/
def sampleRecords : List Record :=
  [sampleRecord 2 ["processor\t: 2", "model name\t: x", "core id\t\t: 1", "physical id\t: 0", ""]
      (by decide) (by decide),
    sampleRecord 0 ["processor\t: 0", "physical id\t: 0", "core id\t\t: 1"] (by decide) (by decide),
    sampleRecord 1 ["processor\t: 1", "physical id\t: 0", "core id\t\t: 0"] (by decide) (by decide)]

theorem sampleRecords_core_detection :
    ∃ info, detect (linesOf sampleRecords) = .ok info ∧ Describes info (triplesOf sampleRecords) :=
  ((core_detection sampleRecords (by decide)).2 fun r hr => by
    simp only [sampleRecords, List.dropLast, List.mem_cons, List.not_mem_nil, or_false] at hr
    rcases hr with rfl | rfl <;> exact ⟨by decide, by decide⟩).2

end Patton.CpuInfo
