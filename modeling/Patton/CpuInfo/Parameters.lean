import Patton.CpuInfo.Pinning

/-!
# The pinning parameters of a squad

`check_params` checks the parameters as they are given, `create` replaces the placeholders
and limits the number of hardware threads afterwards. Worker `i` is pinned to position
`i % max_num_hardware_threads`.
-/

namespace Patton.CpuInfo

variable {n i k k' : ℕ} {given p : Params}

theorem of_expects_eq_ok {v : Violation} {condition : Prop} [Decidable condition] {u : Unit}
    (h : expects v condition = .ok u) : condition := by
  by_contra hnot
  rw [expects, if_neg hnot] at h
  cases h

structure Accepted (p : Params) : Prop where
  numThreads_nonneg : 0 ≤ p.numThreads
  maxNumHardwareThreads_nonneg : 0 ≤ p.maxNumHardwareThreads
  le_numThreads : p.numThreads = 0 ∨ p.maxNumHardwareThreads ≤ p.numThreads
  le_length : p.hardwareThreadMappings = [] ∨
    p.maxNumHardwareThreads ≤ p.hardwareThreadMappings.length ∧
      p.numThreads ≤ p.hardwareThreadMappings.length

theorem accepted_of_checkParams_eq_ok (h : checkParams p = .ok ()) : Accepted p := by
  obtain ⟨u, hnum, h⟩ := exists_of_bind_eq_ok h
  obtain ⟨u', hmax, h⟩ := exists_of_bind_eq_ok h
  obtain ⟨u'', hle, hlength⟩ := exists_of_bind_eq_ok h
  exact ⟨of_expects_eq_ok hnum, of_expects_eq_ok hmax, of_expects_eq_ok hle,
    of_expects_eq_ok hlength⟩

/-- The number of hardware threads to use if none is given -/
def defaultMax (n : ℕ) (given : Params) : ℤ :=
  if given.hardwareThreadMappings ≠ [] then given.hardwareThreadMappings.length else n

/-- What `create` makes of the parameters. -/
structure Resolved (n : ℕ) (given p : Params) : Prop where
  numThreads_eq : p.numThreads = if given.numThreads = 0 then (n : ℤ) else given.numThreads
  maxNumHardwareThreads_eq : p.maxNumHardwareThreads =
    min (if given.maxNumHardwareThreads = 0 then defaultMax n given
      else given.maxNumHardwareThreads) n
  hardwareThreadMappings_eq : p.hardwareThreadMappings = given.hardwareThreadMappings

theorem resolved_of_create_eq_ok (h : create n given = .ok p) : Resolved n given p := by
  obtain ⟨m, hm, h⟩ := exists_of_bind_eq_ok h
  obtain ⟨rfl, -⟩ := of_narrowToInt_eq_ok hm
  dsimp only at h
  by_cases hzero : given.maxNumHardwareThreads = 0
  · rw [if_pos hzero] at h
    by_cases hmappings : given.hardwareThreadMappings ≠ []
    · rw [if_pos hmappings] at h
      obtain ⟨max, hmax, h⟩ := exists_of_bind_eq_ok h
      obtain ⟨rfl, -⟩ := of_narrowToInt_eq_ok hmax
      cases h
      exact ⟨rfl, by rw [if_pos hzero, defaultMax, if_pos hmappings], rfl⟩
    · rw [if_neg hmappings] at h
      cases h
      exact ⟨rfl, by rw [if_pos hzero, defaultMax, if_neg hmappings], rfl⟩
  · rw [if_neg hzero] at h
    cases h
    exact ⟨rfl, by rw [if_neg hzero], rfl⟩

/-- The position in the mapping, or the hardware thread, of worker `i` -/
def position (p : Params) (i : ℕ) : ℕ := ((i : ℤ) % p.maxNumHardwareThreads).toNat

def workersAt (p : Params) (k : ℕ) : ℕ :=
  ((Finset.range p.numThreads.toNat).filter fun i => position p i = k).card

/-- How the workers are pinned, given `hardware_concurrency()` and the parameters before
and after `create`. -/
structure PinnedEvenly (n : ℕ) (given p : Params) : Prop where
  /-- the `gsl_Expects` of `get_hardware_thread_id` -/
  expects : ∀ i : ℕ, (i : ℤ) < p.numThreads → (i : ℤ) ≥ 0 ∧ p.maxNumHardwareThreads > 0 ∧
    (p.hardwareThreadMappings = [] ∨
      p.maxNumHardwareThreads ≤ p.hardwareThreadMappings.length)
  inBounds : p.hardwareThreadMappings ≠ [] → ∀ i : ℕ, (i : ℤ) < p.numThreads →
    position p i < p.hardwareThreadMappings.length
  mapped : ∀ i : ℕ, (i : ℤ) < p.numThreads →
    ∀ id, p.hardwareThreadMappings[position p i]? = some id → 0 ≤ id →
      getHardwareThreadId i p.maxNumHardwareThreads p.hardwareThreadMappings = .ok id.toNat
  unmapped : p.hardwareThreadMappings = [] → ∀ i : ℕ, (i : ℤ) < p.numThreads →
    position p i < n ∧
      getHardwareThreadId i p.maxNumHardwareThreads p.hardwareThreadMappings =
        .ok (position p i)
  used_le : ((Finset.range p.numThreads.toNat).image (position p)).card ≤ n ∧
    (given.maxNumHardwareThreads ≠ 0 →
      (((Finset.range p.numThreads.toNat).image (position p)).card : ℤ) ≤
        given.maxNumHardwareThreads) ∧
    (given.hardwareThreadMappings ≠ [] →
      ((Finset.range p.numThreads.toNat).image (position p)).card ≤
        given.hardwareThreadMappings.length)
  even : ∀ k k' : ℕ, (k : ℤ) < p.maxNumHardwareThreads → (k' : ℤ) < p.maxNumHardwareThreads →
    workersAt p k ≤ workersAt p k' + 1

/-- There is always a hardware thread to pin a worker to. -/
theorem Resolved.maxNumHardwareThreads_pos (h : Resolved n given p) (ha : Accepted given)
    (hn : 1 ≤ n) : 0 < p.maxNumHardwareThreads := by
  have hnonneg := ha.maxNumHardwareThreads_nonneg
  have hdefault : 0 < defaultMax n given := by
    rw [defaultMax]
    split_ifs with hmappings
    · exact_mod_cast List.length_pos_of_ne_nil hmappings
    · omega
  rw [h.maxNumHardwareThreads_eq]
  split_ifs <;> omega

/-- The number of hardware threads stays in the mapping, although the number of threads may
have become larger than the mapping. -/
theorem Resolved.maxNumHardwareThreads_le (h : Resolved n given p) (ha : Accepted given)
    (hmappings : given.hardwareThreadMappings ≠ []) :
    p.maxNumHardwareThreads ≤ given.hardwareThreadMappings.length := by
  have hle := (ha.le_length.resolve_left hmappings).1
  rw [h.maxNumHardwareThreads_eq, defaultMax, if_pos hmappings]
  split_ifs <;> omega

theorem Resolved.maxNumHardwareThreads_le_max (h : Resolved n given p)
    (hgiven : given.maxNumHardwareThreads ≠ 0) :
    p.maxNumHardwareThreads ≤ given.maxNumHardwareThreads := by
  rw [h.maxNumHardwareThreads_eq, if_neg hgiven]
  exact min_le_left _ _

theorem Resolved.maxNumHardwareThreads_le_hardwareConcurrency (h : Resolved n given p) :
    p.maxNumHardwareThreads ≤ n := by
  rw [h.maxNumHardwareThreads_eq]
  exact min_le_right _ _

/-- The positions are the remainders of the indices. -/
theorem position_eq {m : ℕ} (hm : p.maxNumHardwareThreads = m) (i : ℕ) :
    position p i = i % m := by
  rw [position, hm, ← Int.natCast_mod, Int.toNat_natCast]

theorem position_lt (hmax : 0 < p.maxNumHardwareThreads) (i : ℕ) :
    (position p i : ℤ) < p.maxNumHardwareThreads := by
  rw [position, Int.toNat_of_nonneg (Int.emod_nonneg _ hmax.ne')]
  exact Int.emod_lt_of_pos _ hmax

theorem card_positions_le (hmax : 0 < p.maxNumHardwareThreads) :
    (((Finset.range p.numThreads.toNat).image (position p)).card : ℤ) ≤
      p.maxNumHardwareThreads := by
  have hsub : (Finset.range p.numThreads.toNat).image (position p) ⊆
      Finset.range p.maxNumHardwareThreads.toNat := by
    refine Finset.image_subset_iff.2 fun i _ => Finset.mem_range.2 ?_
    have hlt := position_lt hmax i
    omega
  have hcard := Finset.card_le_card hsub
  rw [Finset.card_range] at hcard
  omega

/-- Going around the positions, some of them get one worker more than the others. -/
theorem workersAt_eq {m : ℕ} (hm : p.maxNumHardwareThreads = m) (hk : k < m) :
    workersAt p k = p.numThreads.toNat / m + if k < p.numThreads.toNat % m then 1 else 0 := by
  have hfilter : ((Finset.range p.numThreads.toNat).filter fun i => position p i = k) =
      (Finset.range p.numThreads.toNat).filter fun i => i ≡ k [MOD m] := by
    refine Finset.filter_congr fun i _ => ?_
    rw [position_eq hm, Nat.ModEq, Nat.mod_eq_of_lt hk]
  rw [workersAt, hfilter, ← Nat.count_eq_card_filter_range,
    Nat.count_modEq_card _ (Nat.zero_lt_of_lt hk), Nat.mod_eq_of_lt hk]

/-- After `create` has replaced the placeholders, the checks hold, and the workers are
spread evenly over the hardware threads. -/
theorem pinning_resolved (hcheck : checkParams given = .ok ()) (hn : 1 ≤ n)
    (hcreate : create n given = .ok p) : PinnedEvenly n given p := by
  have ha := accepted_of_checkParams_eq_ok hcheck
  have h := resolved_of_create_eq_ok hcreate
  have hmax := h.maxNumHardwareThreads_pos ha hn
  have hle : p.hardwareThreadMappings = [] ∨
      p.maxNumHardwareThreads ≤ p.hardwareThreadMappings.length := by
    rw [h.hardwareThreadMappings_eq]
    exact or_iff_not_imp_left.2 fun hmappings => h.maxNumHardwareThreads_le ha hmappings
  have hcard := card_positions_le hmax
  have hn' := h.maxNumHardwareThreads_le_hardwareConcurrency
  refine ⟨fun i _ => ⟨by omega, hmax, hle⟩, fun hmappings i _ => ?_, fun i _ id hid hnonneg => ?_,
    fun hempty i _ => ?_, ⟨by omega, fun hgiven => ?_, fun hmappings => ?_⟩,
    fun k k' hk hk' => ?_⟩
  · have hlt := position_lt hmax i
    have hle' := hle.resolve_left hmappings
    omega
  · have hne : p.hardwareThreadMappings ≠ [] := by
      rintro hempty
      rw [hempty] at hid
      cases hid
    rw [getHardwareThreadId_eq_narrowToSize (by omega) hmax hle, if_pos hne,
      List.getD_eq_getElem?_getD]
    rw [position] at hid
    rw [hid]
    exact narrowToSize_of_nonneg hnonneg
  · have hlt := position_lt hmax i
    refine ⟨by omega, ?_⟩
    rw [getHardwareThreadId_eq_narrowToSize (by omega) hmax hle, if_neg (not_not.2 hempty)]
    exact narrowToSize_of_nonneg (Int.emod_nonneg _ hmax.ne')
  · exact hcard.trans (h.maxNumHardwareThreads_le_max hgiven)
  · have hlength := h.maxNumHardwareThreads_le ha hmappings
    omega
  · obtain ⟨m, hm⟩ := Int.eq_ofNat_of_zero_le hmax.le
    rw [workersAt_eq hm (by omega), workersAt_eq hm (by omega)]
    split_ifs <;> omega

/-- Five threads on two hardware threads: 3, 1, 3, 1, 3. -/
theorem fiveThreads_pinning_resolved :
    PinnedEvenly 2 ⟨5, true, 0, [3, 1, 2, 0, 4]⟩ ⟨5, true, 2, [3, 1, 2, 0, 4]⟩ :=
  pinning_resolved rfl (by decide) rfl

/-- A negative hardware thread id is not a `std::size_t`. -/
theorem not_pinned_negativeMapping :
    checkParams ⟨1, true, 0, [-1]⟩ = .ok () ∧
      create 1 ⟨1, true, 0, [-1]⟩ = .ok ⟨1, true, 1, [-1]⟩ ∧
      getHardwareThreadId (0 : ℕ) 1 [-1] = .error .narrowFailfast ∧
      ¬ ∀ (n : ℕ) (given p : Params), checkParams given = .ok () → 1 ≤ n →
        create n given = .ok p → ∀ i : ℕ, (i : ℤ) < p.numThreads → ∃ id,
          getHardwareThreadId i p.maxNumHardwareThreads p.hardwareThreadMappings = .ok id := by
  have hnarrow : getHardwareThreadId (0 : ℕ) 1 [-1] = .error .narrowFailfast := rfl
  refine ⟨rfl, rfl, hnarrow, fun h => ?_⟩
  obtain ⟨id, hid⟩ := h 1 ⟨1, true, 0, [-1]⟩ ⟨1, true, 1, [-1]⟩ rfl (by decide) rfl 0 (by decide)
  cases hnarrow.symm.trans hid

end Patton.CpuInfo
