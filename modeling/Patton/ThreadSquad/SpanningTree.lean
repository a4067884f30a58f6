import Patton.ThreadSquad.BlockTree

/-!
# When the wake tree is a spanning tree

`Divides s` says that `s` and all strides below it are multiples of the next
stride. The blocks of a squad are laid out with a truncated last block, but a
worker only remembers the untruncated stride; the two agree exactly when the
strides below the top level divide each other. Under that condition every
worker other than `0` has exactly one parent, `parentOff n i`. Without it the
block `[0, s)` of the first stride `s` which is not divisible hands its
successor `s` to a second parent.
-/

namespace Patton.ThreadSquad

/-- All strides from `s` downwards are multiples of the next stride. -/
def Divides (s : ℕ) : Prop :=
  ∀ k, nextSubstride^[k + 1] s ∣ nextSubstride^[k] s

/-- The strides below the top level of a squad of `n` workers divide each
other. -/
def StridesDivide (n : ℕ) : Prop := Divides (nextSubstride n)

theorem Divides.dvd {s : ℕ} (h : Divides s) : nextSubstride s ∣ s := h 0

theorem Divides.next {s : ℕ} (h : Divides s) : Divides (nextSubstride s) := by
  intro k
  have := h (k + 1)
  rwa [Function.iterate_succ_apply, Function.iterate_succ_apply] at this

/-- Nested blocks: a worker's range stays inside the block of its parent. -/
theorem Divides.strideOf_le {s : ℕ} (h : Divides s) {off : ℕ} (hoff : off < s) :
    off + strideOf s off ≤ s := by
  fun_induction strideOf s off with
  | case1 s off hs => omega
  | case2 s hs => omega
  | case3 s off hs hne ih =>
      have hsub : 0 < nextSubstride s := nextSubstride_pos (by omega)
      have hin := ih h.next (Nat.mod_lt _ hsub)
      obtain ⟨c, hc⟩ := h.dvd
      have hdm := Nat.div_add_mod' off (nextSubstride s)
      have hq : off / nextSubstride s < c := by
        rw [Nat.div_lt_iff_lt_mul hsub, Nat.mul_comm, ← hc]
        exact hoff
      have hmul : (off / nextSubstride s + 1) * nextSubstride s ≤ c * nextSubstride s :=
        Nat.mul_le_mul_right _ hq
      rw [Nat.add_mul, Nat.one_mul, Nat.mul_comm c, ← hc] at hmul
      omega

/-- Worker `t` wakes worker `i`, read off their offsets in a block of stride
`s`. -/
def Wakes (s t i : ℕ) : Prop :=
  t < i ∧ i < t + strideOf s t ∧ parentOff (strideOf s t) (i - t) = 0

/-- Every offset is woken by its parent, whether or not the blocks nest. -/
theorem wakes_parentOff {s i : ℕ} (hi : 0 < i) (his : i < s) :
    Wakes s (parentOff s i) i := by
  refine ⟨parentOff_lt hi, ?_⟩
  fun_induction parentOff s i with
  | case1 s i hs => omega
  | case2 s i hs hdvd =>
      rw [strideOf_zero]
      exact ⟨by omega, parentOff_of_dvd hdvd⟩
  | case3 s i hs hdvd ih =>
      have hsub : 0 < nextSubstride s := nextSubstride_pos (by omega)
      have hmod : 0 < i % nextSubstride s :=
        Nat.pos_of_ne_zero fun h0 => hdvd (Nat.dvd_of_mod_eq_zero h0)
      have hmlt := Nat.mod_lt i hsub
      have hdm := Nat.div_add_mod' i (nextSubstride s)
      have hplt := parentOff_lt (s := nextSubstride s) hmod
      obtain ⟨hlt, hzero⟩ := ih hmod hmlt
      have hdiff : i - (i / nextSubstride s * nextSubstride s +
            parentOff (nextSubstride s) (i % nextSubstride s)) =
          i % nextSubstride s - parentOff (nextSubstride s) (i % nextSubstride s) := by
        omega
      rw [hdiff]
      by_cases h0 : i / nextSubstride s * nextSubstride s +
          parentOff (nextSubstride s) (i % nextSubstride s) = 0
      · -- the parent is the base of the block, whose stored stride is `s`
        have hp0 : parentOff (nextSubstride s) (i % nextSubstride s) = 0 := by omega
        rw [h0, hp0, strideOf_zero]
        rw [hp0, strideOf_zero] at hzero
        refine ⟨by omega, ?_⟩
        have hi' : i % nextSubstride s = i := by omega
        rw [hi'] at hzero hmlt ⊢
        exact (parentOff_eq_zero_of_lt hs hi hmlt).2 hzero
      · have hstride : strideOf s (i / nextSubstride s * nextSubstride s +
              parentOff (nextSubstride s) (i % nextSubstride s)) =
            strideOf (nextSubstride s)
              (parentOff (nextSubstride s) (i % nextSubstride s)) := by
          rw [strideOf_step hs h0, Nat.mul_add_mod_of_lt (by omega)]
        rw [hstride]
        exact ⟨by omega, hzero⟩

/-- In nested blocks nobody else wakes it. -/
theorem Wakes.eq_parentOff {s t i : ℕ} (hdiv : Divides (nextSubstride s))
    (ht : t < s) (hi : i < s) (h : Wakes s t i) : t = parentOff s i := by
  induction s using Nat.strong_induction_on generalizing t i with
  | _ s ih =>
    obtain ⟨hlt, hrange, hzero⟩ := h
    by_cases hs : s ≤ 1
    · omega
    have hsub : 0 < nextSubstride s := nextSubstride_pos (by omega)
    by_cases h0 : t = 0
    · subst h0
      rw [strideOf_zero] at hzero
      simpa using hzero.symm
    · rw [strideOf_step hs h0] at hrange hzero
      have htdm := Nat.div_add_mod' t (nextSubstride s)
      have htmod := Nat.mod_lt t hsub
      have hend := hdiv.strideOf_le htmod
      -- the target lies in the caller's own block
      have hq : i / nextSubstride s = t / nextSubstride s := by
        apply Nat.div_eq_of_lt_le
        · omega
        · rw [Nat.add_mul, Nat.one_mul]
          omega
      have hidm := Nat.div_add_mod' i (nextSubstride s)
      rw [hq] at hidm
      have hdiff : i % nextSubstride s - t % nextSubstride s = i - t := by omega
      have hsubwakes : Wakes (nextSubstride s) (t % nextSubstride s) (i % nextSubstride s) :=
        ⟨by omega, by omega, by rw [hdiff]; exact hzero⟩
      have hrec := ih _ (nextSubstride_lt hs) hdiv.next htmod (Nat.mod_lt i hsub) hsubwakes
      have hndvd : ¬ nextSubstride s ∣ i := by
        intro hdvd
        have := Nat.mod_eq_zero_of_dvd hdvd
        omega
      rw [parentOff_step hs hndvd, hq]
      omega

theorem mem_toSubthreads {n t i c : ℕ} (ht : t < n) :
    i ∈ toSubthreads (numSubthreads n) t c ↔ Wakes n t i ∧ i < c := by
  rw [toSubthreads, numSubthreads_apply ht,
    mem_toSubthreadsLoop (strideOf_pos (by omega) t) (by omega)]
  constructor
  · rintro ⟨h1, h2, h3⟩
    exact ⟨⟨h1, by omega, h3⟩, by omega⟩
  · rintro ⟨⟨h1, h2, h3⟩, h4⟩
    exact ⟨h1, by omega, h3⟩

/-- The calls of `func` made by `to_subthreads(t, n, .)` for `t = 0, ..., n - 1`,
as pairs of caller and target. -/
def wakeEdges (n : ℕ) : List (ℕ × ℕ) :=
  (List.range n).flatMap fun t =>
    (toSubthreads (numSubthreads n) t n).map fun i => (t, i)

/-- The wake tree is a spanning tree rooted at worker `0`. -/
def IsSpanningTree (n : ℕ) : Prop :=
  (∀ i, 1 ≤ i → i < n → ((wakeEdges n).map Prod.snd).count i = 1) ∧
  ∀ edge ∈ wakeEdges n, edge.1 < edge.2 ∧ 0 < edge.2 ∧ edge.2 < n

instance (n : ℕ) : Decidable (IsSpanningTree n) :=
  decidable_of_iff
    ((∀ i, i < n → 1 ≤ i → ((wakeEdges n).map Prod.snd).count i = 1) ∧
      ∀ edge ∈ wakeEdges n, edge.1 < edge.2 ∧ 0 < edge.2 ∧ edge.2 < n)
    ⟨fun h => ⟨fun i h1 h2 => h.1 i h2 h1, h.2⟩, fun h => ⟨fun i h2 h1 => h.1 i h1 h2, h.2⟩⟩

theorem mem_wakeEdges {n t i : ℕ} :
    (t, i) ∈ wakeEdges n ↔ t < n ∧ Wakes n t i ∧ i < n := by
  simp only [wakeEdges, List.mem_flatMap, List.mem_range, List.mem_map, Prod.mk.injEq]
  constructor
  · rintro ⟨t', ht', i', hi', rfl, rfl⟩
    exact ⟨ht', (mem_toSubthreads ht').1 hi'⟩
  · rintro ⟨ht, hw⟩
    exact ⟨t, ht, i, (mem_toSubthreads ht).2 hw, rfl, rfl⟩

/-- The number of times `i` is a target is the number of workers which wake it. -/
theorem count_wakeEdges (n i : ℕ) :
    ((wakeEdges n).map Prod.snd).count i =
      ((List.range n).filter fun t => i ∈ toSubthreads (numSubthreads n) t n).length := by
  have hone : ∀ t ∈ List.range n,
      ((toSubthreads (numSubthreads n) t n).count i) =
        if i ∈ toSubthreads (numSubthreads n) t n then 1 else 0 := by
    intro t ht
    have htn : t < n := List.mem_range.1 ht
    rw [List.Nodup.count]
    rw [toSubthreads, numSubthreads_apply htn]
    exact toSubthreadsLoop_nodup (strideOf_pos (by omega) t)
  have hmap : (wakeEdges n).map Prod.snd =
      (List.range n).flatMap fun t => toSubthreads (numSubthreads n) t n := by
    simp [wakeEdges, List.map_flatMap, Function.comp_def]
  rw [hmap, List.count_flatMap, Function.comp_def, List.map_congr_left hone,
    ← List.countP_eq_length_filter]
  induction List.range n with
  | nil => rfl
  | cons t l ih =>
      rw [List.map_cons, List.sum_cons, ih, List.countP_cons]
      simp [Nat.add_comm]

theorem isSpanningTree_of_stridesDivide {n : ℕ} (h : StridesDivide n) :
    IsSpanningTree n := by
  constructor
  · intro i hi hin
    have hunique : ((List.range n).filter fun t => i ∈ toSubthreads (numSubthreads n) t n) =
        (List.range n).filter fun t => t = parentOff n i := by
      apply List.filter_congr
      intro t ht
      have htn := List.mem_range.1 ht
      have hiff : i ∈ toSubthreads (numSubthreads n) t n ↔ t = parentOff n i := by
        rw [mem_toSubthreads htn]
        constructor
        · rintro ⟨hw, -⟩
          exact hw.eq_parentOff h htn hin
        · rintro rfl
          exact ⟨wakes_parentOff (by omega) hin, hin⟩
      simp [hiff]
    have hp : parentOff n i < n := lt_trans (parentOff_lt (by omega)) hin
    have hone : (List.range n).countP (fun t => decide (t = parentOff n i)) = 1 := by
      have hcount : (List.range n).count (parentOff n i) = 1 :=
        List.count_eq_one_of_mem List.nodup_range (List.mem_range.2 hp)
      rw [← hcount, List.count]
      exact List.countP_congr fun t _ => by simp
    rw [count_wakeEdges n i, hunique, ← List.countP_eq_length_filter, hone]
  · rintro ⟨t, i⟩ he
    obtain ⟨-, hw, hin⟩ := mem_wakeEdges.1 he
    exact ⟨hw.1, Nat.lt_of_le_of_lt (Nat.zero_le t) hw.1, hin⟩

theorem iterate_nextSubstride_le (k s : ℕ) : nextSubstride^[k] s ≤ s :=
  Function.iterate_le_id_of_le_id nextSubstride_le k s

/-- Inside the block `[0, s)` of a stride `s` below the top level, the strides
of the squad are those of the block. -/
theorem strideOf_iterate {n k t : ℕ} (ht : 0 < t) (hlt : t < nextSubstride^[k] n) :
    strideOf n t = strideOf (nextSubstride^[k] n) t := by
  induction k generalizing n with
  | zero => rfl
  | succ k ih =>
      rw [Function.iterate_succ_apply] at hlt ⊢
      have hsub : t < nextSubstride n :=
        lt_of_lt_of_le hlt (iterate_nextSubstride_le k _)
      rw [← ih hlt]
      by_cases hn : n ≤ 1
      · rw [nextSubstride_of_le_one hn]
      · rw [strideOf_step hn (by omega), Nat.mod_eq_of_lt hsub]

/-- The first worker behind the block `[0, s)` is woken by worker `0`. -/
theorem parentOff_iterate {n k : ℕ} (h : 1 < nextSubstride^[k + 1] n) :
    parentOff n (nextSubstride^[k + 1] n) = 0 := by
  induction k generalizing n with
  | zero => exact parentOff_of_dvd (dvd_refl _)
  | succ k ih =>
      rw [Function.iterate_succ_apply] at h ⊢
      have hlt : nextSubstride^[k + 1] (nextSubstride n) < nextSubstride n := by
        rw [Function.iterate_succ_apply'] at h ⊢
        have hprev : ¬ nextSubstride^[k] (nextSubstride n) ≤ 1 := by
          intro hle
          rw [nextSubstride_of_le_one hle] at h
          omega
        exact lt_of_lt_of_le (nextSubstride_lt hprev) (iterate_nextSubstride_le k _)
      have hn : ¬ n ≤ 1 := by
        intro hle
        have := iterate_nextSubstride_le (k + 1) (nextSubstride n)
        have := nextSubstride_le n
        omega
      exact (parentOff_eq_zero_of_lt hn (by omega) hlt).2 (ih h)

/-- A stride which the next one does not divide hands the worker behind its
first block to two parents. -/
theorem two_parents {n k : ℕ}
    (h : ¬ nextSubstride^[k + 2] n ∣ nextSubstride^[k + 1] n) :
    ∃ t, 0 < t ∧ nextSubstride^[k + 1] n < n ∧
      Wakes n 0 (nextSubstride^[k + 1] n) ∧ Wakes n t (nextSubstride^[k + 1] n) := by
  rw [Function.iterate_succ_apply'] at h
  have hbig : ¬ nextSubstride^[k + 1] n ≤ 1 := by
    intro hle
    rw [nextSubstride_of_le_one hle] at h
    exact h (dvd_refl _)
  have hltn : nextSubstride^[k + 1] n < n := by
    rw [Function.iterate_succ_apply'] at hbig ⊢
    have hprev : ¬ nextSubstride^[k] n ≤ 1 := by
      intro hle
      rw [nextSubstride_of_le_one hle] at hbig
      exact hbig hle
    exact lt_of_lt_of_le (nextSubstride_lt hprev) (iterate_nextSubstride_le k n)
  have hroot := parentOff_iterate (by omega : 1 < nextSubstride^[k + 1] n)
  have hzero : Wakes n 0 (nextSubstride^[k + 1] n) := by
    have := wakes_parentOff (by omega : 0 < nextSubstride^[k + 1] n) hltn
    rwa [hroot] at this
  have hstride : ∀ t, 0 < t → t < nextSubstride^[k + 1] n →
      strideOf n t = strideOf (nextSubstride^[k + 1] n) t :=
    fun t ht hlt => strideOf_iterate ht hlt
  generalize nextSubstride^[k + 1] n = s at *
  -- the last block of stride `nextSubstride s` in `[0, s)` is cut short by `s`
  have hsub : 0 < nextSubstride s := nextSubstride_pos (by omega)
  have hmod : 0 < s % nextSubstride s :=
    Nat.pos_of_ne_zero fun h0 => h (Nat.dvd_of_mod_eq_zero h0)
  have hmlt := Nat.mod_lt s hsub
  have hdm := Nat.div_add_mod' s (nextSubstride s)
  have hbase : nextSubstride s ≤ s / nextSubstride s * nextSubstride s :=
    Nat.le_mul_of_pos_left _ (Nat.div_pos (nextSubstride_le s) hsub)
  have hplt := parentOff_lt (s := nextSubstride s) hmod
  obtain ⟨-, hrange, hpar⟩ := wakes_parentOff hmod hmlt
  refine ⟨s / nextSubstride s * nextSubstride s +
    parentOff (nextSubstride s) (s % nextSubstride s), by omega, hltn, hzero, by omega, ?_⟩
  have hdiff : s - (s / nextSubstride s * nextSubstride s +
        parentOff (nextSubstride s) (s % nextSubstride s)) =
      s % nextSubstride s - parentOff (nextSubstride s) (s % nextSubstride s) := by
    omega
  rw [hstride _ (by omega) (by omega), strideOf_step hbig (by omega),
    Nat.mul_add_mod_of_lt (by omega), hdiff]
  exact ⟨by omega, hpar⟩

theorem stridesDivide_of_isSpanningTree {n : ℕ} (h : IsSpanningTree n) :
    StridesDivide n := by
  intro k
  by_contra hndvd
  rw [← Function.iterate_succ_apply, ← Function.iterate_succ_apply] at hndvd
  obtain ⟨t, ht, hlt, hw0, hwt⟩ := two_parents hndvd
  have hpos : 1 ≤ nextSubstride^[k + 1] n := Nat.lt_of_le_of_lt (Nat.zero_le 0) hw0.1
  have hone := h.1 _ hpos hlt
  rw [count_wakeEdges n, List.length_eq_one_iff] at hone
  obtain ⟨p, hp⟩ := hone
  have hmem : ∀ u, u < n → Wakes n u (nextSubstride^[k + 1] n) → u = p := by
    intro u hu hwu
    have : u ∈ [p] := by
      rw [← hp, List.mem_filter]
      exact ⟨List.mem_range.2 hu, decide_eq_true ((mem_toSubthreads hu).2 ⟨hwu, hlt⟩)⟩
    simpa using this
  have h0 := hmem 0 (by omega) hw0
  have ht' := hmem t (lt_trans hwt.1 hlt) hwt
  omega

/-- The wake tree of a squad is a spanning tree exactly when the strides below
the top level divide each other. -/
theorem isSpanningTree_iff_stridesDivide (n : ℕ) :
    IsSpanningTree n ↔ StridesDivide n :=
  ⟨stridesDivide_of_isSpanningTree, isSpanningTree_of_stridesDivide⟩

/-- The smallest squad whose wake tree is broken: the strides of 65 workers are
`65, 9, 2, 1`, and worker `9` is woken by the workers `0` and `8`. -/
theorem not_isSpanningTree_sixtyFive : 1 ≤ 65 ∧ ¬ IsSpanningTree 65 := by
  decide +kernel

theorem mem_initCalls_self (first last stride : ℕ) :
    (first, last, stride) ∈ initCalls first last stride := by
  rw [initCalls]
  exact List.mem_cons_self

theorem mem_initCalls_base {n k : ℕ} (hn : 0 < n) :
    (0, nextSubstride^[k] n, nextSubstride^[k] n) ∈ initCalls 0 n n := by
  induction k generalizing n with
  | zero => exact mem_initCalls_self 0 n n
  | succ k ih =>
      rw [Function.iterate_succ_apply]
      by_cases h : n ≤ 1
      · rw [nextSubstride_of_le_one h]
        exact ih hn
      · have hsub := nextSubstride_pos hn
        rw [initCalls, dif_neg h]
        refine List.mem_cons_of_mem _ (List.mem_flatMap.2 ⟨0, ?_, ?_⟩)
        · exact (mem_forIndices hsub).2 ⟨le_rfl, hn, by simp⟩
        · rw [Nat.zero_add, min_eq_left (nextSubstride_le n)]
          exact ih hsub

theorem initCalls_trans {f l s f' l' s' f'' l'' s'' : ℕ}
    (h : (f', l', s') ∈ initCalls f l s) (h' : (f'', l'', s'') ∈ initCalls f' l' s') :
    (f'', l'', s'') ∈ initCalls f l s := by
  induction s using Nat.strong_induction_on generalizing f l with
  | _ s ih =>
    rw [initCalls, List.mem_cons] at h
    rcases h with h | h
    · obtain ⟨rfl, rfl, rfl⟩ : f' = f ∧ l' = l ∧ s' = s := by simpa using h
      exact h'
    · by_cases hs : s ≤ 1
      · simp [hs] at h
      · rw [dif_neg hs, List.mem_flatMap] at h
        obtain ⟨i, hi, hmem⟩ := h
        rw [initCalls, dif_neg hs]
        exact List.mem_cons_of_mem _
          (List.mem_flatMap.2 ⟨i, hi, ih _ (nextSubstride_lt hs) hmem⟩)

theorem Nested.stridesDivide {n : ℕ} (hn : 0 < n) (h : Nested n) : StridesDivide n := by
  intro k
  by_contra hndvd
  rw [← Function.iterate_succ_apply, ← Function.iterate_succ_apply] at hndvd
  obtain ⟨-, -, hltn, -, -⟩ := two_parents hndvd
  rw [Function.iterate_succ_apply'] at hndvd
  have hcall := mem_initCalls_base (k := k + 1) hn
  generalize nextSubstride^[k + 1] n = s at *
  have hbig : ¬ s ≤ 1 := by
    intro hle
    rw [nextSubstride_of_le_one hle] at hndvd
    exact hndvd (dvd_refl _)
  have hsub : 0 < nextSubstride s := nextSubstride_pos (by omega)
  have hmod : 0 < s % nextSubstride s :=
    Nat.pos_of_ne_zero fun h0 => hndvd (Nat.dvd_of_mod_eq_zero h0)
  have hmlt := Nat.mod_lt s hsub
  have hdm := Nat.div_add_mod' s (nextSubstride s)
  have hlast : (s / nextSubstride s * nextSubstride s, s, nextSubstride s) ∈
      initCalls 0 s s := by
    rw [initCalls, dif_neg hbig]
    refine List.mem_cons_of_mem _ (List.mem_flatMap.2
      ⟨s / nextSubstride s * nextSubstride s, ?_, ?_⟩)
    · exact (mem_forIndices hsub).2 ⟨Nat.zero_le _, by omega, by simp⟩
    · have := mem_initCalls_self (s / nextSubstride s * nextSubstride s) s (nextSubstride s)
      rwa [min_eq_right (by omega)]
  have := h _ (initCalls_trans hcall hlast)
  simp only at this
  omega

theorem StridesDivide.nested {n : ℕ} (h : StridesDivide n) : Nested n := by
  have key : ∀ s f l, Divides (nextSubstride s) → min (f + s) n ≤ l → l ≤ min (f + s) n →
      (nextSubstride s ∣ s ∨ n ≤ f + s) →
      ∀ call ∈ initCalls f l s, min (call.1 + call.2.2) n ≤ call.2.1 := by
    intro s
    induction s using Nat.strong_induction_on with
    | _ s ih =>
      intro f l hdiv hle hge hcut call hcall
      rw [initCalls, List.mem_cons] at hcall
      rcases hcall with rfl | hcall
      · exact hle
      · by_cases hs : s ≤ 1
        · simp [hs] at hcall
        · rw [dif_neg hs, List.mem_flatMap] at hcall
          obtain ⟨i, hi, hmem⟩ := hcall
          have hsub : 0 < nextSubstride s := nextSubstride_pos (by omega)
          obtain ⟨hfi, hil, c, hc⟩ := (mem_forIndices hsub).1 hi
          refine ih _ (nextSubstride_lt hs) i _ hdiv.next ?_ (by omega)
            (Or.inl hdiv.dvd) call hmem
          by_cases hend : n ≤ f + s
          · omega
          · obtain ⟨d, hd⟩ := hcut.resolve_right hend
            have hcd : c + 1 ≤ d := by
              by_contra hcd
              have hmul := Nat.mul_le_mul_left (nextSubstride s) (by omega : d ≤ c)
              omega
            have hmul := Nat.mul_le_mul_left (nextSubstride s) hcd
            rw [Nat.mul_add, Nat.mul_one] at hmul
            omega
  exact key n 0 n h (by omega) (by omega) (Or.inr (by omega))

theorem nested_iff_stridesDivide {n : ℕ} (hn : 0 < n) : Nested n ↔ StridesDivide n :=
  ⟨Nested.stridesDivide hn, StridesDivide.nested⟩

end Patton.ThreadSquad
