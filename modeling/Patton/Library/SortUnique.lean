import Mathlib

/-!
# Sorting a list and keeping the first of each group

A list is sorted, and then of consecutive elements that belong together only the first one
is kept. If elements that belong together are next to each other in sorted order, this
leaves the least element of each group.
-/

namespace SortUnique

variable {α : Type*}

/-- Elements that belong together are not separated by the order. -/
structure Grouped (r same : α → α → Prop) : Prop where
  total : ∀ a b, r a b ∨ r b a
  trans : ∀ a b c, r a b → r b c → r a c
  antisymm : ∀ a b, r a b → r b a → a = b
  equiv : Equivalence same
  between : ∀ a b c, r a b → r b c → same a c → same a b

/-- The list, sorted, with the first element of each group. -/
def sortUnique (r same : α → α → Prop) [DecidableRel r] [DecidableRel same] (l : List α) :
    List α := (l.insertionSort r).destutter fun a b => ¬ same a b

variable {r same : α → α → Prop} {a x y : α} {l : List α}

theorem Grouped.refl (h : Grouped r same) (a : α) : r a a := (h.total a a).elim id id

/-- If the next element belongs to another group, so do all that follow. -/
theorem Grouped.not_same (h : Grouped r same) {b : α} (hsorted : (a :: b :: l).Pairwise r)
    (hab : ¬ same a b) (hy : y ∈ b :: l) : ¬ same a y := by
  rw [List.pairwise_cons] at hsorted
  rcases List.mem_cons.1 hy with rfl | hyl
  · exact hab
  · have hby : r b y := (List.pairwise_cons.1 hsorted.2).1 y hyl
    exact fun hay => hab (h.between a b y (hsorted.1 b List.mem_cons_self) hby hay)

variable [DecidableRel same]

/-- What is kept is the least element of its group. -/
theorem mem_destutter'_iff (h : Grouped r same) (hsorted : (a :: l).Pairwise r) :
    x ∈ l.destutter' (fun a b => ¬ same a b) a ↔
      x ∈ a :: l ∧ ∀ y ∈ a :: l, same x y → r x y := by
  induction l generalizing a with
  | nil =>
      simp only [List.destutter'_nil, List.mem_singleton]
      exact ⟨fun hx => ⟨hx, fun y hy _ => hx ▸ hy ▸ h.refl a⟩, And.left⟩
  | cons b l ih =>
      have hab : r a b := (List.pairwise_cons.1 hsorted).1 b List.mem_cons_self
      by_cases hsame : same a b
      · have htail : (a :: l).Pairwise r :=
          hsorted.sublist ((List.sublist_cons_self b l).cons_cons a)
        rw [List.destutter'_cons_neg l (not_not.2 hsame), ih htail]
        constructor
        · rintro ⟨hx, hleast⟩
          refine ⟨?_, fun y hy hxy => ?_⟩
          · exact ((List.sublist_cons_self b l).cons_cons a).mem hx
          · have hcases : y = b ∨ y ∈ a :: l := by
              simp only [List.mem_cons] at hy ⊢
              tauto
            rcases hcases with rfl | hy
            · have hxa : r x a :=
                hleast a List.mem_cons_self (h.equiv.trans hxy (h.equiv.symm hsame))
              exact h.trans x a y hxa hab
            · exact hleast y hy hxy
        · rintro ⟨hx, hleast⟩
          have hsub : ∀ y ∈ a :: l, y ∈ a :: b :: l := fun y hy =>
            ((List.sublist_cons_self b l).cons_cons a).mem hy
          refine ⟨?_, fun y hy => hleast y (hsub y hy)⟩
          have hcases : x = b ∨ x ∈ a :: l := by
            simp only [List.mem_cons] at hx ⊢
            tauto
          rcases hcases with rfl | hx
          · have hxa : r x a := hleast a List.mem_cons_self (h.equiv.symm hsame)
            exact h.antisymm x a hxa hab ▸ List.mem_cons_self
          · exact hx
      · rw [List.destutter'_cons_pos l hsame, List.mem_cons, ih (List.pairwise_cons.1 hsorted).2]
        constructor
        · rintro (rfl | ⟨hx, hleast⟩)
          · refine ⟨List.mem_cons_self, fun y hy _ => ?_⟩
            rcases List.mem_cons.1 hy with rfl | hy
            · exact h.refl y
            · exact (List.pairwise_cons.1 hsorted).1 y hy
          · refine ⟨List.mem_cons_of_mem a hx, fun y hy hxy => ?_⟩
            rcases List.mem_cons.1 hy with rfl | hy
            · exact absurd (h.equiv.symm hxy) (h.not_same hsorted hsame hx)
            · exact hleast y hy hxy
        · rintro ⟨hx, hleast⟩
          rcases List.mem_cons.1 hx with rfl | hx
          · exact .inl rfl
          · exact .inr ⟨hx, fun y hy => hleast y (List.mem_cons_of_mem a hy)⟩

/-- Of each group one element is kept. -/
theorem pairwise_destutter' (h : Grouped r same) (hsorted : (a :: l).Pairwise r) :
    (l.destutter' (fun a b => ¬ same a b) a).Pairwise fun a b => ¬ same a b := by
  induction l generalizing a with
  | nil => simp
  | cons b l ih =>
      by_cases hsame : same a b
      · rw [List.destutter'_cons_neg l (not_not.2 hsame)]
        exact ih (hsorted.sublist ((List.sublist_cons_self b l).cons_cons a))
      · rw [List.destutter'_cons_pos l hsame, List.pairwise_cons]
        refine ⟨fun y hy => ?_, ih (List.pairwise_cons.1 hsorted).2⟩
        exact h.not_same hsorted hsame ((List.destutter'_sublist l _ b).mem hy)

theorem exists_mem_destutter' (h : Grouped r same) (hy : y ∈ a :: l) :
    ∃ x ∈ l.destutter' (fun a b => ¬ same a b) a, same x y := by
  induction l generalizing a y with
  | nil =>
      obtain rfl := List.mem_singleton.1 hy
      exact ⟨y, by simp, h.equiv.refl y⟩
  | cons b l ih =>
      by_cases hsame : same a b
      · rw [List.destutter'_cons_neg l (not_not.2 hsame)]
        have hcases : y = b ∨ y ∈ a :: l := by
          simp only [List.mem_cons] at hy ⊢
          tauto
        rcases hcases with rfl | hy
        · obtain ⟨x, hx, hxa⟩ := ih (List.mem_cons_self (a := a))
          exact ⟨x, hx, h.equiv.trans hxa hsame⟩
        · exact ih hy
      · rw [List.destutter'_cons_pos l hsame]
        rcases List.mem_cons.1 hy with rfl | hy
        · exact ⟨y, List.mem_cons_self, h.equiv.refl y⟩
        · obtain ⟨x, hx, hxy⟩ := ih hy
          exact ⟨x, List.mem_cons_of_mem a hx, hxy⟩

variable [DecidableRel r]

omit [DecidableRel same] in
theorem Grouped.pairwise_insertionSort (h : Grouped r same) (l : List α) :
    (l.insertionSort r).Pairwise r := by
  have htotal : Std.Total r := ⟨h.total⟩
  have htrans : IsTrans α r := ⟨h.trans⟩
  exact List.pairwise_insertionSort r l

/-- The result holds the least element of each group. -/
theorem mem_sortUnique_iff (h : Grouped r same) (l : List α) :
    x ∈ sortUnique r same l ↔ x ∈ l ∧ ∀ y ∈ l, same x y → r x y := by
  have hsorted := h.pairwise_insertionSort l
  simp only [← List.mem_insertionSort r (l := l)]
  rw [sortUnique]
  cases hl : l.insertionSort r with
  | nil => simp
  | cons a l' =>
      rw [hl] at hsorted
      exact mem_destutter'_iff h hsorted

theorem pairwise_sortUnique (h : Grouped r same) (l : List α) :
    (sortUnique r same l).Pairwise fun a b => ¬ same a b := by
  have hsorted := h.pairwise_insertionSort l
  rw [sortUnique]
  cases hl : l.insertionSort r with
  | nil => simp
  | cons a l' =>
      rw [hl] at hsorted
      exact pairwise_destutter' h hsorted

theorem exists_mem_sortUnique (h : Grouped r same) (hy : y ∈ l) :
    ∃ x ∈ sortUnique r same l, same x y := by
  rw [← List.mem_insertionSort r] at hy
  rw [sortUnique]
  cases hl : l.insertionSort r with
  | nil =>
      rw [hl] at hy
      cases hy
  | cons a l' =>
      rw [hl] at hy
      exact exists_mem_destutter' h hy

end SortUnique
