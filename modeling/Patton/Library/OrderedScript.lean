import Mathlib

/-!
# Scripts of sequential processes

A sequential process runs through a fixed list of events, its script; at any
time a suffix of the script is still pending. When the script is sorted by an
order `before` on events, the pending events are closed upwards: an event is
pending as soon as an earlier one is. That is how the position of a process in
its script is read off a single event.

A script is built from segments; it is sorted and free of duplicates when the
events of every segment are unordered and distinct and those of an earlier
segment come before those of a later one.
-/

namespace OrderedScript

variable {E : Type*} {before : E → E → Prop}

/-- No event of the list comes before an earlier one. -/
def Sorted (before : E → E → Prop) (S : List E) : Prop :=
  S.Pairwise fun a b => ¬ before b a

theorem Sorted.mem_of_before {S l : List E} (hS : Sorted before S) (hl : l <:+ S)
    {a b : E} (ha : a ∈ l) (hb : b ∈ S) (hab : before a b) : b ∈ l := by
  obtain ⟨done, rfl⟩ := hl
  rcases List.mem_append.1 hb with hdone | hb
  · exact absurd hab ((List.pairwise_append.1 hS).2.2 b hdone a ha)
  · exact hb

theorem Sorted.not_mem_of_head {S l : List E} {b : E} (hS : Sorted before S)
    (hl : b :: l <:+ S) {a : E} (hab : before a b) : a ∉ l := by
  intro ha
  obtain ⟨done, rfl⟩ := hl
  exact (List.pairwise_cons.1 (List.pairwise_append.1 hS).2.1).1 a ha hab

theorem not_mem_of_nodup {S l : List E} {a : E} (hS : S.Nodup) (hl : a :: l <:+ S) :
    a ∉ l :=
  (List.nodup_cons.1 (hS.sublist hl.sublist)).1

variable {B : Type*} {events : B → List E}

theorem sorted_flatMap {bs : List B} (hin : ∀ b ∈ bs, Sorted before (events b))
    (hout : bs.Pairwise fun b c => ∀ x ∈ events b, ∀ y ∈ events c, ¬ before y x) :
    Sorted before (bs.flatMap events) :=
  List.pairwise_flatMap.2 ⟨hin, hout⟩

theorem nodup_flatMap_of_before {bs : List B} (hirrefl : ∀ x, ¬ before x x)
    (hin : ∀ b ∈ bs, (events b).Nodup)
    (hout : bs.Pairwise fun b c => ∀ x ∈ events b, ∀ y ∈ events c, before x y) :
    (bs.flatMap events).Nodup := by
  refine List.nodup_flatMap.2 ⟨hin, hout.imp ?_⟩
  intro b c h x hxb hxc
  exact hirrefl x (h x hxb x hxc)

variable {P : Type*}

theorem flatMap_ite_eq [DecidableEq B] {l : List B} (h : l.Nodup) (b : B)
    (out : List P) :
    (l.flatMap fun x => if x = b then out else []) = if b ∈ l then out else [] := by
  induction l with
  | nil => simp
  | cons x l ih =>
      rw [List.flatMap_cons, ih h.of_cons]
      have hx : x ∉ l := (List.nodup_cons.1 h).1
      by_cases hxb : x = b
      · subst hxb
        simp [hx]
      · simp [hxb, Ne.symm hxb]

theorem flatMap_ite (p : B → Bool) (f : B → List P) (l : List B) :
    (l.flatMap fun x => if p x then f x else []) = (l.filter p).flatMap f := by
  induction l with
  | nil => rfl
  | cons x l ih => by_cases hx : p x <;> simp [hx, ih]

theorem flatMap_nil_fun (l : List B) : (l.flatMap fun _ => ([] : List P)) = [] := by
  simp

theorem flatMap_zipIdx (l : List B) (g : ℕ → List P) :
    (l.zipIdx.flatMap fun ck => g ck.2) = (List.range l.length).flatMap g := by
  rw [List.range_eq_range', ← List.zipIdx_map_snd 0 l, List.flatMap_map]

end OrderedScript
