import Patton.Library.Handshake

/-!
# The order of the accesses in a handshake

The flags of a handshake force the accesses of the two parties into one order, the
conversation: in every cycle the requester clears the answer, checks and raises the
request, then the responder accepts and clears it, checks and raises the answer,
and the requester awaits it. Two successive accesses of the conversation belong to
one party, or the second one awaits the flag which the first one raises. So every
relation that contains the order of either party and the two flags orders all
accesses of the handshake.
-/

namespace Handshake

variable {L : Type*}

/-- The accesses of one cycle in their order. -/
def cycle (l : L) : List (Request L ⊕ Response L) :=
  [.inl (.clearAnswer l), .inl (.loadRequest l), .inl (.raiseRequest l),
    .inr (.awaitRequest l), .inr (.clearRequest l), .inr (.loadAnswer l),
    .inr (.raiseAnswer l), .inl (.awaitAnswer l)]

/-- The accesses of both parties over the cycles `ls`. -/
def conversation (ls : List L) : List (Request L ⊕ Response L) := ls.flatMap cycle

theorem conversation_cons (l : L) (ls : List L) :
    conversation (l :: ls) = cycle l ++ conversation ls := rfl

theorem conversation_append (ls ls' : List L) :
    conversation (ls ++ ls') = conversation ls ++ conversation ls' := List.flatMap_append

theorem inl_mem_conversation {r : Request L} {ls : List L} :
    .inl r ∈ conversation ls ↔ r ∈ requests ls := by
  simp [conversation, requests, cycle]

theorem inr_mem_conversation {r : Response L} {ls : List L} :
    .inr r ∈ conversation ls ↔ r ∈ responses ls := by
  simp [conversation, responses, cycle]

/-- The order of the requester, the order of the responder, and the flags. -/
structure Orders (ls : List L) (r : Request L ⊕ Response L → Request L ⊕ Response L → Prop) :
    Prop where
  request : ∀ a b, [a, b].Sublist (requests ls) → r (.inl a) (.inl b)
  response : ∀ a b, [a, b].Sublist (responses ls) → r (.inr a) (.inr b)
  raiseRequest : ∀ l ∈ ls, r (.inl (.raiseRequest l)) (.inr (.awaitRequest l))
  raiseAnswer : ∀ l ∈ ls, r (.inr (.raiseAnswer l)) (.inl (.awaitAnswer l))

variable {ls : List L} {r : Request L ⊕ Response L → Request L ⊕ Response L → Prop} {l : L}

theorem Orders.tail (h : Orders (l :: ls) r) : Orders ls r where
  request := fun a b hab => h.request a b (hab.trans (List.sublist_append_right _ _))
  response := fun a b hab => h.response a b (hab.trans (List.sublist_append_right _ _))
  raiseRequest := fun l' hl' => h.raiseRequest l' (List.mem_cons_of_mem l hl')
  raiseAnswer := fun l' hl' => h.raiseAnswer l' (List.mem_cons_of_mem l hl')

theorem Orders.isChain_cycle (h : Orders (l :: ls) r) : (cycle l).IsChain r := by
  have hreq := fun a b (hab : [a, b].Sublist (requests [l])) =>
    h.request a b (hab.trans (List.sublist_append_left _ (requests ls)))
  have hres := fun a b (hab : [a, b].Sublist (responses [l])) =>
    h.response a b (hab.trans (List.sublist_append_left _ (responses ls)))
  have hraise := h.raiseRequest l List.mem_cons_self
  have hanswer := h.raiseAnswer l List.mem_cons_self
  simp only [cycle, List.isChain_cons_cons, List.isChain_singleton, and_true]
  refine ⟨hreq _ _ ?_, hreq _ _ ?_, hraise, hres _ _ ?_, hres _ _ ?_, hres _ _ ?_, hanswer⟩ <;>
    simp [requests, responses, List.sublist_cons_iff]

theorem Orders.isChain (h : Orders ls r) : (conversation ls).IsChain r := by
  induction ls with
  | nil => exact List.isChain_nil
  | cons l ls ih =>
      rw [conversation_cons, List.isChain_append]
      refine ⟨h.isChain_cycle, ih h.tail, ?_⟩
      intro a ha b hb
      cases ls with
      | nil => simp [conversation] at hb
      | cons l' ls =>
          -- the requester begins the next cycle
          obtain rfl : .inl (.awaitAnswer l) = a := by simpa [cycle] using ha
          obtain rfl : .inl (.clearAnswer l') = b := by simpa [conversation, cycle] using hb
          refine h.request _ _ ?_
          simp [requests_cons, List.sublist_cons_iff]

theorem Orders.pairwise (h : Orders ls r) :
    (conversation ls).Pairwise (Relation.TransGen r) := by
  rw [← List.isChain_iff_pairwise]
  exact h.isChain.imp fun _ _ => .single

/-- Two accesses of the conversation are ordered, whichever party makes them. -/
theorem Orders.transGen_or (h : Orders ls r) {a b : Request L ⊕ Response L}
    (ha : a ∈ conversation ls) (hb : b ∈ conversation ls) (hne : a ≠ b) :
    Relation.TransGen r a b ∨ Relation.TransGen r b a := by
  obtain ⟨l₁, l₂, hsplit⟩ := List.append_of_mem ha
  have hpair := h.pairwise
  rw [hsplit, List.pairwise_append, List.pairwise_cons] at hpair
  rw [hsplit] at hb
  rcases List.mem_append.1 hb with hb | hb
  · exact .inr (hpair.2.2 b hb a List.mem_cons_self)
  · rcases List.mem_cons.1 hb with rfl | hb
    · exact absurd rfl hne
    · exact .inl (hpair.2.1.1 b hb)

theorem Orders.transGen_cycle (h : Orders ls r) (hl : l ∈ ls) :
    (cycle l).Pairwise (Relation.TransGen r) := by
  have hpair := h.pairwise.sublist ((List.singleton_sublist.2 hl).flatMap cycle)
  simpa using hpair

/-- What raises a flag is followed at once by what awaits it. -/
theorem exists_split_raiseRequest (hl : l ∈ ls) :
    ∃ c c', conversation ls =
      c ++ .inl (.raiseRequest l) :: .inr (.awaitRequest l) :: c' := by
  obtain ⟨l₁, l₂, rfl⟩ := List.append_of_mem hl
  refine ⟨conversation l₁ ++ [.inl (.clearAnswer l), .inl (.loadRequest l)],
    [.inr (.clearRequest l), .inr (.loadAnswer l), .inr (.raiseAnswer l),
      .inl (.awaitAnswer l)] ++ conversation l₂, ?_⟩
  simp [conversation_append, conversation_cons, cycle]

theorem exists_split_raiseAnswer (hl : l ∈ ls) :
    ∃ c c', conversation ls =
      c ++ .inr (.raiseAnswer l) :: .inl (.awaitAnswer l) :: c' := by
  obtain ⟨l₁, l₂, rfl⟩ := List.append_of_mem hl
  refine ⟨conversation l₁ ++ [.inl (.clearAnswer l), .inl (.loadRequest l),
    .inl (.raiseRequest l), .inr (.awaitRequest l), .inr (.clearRequest l),
    .inr (.loadAnswer l)], conversation l₂, ?_⟩
  simp [conversation_append, conversation_cons, cycle]

/-- Nothing comes between two successive accesses of the conversation. -/
theorem Orders.transGen_of_split (h : Orders ls r) {c c' : List (Request L ⊕ Response L)}
    {a b z : Request L ⊕ Response L} (hsplit : conversation ls = c ++ a :: b :: c')
    (hz : z ∈ conversation ls) (hza : z ≠ a) (hzb : z ≠ b) :
    Relation.TransGen r z a ∨ Relation.TransGen r b z := by
  have hpair := h.pairwise
  rw [hsplit] at hpair hz
  rw [List.pairwise_append, List.pairwise_cons, List.pairwise_cons] at hpair
  rcases List.mem_append.1 hz with hz | hz
  · exact .inl (hpair.2.2 z hz a List.mem_cons_self)
  · have hc' : z ∈ c' := by simpa [hza, hzb] using hz
    exact .inr (hpair.2.1.2.1 z hc')

end Handshake
