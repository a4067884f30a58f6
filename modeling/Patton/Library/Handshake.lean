import Mathlib

/-!
# The four-phase handshake of two sequential parties

Two parties share two flags. The requester clears the answer flag, raises the
request flag and waits for the answer flag; the responder waits for the request
flag, clears it, and raises the answer flag. A flag is raised by a load, which
must find it lowered, and a store. Each party is given by the list of the
accesses it still has to make, cycle by cycle, and every cycle carries a label.

`Synced request answer I R` relates the two flags to the remaining accesses `I`
of the requester and `R` of the responder. It is kept by every access that is
enabled, whichever party takes it, and it says what the flags alone cannot:
which accesses of the other party are still to come.
-/

namespace Handshake

variable {L : Type*}

inductive Request (L : Type*)
  | clearAnswer (l : L)
  | loadRequest (l : L)
  | raiseRequest (l : L)
  | awaitAnswer (l : L)

inductive Response (L : Type*)
  | awaitRequest (l : L)
  | clearRequest (l : L)
  | loadAnswer (l : L)
  | raiseAnswer (l : L)

def requests (ls : List L) : List (Request L) :=
  ls.flatMap fun l => [.clearAnswer l, .loadRequest l, .raiseRequest l, .awaitAnswer l]

def responses (ls : List L) : List (Response L) :=
  ls.flatMap fun l => [.awaitRequest l, .clearRequest l, .loadAnswer l, .raiseAnswer l]

theorem requests_cons (l : L) (ls : List L) :
    requests (l :: ls) =
      .clearAnswer l :: .loadRequest l :: .raiseRequest l :: .awaitAnswer l :: requests ls :=
  rfl

theorem responses_cons (l : L) (ls : List L) :
    responses (l :: ls) =
      .awaitRequest l :: .clearRequest l :: .loadAnswer l :: .raiseAnswer l :: responses ls :=
  rfl

theorem requests_flatMap {A : Type*} (l : List A) (g : A → List L) :
    requests (l.flatMap g) = l.flatMap fun a => requests (g a) := List.flatMap_assoc ..

theorem responses_flatMap {A : Type*} (l : List A) (g : A → List L) :
    responses (l.flatMap g) = l.flatMap fun a => responses (g a) := List.flatMap_assoc ..

@[simp] theorem mem_requests_clearAnswer {l : L} {ls : List L} :
    Request.clearAnswer l ∈ requests ls ↔ l ∈ ls := by
  simp [requests]

@[simp] theorem mem_requests_raiseRequest {l : L} {ls : List L} :
    Request.raiseRequest l ∈ requests ls ↔ l ∈ ls := by
  simp [requests]

@[simp] theorem mem_requests_awaitAnswer {l : L} {ls : List L} :
    Request.awaitAnswer l ∈ requests ls ↔ l ∈ ls := by
  simp [requests]

@[simp] theorem mem_responses_awaitRequest {l : L} {ls : List L} :
    Response.awaitRequest l ∈ responses ls ↔ l ∈ ls := by
  simp [responses]

@[simp] theorem mem_responses_raiseAnswer {l : L} {ls : List L} :
    Response.raiseAnswer l ∈ responses ls ↔ l ∈ ls := by
  simp [responses]

/-- The flags fit the remaining accesses of both parties. The constructors
follow one cycle, named after the last access made. -/
inductive Synced : Bool → Bool → List (Request L) → List (Response L) → Prop
  | idle (answer : Bool) (ls : List L) :
      Synced false answer (requests ls) (responses ls)
  | cleared (l : L) (ls : List L) :
      Synced false false (.loadRequest l :: .raiseRequest l :: .awaitAnswer l :: requests ls)
        (responses (l :: ls))
  | checked (l : L) (ls : List L) :
      Synced false false (.raiseRequest l :: .awaitAnswer l :: requests ls)
        (responses (l :: ls))
  | requested (l : L) (ls : List L) :
      Synced true false (.awaitAnswer l :: requests ls) (responses (l :: ls))
  | accepted (l : L) (ls : List L) :
      Synced true false (.awaitAnswer l :: requests ls)
        (.clearRequest l :: .loadAnswer l :: .raiseAnswer l :: responses ls)
  | served (l : L) (ls : List L) :
      Synced false false (.awaitAnswer l :: requests ls)
        (.loadAnswer l :: .raiseAnswer l :: responses ls)
  | answering (l : L) (ls : List L) :
      Synced false false (.awaitAnswer l :: requests ls) (.raiseAnswer l :: responses ls)
  | answered (l : L) (ls : List L) :
      Synced false true (.awaitAnswer l :: requests ls) (responses ls)

variable {request answer : Bool} {I : List (Request L)} {R : List (Response L)} {l : L}

theorem Synced.clearAnswer (h : Synced request answer (.clearAnswer l :: I) R) :
    Synced request false I R := by
  generalize hI : Request.clearAnswer l :: I = I' at h
  cases h with
  | idle answer ls =>
      cases ls with
      | nil => simp [requests] at hI
      | cons l' ls =>
          rw [requests_cons] at hI
          cases hI
          exact .cleared l ls
  | _ => cases hI

theorem Synced.loadRequest (h : Synced request answer (.loadRequest l :: I) R) :
    request = false ∧ Synced request answer I R := by
  generalize hI : Request.loadRequest l :: I = I' at h
  cases h with
  | idle answer ls => cases ls <;> simp [requests] at hI
  | cleared l' ls =>
      cases hI
      exact ⟨rfl, .checked l ls⟩
  | _ => cases hI

theorem Synced.raiseRequest (h : Synced request answer (.raiseRequest l :: I) R) :
    Synced true answer I R := by
  generalize hI : Request.raiseRequest l :: I = I' at h
  cases h with
  | idle answer ls => cases ls <;> simp [requests] at hI
  | checked l' ls =>
      cases hI
      exact .requested l ls
  | _ => cases hI

theorem Synced.awaitAnswer (h : Synced request true (.awaitAnswer l :: I) R) :
    Synced request true I R := by
  generalize hI : Request.awaitAnswer l :: I = I' at h
  cases h with
  | idle answer ls => cases ls <;> simp [requests] at hI
  | answered l' ls =>
      cases hI
      exact .idle true ls

theorem Synced.awaitRequest (h : Synced true answer I (.awaitRequest l :: R)) :
    Synced true answer I R := by
  generalize hR : Response.awaitRequest l :: R = R' at h
  cases h with
  | requested l' ls =>
      rw [responses_cons] at hR
      cases hR
      exact .accepted l ls
  | accepted l' ls => cases hR

theorem Synced.clearRequest (h : Synced request answer I (.clearRequest l :: R)) :
    Synced false answer I R := by
  generalize hR : Response.clearRequest l :: R = R' at h
  cases h with
  | accepted l' ls =>
      cases hR
      exact .served l ls
  | idle answer ls => cases ls <;> simp [responses] at hR
  | answered l' ls => cases ls <;> simp [responses] at hR
  | served => cases hR
  | answering => cases hR
  | _ =>
      rw [responses_cons] at hR
      cases hR

theorem Synced.loadAnswer (h : Synced request answer I (.loadAnswer l :: R)) :
    answer = false ∧ Synced request answer I R := by
  generalize hR : Response.loadAnswer l :: R = R' at h
  cases h with
  | served l' ls =>
      cases hR
      exact ⟨rfl, .answering l ls⟩
  | idle answer ls => cases ls <;> simp [responses] at hR
  | answered l' ls => cases ls <;> simp [responses] at hR
  | accepted => cases hR
  | answering => cases hR
  | _ =>
      rw [responses_cons] at hR
      cases hR

theorem Synced.raiseAnswer (h : Synced request answer I (.raiseAnswer l :: R)) :
    Synced request true I R := by
  generalize hR : Response.raiseAnswer l :: R = R' at h
  cases h with
  | answering l' ls =>
      cases hR
      exact .answered l ls
  | idle answer ls => cases ls <;> simp [responses] at hR
  | answered l' ls => cases ls <;> simp [responses] at hR
  | accepted => cases hR
  | served => cases hR
  | _ =>
      rw [responses_cons] at hR
      cases hR

/-- As long as a request is not raised, the responder still has to wait for it. -/
theorem Synced.awaitRequest_mem (h : Synced request answer I R)
    (hI : .raiseRequest l ∈ I) : .awaitRequest l ∈ R := by
  cases h <;> simp at hI ⊢ <;> tauto

/-- As long as an answer is not raised, the requester still has to wait for it. -/
theorem Synced.awaitAnswer_mem (h : Synced request answer I R)
    (hR : .raiseAnswer l ∈ R) : .awaitAnswer l ∈ I := by
  cases h <;> simp [responses_cons] at hR ⊢ <;> tauto

/-- A request is only up while the responder has something left to do. -/
theorem Synced.responses_ne_nil (h : Synced true answer I R) : R ≠ [] := by
  generalize hrequest : true = request at h
  cases h <;> simp_all [responses_cons]

/-- A blocked requester waits for an answer that is still to come. -/
theorem Synced.raiseAnswer_mem_of_blocked
    (h : Synced request false (.awaitAnswer l :: I) R) : .raiseAnswer l ∈ R := by
  generalize hI : Request.awaitAnswer l :: I = I' at h
  cases h with
  | idle _ ls => cases ls <;> simp [requests] at hI
  | cleared => cases hI
  | checked => cases hI
  | _ =>
      cases hI
      simp [responses_cons]

/-- A requester is blocked as long as its answer is still to come. -/
theorem Synced.answer_eq_false (h : Synced request answer (.awaitAnswer l :: I) R)
    (hI : .awaitAnswer l ∉ I) (hR : .raiseAnswer l ∈ R) : answer = false := by
  generalize hI' : Request.awaitAnswer l :: I = I' at h
  cases h with
  | idle answer ls => cases ls <;> simp [requests] at hI'
  | answered l' ls =>
      cases hI'
      simp at hI hR
      exact absurd hR hI
  | _ => rfl

/-- A blocked responder waits for a request that is still to come, if any. -/
theorem Synced.raiseRequest_mem_of_blocked
    (h : Synced false answer I (.awaitRequest l :: R)) : .raiseRequest l ∈ I := by
  generalize hR : Response.awaitRequest l :: R = R' at h
  cases h with
  | idle answer ls =>
      cases ls with
      | nil => simp [responses] at hR
      | cons l' ls =>
          rw [responses_cons] at hR
          cases hR
          simp
  | answered l' ls =>
      cases ls with
      | nil => simp [responses] at hR
      | cons l'' ls =>
          rw [responses_cons] at hR
          cases hR
          simp
  | served => cases hR
  | answering => cases hR
  | _ =>
      rw [responses_cons] at hR
      cases hR
      simp

end Handshake
