import Patton.Memory.AlignedAllocatorAdaptor

/-!
# Histories of a heap

Any number of adaptors, for elements of any type and with any alignment, get their blocks
from one allocator of bytes, which others may use as well. Blocks are allocated and
deallocated in any order, and in between everybody writes wherever he likes, also behind the
end of the data. An allocation whose trap has been overwritten fails when it is deallocated;
the other ones hand back their blocks as they have obtained them, and no call touches the
data of an allocation.
-/

namespace Patton.Memory.Heap

open AlignedAllocatorAdaptor ByteMemory RoundUp

/-- A live allocation: the adaptor, what `allocate` has been called with and has returned,
where the block begins that it has obtained, and the memory as `allocate` has left it. -/
structure Allocation where
  ad : AlignedAllocatorAdaptor
  n : ℕ
  ptr : ℕ
  mem : ℕ
  m : Memory

namespace Allocation

def block (a : Allocation) : ℕ × ℕ := (a.mem, a.ad.nbAlloc a.n)

def data (a : Allocation) : Set ℕ := a.ad.dataArea a.ptr a.n

def trap (a : Allocation) : Set ℕ := a.ad.trapArea a.ptr a.n

def pointer (a : Allocation) : Set ℕ := a.ad.pointerArea a.ptr a.n

/-- Somebody has written into the trap, and not what has been there. -/
def Overwritten (a : Allocation) (m : Memory) : Prop := ∃ x ∈ a.trap, m x ≠ a.m x

end Allocation

def blockArea (b : ℕ × ℕ) : Set ℕ := area b.1 b.2

/-- The memory, the blocks which the allocator of bytes has given away, those of others among
them, and the live allocations. -/
structure State where
  m : Memory
  blocks : List (ℕ × ℕ)
  foreign : List (ℕ × ℕ)
  allocations : List Allocation

/-- A contract violation, or a block is handed back which has not been obtained. -/
inductive Fault
  | failFast
  | invalidFree (b : ℕ × ℕ)

/-- What happens next: a call of `allocate`, with what the allocator of bytes returns if it
does not throw; a call of `deallocate` for the `k`-th live allocation; a write to the memory;
others obtain a block or hand one back. -/
inductive Op
  | allocate (ad : AlignedAllocatorAdaptor) (n : ℕ) (mem : Option ℕ)
  | deallocate (k : ℕ)
  | write (m : Memory)
  | obtain (b : ℕ × ℕ)
  | handBack (b : ℕ × ℕ)

/-- An exception leaves everything as it is. -/
def Op.exec (s : State) : Op → Except Fault State
  | .allocate _ _ none => .ok s
  | .allocate ad n (some mem) =>
      match ad.allocate (fun _ => mem) n s.m with
      | .badAlloc => .ok s
      | .failFast => .error .failFast
      | .ok ptr m => .ok { s with
          m := m
          blocks := (mem, ad.nbAlloc n) :: s.blocks
          allocations := ⟨ad, n, ptr, mem, m⟩ :: s.allocations }
  | .deallocate k =>
      match s.allocations[k]? with
      | none => .ok s
      | some a =>
          match a.ad.deallocate a.ptr a.n s.m with
          | .failFast => .error .failFast
          | .ok mem nbAlloc =>
              if (mem, nbAlloc) ∈ s.blocks then .ok { s with
                blocks := s.blocks.erase (mem, nbAlloc)
                allocations := s.allocations.eraseIdx k }
              else .error (.invalidFree (mem, nbAlloc))
  | .write m => .ok { s with m := m }
  | .obtain b => .ok { s with blocks := b :: s.blocks, foreign := b :: s.foreign }
  | .handBack b => .ok { s with blocks := s.blocks.erase b, foreign := s.foreign.erase b }

/-- A block that the allocator of bytes may give away -/
structure Fresh (s : State) (b : ℕ × ℕ) : Prop where
  disjoint : ∀ b' ∈ s.blocks, Disjoint (blockArea b) (blockArea b')

/-- The allocator of bytes gives away what nobody has, live allocations are deallocated, and
others hand back their own. Who overwrites the pointer to a block, has run over the end of the
data, and so has overwritten the trap in front of the pointer, too. -/
def Op.Allowed (s : State) : Op → Prop
  | .allocate _ _ none => True
  | .allocate ad n (some mem) =>
      0 < mem ∧ mem + ad.nbAlloc n ≤ ad.modulus ∧ Fresh s (mem, ad.nbAlloc n)
  | .deallocate k => k < s.allocations.length
  | .write m => ∀ a ∈ s.allocations, a.Overwritten m ∨ ∀ x ∈ a.pointer, m x = a.m x
  | .obtain b => Fresh s b
  | .handBack b => b ∈ s.foreign

/-- The states of a heap of which nothing has been given away in the beginning. -/
inductive Reachable : State → Prop
  | initial (m : Memory) : Reachable ⟨m, [], [], []⟩
  | op {s s' : State} {op : Op} : Reachable s → op.Allowed s → op.exec s = .ok s' → Reachable s'

/-- The trap and the pointer of an allocation are as `allocate` sets them. -/
structure Allocation.Valid (m : Memory) (a : Allocation) : Prop where
  lt : a.n < (a.ad.modulus - 1) / a.ad.sizeofT
  mem_lt : a.mem < a.ad.modulus
  layout : a.ad.Layout a.mem a.ptr a.n
  trap : checkOutOfBoundsWriteTrap m a.ptr (a.ad.nbData a.n)
    (a.ad.nbData a.n + 2 * sizeofUint32) = true
  pointer : load m (a.ptr + a.ad.nbData a.n + 2 * sizeofUint32) a.ad.sizeofPtr =
    encode a.ad.sizeofPtr a.mem

/-- The allocations have been valid in the beginning, and a pointer has not been overwritten
without the trap. The blocks are those of the allocations and those of others, and they are
disjoint. -/
structure Inv (s : State) : Prop where
  valid : ∀ a ∈ s.allocations, a.Valid a.m
  written : ∀ a ∈ s.allocations, a.Overwritten s.m ∨ ∀ x ∈ a.pointer, s.m x = a.m x
  blocks : s.blocks.Perm (s.allocations.map Allocation.block ++ s.foreign)
  disjoint : s.blocks.Pairwise fun b b' => Disjoint (blockArea b) (blockArea b')

variable {s s' : State} {a : Allocation} {m m' : Memory} {b : ℕ × ℕ} {k mem n : ℕ}
  {ad : AlignedAllocatorAdaptor} {op : Op}

theorem Allocation.Valid.congr (h : a.Valid m) (hm : ∀ x ∈ a.trap ∪ a.pointer, m' x = m x) :
    a.Valid m' where
  lt := h.lt
  mem_lt := h.mem_lt
  layout := h.layout
  trap := by
    have htrap := h.trap
    rw [check_iff m h.lt] at htrap ⊢
    exact fun x hx => (hm x (.inl hx)).trans (htrap x hx)
  pointer := by
    rw [← h.pointer, load_eq_load]
    intro i hi
    refine hm _ (.inr ?_)
    rw [Allocation.pointer, pointerArea, area, Set.mem_Ico, (nbData_eq h.lt).1]
    omega

theorem Allocation.Valid.deallocate (h : a.Valid m) :
    a.ad.deallocate a.ptr a.n m = .ok a.mem (a.ad.nbAlloc a.n) := by
  simp only [AlignedAllocatorAdaptor.deallocate, h.pointer, decode_encode h.mem_lt]
  exact if_pos h.trap

theorem Allocation.Valid.deallocate_of_overwritten (h : a.Valid a.m) (hm : a.Overwritten m) :
    a.ad.deallocate a.ptr a.n m = .failFast := by
  obtain ⟨x, hx, hne⟩ := hm
  refine if_neg fun hcheck => hne ?_
  rw [(check_iff a.m h.lt).1 hcheck x hx, (check_iff a.m h.lt).1 h.trap x hx]

theorem Allocation.Valid.subset (h : a.Valid m) :
    a.data ∪ (a.trap ∪ a.pointer) ⊆ blockArea a.block :=
  Set.union_subset h.layout.data_subset
    (Set.union_subset h.layout.trap_subset h.layout.pointer_subset)

/-- An allocation does not see writes outside its trap and its pointer. -/
theorem Allocation.written_congr (hm : ∀ x ∈ a.trap ∪ a.pointer, m' x = m x)
    (h : a.Overwritten m ∨ ∀ x ∈ a.pointer, m x = a.m x) :
    a.Overwritten m' ∨ ∀ x ∈ a.pointer, m' x = a.m x := by
  refine h.imp ?_ fun h x hx => (hm x (.inr hx)).trans (h x hx)
  rintro ⟨x, hx, hne⟩
  exact ⟨x, hx, by rwa [hm x (.inl hx)]⟩

theorem Inv.mem_blocks (h : Inv s) (ha : a ∈ s.allocations) : a.block ∈ s.blocks :=
  h.blocks.mem_iff.2 (List.mem_append_left _ (List.mem_map_of_mem ha))

/-- As long as the trap has not been overwritten, the allocation is valid. -/
theorem Inv.valid_of_not_overwritten (h : Inv s) (ha : a ∈ s.allocations)
    (htrap : ¬ a.Overwritten s.m) : a.Valid s.m := by
  refine (h.valid a ha).congr fun x hx => ?_
  rcases hx with hx | hx
  · by_contra hne
    exact htrap ⟨x, hx, hne⟩
  · exact (h.written a ha).resolve_left htrap x hx

/-- `allocate` throws, or it writes the trap and the pointer of a new allocation. -/
theorem allocate_cases (hmem : 0 < mem) (hwrap : mem + ad.nbAlloc n ≤ ad.modulus) (m : Memory) :
    ad.allocate (fun _ => mem) n m = .badAlloc ∨
    ∃ a : Allocation, a.ad = ad ∧ a.n = n ∧ a.mem = mem ∧
      ad.allocate (fun _ => mem) n m = .ok a.ptr a.m ∧ a.Valid a.m ∧
        ∀ x ∉ a.trap ∪ a.pointer, a.m x = m x := by
  by_cases hlarge : (ad.modulus - 1) / ad.sizeofT ≤ n
  · exact .inl (if_pos hlarge)
  by_cases hfit : ad.modulus ≤ ad.totalSize n
  · refine .inl ?_
    rw [AlignedAllocatorAdaptor.allocate, if_neg hlarge,
      if_pos ((nbAlloc_lt_nbData (by omega)).2 hfit)]
  rw [not_le] at hlarge hfit
  have hdata := (nbData_eq hlarge).1
  have hmod : mem < ad.modulus := by
    have halloc := nbAlloc_eq hlarge hfit
    rw [totalSize, sizeofUint32] at halloc
    omega
  have hok := @allocate_eq_ok ad (fun _ => mem) n m hlarge hfit hmem
  refine .inr ⟨⟨ad, n, roundUp mem ad.alignment, mem, _⟩, rfl, rfl, rfl, hok, ?_, ?_⟩
  · refine ⟨hlarge, hmod, layout_roundUp hlarge hfit mem, (check_iff _ hlarge).2 fun _ _ => rfl, ?_⟩
    have hstore := load_store m (roundUp mem ad.alignment + ad.nbData n + 2 * sizeofUint32)
      (encode ad.sizeofPtr mem)
    rw [length_encode] at hstore
    refine Eq.trans ?_ hstore
    -- the trap ends where the pointer begins
    refine load_eq_load.2 fun i _ => setOutOfBoundsWriteTrap_of_outside (.inr ?_)
    rw [trapSize_eq]
    dsimp only
    omega
  · intro x hx
    simp only [Allocation.trap, Allocation.pointer, trapArea, pointerArea, area, Set.mem_union,
      Set.mem_Ico, not_or, not_and_or, not_le, not_lt, ← hdata] at hx
    refine (setOutOfBoundsWriteTrap_of_outside ?_).trans ?_
    · rw [trapSize_eq]
      omega
    · rcases hx.2 with hlt | hge
      · exact store_of_lt hlt
      · exact store_of_ge (by rwa [length_encode])

/-- Only a write changes blocks that have been obtained. -/
def Frame (s : State) (op : Op) (s' : State) : Prop :=
  (∀ m, op ≠ .write m) → ∀ b ∈ s.blocks, ∀ x ∈ blockArea b, s'.m x = s.m x

/-- The trap of the allocation that is deallocated has been overwritten. -/
def Op.Fails (s : State) (op : Op) : Prop :=
  ∃ k a, op = .deallocate k ∧ s.allocations[k]? = some a ∧ a.Overwritten s.m

/-- An operation has been carried out, and the invariant is kept. -/
structure Kept (s : State) (op : Op) (s' : State) : Prop where
  exec : op.exec s = .ok s'
  inv : Inv s'
  frame : Frame s op s'

theorem Inv.disjoint_of_fresh (h : Inv s) (hfresh : Fresh s b) :
    (b :: s.blocks).Pairwise fun b b' => Disjoint (blockArea b) (blockArea b') :=
  List.pairwise_cons.2 ⟨hfresh.disjoint, h.disjoint⟩

theorem Inv.allocate (h : Inv s) (hmem : 0 < mem) (hwrap : mem + ad.nbAlloc n ≤ ad.modulus)
    (hfresh : Fresh s (mem, ad.nbAlloc n)) : ∃ s', Kept s (.allocate ad n (some mem)) s' := by
  rcases allocate_cases hmem hwrap s.m with hbad | ⟨a, rfl, rfl, rfl, hok, hvalid, hframe⟩
  · refine ⟨s, ?_, h, fun _ _ _ _ _ => rfl⟩
    rw [Op.exec, hbad]
  -- the new block is apart from those that have been obtained before
  have hapart : ∀ b ∈ s.blocks, ∀ x ∈ blockArea b, a.m x = s.m x := by
    intro b hb x hx
    refine hframe x fun hnew => ?_
    exact Set.disjoint_left.1 (hfresh.disjoint b hb) (hvalid.subset (.inr hnew)) hx
  refine ⟨{ s with m := a.m, blocks := a.block :: s.blocks, allocations := a :: s.allocations },
    ?_, ⟨?_, ?_, ?_, h.disjoint_of_fresh hfresh⟩, fun _ => hapart⟩
  · rw [Op.exec, hok]
    rfl
  · exact List.forall_mem_cons.2 ⟨hvalid, h.valid⟩
  · refine List.forall_mem_cons.2 ⟨.inr fun _ _ => rfl, fun a' ha' => ?_⟩
    refine Allocation.written_congr (fun x hx => ?_) (h.written a' ha')
    exact hapart _ (h.mem_blocks ha') x ((h.valid a' ha').subset (.inr hx))
  · exact h.blocks.cons _

theorem Inv.deallocate (h : Inv s) (hk : k < s.allocations.length)
    (htrap : ¬ s.allocations[k].Overwritten s.m) : ∃ s', Kept s (.deallocate k) s' := by
  have hget := List.getElem?_eq_getElem hk
  have hmem := List.getElem_mem hk
  have hperm : s.allocations.Perm (s.allocations[k] :: s.allocations.eraseIdx k) :=
    (List.getElem_cons_eraseIdx_perm hk).symm
  have hblocks : s.blocks.Perm (s.allocations[k].block ::
      ((s.allocations.eraseIdx k).map Allocation.block ++ s.foreign)) :=
    h.blocks.trans ((hperm.map Allocation.block).append_right s.foreign)
  refine ⟨{ s with
    blocks := s.blocks.erase s.allocations[k].block
    allocations := s.allocations.eraseIdx k }, ?_, ⟨?_, ?_, ?_, ?_⟩, fun _ _ _ _ _ => rfl⟩
  · simp only [Op.exec, hget, (h.valid_of_not_overwritten hmem htrap).deallocate]
    exact if_pos (h.mem_blocks hmem)
  · exact fun a ha => h.valid a (List.mem_of_mem_eraseIdx ha)
  · exact fun a ha => h.written a (List.mem_of_mem_eraseIdx ha)
  · have herase := hblocks.erase s.allocations[k].block
    rwa [List.erase_cons_head] at herase
  · exact h.disjoint.sublist List.erase_sublist

/-- `deallocate` fails if the trap has been overwritten. -/
theorem Inv.exec_eq_failFast (h : Inv s) (hop : op.Fails s) : op.exec s = .error .failFast := by
  obtain ⟨k, a, rfl, hk, htrap⟩ := hop
  have hvalid := h.valid a (List.mem_of_getElem? hk)
  simp only [Op.exec, hk, hvalid.deallocate_of_overwritten htrap]

/-- Every other operation is carried out. -/
theorem Inv.exec (h : Inv s) (hop : op.Allowed s) (hfails : ¬ op.Fails s) :
    ∃ s', Kept s op s' := by
  cases op with
  | allocate ad n mem =>
      cases mem with
      | none => exact ⟨s, rfl, h, fun _ _ _ _ _ => rfl⟩
      | some mem => exact h.allocate hop.1 hop.2.1 hop.2.2
  | deallocate k =>
      refine h.deallocate hop fun htrap => hfails ?_
      exact ⟨k, _, rfl, List.getElem?_eq_getElem hop, htrap⟩
  | write m =>
      exact ⟨{ s with m := m }, rfl, ⟨h.valid, hop, h.blocks, h.disjoint⟩,
        fun hne => absurd rfl (hne m)⟩
  | obtain b =>
      refine ⟨_, rfl, ⟨h.valid, h.written, ?_, h.disjoint_of_fresh hop⟩, fun _ _ _ _ _ => rfl⟩
      exact (h.blocks.cons b).trans List.perm_middle.symm
  | handBack b =>
      refine ⟨_, rfl, ⟨h.valid, h.written, ?_, h.disjoint.sublist List.erase_sublist⟩,
        fun _ _ _ _ _ => rfl⟩
      have hforeign : s.blocks.Perm (b :: (s.allocations.map Allocation.block ++
          s.foreign.erase b)) :=
        h.blocks.trans (((List.perm_cons_erase hop).append_left _).trans List.perm_middle)
      have herase := hforeign.erase b
      rwa [List.erase_cons_head] at herase

theorem Reachable.inv (h : Reachable s) : Inv s := by
  induction h with
  | initial m => exact ⟨by simp, by simp, by simp, by simp⟩
  | @op s s' op _ hop hexec ih =>
      have hfails : ¬ op.Fails s := by
        intro hfails
        rw [ih.exec_eq_failFast hfails] at hexec
        cases hexec
      obtain ⟨s₁, hkept⟩ := ih.exec hop hfails
      obtain rfl := Except.ok.inj (hkept.exec.symm.trans hexec)
      exact hkept.inv

/-- What holds in every state that can be reached: of all that can be done next, only the
deallocation of an allocation whose trap has been overwritten fails, and only blocks that have
been obtained are handed back; nothing but a write changes a block that has been obtained; the
data of the allocations are aligned, in their blocks and apart from each other; and there is a
block for each allocation, and no other one, but those of others. -/
structure Safe (s : State) : Prop where
  failFast : ∀ op : Op, op.Fails s → op.exec s = .error .failFast
  exec : ∀ op : Op, op.Allowed s → ¬ op.Fails s → ∃ s', op.exec s = .ok s' ∧ Frame s op s'
  aligned : ∀ a ∈ s.allocations, a.ad.alignment ∣ a.ptr ∧ a.data ⊆ blockArea a.block
  apart : s.allocations.Pairwise fun a a' => Disjoint a.data a'.data
  blocks : s.blocks.Perm (s.allocations.map Allocation.block ++ s.foreign)

theorem heap_history (h : Reachable s) : Safe s := by
  have hinv := h.inv
  refine ⟨fun op hfails => hinv.exec_eq_failFast hfails, fun op hop hfails => ?_, fun a ha => ?_,
    ?_, hinv.blocks⟩
  · obtain ⟨s', hkept⟩ := hinv.exec hop hfails
    exact ⟨s', hkept.exec, hkept.frame⟩
  · exact ⟨(hinv.valid a ha).layout.dvd, (hinv.valid a ha).layout.data_subset⟩
  · have hpairwise := (hinv.blocks.pairwise_iff fun h => Disjoint.symm h).1 hinv.disjoint
    have hmap := List.pairwise_map.1 (List.pairwise_append.1 hpairwise).1
    refine hmap.imp_of_mem fun ha ha' hdisjoint => ?_
    exact hdisjoint.mono (hinv.valid _ ha).layout.data_subset (hinv.valid _ ha').layout.data_subset

/-- Two allocations; then everything is cleared that belongs to the first one. The second one
is deallocated, and the deallocation of the first one fails. -/
theorem line_heap_history : ∃ s, Reachable s ∧ s.allocations.map Allocation.ptr = [1024] ∧
    Safe s ∧ Op.exec s (.deallocate 0) = .error .failFast := by
  have hfirst : Reachable ⟨_, [(1000, 319)], [], [⟨lineAdaptor, 10, 1024, 1000, _⟩]⟩ :=
    @Reachable.op _ _ (.allocate lineAdaptor 10 (some 1000)) (.initial fun _ => 0)
      ⟨by decide, by decide, ⟨List.forall_mem_nil _⟩⟩ rfl
  have hfresh : Disjoint (blockArea (2000, 127)) (blockArea (1000, 319)) :=
    Set.Ico_disjoint_Ico.2 (by decide)
  have hsecond : Reachable ⟨_, [(2000, 127), (1000, 319)], [],
      [⟨lineAdaptor, 2, 2048, 2000, _⟩, ⟨lineAdaptor, 10, 1024, 1000, _⟩]⟩ :=
    @Reachable.op _ _ (.allocate lineAdaptor 2 (some 2000)) hfirst
      ⟨by decide, by decide, ⟨List.forall_mem_singleton.2 hfresh⟩⟩ rfl
  have hpointer : ∀ m : Memory, ∀ x, 2104 ≤ x ∧ x < 2112 →
      setOutOfBoundsWriteTrap (store m 2104 (encode 8 2000)) 2048 48 56 x =
        (encode 8 2000)[x - 2104]?.getD 0 := by
    rintro m x ⟨hle, hlt⟩
    interval_cases x <;> rfl
  have hthird : Reachable ⟨_, [(2000, 127), (1000, 319)], [],
      [⟨lineAdaptor, 2, 2048, 2000, _⟩, ⟨lineAdaptor, 10, 1024, 1000, _⟩]⟩ :=
    @Reachable.op _ _ (.write (setOutOfBoundsWriteTrap
      (store (fun _ => 0) 2104 (encode 8 2000)) 2048 48 56)) hsecond
      (List.forall_mem_cons.2 ⟨.inr fun x hx => (hpointer _ x hx).trans (hpointer _ x hx).symm,
        List.forall_mem_singleton.2 (.inl ⟨1264, ⟨by decide, by decide⟩, by decide⟩)⟩) rfl
  have hfourth : Reachable ⟨_, [(1000, 319)], [], [⟨lineAdaptor, 10, 1024, 1000, _⟩]⟩ :=
    @Reachable.op _ _ (.deallocate 0) hthird Nat.two_pos rfl
  refine ⟨_, hfourth, rfl, heap_history hfourth, ?_⟩
  exact (heap_history hfourth).failFast _ ⟨0, _, rfl, rfl, 1264, ⟨by decide, by decide⟩, by decide⟩

end Patton.Memory.Heap
