import Patton.Library.SortUnique

/-!
# The detection of the cores

On Linux, `/proc/cpuinfo` is read line by line. A processor id, a physical id and a core id
make a triple, and of the triples with the same core id and physical id the one with the
smallest processor id is taken.
-/

namespace Patton.CpuInfo

open SortUnique

def isspace (c : Char) : Bool := c = ' ' || (9 ≤ c.toNat && c.toNat ≤ 13)

/-- The value of a list of decimal digits, of which there is at least one. -/
def scanDigits (s : List Char) : Option ℤ :=
  let digits := s.takeWhile Char.isDigit
  if digits = [] then none
  else some (digits.foldl (fun n c => 10 * n + (c.toNat - '0'.toNat : ℕ)) 0)

/-- The conversion `%d`, as long as the number is a value of `int` -/
def scanInt (s : List Char) : Option ℤ :=
  match s.dropWhile isspace with
  | '-' :: s => (scanDigits s).map Neg.neg
  | '+' :: s => scanDigits s
  | s => scanDigits s

/-- `std::sscanf` with a format that ends in its only conversion `%d`: the value, if one has
been assigned. White space in the format matches any white space. -/
def sscanf : List Char → List Char → Option ℤ
  | [], _ => none
  | ['%', 'd'], s => scanInt s
  | c :: format, s =>
      if isspace c then sscanf format (s.dropWhile isspace)
      else
        match s with
        | [] => none
        | d :: s => if c = d then sscanf format s else none

/-- What a line says, as the formats are tried one after the other. -/
inductive Field
  | processor (id : ℤ)
  | physicalId (id : ℤ)
  | coreId (id : ℤ)
  | other
  deriving DecidableEq

def fieldOf (line : List Char) : Field :=
  match sscanf "processor : %d".toList line with
  | some id => .processor id
  | none =>
      match sscanf "physical id : %d".toList line with
      | some id => .physicalId id
      | none =>
          match sscanf "core id : %d".toList line with
          | some id => .coreId id
          | none => .other

example : fieldOf "processor\t: 12".toList = .processor 12 := by decide

example : fieldOf "core id\t\t: 3".toList = .coreId 3 := by decide

example : fieldOf "cpu cores\t: 4".toList = .other := by decide

structure PhysicalCoreId where
  coreId : ℤ
  physicalId : ℤ
  processor : ℤ
  deriving DecidableEq

/-- `operator ==` -/
def PhysicalCoreId.eq (lhs rhs : PhysicalCoreId) : Bool :=
  lhs.coreId = rhs.coreId && lhs.physicalId = rhs.physicalId

/-- `operator <` -/
def PhysicalCoreId.lt (lhs rhs : PhysicalCoreId) : Bool :=
  if lhs.coreId < rhs.coreId then true
  else if lhs.coreId > rhs.coreId then false
  else if lhs.physicalId < rhs.physicalId then true
  else if lhs.physicalId > rhs.physicalId then false
  else lhs.processor < rhs.processor

structure ParseState where
  ids : List PhysicalCoreId
  lastProcessor : ℤ
  lastCoreId : ℤ
  lastPhysicalId : ℤ

/-- `initFunc` throws a `std::runtime_error`, or a narrowing conversion fails fast. -/
inductive InitFailure
  | runtimeError (what : String)
  | failFast

/-- A value is stored, unless there is one already. -/
def storeField (s : ParseState) : Field → Except InitFailure ParseState
  | .processor id =>
      if s.lastProcessor ≠ -1 then
        .error (.runtimeError "error parsing /proc/cpuinfo: missing \"processor\" value")
      else .ok { s with lastProcessor := id }
  | .physicalId id =>
      if s.lastPhysicalId ≠ -1 then
        .error (.runtimeError "error parsing /proc/cpuinfo: missing \"core id\" value")
      else .ok { s with lastPhysicalId := id }
  | .coreId id =>
      if s.lastCoreId ≠ -1 then
        .error (.runtimeError "error parsing /proc/cpuinfo: missing \"physical id\" value")
      else .ok { s with lastCoreId := id }
  | .other => .ok s

/-- When all three values are there, they make a triple. -/
def pushIfComplete (s : ParseState) : ParseState :=
  if s.lastProcessor ≠ -1 ∧ s.lastCoreId ≠ -1 ∧ s.lastPhysicalId ≠ -1 then
    ⟨s.ids ++ [⟨s.lastCoreId, s.lastPhysicalId, s.lastProcessor⟩], -1, -1, -1⟩
  else s

def parseLine (s : ParseState) (line : List Char) : Except InitFailure ParseState :=
  (storeField s (fieldOf line)).map pushIfComplete

def parse (s : ParseState) : List (List Char) → Except InitFailure ParseState
  | [] => .ok s
  | line :: lines => (parseLine s line).bind fun s => parse s lines

/-- The state before the loop, and after each triple -/
def ParseState.reset (ids : List PhysicalCoreId) : ParseState := ⟨ids, -1, -1, -1⟩

/-- `cpu_info` -/
structure Detected where
  physicalConcurrency : ℕ
  coreThreadIds : List ℤ
  deriving DecidableEq

/-- `std::sort` and `std::unique`, and what is kept. -/
def uniqueCoreIds (ids : List PhysicalCoreId) : List PhysicalCoreId :=
  sortUnique (fun a b => PhysicalCoreId.lt b a = false)
    (fun a b => PhysicalCoreId.eq a b = true) ids

def unsignedMax : ℕ := 2 ^ 32 - 1

/-- `initFunc`, up to the publication of its results -/
def detect (lines : List (List Char)) : Except InitFailure Detected :=
  match parse (.reset []) lines with
  | .error e => .error e
  | .ok s =>
      let ids := uniqueCoreIds s.ids
      let numUnique := ids.length
      if unsignedMax < numUnique then .error .failFast
      else
        let coreThreadIds := ids.map PhysicalCoreId.processor
        .ok ⟨numUnique, coreThreadIds.insertionSort (· ≤ ·)⟩

/-- The id of one kind in a field -/
def Field.processorIds : Field → List ℤ
  | .processor id => [id]
  | _ => []

@[inherit_doc Field.processorIds]
def Field.physicalIds : Field → List ℤ
  | .physicalId id => [id]
  | _ => []

@[inherit_doc Field.processorIds]
def Field.coreIds : Field → List ℤ
  | .coreId id => [id]
  | _ => []

/-- The ids of one kind in a list of lines -/
def processorIdsOf (lines : List (List Char)) : List ℤ :=
  lines.flatMap fun line => (fieldOf line).processorIds

@[inherit_doc processorIdsOf]
def physicalIdsOf (lines : List (List Char)) : List ℤ :=
  lines.flatMap fun line => (fieldOf line).physicalIds

@[inherit_doc processorIdsOf]
def coreIdsOf (lines : List (List Char)) : List ℤ :=
  lines.flatMap fun line => (fieldOf line).coreIds

def intMax : ℤ := 2 ^ 31 - 1

/-- The record of a processor: its first line, and other lines with at most one physical id
and at most one core id. Ids are values of `int` that are not negative. -/
structure Record where
  processor : ℤ
  processorLine : List Char
  otherLines : List (List Char)
  fieldOf_processorLine : fieldOf processorLine = .processor processor
  processorIds_eq : processorIdsOf otherLines = []
  physicalIds_le : (physicalIdsOf otherLines).length ≤ 1
  coreIds_le : (coreIdsOf otherLines).length ≤ 1
  processor_mem : 0 ≤ processor ∧ processor ≤ intMax
  physicalId_mem : ∀ id ∈ physicalIdsOf otherLines, 0 ≤ id ∧ id ≤ intMax
  coreId_mem : ∀ id ∈ coreIdsOf otherLines, 0 ≤ id ∧ id ≤ intMax

namespace Record

def lines (r : Record) : List (List Char) := r.processorLine :: r.otherLines

def physicalId (r : Record) : Option ℤ := (physicalIdsOf r.otherLines).head?

def coreId (r : Record) : Option ℤ := (coreIdsOf r.otherLines).head?

/-- A record with a physical id and a core id -/
def Complete (r : Record) : Prop := r.physicalId.isSome ∧ r.coreId.isSome

def triple (r : Record) : Option PhysicalCoreId :=
  match r.coreId, r.physicalId with
  | some coreId, some physicalId => some ⟨coreId, physicalId, r.processor⟩
  | _, _ => none

end Record

/-- The state within a record -/
def ParseState.pending (ids : List PhysicalCoreId) (processor : ℤ) (coreId physicalId : Option ℤ) :
    ParseState := ⟨ids, processor, coreId.getD (-1), physicalId.getD (-1)⟩

/-- The state after a record -/
def ParseState.finish (ids : List PhysicalCoreId) (processor : ℤ) :
    Option ℤ → Option ℤ → ParseState
  | some coreId, some physicalId => .reset (ids ++ [⟨coreId, physicalId, processor⟩])
  | coreId, physicalId => .pending ids processor coreId physicalId

variable {ids : List PhysicalCoreId} {processor id : ℤ} {coreId physicalId : Option ℤ}
  {line : List Char} {lines : List (List Char)} {s : ParseState} {r : Record} {rs : List Record}

theorem processorIdsOf_cons {field : Field} (h : fieldOf line = field) :
    processorIdsOf (line :: lines) = field.processorIds ++ processorIdsOf lines := by
  rw [processorIdsOf, List.flatMap_cons, h]
  rfl

theorem coreIdsOf_cons {field : Field} (h : fieldOf line = field) :
    coreIdsOf (line :: lines) = field.coreIds ++ coreIdsOf lines := by
  rw [coreIdsOf, List.flatMap_cons, h]
  rfl

theorem physicalIdsOf_cons {field : Field} (h : fieldOf line = field) :
    physicalIdsOf (line :: lines) = field.physicalIds ++ physicalIdsOf lines := by
  rw [physicalIdsOf, List.flatMap_cons, h]
  rfl

theorem parse_append (s : ParseState) (lines lines' : List (List Char)) :
    parse s (lines ++ lines') = (parse s lines).bind fun s => parse s lines' := by
  induction lines generalizing s with
  | nil => rfl
  | cons line lines ih =>
      rw [List.cons_append, parse, parse]
      cases parseLine s line with
      | error e => rfl
      | ok s' => exact ih s'

theorem parse_cons_of_ok {s' : ParseState} (h : parseLine s line = .ok s') :
    parse s (line :: lines) = parse s' lines := by
  rw [parse, h]
  rfl

theorem pushIfComplete_pending (h : ¬ (coreId.isSome ∧ physicalId.isSome)) :
    pushIfComplete (.pending ids processor coreId physicalId) =
      .pending ids processor coreId physicalId := by
  refine if_neg ?_
  rintro ⟨-, hcore, hphysical⟩
  cases coreId with
  | none => exact hcore rfl
  | some c =>
      cases physicalId with
      | none => exact hphysical rfl
      | some p => exact h ⟨rfl, rfl⟩

theorem pushIfComplete_of_some {c p : ℤ} (hprocessor : 0 ≤ processor) (hc : 0 ≤ c) (hp : 0 ≤ p) :
    pushIfComplete (.pending ids processor (some c) (some p)) =
      .reset (ids ++ [⟨c, p, processor⟩]) := by
  have hne : ∀ id : ℤ, 0 ≤ id → id ≠ -1 := fun id hid => by omega
  exact if_pos ⟨hne processor hprocessor, hne c hc, hne p hp⟩

/-- When three values are there, they are pushed; otherwise the loop goes on. -/
theorem pushIfComplete_eq_finish (hprocessor : 0 ≤ processor) (hc : ∀ c ∈ coreId, 0 ≤ c)
    (hp : ∀ p ∈ physicalId, 0 ≤ p) :
    pushIfComplete (.pending ids processor coreId physicalId) =
      .finish ids processor coreId physicalId := by
  cases coreId with
  | none => exact pushIfComplete_pending (by simp)
  | some c =>
      cases physicalId with
      | none => exact pushIfComplete_pending (by simp)
      | some p => exact pushIfComplete_of_some hprocessor (hc c rfl) (hp p rfl)

/-- Lines without ids do nothing after a triple has been pushed. -/
theorem parse_reset (hlines : processorIdsOf lines = [])
    (hphysical : physicalIdsOf lines = []) (hcore : coreIdsOf lines = []) :
    parse (.reset ids) lines = .ok (.reset ids) := by
  induction lines with
  | nil => rfl
  | cons line lines ih =>
      have hother : fieldOf line = .other := by
        cases hfield : fieldOf line with
        | processor id => simp [processorIdsOf_cons hfield, Field.processorIds] at hlines
        | physicalId id => simp [physicalIdsOf_cons hfield, Field.physicalIds] at hphysical
        | coreId id => simp [coreIdsOf_cons hfield, Field.coreIds] at hcore
        | other => rfl
      have hstep : parseLine (.reset ids) line = .ok (.reset ids) := by
        rw [parseLine, hother]
        rfl
      rw [processorIdsOf_cons hother] at hlines
      rw [physicalIdsOf_cons hother] at hphysical
      rw [coreIdsOf_cons hother] at hcore
      rw [parse_cons_of_ok hstep]
      exact ih hlines hphysical hcore

/-- The loop over the other lines of a record, in whatever order the ids come. -/
theorem parse_pending (hprocessor : 0 ≤ processor)
    (hlines : processorIdsOf lines = []) (hcore : ∀ id ∈ coreId.toList ++ coreIdsOf lines, 0 ≤ id)
    (hphysical : ∀ id ∈ physicalId.toList ++ physicalIdsOf lines, 0 ≤ id)
    (hcore_le : (coreId.toList ++ coreIdsOf lines).length ≤ 1)
    (hphysical_le : (physicalId.toList ++ physicalIdsOf lines).length ≤ 1)
    (hnot : ¬ (coreId.isSome ∧ physicalId.isSome)) :
    parse (.pending ids processor coreId physicalId) lines =
      .ok (.finish ids processor (coreId.toList ++ coreIdsOf lines).head?
        (physicalId.toList ++ physicalIdsOf lines).head?) := by
  induction lines generalizing coreId physicalId with
  | nil =>
      cases coreId <;> cases physicalId <;> first | rfl | exact absurd ⟨rfl, rfl⟩ hnot
  | cons line lines ih =>
      cases hfield : fieldOf line with
      | processor id => simp [processorIdsOf_cons hfield, Field.processorIds] at hlines
      | other =>
          rw [processorIdsOf_cons hfield] at hlines
          simp only [coreIdsOf_cons hfield, Field.coreIds, List.nil_append] at hcore hcore_le ⊢
          simp only [physicalIdsOf_cons hfield, Field.physicalIds, List.nil_append]
            at hphysical hphysical_le ⊢
          have hstep : parseLine (.pending ids processor coreId physicalId) line =
              .ok (.pending ids processor coreId physicalId) := by
            rw [parseLine, hfield, storeField, Except.map, pushIfComplete_pending hnot]
          rw [parse_cons_of_ok hstep]
          exact ih hlines hcore hphysical hcore_le hphysical_le hnot
      | physicalId id =>
          rw [processorIdsOf_cons hfield] at hlines
          simp only [coreIdsOf_cons hfield, Field.coreIds, List.nil_append] at hcore hcore_le ⊢
          simp only [physicalIdsOf_cons hfield, Field.physicalIds] at hphysical hphysical_le ⊢
          cases physicalId with
          | some p => simp at hphysical_le
          | none =>
              have hid : 0 ≤ id := hphysical id (by simp)
              have hnone : physicalIdsOf lines = [] := by simpa using hphysical_le
              have hstep : parseLine (.pending ids processor coreId none) line =
                  .ok (.finish ids processor coreId (some id)) := by
                rw [parseLine, hfield, ← pushIfComplete_eq_finish hprocessor]
                · rfl
                · exact fun c hc => hcore c (by simp [Option.mem_toList.2 hc])
                · rintro p ⟨⟩
                  exact hid
              rw [parse_cons_of_ok hstep]
              cases coreId with
              | some c => exact parse_reset hlines hnone (by simpa using hcore_le)
              | none =>
                  refine (ih hlines hcore ?_ hcore_le ?_ (by simp)).trans rfl
                  · simpa using hphysical
                  · simpa using hphysical_le
      | coreId id =>
          rw [processorIdsOf_cons hfield] at hlines
          simp only [coreIdsOf_cons hfield, Field.coreIds] at hcore hcore_le ⊢
          simp only [physicalIdsOf_cons hfield, Field.physicalIds, List.nil_append]
            at hphysical hphysical_le ⊢
          cases coreId with
          | some c => simp at hcore_le
          | none =>
              have hid : 0 ≤ id := hcore id (by simp)
              have hnone : coreIdsOf lines = [] := by simpa using hcore_le
              have hstep : parseLine (.pending ids processor none physicalId) line =
                  .ok (.finish ids processor (some id) physicalId) := by
                rw [parseLine, hfield, ← pushIfComplete_eq_finish hprocessor]
                · rfl
                · rintro c ⟨⟩
                  exact hid
                · exact fun p hp => hphysical p (by simp [Option.mem_toList.2 hp])
              rw [parse_cons_of_ok hstep]
              cases physicalId with
              | some p => exact parse_reset hlines (by simpa using hphysical_le) hnone
              | none =>
                  refine (ih hlines ?_ hphysical ?_ hphysical_le (by simp)).trans rfl
                  · simpa using hcore
                  · simpa using hcore_le

def linesOf (rs : List Record) : List (List Char) := rs.flatMap Record.lines

/-- The triples of the complete records, in their order -/
def triplesOf (rs : List Record) : List PhysicalCoreId := rs.filterMap Record.triple

/-- The exception if a record is followed by another one although it is not complete -/
def missingProcessor : InitFailure :=
  .runtimeError "error parsing /proc/cpuinfo: missing \"processor\" value"

/-- One record from its first line on. -/
theorem parse_record (ids : List PhysicalCoreId) (r : Record) :
    parse (.reset ids) r.lines = .ok (.finish ids r.processor r.coreId r.physicalId) := by
  have hstep : parseLine (.reset ids) r.processorLine =
      .ok (.pending ids r.processor none none) := by
    rw [parseLine, r.fieldOf_processorLine]
    exact congrArg Except.ok (@pushIfComplete_pending ids r.processor none none (by simp))
  rw [Record.lines, parse_cons_of_ok hstep]
  have hcore : ∀ id ∈ coreIdsOf r.otherLines, 0 ≤ id := fun id hid => (r.coreId_mem id hid).1
  have hphysical : ∀ id ∈ physicalIdsOf r.otherLines, 0 ≤ id :=
    fun id hid => (r.physicalId_mem id hid).1
  exact parse_pending r.processor_mem.1 r.processorIds_eq (by simpa using hcore)
    (by simpa using hphysical) (by simpa using r.coreIds_le)
    (by simpa using r.physicalIds_le) (by simp)

theorem Record.triple_of_complete (h : r.Complete) :
    ∃ c p, r.coreId = some c ∧ r.physicalId = some p ∧ r.triple = some ⟨c, p, r.processor⟩ := by
  obtain ⟨p, hp⟩ := Option.isSome_iff_exists.1 h.1
  obtain ⟨c, hc⟩ := Option.isSome_iff_exists.1 h.2
  exact ⟨c, p, hc, hp, by rw [Record.triple, hc, hp]⟩

theorem Record.triple_of_not_complete (h : ¬ r.Complete) : r.triple = none := by
  rw [Record.triple]
  split
  · next c p hc hp => exact absurd ⟨by rw [hp]; rfl, by rw [hc]; rfl⟩ h
  · rfl

/-- A complete record adds its triple. -/
theorem parse_record_of_complete (ids : List PhysicalCoreId) (h : r.Complete) :
    parse (.reset ids) r.lines = .ok (.reset (ids ++ r.triple.toList)) := by
  obtain ⟨c, p, hc, hp, ht⟩ := Record.triple_of_complete h
  rw [parse_record, hc, hp, ht]
  rfl

/-- Another record leaves its processor id behind. -/
theorem parse_record_of_not_complete (ids : List PhysicalCoreId) (h : ¬ r.Complete) :
    parse (.reset ids) r.lines = .ok (.pending ids r.processor r.coreId r.physicalId) := by
  rw [parse_record]
  cases hc : r.coreId with
  | none => rfl
  | some c =>
      cases hp : r.physicalId with
      | none => rfl
      | some p => exact absurd ⟨by rw [hp]; rfl, by rw [hc]; rfl⟩ h

/-- The next record then makes the loop throw. -/
theorem parse_pending_record (hprocessor : 0 ≤ processor) (r : Record) :
    parse (.pending ids processor coreId physicalId) r.lines = .error missingProcessor := by
  have hne : processor ≠ -1 := by omega
  rw [Record.lines, parse, parseLine, r.fieldOf_processorLine, storeField,
    if_pos (show (ParseState.pending ids processor coreId physicalId).lastProcessor ≠ -1 from hne)]
  rfl

/-- If all records but the last one are complete, the loop finds the triples. -/
theorem parse_of_complete (ids : List PhysicalCoreId) (h : ∀ r ∈ rs.dropLast, r.Complete) :
    ∃ s, parse (.reset ids) (linesOf rs) = .ok s ∧ s.ids = ids ++ triplesOf rs := by
  induction rs generalizing ids with
  | nil => exact ⟨_, rfl, by simp [ParseState.reset, triplesOf]⟩
  | cons r rs ih =>
      by_cases hr : r.Complete
      · have hrest : ∀ r ∈ rs.dropLast, r.Complete := by
          intro r' hr'
          cases rs with
          | nil => cases hr'
          | cons r'' rs => exact h r' (List.mem_cons_of_mem r hr')
        obtain ⟨s, hs, hids⟩ := ih (ids ++ r.triple.toList) hrest
        refine ⟨s, ?_, ?_⟩
        · rw [linesOf, List.flatMap_cons, parse_append, parse_record_of_complete ids hr]
          exact hs
        · obtain ⟨c, p, -, -, ht⟩ := Record.triple_of_complete hr
          rw [hids, triplesOf, triplesOf, List.filterMap_cons_some ht, ht, List.append_assoc]
          rfl
      · cases rs with
        | nil =>
            refine ⟨.pending ids r.processor r.coreId r.physicalId, ?_, ?_⟩
            · rw [linesOf, List.flatMap_singleton]
              exact parse_record_of_not_complete ids hr
            · simp [ParseState.pending, triplesOf, Record.triple_of_not_complete hr]
        | cons r' rs => exact absurd (h r List.mem_cons_self) hr

theorem parse_of_not_complete (ids : List PhysicalCoreId) (h : ∃ r ∈ rs.dropLast, ¬ r.Complete) :
    parse (.reset ids) (linesOf rs) = .error missingProcessor := by
  induction rs generalizing ids with
  | nil =>
      obtain ⟨r, hr, -⟩ := h
      cases hr
  | cons r rs ih =>
      cases rs with
      | nil =>
          obtain ⟨r', hr', -⟩ := h
          cases hr'
      | cons r' rs =>
          rw [linesOf, List.flatMap_cons, parse_append]
          by_cases hr : r.Complete
          · rw [parse_record_of_complete ids hr]
            refine ih _ ?_
            obtain ⟨r'', hr'', hnot⟩ := h
            rcases List.mem_cons.1 hr'' with rfl | hmem
            · exact absurd hr hnot
            · exact ⟨r'', hmem, hnot⟩
          · rw [parse_record_of_not_complete ids hr]
            simp only [Except.bind]
            rw [List.flatMap_cons, parse_append, parse_pending_record r.processor_mem.1 r']
            rfl

end Patton.CpuInfo
