import Patton.CpuInfo.Detection

/-!
# The size of large pages in `/proc/meminfo`

On Linux, the lines of `/proc/meminfo` are read up to the entry `Hugepagesize`, which gives
the size of large pages in units of 1024 bytes. Its number comes out as it has been written,
whatever the other lines are.
-/

namespace Patton.CpuInfo

inductive Directive
  | space
  | char (c : Char)
  | long
  | word (width : ℕ)
  deriving DecidableEq

/-- The directives of a format. Of the conversions, only `%ld` and `%16s` are known. -/
def directives : List Char → List Directive
  | '%' :: 'l' :: 'd' :: format => .long :: directives format
  | '%' :: '1' :: '6' :: 's' :: format => .word 16 :: directives format
  | c :: format => (if isspace c then .space else .char c) :: directives format
  | [] => []

inductive Assigned
  | long (n : ℤ)
  | word (s : List Char)
  deriving DecidableEq

/-- The conversion `%ld`: the number, and what follows it. -/
def scanLong (s : List Char) : Option (ℤ × List Char) :=
  match s.dropWhile isspace with
  | '-' :: s => (scanDigits s).map fun n => (-n, s.dropWhile Char.isDigit)
  | '+' :: s => (scanDigits s).map fun n => (n, s.dropWhile Char.isDigit)
  | s => (scanDigits s).map fun n => (n, s.dropWhile Char.isDigit)

/-- The conversion `%s` of a given width: the word, and what follows it. -/
def scanWord (width : ℕ) (s : List Char) : Option (List Char × List Char) :=
  let s := s.dropWhile isspace
  let word := (s.take width).takeWhile fun c => !isspace c
  if word = [] then none else some (word, s.drop word.length)

/-- `std::sscanf`: what has been assigned before the first directive that fails. -/
def scan : List Directive → List Char → List Assigned
  | [], _ => []
  | .space :: ds, s => scan ds (s.dropWhile isspace)
  | .char _ :: _, [] => []
  | .char c :: ds, d :: s => if c = d then scan ds s else []
  | .long :: ds, s =>
      match scanLong s with
      | none => []
      | some (n, s) => .long n :: scan ds s
  | .word width :: ds, s =>
      match scanWord width s with
      | none => []
      | some (word, s) => .word word :: scan ds s

/-- How the initialisation of a size fails: an exception, an overflow of `long`, or a
contract violation. -/
inductive SizeFailure
  | runtimeError (what : String)
  | narrowingError
  | overflow
  | failFast
  deriving DecidableEq

def longMax : ℤ := 2 ^ 63 - 1

/-- `gsl::narrow<std::size_t>` of a value of `long` -/
def narrowLong (n : ℤ) : Except SizeFailure ℕ :=
  if 0 ≤ n then .ok n.toNat else .error .narrowingError

/-- The loop over the lines of `/proc/meminfo` in the initialisation of
`hardware_large_page_size_value` -/
def readHugepagesize : List (List Char) → Except SizeFailure ℕ
  | [] => .ok 0  -- no "Hugepagesize" entry was found
  | line :: lines =>
      match scan (directives "Hugepagesize : %ld %16s".toList) line with
      | [.long hugePageSize, .word unit] =>
          if unit = "kB".toList then
            if -longMax - 1 ≤ hugePageSize * 1024 ∧ hugePageSize * 1024 ≤ longMax then
              narrowLong (hugePageSize * 1024)
            else .error .overflow
          else .error (.runtimeError
            ("error parsing /proc/meminfo: unrecognized unit '" ++ String.ofList unit ++ "'"))
      | _ => readHugepagesize lines

def Blank (s : List Char) : Prop := ∀ c ∈ s, isspace c = true

/-- A line which says that large pages have `n` kB. -/
structure IsEntry (n : ℕ) (line : List Char) : Prop where
  eq : ∃ s₁ s₂ s₃ rest, Blank s₁ ∧ Blank s₂ ∧ Blank s₃ ∧ s₃ ≠ [] ∧
    (∀ c ∈ rest.head?, isspace c = true) ∧
    line = "Hugepagesize".toList ++ (s₁ ++ ':' :: (s₂ ++ (Nat.toDigits 10 n ++
      (s₃ ++ ("kB".toList ++ rest)))))

theorem isEntry_kernel (n pad : ℕ) : IsEntry n ("Hugepagesize:".toList ++
    List.replicate pad ' ' ++ Nat.toDigits 10 n ++ " kB".toList) where
  eq := by
    refine ⟨[], List.replicate pad ' ', [' '], [], by simp [Blank], ?_, ?_, by simp, by simp,
      by simp⟩
    · intro c hc
      rw [List.eq_of_mem_replicate hc]
      decide
    · intro c hc
      rw [List.mem_singleton.1 hc]
      decide

variable {s rest word : List Char} {ds : List Directive} {c : Char} {n : ℕ}

theorem dropWhile_blank (hs : Blank s) (hrest : ∀ c ∈ rest.head?, isspace c = false) :
    (s ++ rest).dropWhile isspace = rest := by
  rw [List.dropWhile_append_of_pos hs]
  cases rest with
  | nil => rfl
  | cons c rest => exact List.dropWhile_cons_of_neg (by simp [hrest c rfl])

theorem scan_chars (word : List Char) (ds : List Directive) (s : List Char) :
    scan (word.map .char ++ ds) (word ++ s) = scan ds s := by
  induction word with
  | nil => rfl
  | cons c word ih =>
      rw [List.map_cons, List.cons_append, List.cons_append, scan, if_pos rfl, ih]

theorem scan_chars_of_not_prefix (h : ¬ word <+: s) : scan (word.map .char ++ ds) s = [] := by
  induction word generalizing s with
  | nil => exact absurd List.nil_prefix h
  | cons c word ih =>
      cases s with
      | nil => rfl
      | cons d s =>
          rw [List.map_cons, List.cons_append, scan]
          split
          · next heq => exact ih fun hprefix => h (List.cons_prefix_cons.2 ⟨heq, hprefix⟩)
          · rfl

/-- A natural number is read as it has been written. -/
theorem scanDigits_toDigits (hs : ∀ c ∈ s.head?, c.isDigit = false) :
    scanDigits (Nat.toDigits 10 n ++ s) = some (n : ℤ) ∧
      (Nat.toDigits 10 n ++ s).dropWhile Char.isDigit = s := by
  have hdigits : ∀ c ∈ Nat.toDigits 10 n, c.isDigit = true := fun c hc =>
    Nat.isDigit_of_mem_toDigits (by decide) (by decide) hc
  have htake : s.takeWhile Char.isDigit = [] := by
    cases s with
    | nil => rfl
    | cons c s => exact List.takeWhile_cons_of_neg (by simp [hs c rfl])
  constructor
  · rw [scanDigits, List.takeWhile_append_of_pos hdigits, htake, List.append_nil,
      if_neg Nat.toDigits_ne_nil]
    have h := Nat.ofDigitChars_ten_toDigits (n := n)
    rw [Nat.ofDigitChars_eq_foldl] at h
    have hcast : ∀ (l : List Char) (a : ℕ), l.foldl (fun (n : ℤ) c =>
        10 * n + (c.toNat - '0'.toNat : ℕ)) a =
          (l.foldl (fun n c => 10 * n + (c.toNat - '0'.toNat)) a : ℕ) := by
      intro l
      induction l with
      | nil => exact fun a => rfl
      | cons c l ih =>
          intro a
          rw [List.foldl_cons, List.foldl_cons, ← ih]
          push_cast
          rfl
    exact congrArg some ((hcast _ 0).trans (congrArg Nat.cast h))
  · rw [List.dropWhile_append_of_pos hdigits]
    cases s with
    | nil => rfl
    | cons c s => exact List.dropWhile_cons_of_neg (by simp [hs c rfl])

theorem isDigit_of_isspace (h : isspace c = true) : c.isDigit = false := by
  have hval : c.toNat = 32 ∨ 9 ≤ c.toNat ∧ c.toNat ≤ 13 := by
    rcases Bool.or_eq_true_iff.1 h with h | h
    · rw [of_decide_eq_true h]
      exact .inl rfl
    · exact .inr (by simpa using h)
  by_contra hdigit
  rw [Bool.not_eq_false, Char.isDigit_iff_toNat] at hdigit
  simp at hdigit
  omega

theorem isspace_of_isDigit (h : c.isDigit = true) : isspace c = false := by
  by_contra hspace
  rw [isDigit_of_isspace (by simpa using hspace)] at h
  cases h

theorem exists_toDigits_eq (n : ℕ) :
    ∃ d digits, Nat.toDigits 10 n = d :: digits ∧ d.isDigit = true := by
  obtain ⟨d, digits, h⟩ := List.exists_cons_of_ne_nil (Nat.toDigits_ne_nil (b := 10) (n := n))
  have hd : d ∈ Nat.toDigits 10 n := h ▸ List.mem_cons_self
  exact ⟨d, digits, h, Nat.isDigit_of_mem_toDigits (by decide) (by decide) hd⟩

theorem dropWhile_toDigits (hs : Blank s) :
    (s ++ (Nat.toDigits 10 n ++ rest)).dropWhile isspace = Nat.toDigits 10 n ++ rest := by
  obtain ⟨d, digits, hdigits, hd⟩ := exists_toDigits_eq n
  rw [hdigits]
  refine dropWhile_blank hs fun c hc => ?_
  obtain rfl : d = c := by simpa using hc
  exact isspace_of_isDigit hd

theorem scanLong_toDigits (hs : ∀ c ∈ s.head?, isspace c = true) :
    scanLong (Nat.toDigits 10 n ++ s) = some ((n : ℤ), s) := by
  obtain ⟨hscan, hdrop⟩ := scanDigits_toDigits (n := n) fun c hc => isDigit_of_isspace (hs c hc)
  obtain ⟨d, digits, hdigits, hd⟩ := exists_toDigits_eq n
  have hblank : (Nat.toDigits 10 n ++ s).dropWhile isspace = Nat.toDigits 10 n ++ s :=
    dropWhile_toDigits (s := []) (by simp [Blank])
  rw [scanLong, hblank]
  -- a digit is not a sign
  split
  · next s' heq =>
      rw [hdigits] at heq
      obtain rfl := (List.cons.inj heq).1
      cases hd
  · next s' heq =>
      rw [hdigits] at heq
      obtain rfl := (List.cons.inj heq).1
      cases hd
  · rw [hscan, hdrop]
    rfl

theorem scanWord_of_short {width : ℕ} (hne : word ≠ []) (hword : ∀ c ∈ word, isspace c = false)
    (hle : word.length ≤ width) (hrest : ∀ c ∈ rest.head?, isspace c = true) :
    scanWord width (word ++ rest) = some (word, rest) := by
  have hblank : (word ++ rest).dropWhile isspace = word ++ rest := by
    obtain ⟨d, l, rfl⟩ := List.exists_cons_of_ne_nil hne
    exact List.dropWhile_cons_of_neg (by simp [hword d List.mem_cons_self])
  have htake : ((word ++ rest).take width).takeWhile (fun c => !isspace c) = word := by
    rw [List.take_append, List.take_of_length_le hle,
      List.takeWhile_append_of_pos fun c hc => by simp [hword c hc]]
    cases rest with
    | nil => simp
    | cons c rest =>
        cases width - word.length with
        | zero => simp
        | succ k => simp [hrest c rfl]
  simp only [scanWord, hblank, htake, if_neg hne, List.drop_left]

theorem directives_hugepagesize : directives "Hugepagesize : %ld %16s".toList =
    "Hugepagesize".toList.map .char ++ [.space, .char ':', .space, .long, .space, .word 16] := by
  decide

theorem scan_entry {line : List Char} (h : IsEntry n line) :
    scan (directives "Hugepagesize : %ld %16s".toList) line = [.long n, .word "kB".toList] := by
  obtain ⟨s₁, s₂, s₃, rest, h₁, h₂, h₃, hne, hrest, rfl⟩ := h.eq
  have hhead : ∀ c ∈ (s₃ ++ ("kB".toList ++ rest)).head?, isspace c = true := by
    obtain ⟨d, l, rfl⟩ := List.exists_cons_of_ne_nil hne
    intro c hc
    obtain rfl : d = c := by simpa using hc
    exact h₃ d List.mem_cons_self
  have hcolon : ∀ s, (s₁ ++ ':' :: s).dropWhile isspace = ':' :: s := fun s =>
    dropWhile_blank h₁ (by simp; decide)
  have hunit : (s₃ ++ ("kB".toList ++ rest)).dropWhile isspace = "kB".toList ++ rest :=
    dropWhile_blank h₃ (by simp; decide)
  have hword : scanWord 16 ("kB".toList ++ rest) = some ("kB".toList, rest) :=
    scanWord_of_short (by simp) (by simp; decide) (by simp) hrest
  rw [directives_hugepagesize, scan_chars]
  simp only [scan, hcolon, if_true, dropWhile_toDigits h₂, scanLong_toDigits hhead, hunit, hword]

/-- A line that begins in another way is not an entry. -/
theorem scan_other {line : List Char} (h : ¬ "Hugepagesize".toList <+: line) :
    scan (directives "Hugepagesize : %ld %16s".toList) line = [] := by
  rw [directives_hugepagesize]
  exact scan_chars_of_not_prefix h

/-- The first entry counts, and there is no need for one: the size of large pages comes out
as it has been written, in bytes, or as 0. -/
theorem readHugepagesize_eq (lines : List (List Char))
    (hother : ∀ line ∈ lines, ¬ "Hugepagesize".toList <+: line) :
    readHugepagesize lines = .ok 0 ∧ ∀ entry more n, IsEntry n entry →
      (n : ℤ) * 1024 ≤ longMax → readHugepagesize (lines ++ entry :: more) = .ok (n * 1024) := by
  induction lines with
  | nil =>
      refine ⟨rfl, fun entry more n hentry hn => ?_⟩
      have hmin : -longMax - 1 ≤ (n : ℤ) * 1024 := by
        rw [longMax]
        omega
      rw [List.nil_append, readHugepagesize, scan_entry hentry]
      simp only [if_true, if_pos (And.intro hmin hn)]
      rw [narrowLong, if_pos (by omega)]
      exact congrArg Except.ok (by omega)
  | cons line lines ih =>
      have hline := scan_other (hother line List.mem_cons_self)
      have hskip : ∀ lines, readHugepagesize (line :: lines) = readHugepagesize lines := by
        intro lines
        rw [readHugepagesize, hline]
      obtain ⟨hnone, hentry⟩ := ih fun line h => hother line (List.mem_cons_of_mem _ h)
      exact ⟨(hskip lines).trans hnone, fun entry more n h hn =>
        (hskip _).trans (hentry entry more n h hn)⟩

/-- Large pages of two megabytes -/
theorem kernel_readHugepagesize_eq : readHugepagesize (["MemTotal:       65793932 kB".toList,
    "HugePages_Total:       0".toList] ++ ("Hugepagesize:".toList ++ List.replicate 7 ' ' ++
      Nat.toDigits 10 2048 ++ " kB".toList) :: ["Hugetlb:               0 kB".toList]) =
    .ok (2048 * 1024) :=
  (readHugepagesize_eq _ (by simp)).2 _ _ _ (isEntry_kernel 2048 7) (by decide)

end Patton.CpuInfo
