import Mathlib.Data.List.TakeWhile
import Syscore.Library.Decimal

/-!
# String input streams

The extractions of `std::istringstream` that a line parser uses, with the state bits on which the
next extraction depends.
-/

namespace Syscore

/-- The newline. -/
def newline : UInt8 := 10

/-- A string stream: what is left to read, and two of its state bits. -/
structure IStream where
  rest : Text
  eof : Bool
  fail : Bool
  deriving DecidableEq

namespace IStream

/-- A stream over a string. -/
def ofText (text : Text) : IStream := { rest := text, eof := false, fail := false }

/-- `good`. -/
def good (stream : IStream) : Bool := !stream.eof && !stream.fail

/-- The sentry of `>>`: it skips white space, and fails on a stream that is not good or ends. -/
def sentry (stream : IStream) : IStream :=
  if stream.good then
    let rest := stream.rest.dropWhile isspace
    { rest, eof := rest = [], fail := rest = [] }
  else
    { stream with fail := true }

/-- `>>` into a string; on failure the string keeps its old value. -/
def extractString (stream : IStream) (old : Text) : Text × IStream :=
  let stream := stream.sentry
  if stream.good then
    let word := stream.rest.takeWhile fun char => !isspace char
    let rest := stream.rest.dropWhile fun char => !isspace char
    (word, { rest, eof := rest = [], fail := false })
  else
    (old, stream)

/-- `>>` into an `int`: when the sentry fails the old value stays, without digits the value is 0,
and outside the range of `int` it is the nearest bound. -/
def extractInt (stream : IStream) (old : ℤ) : ℤ × IStream :=
  let stream := stream.sentry
  if stream.good then
    let (digits, value, rest) := splitInt stream.rest
    let inRange := -2 ^ 31 ≤ value ∧ value ≤ 2 ^ 31 - 1
    (max (-2 ^ 31) (min (2 ^ 31 - 1) value),
      { rest, eof := rest = [], fail := ¬(digits ≠ [] ∧ inRange) })
  else
    (old, stream)

/-- `getline`; on failure of its sentry the string keeps its old value. -/
def getline (stream : IStream) (old : Text) : Text × IStream :=
  if stream.good then
    let line := stream.rest.takeWhile (· ≠ newline)
    let rest := stream.rest.dropWhile (· ≠ newline)
    (line, { rest := rest.drop 1, eof := rest = [], fail := line = [] ∧ rest = [] })
  else
    (old, { stream with fail := true })

/-! ## What a successful extraction yields -/

/-- A good sentry stands before a character that is no white space. -/
theorem sentry_rest {stream : IStream} (good : stream.sentry.good = true) :
    ∃ first others, stream.sentry.rest = first :: others ∧ isspace first = false := by
  rw [sentry] at good ⊢
  split at good
  · rename_i before
    rw [if_pos before]
    have stops := List.head?_dropWhile_not isspace stream.rest
    cases shape : stream.rest.dropWhile isspace with
    | nil => simp [IStream.good, shape] at good
    | cons first others =>
        rw [shape] at stops
        exact ⟨first, others, rfl, by simpa using stops⟩
  · simp [IStream.good] at good

/-- Extracting a string leaves a word without white space, if the old value is one. -/
theorem extractString_spec (stream : IStream) {old : Text} (nonempty : old ≠ [])
    (noSpace : ∀ char ∈ old, isspace char = false) :
    (stream.extractString old).1 ≠ [] ∧
      ∀ char ∈ (stream.extractString old).1, isspace char = false := by
  rw [extractString]
  by_cases good : stream.sentry.good
  · obtain ⟨first, others, shape, head⟩ := sentry_rest good
    simp only [good, if_true, shape]
    exact ⟨by simp [head], fun char inside => by simpa using List.mem_takeWhile_imp inside⟩
  · simp only [good]
    exact ⟨nonempty, noSpace⟩

/-- Extracting an integer leaves an `int`. -/
theorem extractInt_spec (stream : IStream) {old : ℤ} (inRange : -2 ^ 31 ≤ old ∧ old ≤ 2 ^ 31 - 1) :
    -2 ^ 31 ≤ (stream.extractInt old).1 ∧ (stream.extractInt old).1 ≤ 2 ^ 31 - 1 := by
  rw [extractInt]
  by_cases good : stream.sentry.good
  · simp only [good, if_true]
    omega
  · simp only [good]
    exact inRange

/-- A line extracted holds no newline. -/
theorem getline_spec (stream : IStream) {old : Text} (free : newline ∉ old) :
    newline ∉ (stream.getline old).1 := by
  rw [getline]
  split
  · intro (inside : newline ∈ stream.rest.takeWhile (· ≠ newline))
    simpa using List.mem_takeWhile_imp inside
  · exact free

/-! ## A word, a blank and an integer -/

/-- A word without white space, read before a blank. -/
theorem extractString_word {word : Text} (nonempty : word ≠ [])
    (noSpace : ∀ char ∈ word, isspace char = false) (old rest : Text) :
    (ofText (word ++ 32 :: rest)).extractString old = (word, ofText (32 :: rest)) := by
  have kept : ∀ char ∈ word, (!isspace char) = true := fun char inside => by
    rw [noSpace char inside]
    rfl
  obtain ⟨taken, dropped⟩ :=
    takeWhile_append_stop kept (show (!isspace 32) = false from rfl) rest
  have skipped : (ofText (word ++ 32 :: rest)).sentry = ofText (word ++ 32 :: rest) := by
    cases word with
    | nil => exact absurd rfl nonempty
    | cons first others => simp [sentry, ofText, good, noSpace first List.mem_cons_self]
  rw [extractString, skipped]
  simp only [ofText, good, taken, dropped]
  simp

/-- A printed `int`, read between blanks. -/
theorem extractInt_decimalInt {value : ℤ} (inRange : -2 ^ 31 ≤ value ∧ value ≤ 2 ^ 31 - 1)
    (old : ℤ) (rest : Text) :
    (ofText (32 :: (decimalInt value ++ 32 :: rest))).extractInt old =
      (value, ofText (32 :: rest)) := by
  have skipped : (ofText (32 :: (decimalInt value ++ 32 :: rest))).sentry =
      ofText (decimalInt value ++ 32 :: rest) := by
    obtain ⟨first, others, shape, noSpace⟩ := decimalInt_head value
    have blank : isspace 32 = true := rfl
    simp [sentry, ofText, good, shape, noSpace, blank]
  have clamped : max (-2 ^ 31) (min (2 ^ 31 - 1) value) = value := by omega
  have digits := (decimal_spec value.natAbs).2.1
  rw [extractInt, skipped]
  simp only [ofText, good, splitInt_decimalInt value (show isdigit 32 = false from rfl) rest,
    clamped, inRange]
  simp [digits]

/-- The rest of a stream that holds no newline is its last line. -/
theorem getline_ofText {line : Text} (free : newline ∉ line) (old : Text) :
    ((ofText line).getline old).1 = line := by
  have kept : ∀ char ∈ line, decide (char ≠ newline) = true := fun char inside =>
    decide_eq_true fun equal => free (equal ▸ inside)
  have good : (ofText line).good = true := rfl
  rw [getline, if_pos good]
  exact List.takeWhile_eq_self_iff.mpr kept

end IStream

theorem newline_notMem_decimalInt (value : ℤ) : newline ∉ decimalInt value := by
  have free : newline ∉ decimal value.natAbs := fun inside =>
    absurd ((decimal_spec value.natAbs).1 newline inside) (by decide)
  rw [decimalInt]
  split
  · rw [List.mem_cons, not_or]
    exact ⟨by decide, free⟩
  · exact free

/-- A text is cut at the first occurrence of a character. -/
theorem cut_at {stop : UInt8} {line : Text} (free : stop ∉ line) (rest : Text) :
    (line ++ stop :: rest).takeWhile (· ≠ stop) = line ∧
      (line ++ stop :: rest).dropWhile (· ≠ stop) = stop :: rest := by
  apply takeWhile_append_stop
  · intro char inside
    simp only [ne_eq, decide_not, Bool.not_eq_true', decide_eq_false_iff_not]
    exact fun equal => free (equal ▸ inside)
  · simp

/-- The lines that a loop of `getline` reads: an unterminated last line counts. -/
def getlines (text : Text) : List Text :=
  if text = [] then
    []
  else
    text.takeWhile (· ≠ newline) :: getlines ((text.dropWhile (· ≠ newline)).drop 1)
termination_by text.length
decreasing_by
  rename_i nonempty
  have shorter := (text.dropWhile_sublist (· ≠ newline)).length_le
  have positive := List.length_pos_iff.mpr nonempty
  rw [List.length_drop]
  omega

/-- Whole lines in front of a text are read as they are. -/
theorem getlines_append {lines : List Text} (free : ∀ line ∈ lines, newline ∉ line) (rest : Text) :
    getlines ((lines.flatMap fun line => line ++ [newline]) ++ rest) = lines ++ getlines rest := by
  induction lines with
  | nil => rfl
  | cons line lines ih =>
      have later := ih fun other inside => free other (List.mem_cons_of_mem _ inside)
      have regroup : ((line :: lines).flatMap fun line => line ++ [newline]) ++ rest =
          line ++ newline :: ((lines.flatMap fun line => line ++ [newline]) ++ rest) := by simp
      obtain ⟨taken, dropped⟩ := cut_at (free line List.mem_cons_self)
        ((lines.flatMap fun line => line ++ [newline]) ++ rest)
      rw [regroup, getlines, if_neg (by simp), taken, dropped, List.drop_one, List.tail_cons, later]
      rfl

/-- A line that is read holds no newline. -/
theorem newline_notMem_of_getlines {text line : Text} (read : line ∈ getlines text) :
    newline ∉ line := by
  induction text using getlines.induct with
  | case1 => simp [getlines] at read
  | case2 text nonempty ih =>
      rw [getlines, if_neg nonempty] at read
      rcases List.mem_cons.mp read with rfl | later
      · intro inside
        simpa using List.mem_takeWhile_imp inside
      · exact ih later

namespace IStream

/-- The lines that a loop of `getline` has yet to read. -/
def lines (stream : IStream) : List Text := if stream.good then getlines stream.rest else []

/-- `getline` fails when no line is left. -/
theorem getline_of_nil {stream : IStream} (none : stream.lines = []) (old : Text) :
    (stream.getline old).2.fail = true := by
  rw [getline]
  split
  · rename_i good
    rw [lines, if_pos good, getlines] at none
    split at none
    · rename_i empty
      simp [empty]
    · cases none
  · rfl

/-- `getline` reads the first of the lines that are left. -/
theorem getline_of_cons {stream : IStream} {line : Text} {later : List Text}
    (some : stream.lines = line :: later) (old : Text) :
    (stream.getline old).1 = line ∧ (stream.getline old).2.fail = false ∧
      (stream.getline old).2.lines = later := by
  rw [lines] at some
  split at some
  case isFalse => cases some
  case isTrue good =>
    rw [getlines] at some
    split at some
    · cases some
    · rename_i nonempty
      obtain ⟨rfl, rfl⟩ := List.cons.inj some
      have whole := List.takeWhile_append_dropWhile (p := (· ≠ newline)) (l := stream.rest)
      rw [getline, if_pos good]
      cases rest : stream.rest.dropWhile (· ≠ newline) with
      | nil =>
          have line : stream.rest.takeWhile (· ≠ newline) ≠ [] := by
            rw [rest, List.append_nil] at whole
            rw [whole]
            exact nonempty
          refine ⟨rfl, by simpa using line, ?_⟩
          simp [lines, IStream.good, getlines]
      | cons first others =>
          refine ⟨rfl, by simp, ?_⟩
          simp [lines, IStream.good]

end IStream

end Syscore
