import Syscore.Amazon.Database
import Syscore.Library.Stream

/-!
# The lines of the reviews file

`main` of `mkamazondb`, from the text of the reviews to the two files: the lines, their cells, the
conversions and what is written. A line is checked for its number of cells only.
-/

namespace Syscore
namespace Amazon

/-! ## Reading the reviews -/

/-- The tab. -/
def tab : UInt8 := 9

/-- The cells that a loop of `getline(ss, cell, '\t')` reads: an empty last cell is not read. -/
def cells (line : Text) : List Text :=
  if line = [] then
    []
  else
    line.takeWhile (· ≠ tab) :: cells ((line.dropWhile (· ≠ tab)).drop 1)
termination_by line.length
decreasing_by
  rename_i nonempty
  have shorter := (line.dropWhile_sublist (· ≠ tab)).length_le
  have positive := List.length_pos_iff.mpr nonempty
  rw [List.length_drop]
  omega

/-- `stoi`: `none` where it throws. -/
def stoi (text : Text) : Option ℤ :=
  let (digits, value, _) := splitInt (text.dropWhile isspace)
  if digits ≠ [] ∧ -2 ^ 31 ≤ value ∧ value ≤ 2 ^ 31 - 1 then some value else none

/-- `line.pop_back()`, where the line ends with a carriage return. -/
def popReturn (line : Text) : Text := if line.getLast? = some 13 then line.dropLast else line

/-- One line that is not empty: `some none` where it is skipped, `none` where a conversion
throws. -/
def parseLine (line : Text) : Option (Option Rec) :=
  match cells line with
  | title :: category :: rating :: headline :: body :: year :: month :: day :: _ => do
      let rating ← stoi rating
      let year ← stoi year
      let month ← stoi month
      let day ← stoi day
      return some { title, category, headline, body, rating, year, month, day }
  | _ => some none

/-- One round of the loop over the lines. -/
def readLine (recs : List Rec) (line : Text) : Option (List Rec) :=
  let line := popReturn line
  if line = [] then some recs else (parseLine line).map fun r => recs ++ r.toList

/-- The reviews that the loop collects: `none` where an exception ends the program. -/
def parseRecs (reviews : Text) : Option (List Rec) := (getlines reviews).foldlM readLine []

/-- `main`: the database file and the keyword index file. -/
def mkamazondb (reviews : Text) : Option (List UInt8 × List UInt8) :=
  (parseRecs reviews).map fun recs => (databaseFile recs, keywordIndexFile recs)

/-! ## Well-formed lines -/

/-- The value of a cell that is a decimal integer: digits, at least one, after an optional sign. -/
def decimalInteger (cell : Text) : Option ℤ :=
  let (digits, value, rest) := splitInt cell
  if digits ≠ [] ∧ rest = [] then some value else none

instance (r : Rec) : Decidable r.Storable :=
  decidable_of_iff
    ((∀ text ∈ r.fields, 0 ∉ text) ∧ (0 ≤ r.rating ∧ r.rating < 2 ^ 8) ∧
      (0 ≤ r.year ∧ r.year < 2 ^ 16) ∧ (0 ≤ r.month ∧ r.month < 2 ^ 8) ∧
      (0 ≤ r.day ∧ r.day < 2 ^ 8))
    ⟨fun ⟨nulFree, rating, year, month, day⟩ => ⟨nulFree, rating, year, month, day⟩,
      fun ⟨nulFree, rating, year, month, day⟩ => ⟨nulFree, rating, year, month, day⟩⟩

/-- The review of a well-formed line: eight cells or more, decimal integers in the four cells of the
numbers, and values that a record can hold. -/
def wellFormed (line : Text) : Option Rec :=
  match line.splitOn tab with
  | title :: category :: rating :: headline :: body :: year :: month :: day :: _ => do
      let rating ← decimalInteger rating
      let year ← decimalInteger year
      let month ← decimalInteger month
      let day ← decimalInteger day
      let r : Rec := { title, category, headline, body, rating, year, month, day }
      if r.Storable then some r else none
  | _ => none

/-- The lines that are not empty, each without its carriage return. -/
def lines (reviews : Text) : List Text := ((getlines reviews).map popReturn).filter (· ≠ [])

/-- The builder runs to completion, and its database reads back as the well-formed lines. -/
def KeepsWellFormed (reviews : Text) : Prop :=
  ∃ db index, mkamazondb reviews = some (db, index) ∧
    ∃ database, Database.open db = some database ∧
      ∀ index < 2 ^ 32, getReview database index =
        some (((lines reviews).filterMap wellFormed)[index]?.map fun r => r.review index)

/-- Every line that passes the check of the number of its cells is well-formed. -/
def CheckedLinesWellFormed (reviews : Text) : Prop :=
  ∀ line ∈ lines reviews, 8 ≤ (cells line).length → (wellFormed line).isSome = true

/-- The reviews of the lines that are neither skipped nor end the program. -/
def accepted (reviews : Text) : List Rec :=
  (lines reviews).filterMap fun line => (parseLine line).join

/-! ## The cells of a line -/

/-- The cells are the stretches between the tabs, but for an empty one at the end. -/
theorem splitOn_eq_cells (line : Text) :
    line.splitOn tab = cells line ∨ line.splitOn tab = cells line ++ [[]] := by
  induction line using cells.induct with
  | case1 =>
      rw [cells, if_pos rfl]
      exact Or.inr rfl
  | case2 line nonempty ih =>
      rw [cells, if_neg nonempty]
      by_cases tabbed : tab ∈ line
      · obtain ⟨first, rest, rfl, free⟩ := List.eq_append_cons_of_mem tabbed
        obtain ⟨taken, dropped⟩ := cut_at free rest
        rw [dropped, List.drop_one, List.tail_cons] at ih
        rw [List.splitOn_append_cons_self_of_not_mem free, taken, dropped, List.drop_one,
          List.tail_cons]
        exact ih.imp (congrArg (first :: ·)) (congrArg (first :: ·))
      · have kept : ∀ char ∈ line, decide (char ≠ tab) = true := fun char inside =>
          decide_eq_true fun same => tabbed (same ▸ inside)
        rw [List.splitOn_eq_singleton tabbed, List.takeWhile_eq_self_iff.mpr kept,
          List.dropWhile_eq_nil_iff.mpr kept, List.drop_nil, cells, if_pos rfl]
        exact Or.inl rfl

/-- Eight stretches of which the last is not empty are eight cells. -/
theorem cells_of_splitOn {line c₀ c₁ c₂ c₃ c₄ c₅ c₆ c₇ : Text} {more : List Text}
    (stretches : line.splitOn tab = c₀ :: c₁ :: c₂ :: c₃ :: c₄ :: c₅ :: c₆ :: c₇ :: more)
    (nonempty : c₇ ≠ []) :
    ∃ more, cells line = c₀ :: c₁ :: c₂ :: c₃ :: c₄ :: c₅ :: c₆ :: c₇ :: more := by
  rcases splitOn_eq_cells line with same | longer
  · exact ⟨more, by rw [← same, stretches]⟩
  · rw [stretches] at longer
    rcases List.eq_nil_or_concat more with rfl | ⟨more, last, rfl⟩
    · have ends := congrArg List.getLast? longer
      rw [List.getLast?_append] at ends
      exact absurd (by simpa using ends) nonempty
    · refine ⟨more, ?_⟩
      have front := congrArg List.dropLast longer
      rw [List.dropLast_concat] at front
      rw [← front]
      simp [List.dropLast]

/-- A cell that is a decimal integer has a sign or a digit in front: no white space is skipped. -/
theorem dropWhile_isspace_of_number {cell : Text} {value : ℤ}
    (number : decimalInteger cell = some value) : cell ≠ [] ∧ cell.dropWhile isspace = cell := by
  cases cell with
  | nil => cases number
  | cons first rest =>
      refine ⟨List.cons_ne_nil first rest, ?_⟩
      cases space : isspace first with
      | false => exact List.dropWhile_cons_of_neg (by rw [space]; exact Bool.false_ne_true)
      | true =>
          -- a cell that begins with white space has no digits at its front
          have plus : first ≠ 43 := fun same => by
            rw [same] at space
            exact absurd space (by decide)
          have minus : first ≠ 45 := fun same => by
            rw [same] at space
            exact absurd space (by decide)
          have digit : isdigit first = false := by
            rw [Bool.eq_false_iff]
            intro digit
            exact absurd space (by rw [isspace_digit digit]; exact Bool.false_ne_true)
          have unsigned : splitSign (first :: rest) = (false, first :: rest) := by
            simp [splitSign, plus, minus]
          rw [decimalInteger, splitInt, unsigned] at number
          simp [digit] at number

/-- `stoi` reads a decimal integer as it is written. -/
theorem stoi_of_decimalInteger {cell : Text} {value : ℤ} (number : decimalInteger cell = some value)
    (fits : 0 ≤ value ∧ value < 2 ^ 16) : stoi cell = some value := by
  rw [stoi, (dropWhile_isspace_of_number number).2]
  rw [decimalInteger] at number
  simp only [Option.ite_none_right_eq_some, Option.some.injEq] at number ⊢
  obtain ⟨⟨digits, _⟩, rfl⟩ := number
  exact ⟨⟨digits, by omega, by omega⟩, rfl⟩

/-! ## The lines that are kept -/

/-- A well-formed line is kept with its values. -/
theorem parseLine_of_wellFormed {line : Text} {r : Rec} (good : wellFormed line = some r) :
    parseLine line = some (some r) ∧ r.Storable := by
  rw [wellFormed] at good
  split at good
  · rename_i title category rating headline body year month day more stretches
    simp only [Option.bind_eq_bind, Option.bind_eq_some_iff, Option.ite_none_right_eq_some,
      Option.some.injEq] at good
    obtain ⟨ratingValue, rating, yearValue, year, monthValue, month, dayValue, day, storable,
        rfl⟩ :=
      good
    obtain ⟨more, eight⟩ := cells_of_splitOn stretches (dropWhile_isspace_of_number day).1
    refine ⟨?_, storable⟩
    have byte {value : ℤ} (fits : 0 ≤ value ∧ value < 2 ^ 8) : 0 ≤ value ∧ value < 2 ^ 16 := by
      omega
    have rating := stoi_of_decimalInteger rating (byte storable.rating)
    have year := stoi_of_decimalInteger year storable.year
    have month := stoi_of_decimalInteger month (byte storable.month)
    have day := stoi_of_decimalInteger day (byte storable.day)
    simp only [parseLine, eight, rating, year, month, day]
    rfl
  · cases good

/-- A rating with text behind the number passes: it is malformed, and the line is kept. -/
example :
    (wellFormed (ascii "Pan\tKitchen\t5 stars\tGood\tWorks\t2020\t12\t31")).isNone ∧
      (parseLine (ascii "Pan\tKitchen\t5 stars\tGood\tWorks\t2020\t12\t31")).join.isSome := by
  decide +kernel

/-- A line with fewer than eight cells is skipped. -/
theorem parseLine_of_few {line : Text} (few : (cells line).length < 8) :
    parseLine line = some none := by
  rw [parseLine]
  split
  · rename_i eight
    rw [eight] at few
    simp only [List.length_cons] at few
    omega
  · rfl

/-- A line with eight cells or more is not skipped. -/
theorem parseLine_ne_skipped {line : Text} (eight : 8 ≤ (cells line).length) :
    parseLine line ≠ some none := by
  rw [parseLine]
  split
  · intro skipped
    simp only [Option.bind_eq_bind, Option.bind_eq_some_iff] at skipped
    obtain ⟨_, _, _, _, _, _, _, _, kept⟩ := skipped
    cases kept
  · rename_i short
    rcases shape : cells line with
      _ | ⟨_, _ | ⟨_, _ | ⟨_, _ | ⟨_, _ | ⟨_, _ | ⟨_, _ | ⟨_, _ | ⟨_, _⟩⟩⟩⟩⟩⟩⟩⟩
    case cons.cons.cons.cons.cons.cons.cons.cons => exact absurd shape (short _ _ _ _ _ _ _ _ _)
    all_goals
      rw [shape] at eight
      simp only [List.length_cons, List.length_nil] at eight
      omega

/-- A line with fewer than eight cells is not well-formed. -/
theorem wellFormed_of_few {line : Text} (few : (cells line).length < 8) :
    wellFormed line = none := by
  rw [Option.eq_none_iff_forall_ne_some]
  intro r good
  have kept := (parseLine_of_wellFormed good).1
  rw [parseLine_of_few few] at kept
  cases kept

/-- The loop collects the reviews of the lines, unless one of them ends the program. -/
theorem parseRecs_eq_some_iff {reviews : Text} {recs : List Rec} :
    parseRecs reviews = some recs ↔
      (∀ line ∈ lines reviews, (parseLine line).isSome = true) ∧ recs = accepted reviews := by
  have loop (raw : List Text) (before : List Rec) :
      raw.foldlM readLine before = some recs ↔
        (∀ line ∈ (raw.map popReturn).filter (· ≠ []), (parseLine line).isSome = true) ∧
          recs = before ++ ((raw.map popReturn).filter (· ≠ [])).filterMap
            fun line => (parseLine line).join := by
    induction raw generalizing before with
    | nil =>
        exact ⟨fun same => ⟨List.forall_mem_nil _, (Option.some.inj same).symm.trans (by simp)⟩,
          fun both => congrArg some (both.2.trans (by simp)).symm⟩
    | cons line raw ih =>
        rw [List.foldlM_cons, readLine, List.map_cons]
        by_cases empty : popReturn line = []
        · rw [if_pos empty, List.filter_cons_of_neg (by simpa using empty)]
          exact ih before
        · rw [if_neg empty, List.filter_cons_of_pos (by simpa using empty), List.forall_mem_cons]
          cases parsed : parseLine (popReturn line) with
          | none => simp
          | some r =>
              have next := ih (before ++ r.toList)
              cases r with
              | none => simpa [parsed] using next
              | some r => simpa [parsed] using next
  exact loop (getlines reviews) []

/-- Where only lines with few cells are malformed, the loop keeps the well-formed lines. -/
theorem parseRecs_of_wellFormed {reviews : Text} (checked : CheckedLinesWellFormed reviews) :
    parseRecs reviews = some ((lines reviews).filterMap wellFormed) := by
  have each (line : Text) (inside : line ∈ lines reviews) :
      parseLine line = some (wellFormed line) := by
    by_cases few : (cells line).length < 8
    · rw [parseLine_of_few few, wellFormed_of_few few]
    · obtain ⟨r, good⟩ := Option.isSome_iff_exists.mp (checked line inside (Nat.not_lt.mp few))
      rw [good, (parseLine_of_wellFormed good).1]
  refine parseRecs_eq_some_iff.mpr ⟨fun line inside => by rw [each line inside]; rfl, ?_⟩
  refine List.filterMap_congr fun line inside => ?_
  rw [each line inside]
  rfl

/-- The well-formed lines are among those that are kept. -/
theorem isSome_of_wellFormed {line : Text} (good : (wellFormed line).isSome = true) :
    (parseLine line).join.isSome = true := by
  obtain ⟨r, good⟩ := Option.isSome_iff_exists.mp good
  rw [(parseLine_of_wellFormed good).1]
  rfl

/-- A choice of items that is within another one and not smaller is the same choice. -/
theorem isSome_of_length_filterMap_le {α β γ : Type*} {few : α → Option β} {many : α → Option γ}
    (within : ∀ item, (few item).isSome = true → (many item).isSome = true) {items : List α}
    (long : (items.filterMap many).length ≤ (items.filterMap few).length) :
    ∀ item ∈ items, (many item).isSome = true → (few item).isSome = true := by
  have shorter (items : List α) : (items.filterMap few).length ≤ (items.filterMap many).length := by
    rw [List.length_filterMap_eq_countP, List.length_filterMap_eq_countP]
    exact List.countP_mono_left fun item _ => within item
  induction items with
  | nil => exact List.forall_mem_nil _
  | cons first items ih =>
      have rest := shorter items
      rw [List.filterMap_cons, List.filterMap_cons] at long
      cases chosen : few first with
      | some value =>
          obtain ⟨other, also⟩ := Option.isSome_iff_exists.mp (within first (by rw [chosen]; rfl))
          rw [chosen, also] at long
          exact List.forall_mem_cons.mpr
            ⟨fun _ => by rw [chosen]; rfl, ih (Nat.le_of_succ_le_succ long)⟩
      | none =>
          cases also : many first with
          | none =>
              rw [chosen, also] at long
              refine List.forall_mem_cons.mpr ⟨fun kept => ?_, ih long⟩
              rw [also] at kept
              cases kept
          | some other =>
              rw [chosen, also] at long
              exact absurd (long.trans rest) (Nat.not_succ_le_self _)

/-! ## What the reader finds -/

/-- The database file opens with the number of its reviews, in 32 bits. -/
theorem open_databaseFile (recs : List Rec) :
    Database.open (databaseFile recs) = some ⟨some (databaseFile recs), recs.length % 2 ^ 32⟩ := by
  have number : recs.length % 2 ^ 32 < 2 ^ 32 := Nat.mod_lt _ (by decide)
  have header : readLE 4 (databaseFile recs) = some (recs.length % 2 ^ 32) := by
    simp only [databaseFile, List.append_assoc]
    exact readLE_append (by simpa using number) _
  have nonempty : databaseFile recs ≠ [] := by
    intro empty
    rw [empty] at header
    cases header
  rw [Database.open, if_neg nonempty, header]
  rfl

/-- `getReview` refuses just the indexes from the number of reviews on. -/
theorem getReview_eq_none_iff (base : List UInt8) {numReviews index : ℕ} :
    getReview ⟨some base, numReviews⟩ index = some none ↔ numReviews ≤ index := by
  constructor
  · intro refused
    by_contra known
    simp only [getReview, if_neg known, Option.bind_eq_bind, Option.bind_eq_some_iff] at refused
    obtain ⟨_, _, _, _, _, _, _, _, _, _, _, _, _, _, _, _, _, _, found⟩ := refused
    cases found
  · intro beyond
    simp only [getReview, if_pos beyond]

/-- A list that agrees with `getReview` is as long as the number of reviews says, if it is an index
at all. -/
theorem length_le_iff_of_reads {recs wanted : List Rec} {database : Database}
    (opened : Database.open (databaseFile recs) = some database)
    (reads : ∀ index < 2 ^ 32, getReview database index =
      some (wanted[index]?.map fun r => r.review index)) (index : ℕ) (range : index < 2 ^ 32) :
    recs.length % 2 ^ 32 ≤ index ↔ wanted.length ≤ index := by
  rw [open_databaseFile] at opened
  have read := reads index range
  rw [← Option.some.inj opened] at read
  rw [← getReview_eq_none_iff (databaseFile recs), read, Option.some_inj,
    Option.map_eq_none_iff, List.getElem?_eq_none_iff]

/-- The 32-bit fields of the format hold the number of reviews and their offsets. -/
def FitsFormat (recs : List Rec) : Prop :=
  recs.length < 2 ^ 32 ∧ (databaseFile recs).length < 2 ^ 32

/-- With fewer than `2 ^ 32` reviews the check of the cells has to find every malformed line. -/
theorem checked_of_keepsWellFormed {reviews : Text} (few : (accepted reviews).length < 2 ^ 32)
    (keeps : KeepsWellFormed reviews) : CheckedLinesWellFormed reviews := by
  obtain ⟨db, index, written, database, opened, reads⟩ := keeps
  obtain ⟨recs, parsed, files⟩ := Option.map_eq_some_iff.mp written
  obtain ⟨rfl, -⟩ := Prod.mk.inj files
  obtain ⟨returns, rfl⟩ := parseRecs_eq_some_iff.mp parsed
  let wanted := (lines reviews).filterMap wellFormed
  have sizes := length_le_iff_of_reads opened reads
  rw [Nat.mod_eq_of_lt few] at sizes
  have shorter : wanted.length ≤ (accepted reviews).length :=
    (sizes _ few).mp (Nat.le_refl _)
  have longer : (accepted reviews).length ≤ wanted.length :=
    (sizes _ (shorter.trans_lt few)).mpr (Nat.le_refl _)
  have kept := isSome_of_length_filterMap_le (fun _ => isSome_of_wellFormed) longer
  intro line inside eight
  refine kept line inside ?_
  -- a line with eight cells is not skipped, and it does not end the program
  obtain ⟨result, parsed⟩ := Option.isSome_iff_exists.mp (returns line inside)
  cases result with
  | none => exact absurd parsed (parseLine_ne_skipped eight)
  | some r => rw [parsed]; rfl

/-- With only well-formed lines past the check the file is right where the format has room. -/
theorem keepsWellFormed_of_checked {reviews : Text} (fits : FitsFormat (accepted reviews))
    (checked : CheckedLinesWellFormed reviews) : KeepsWellFormed reviews := by
  have parsed := parseRecs_of_wellFormed checked
  have kept := (parseRecs_eq_some_iff.mp parsed).2
  rw [← kept] at fits
  have storable : ∀ r ∈ (lines reviews).filterMap wellFormed, r.Storable := by
    intro r inside
    obtain ⟨line, _, good⟩ := List.mem_filterMap.mp inside
    exact (parseLine_of_wellFormed good).2
  obtain ⟨database, opened, reads⟩ := database_round_trip fits.1 storable fits.2
  exact ⟨_, _, congrArg _ parsed, database, opened, reads⟩

/-- With `2 ^ 32` well-formed lines or more the number of reviews wraps around. -/
theorem not_keepsWellFormed_of_many {reviews : Text} (many : 2 ^ 32 ≤ (accepted reviews).length)
    (checked : CheckedLinesWellFormed reviews) : ¬ KeepsWellFormed reviews := by
  rintro ⟨db, index, written, database, opened, reads⟩
  have parsed := parseRecs_of_wellFormed checked
  have kept := (parseRecs_eq_some_iff.mp parsed).2
  rw [mkamazondb, parsed, Option.map_some, Option.some.injEq, Prod.mk.injEq] at written
  obtain ⟨rfl, -⟩ := written
  rw [← kept] at many
  have wraps : ((lines reviews).filterMap wellFormed).length % 2 ^ 32 < 2 ^ 32 :=
    Nat.mod_lt _ (by decide)
  have short := (length_le_iff_of_reads opened reads _ wraps).mp (Nat.le_refl _)
  omega

/-- The builder keeps just the well-formed lines if and only if every line with eight cells or more
is well-formed, as long as the format has room for the reviews; with fewer than `2 ^ 32` reviews the
lines have to be so in any case, and with more the builder fails on well-formed lines too. -/
theorem keepsWellFormed_iff (reviews : Text) :
    (FitsFormat (accepted reviews) → (KeepsWellFormed reviews ↔ CheckedLinesWellFormed reviews)) ∧
      ((accepted reviews).length < 2 ^ 32 → KeepsWellFormed reviews →
        CheckedLinesWellFormed reviews) ∧
      (2 ^ 32 ≤ (accepted reviews).length → CheckedLinesWellFormed reviews →
        ¬ KeepsWellFormed reviews) :=
  ⟨fun fits => ⟨checked_of_keepsWellFormed fits.1, keepsWellFormed_of_checked fits⟩,
    checked_of_keepsWellFormed, not_keepsWellFormed_of_many⟩

/-- A rating that is no number, after a well-formed line. -/
def unratedReviews : Text :=
  ascii "Pan\tKitchen\t5\tGood\tWorks\t2020\t12\t31\n" ++
    ascii "Pot\tKitchen\tfive\tFine\tOk\t2020\t1\t2\n"

theorem unratedReviews_end_program :
    mkamazondb unratedReviews = none ∧ ¬ KeepsWellFormed unratedReviews := by
  have throws : mkamazondb unratedReviews = none := by decide +kernel
  refine ⟨throws, ?_⟩
  rintro ⟨db, index, written, _⟩
  rw [throws] at written
  cases written

end Amazon
end Syscore
