import Mathlib.Algebra.Group.Int.Defs
import Mathlib.Algebra.Group.Nat.Defs
import Mathlib.Data.Int.Basic
import Mathlib.Data.List.TakeWhile
import Syscore.Library.Ascii

/-!
# Decimal numbers in text

How the C and C++ libraries print an integer and read one back.
-/

namespace Syscore

/-- The character of a digit. -/
def digitChar (digit : ℕ) : UInt8 := UInt8.ofNat (48 + digit)

/-- The decimal digits of a natural number. -/
def decimal (value : ℕ) : Text :=
  if value < 10 then [digitChar value] else decimal (value / 10) ++ [digitChar (value % 10)]

/-- The decimal text of an integer: `to_string`, or `<<` of an `int`. -/
def decimalInt (value : ℤ) : Text :=
  if value < 0 then 45 :: decimal value.natAbs else decimal value.natAbs

/-- The number that a string of digits stands for. -/
def digitsValue (digits : Text) : ℕ :=
  digits.foldl (fun value char => 10 * value + (char.toNat - 48)) 0

/-- A text of digits, at least one. -/
def isNumber (text : Text) : Bool := !text.isEmpty && text.all isdigit

/-- An optional sign: whether it is a minus, and what follows. -/
def splitSign : Text → Bool × Text
  | 43 :: rest => (false, rest)
  | 45 :: rest => (true, rest)
  | rest => (false, rest)

/-- An optional sign and the longest run of digits: the digits, the number they stand for and the
rest of the text. -/
def splitInt (text : Text) : Text × ℤ × Text :=
  let (negative, body) := splitSign text
  let digits := body.takeWhile isdigit
  let value : ℤ := digitsValue digits
  (digits, if negative then -value else value, body.dropWhile isdigit)

/-- `strtoul(text, nullptr, 10)`: a NUL ends the digits like any other character. -/
def strtoul (text : Text) : ℕ :=
  let (_, value, _) := splitInt (text.dropWhile isspace)
  if value.natAbs < 2 ^ 64 then (value % 2 ^ 64).toNat else 2 ^ 64 - 1

/-- `atoi(text)`: `strtol` clamps to a `long`, which the cast to `int` truncates. -/
def atoi (text : Text) : ℤ :=
  let (_, value, _) := splitInt (text.dropWhile isspace)
  (max (-2 ^ 63) (min (2 ^ 63 - 1) value)).bmod (2 ^ 32)

/-- The number that is written at the front of a text, behind white space and with its sign: zero
where there is none. -/
def writtenInt (text : Text) : ℤ := (splitInt (text.dropWhile isspace)).2.1

/-- A `long` that the cast to `int` turns into this positive number. -/
def TruncatesTo (number value : ℤ) : Prop :=
  (-2 ^ 63 ≤ number ∧ number < 2 ^ 63) ∧ (0 < value ∧ value < 2 ^ 31) ∧
    (number - value) % 2 ^ 32 = 0

/-! ## Printing and reading back -/

theorem toNat_digitChar {digit : ℕ} (small : digit < 10) :
    (digitChar digit).toNat = 48 + digit := by
  rw [digitChar, UInt8.toNat_ofNat']
  exact Nat.mod_eq_of_lt (by change 48 + digit < 256; omega)

theorem isdigit_digitChar {digit : ℕ} (small : digit < 10) : isdigit (digitChar digit) = true := by
  rw [isdigit_iff, toNat_digitChar small]
  omega

theorem digitsValue_append (digits : Text) (char : UInt8) :
    digitsValue (digits ++ [char]) = 10 * digitsValue digits + (char.toNat - 48) := by
  simp [digitsValue]

/-- The printed digits are digits, at least one, and stand for the number. -/
theorem decimal_spec (value : ℕ) :
    (∀ char ∈ decimal value, isdigit char = true) ∧ decimal value ≠ [] ∧
      digitsValue (decimal value) = value := by
  induction value using Nat.strongRecOn with
  | ind value ih =>
      rw [decimal]
      by_cases small : value < 10
      · rw [if_pos small]
        refine ⟨fun char inside => ?_, List.cons_ne_nil _ _, ?_⟩
        · rw [List.mem_singleton.mp inside]
          exact isdigit_digitChar small
        · simp [digitsValue, toNat_digitChar small]
      · rw [if_neg small]
        obtain ⟨digits, _, number⟩ := ih (value / 10) (by omega)
        have last : value % 10 < 10 := Nat.mod_lt value (by decide)
        refine ⟨fun char inside => ?_, by simp, ?_⟩
        · rcases List.mem_append.mp inside with before | here
          · exact digits char before
          · rw [List.mem_singleton.mp here]
            exact isdigit_digitChar last
        · rw [digitsValue_append, number, toNat_digitChar last]
          omega

/-- Different numbers are printed differently. -/
theorem decimal_injective {left right : ℕ} (same : decimal left = decimal right) :
    left = right := by
  rw [← (decimal_spec left).2.2, same, (decimal_spec right).2.2]

/-- A number below a power of ten has no more digits than that. -/
theorem length_decimal_le {value k : ℕ} (small : value < 10 ^ (k + 1)) :
    (decimal value).length ≤ k + 1 := by
  induction k generalizing value with
  | zero =>
      have single : value < 10 := by simpa using small
      rw [decimal, if_pos single]
      rfl
  | succ k ih =>
      rw [decimal]
      split
      · exact Nat.succ_le_succ (Nat.zero_le _)
      · rw [List.length_append, List.length_singleton]
        refine Nat.succ_le_succ (ih ?_)
        rw [Nat.div_lt_iff_lt_mul (by decide)]
        exact small

/-- The digits of a power of ten are those of the one before and a zero. -/
theorem decimal_pow (k : ℕ) :
    decimal (10 ^ (k + 1)) = decimal (10 ^ k) ++ [48] ∧ (decimal (10 ^ k)).length = k + 1 := by
  have longer (k : ℕ) : decimal (10 ^ (k + 1)) = decimal (10 ^ k) ++ [48] := by
    have large : ¬ 10 ^ (k + 1) < 10 := by
      have := Nat.one_le_pow k 10 (by decide)
      rw [Nat.pow_succ]
      omega
    rw [decimal, if_neg large, Nat.pow_succ, Nat.mul_div_cancel _ (by decide), Nat.mul_mod_left]
    rfl
  refine ⟨longer k, ?_⟩
  induction k with
  | zero => rw [Nat.pow_zero, decimal, if_pos (by decide)]; rfl
  | succ k ih => rw [longer k, List.length_append, ih]; rfl

theorem isspace_digit {char : UInt8} (digit : isdigit char = true) : isspace char = false := by
  obtain ⟨lower, _⟩ := isdigit_iff.mp digit
  by_contra space
  rw [Bool.not_eq_false, isspace, Bool.or_eq_true, beq_iff_eq, Bool.and_eq_true, decide_eq_true_eq,
    decide_eq_true_eq, UInt8.le_iff_toNat_le, UInt8.le_iff_toNat_le] at space
  rcases space with rfl | ⟨_, upper⟩
  · exact absurd lower (by decide)
  · have upper : char.toNat ≤ 13 := upper
    omega

/-- A printed integer begins with a character that is no white space. -/
theorem decimalInt_head (value : ℤ) :
    ∃ first others, decimalInt value = first :: others ∧ isspace first = false := by
  obtain ⟨digits, nonempty, _⟩ := decimal_spec value.natAbs
  rw [decimalInt]
  split
  · exact ⟨45, decimal value.natAbs, rfl, rfl⟩
  · obtain ⟨first, others, shape⟩ := List.exists_cons_of_ne_nil nonempty
    exact ⟨first, others, shape,
      isspace_digit (digits first (by rw [shape]; exact List.mem_cons_self))⟩

theorem takeWhile_append_stop {α : Type*} {keep : α → Bool} {kept : List α}
    (all : ∀ item ∈ kept, keep item = true) {stop : α} (stops : keep stop = false) (rest : List α) :
    (kept ++ stop :: rest).takeWhile keep = kept ∧
      (kept ++ stop :: rest).dropWhile keep = stop :: rest := by
  rw [List.takeWhile_append_of_pos all, List.dropWhile_append_of_pos all]
  simp [stops]

theorem splitSign_digit {first : UInt8} (digit : isdigit first = true) (rest : Text) :
    splitSign (first :: rest) = (false, first :: rest) := by
  have plus : first ≠ 43 := by
    rintro rfl
    exact absurd digit (by decide)
  have minus : first ≠ 45 := by
    rintro rfl
    exact absurd digit (by decide)
  simp [splitSign, plus, minus]

/-- Digits in front of a text that does not begin with one. -/
theorem digits_append {digits rest : Text} (all : ∀ char ∈ digits, isdigit char = true)
    (stops : ∀ char ∈ rest.head?, isdigit char = false) :
    (digits ++ rest).takeWhile isdigit = digits ∧ (digits ++ rest).dropWhile isdigit = rest := by
  cases rest with
  | nil =>
      rw [List.append_nil, List.takeWhile_eq_self_iff, List.dropWhile_eq_nil_iff]
      exact ⟨all, all⟩
  | cons stop others => exact takeWhile_append_stop all (stops stop rfl) others

/-- Reading back a printed integer, in front of a text that does not begin with a digit. -/
theorem splitInt_decimalInt_append (value : ℤ) {rest : Text}
    (stops : ∀ char ∈ rest.head?, isdigit char = false) :
    splitInt (decimalInt value ++ rest) = (decimal value.natAbs, value, rest) := by
  obtain ⟨digits, nonempty, number⟩ := decimal_spec value.natAbs
  obtain ⟨taken, dropped⟩ := digits_append digits stops
  by_cases negative : value < 0
  · have sign : splitSign (decimalInt value ++ rest) = (true, decimal value.natAbs ++ rest) := by
      rw [decimalInt, if_pos negative]
      rfl
    simp only [splitInt, sign, taken, dropped, number]
    have back : -(value.natAbs : ℤ) = value := by omega
    rw [if_pos trivial, back]
  · have sign : splitSign (decimalInt value ++ rest) = (false, decimal value.natAbs ++ rest) := by
      rw [decimalInt, if_neg negative]
      cases shape : decimal value.natAbs with
      | nil => exact absurd shape nonempty
      | cons first others =>
          exact splitSign_digit (digits first (by rw [shape]; exact List.mem_cons_self)) _
    simp only [splitInt, sign, taken, dropped, number]
    have back : (value.natAbs : ℤ) = value := by omega
    rw [back]
    rfl

/-- Reading back a printed integer, before a character that is no digit. -/
theorem splitInt_decimalInt (value : ℤ) {stop : UInt8} (stops : isdigit stop = false)
    (rest : Text) :
    splitInt (decimalInt value ++ stop :: rest) =
      (decimal value.natAbs, value, stop :: rest) :=
  splitInt_decimalInt_append value (by simpa using stops)

/-! ## Reading a number -/

theorem isNumber_iff {text : Text} :
    isNumber text = true ↔ text ≠ [] ∧ ∀ char ∈ text, isdigit char = true := by
  rw [isNumber, Bool.and_eq_true, Bool.not_eq_true', List.all_eq_true, List.isEmpty_eq_false_iff]

/-- Digits in front of a character that is no digit are read as one number. -/
theorem splitInt_digits {digits rest : Text} (number : isNumber digits = true)
    (stops : ∀ char ∈ rest.head?, isdigit char = false) :
    splitInt ((digits ++ rest).dropWhile isspace) = (digits, (digitsValue digits : ℤ), rest) := by
  obtain ⟨nonempty, all⟩ := isNumber_iff.mp number
  have taken := digits_append all stops
  obtain ⟨first, others, rfl⟩ := List.exists_cons_of_ne_nil nonempty
  have digit := all first List.mem_cons_self
  rw [List.cons_append] at taken ⊢
  rw [List.dropWhile_cons_of_neg (by simp [isspace_digit digit])]
  simp only [splitInt, splitSign_digit digit, taken.1, taken.2]
  rfl

/-- `atoi` of digits clamps the number to a `long` and truncates it to an `int`. -/
theorem atoi_digits {digits rest : Text} (number : isNumber digits = true)
    (stops : ∀ char ∈ rest.head?, isdigit char = false) :
    atoi (digits ++ rest) = (min (2 ^ 63 - 1) (digitsValue digits : ℤ)).bmod (2 ^ 32) := by
  have low : max (-2 ^ 63) (min (2 ^ 63 - 1) (digitsValue digits : ℤ)) =
      min (2 ^ 63 - 1) (digitsValue digits : ℤ) := by omega
  simp only [atoi, splitInt_digits number stops, low]

/-- When `atoi` reads a positive number. -/
theorem atoi_eq_iff {text : Text} {value : ℤ} (positive : 0 < value) :
    atoi text = value ↔ TruncatesTo (writtenInt text) value := by
  have read : atoi text = (max (-2 ^ 63) (min (2 ^ 63 - 1) (writtenInt text))).bmod (2 ^ 32) := rfl
  rw [read, TruncatesTo, Int.bmod_def]
  omega

/-- The written number of digits in front of a character that is no digit. -/
theorem writtenInt_digits {digits rest : Text} (number : isNumber digits = true)
    (stops : ∀ char ∈ rest.head?, isdigit char = false) :
    writtenInt (digits ++ rest) = digitsValue digits := by
  rw [writtenInt, splitInt_digits number stops]

/-- A number in the range of `unsigned long` is read as it is written. -/
theorem strtoul_digits {digits rest : Text} (number : isNumber digits = true)
    (stops : ∀ char ∈ rest.head?, isdigit char = false) (small : digitsValue digits < 2 ^ 64) :
    strtoul (digits ++ rest) = digitsValue digits := by
  simp only [strtoul, splitInt_digits number stops, Int.natAbs_natCast, small, if_true]
  omega

end Syscore
