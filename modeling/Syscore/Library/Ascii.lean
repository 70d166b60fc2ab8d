import Mathlib.Data.List.Infix

/-!
# Characters of the C locale

The classification functions of `<cctype>` on bytes.
-/

namespace Syscore

/-- The contents of a `std::string`. -/
abbrev Text := List UInt8

/-- The one proof that every membership test on texts cites. -/
instance lawfulBEq_text : LawfulBEq Text := inferInstance

/-- The bytes of an ASCII literal. -/
def ascii (literal : String) : Text := literal.toList.map fun char => UInt8.ofNat char.toNat

/-- `find` of a string: the position of its first occurrence. -/
def find (needle : Text) : Text → Option ℕ
  | [] => if needle = [] then some 0 else none
  | char :: rest =>
      if needle <+: char :: rest then some 0 else (find needle rest).map (· + 1)

/-- `isdigit`. -/
def isdigit (char : UInt8) : Bool := 48 ≤ char && char ≤ 57

/-- `isupper`. -/
def isupper (char : UInt8) : Bool := 65 ≤ char && char ≤ 90

/-- `islower`. -/
def islower (char : UInt8) : Bool := 97 ≤ char && char ≤ 122

/-- `isalnum`. -/
def isalnum (char : UInt8) : Bool := isdigit char || isupper char || islower char

/-- `isspace`: the blank and the controls from tab to carriage return. -/
def isspace (char : UInt8) : Bool := char == 32 || (9 ≤ char && char ≤ 13)

/-- `tolower`. -/
def tolower (char : UInt8) : UInt8 := if isupper char then char + 32 else char

/-- The range of the digits. -/
theorem isdigit_iff {char : UInt8} : isdigit char = true ↔ 48 ≤ char.toNat ∧ char.toNat ≤ 57 := by
  rw [isdigit, Bool.and_eq_true, decide_eq_true_iff, decide_eq_true_iff, UInt8.le_iff_toNat_le,
    UInt8.le_iff_toNat_le]
  rfl

/-- The range of the upper-case letters. -/
theorem isupper_iff {char : UInt8} : isupper char = true ↔ 65 ≤ char.toNat ∧ char.toNat ≤ 90 := by
  rw [isupper, Bool.and_eq_true, decide_eq_true_iff, decide_eq_true_iff, UInt8.le_iff_toNat_le,
    UInt8.le_iff_toNat_le]
  rfl

/-- The range of the lower-case letters. -/
theorem islower_iff {char : UInt8} : islower char = true ↔ 97 ≤ char.toNat ∧ char.toNat ≤ 122 := by
  rw [islower, Bool.and_eq_true, decide_eq_true_iff, decide_eq_true_iff, UInt8.le_iff_toNat_le,
    UInt8.le_iff_toNat_le]
  rfl

theorem toNat_tolower_of_upper {char : UInt8} (upper : isupper char = true) :
    (tolower char).toNat = char.toNat + 32 := by
  have range := isupper_iff.mp upper
  rw [tolower, if_pos upper, UInt8.toNat_add]
  change (char.toNat + 32) % 256 = char.toNat + 32
  omega

/-- No alphanumeric character is a control. -/
theorem le_of_isalnum {char : UInt8} (alnum : isalnum char = true) : 48 ≤ char.toNat := by
  rw [isalnum, Bool.or_eq_true, Bool.or_eq_true, isdigit_iff, isupper_iff, islower_iff] at alnum
  omega

theorem isalnum_of_isspace {char : UInt8} (space : isspace char = true) : isalnum char = false := by
  rw [Bool.eq_false_iff]
  intro alnum
  have low := le_of_isalnum alnum
  rw [isspace, Bool.or_eq_true, beq_iff_eq, Bool.and_eq_true, decide_eq_true_iff,
    decide_eq_true_iff, UInt8.le_iff_toNat_le, UInt8.le_iff_toNat_le] at space
  rcases space with blank | ⟨_, control⟩
  · rw [blank] at low
    exact absurd low (by decide)
  · exact absurd (low.trans control) (by decide)

/-- An alphanumeric character stays one in lower case. -/
theorem isalnum_tolower {char : UInt8} (alnum : isalnum char = true) :
    isalnum (tolower char) = true := by
  cases upper : isupper char with
  | false =>
      rw [tolower, if_neg (by rw [upper]; exact Bool.false_ne_true)]
      exact alnum
  | true =>
      have range := isupper_iff.mp upper
      have lower : islower (tolower char) = true := by
        rw [islower_iff, toNat_tolower_of_upper upper]
        omega
      rw [isalnum, lower, Bool.or_true]

/-- No character is upper-case in lower case. -/
theorem isupper_tolower (char : UInt8) : isupper (tolower char) = false := by
  cases upper : isupper char with
  | false =>
      rw [tolower, if_neg (by rw [upper]; exact Bool.false_ne_true)]
      exact upper
  | true =>
      have range := isupper_iff.mp upper
      rw [Bool.eq_false_iff, ne_eq, isupper_iff, toNat_tolower_of_upper upper]
      omega

/-- An alphanumeric character is no control, also in lower case. -/
theorem le_tolower {char : UInt8} (alnum : isalnum char = true) : 48 ≤ (tolower char).toNat :=
  le_of_isalnum (isalnum_tolower alnum)

/-- Where `find` succeeds the needle stands. -/
theorem isPrefix_of_find {needle text : Text} {position : ℕ}
    (found : find needle text = some position) : needle <+: text.drop position := by
  induction text generalizing position with
  | nil =>
      rw [find] at found
      split at found
      · rename_i empty
        rw [empty]
        exact List.nil_prefix
      · cases found
  | cons char rest ih =>
      rw [find] at found
      split at found
      · rename_i here
        rw [← Option.some.inj found]
        exact here
      · obtain ⟨earlier, before, rfl⟩ := Option.map_eq_some_iff.mp found
        exact ih before

/-- `find` fails just when the needle stands nowhere. -/
theorem find_eq_none_iff {needle text : Text} : find needle text = none ↔ ¬ needle <:+: text := by
  induction text with
  | nil =>
      rw [find, List.infix_nil]
      by_cases empty : needle = [] <;> simp [empty]
  | cons char rest ih =>
      rw [find, List.infix_cons_iff, not_or, ← ih]
      by_cases here : needle <+: char :: rest <;> simp [here]

end Syscore
