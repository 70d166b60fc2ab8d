import Mathlib.Data.List.Basic

/-!
# Strings in memory

The C string functions on the bytes from a pointer to the end of the mapped region. A read past the
end fails.
-/

namespace Syscore

/-- `strlen`: the number of bytes before the first NUL. -/
def strlen : List UInt8 → Option ℕ
  | [] => none
  | byte :: rest => if byte = 0 then some 0 else (strlen rest).map (· + 1)

/-- `strcmp` of the bytes at a pointer with a string object's `c_str()`. -/
def strcmp : List UInt8 → List UInt8 → Option Ordering
  | [], _ => none
  | byte :: _, [] => some (compare byte 0)
  | byte :: rest, char :: word =>
      if byte = char then
        if char = 0 then some .eq else strcmp rest word
      else
        some (compare byte char)

/-- `strncmp`: at most `n` bytes are compared. -/
def strncmp : ℕ → List UInt8 → List UInt8 → Option Ordering
  | 0, _, _ => some .eq
  | n + 1, byte :: rest, char :: word =>
      if byte = char then
        if char = 0 then some .eq else strncmp n rest word
      else
        some (compare byte char)
  | _ + 1, _, _ => none

/-- The C string at a pointer. -/
def cString (bytes : List UInt8) : Option (List UInt8) := (strlen bytes).map bytes.take

theorem strlen_append {word rest : List UInt8} (nulFree : 0 ∉ word) :
    strlen (word ++ 0 :: rest) = some word.length := by
  induction word with
  | nil => rfl
  | cons char word ih =>
      obtain ⟨nonzero, nulFree⟩ := not_or.mp (mt List.mem_cons.mpr nulFree)
      rw [List.cons_append, strlen, if_neg (Ne.symm nonzero), ih nulFree]
      rfl

theorem cString_append {word rest : List UInt8} (nulFree : 0 ∉ word) :
    cString (word ++ 0 :: rest) = some word := by
  rw [cString, strlen_append nulFree, Option.map_some, List.take_left]

theorem compare_zero_left {char : UInt8} (nonzero : ¬ 0 = char) : compare 0 char = .lt := by
  have positive : 0 < char := UInt8.pos_iff_ne_zero.mpr (Ne.symm nonzero)
  exact compareOfLessAndEq_eq_lt.mpr positive

theorem compare_zero_right {char : UInt8} (nonzero : ¬ 0 = char) : compare char 0 = .gt := by
  have swap : compare char 0 = (compare 0 char).swap := Std.OrientedCmp.eq_swap
  rw [swap, compare_zero_left nonzero]
  rfl

/-- On strings without NUL, `strcmp` is the lexicographic order of bytes. -/
theorem strcmp_append {left right rest : List UInt8} (nulFree : 0 ∉ left) (nulFree' : 0 ∉ right) :
    strcmp (left ++ 0 :: rest) right = some (compare left right) := by
  induction left generalizing right with
  | nil =>
      cases right with
      | nil => rfl
      | cons char right =>
          obtain ⟨nonzero, _⟩ := not_or.mp (mt List.mem_cons.mpr nulFree')
          rw [List.nil_append, strcmp, if_neg nonzero, compare_zero_left nonzero]
          rfl
  | cons char left ih =>
      obtain ⟨nonzero, nulFree⟩ := not_or.mp (mt List.mem_cons.mpr nulFree)
      cases right with
      | nil =>
          rw [List.cons_append, strcmp, compare_zero_right nonzero]
          rfl
      | cons char' right =>
          obtain ⟨_, tailFree⟩ := not_or.mp (mt List.mem_cons.mpr nulFree')
          rw [List.cons_append, strcmp, List.compare_cons_cons]
          by_cases same : char = char'
          · subst same
            have equal : compare char char = .eq := Std.ReflCmp.compare_self
            rw [if_pos rfl, if_neg (Ne.symm nonzero), ih nulFree tailFree, equal]
            rfl
          · rw [if_neg same]
            cases order : compare char char' with
            | eq => exact absurd (Std.LawfulEqCmp.eq_of_compare order) same
            | lt => rfl
            | gt => rfl

theorem compare_ne_eq {left right : UInt8} (apart : left ≠ right) :
    some (compare left right) ≠ some .eq :=
  fun equal => apart (Std.LawfulEqCmp.eq_of_compare (Option.some.inj equal))

/-- A field of `n` bytes that may lack its terminator, against a C string. -/
theorem strncmp_field {n : ℕ} {field word : List UInt8} (length : field.length = n)
    (nulFree : 0 ∉ word) :
    strncmp n field (word ++ [0]) = some .eq ↔ field.takeWhile (· ≠ 0) = word.take n := by
  induction n generalizing field word with
  | zero =>
      rw [List.length_eq_zero_iff.mp length]
      exact iff_of_true rfl rfl
  | succ n ih =>
      obtain ⟨byte, field, rfl⟩ := List.exists_cons_of_length_eq_add_one length
      rw [List.takeWhile_cons]
      cases word with
      | nil =>
          rw [List.nil_append, strncmp, List.take_nil]
          by_cases ends : byte = 0
          · rw [if_pos ends, if_pos rfl, if_neg (by simpa using ends)]
            exact iff_of_true rfl rfl
          · rw [if_neg ends, if_pos (by simpa using ends)]
            exact iff_of_false (compare_ne_eq ends) (List.cons_ne_nil _ _)
      | cons char word =>
          obtain ⟨nonzero, tailFree⟩ := not_or.mp (mt List.mem_cons.mpr nulFree)
          rw [List.cons_append, strncmp, List.take_succ_cons]
          by_cases same : byte = char
          · subst same
            rw [if_pos rfl, if_neg (Ne.symm nonzero), if_pos (by simpa using Ne.symm nonzero),
              ih (Nat.succ.inj length) tailFree]
            exact (List.cons_inj_right byte).symm
          · rw [if_neg same]
            refine iff_of_false (compare_ne_eq same) fun equal => ?_
            split at equal
            · exact same (List.cons.inj equal).1
            · exact List.cons_ne_nil _ _ equal.symm

/-- A name padded with NULs to its `n` bytes, as `strncpy` leaves it, against a C string that is no
longer. -/
theorem strncmp_padded {n : ℕ} {name word : List UInt8} (nulFree : 0 ∉ name) (nulFree' : 0 ∉ word)
    (short : name.length ≤ n) (short' : word.length ≤ n) :
    strncmp n (name ++ List.replicate (n - name.length) 0) (word ++ [0]) = some .eq ↔
      name = word := by
  induction n generalizing name word with
  | zero =>
      rw [List.length_eq_zero_iff.mp (Nat.le_zero.mp short),
        List.length_eq_zero_iff.mp (Nat.le_zero.mp short'), strncmp]
      exact iff_of_true rfl rfl
  | succ n ih =>
      cases name with
      | nil =>
          cases word with
          | nil => exact iff_of_true rfl rfl
          | cons char word =>
              obtain ⟨nonzero, _⟩ := not_or.mp (mt List.mem_cons.mpr nulFree')
              have padded : [] ++ List.replicate (n + 1 - 0) (0 : UInt8) =
                  0 :: List.replicate n 0 := rfl
              rw [List.length_nil, padded, List.cons_append, strncmp, if_neg nonzero]
              exact iff_of_false (compare_ne_eq nonzero) (List.cons_ne_nil _ _).symm
      | cons byte name =>
          obtain ⟨nonzero, nulFree⟩ := not_or.mp (mt List.mem_cons.mpr nulFree)
          cases word with
          | nil =>
              rw [List.cons_append, List.nil_append, strncmp, if_neg (Ne.symm nonzero)]
              exact iff_of_false (compare_ne_eq (Ne.symm nonzero)) (List.cons_ne_nil _ _)
          | cons char word =>
              obtain ⟨_, tailFree⟩ := not_or.mp (mt List.mem_cons.mpr nulFree')
              rw [List.length_cons] at short short'
              rw [List.cons_append, List.cons_append, strncmp, List.length_cons,
                Nat.add_sub_add_right]
              by_cases same : byte = char
              · subst same
                rw [if_pos rfl, if_neg (Ne.symm nonzero),
                  ih nulFree tailFree (by omega) (by omega)]
                exact (List.cons_inj_right byte).symm
              · rw [if_neg same]
                exact iff_of_false (compare_ne_eq same) fun equal => same (List.cons.inj equal).1

end Syscore
