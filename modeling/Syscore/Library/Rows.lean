import Mathlib.Data.List.Basic

/-!
# Rows one after the other

The entry at an index of a list that is made of rows of one width.
-/

namespace Syscore

variable {α β : Type*} {row : α → List β} {width : ℕ}

theorem length_flatMap_rows {rows : List α} (even : ∀ item ∈ rows, (row item).length = width) :
    (rows.flatMap row).length = rows.length * width := by
  induction rows with
  | nil => rw [List.flatMap_nil, List.length_nil, List.length_nil, Nat.zero_mul]
  | cons item rows ih =>
      have rest := ih fun other inside => even other (List.mem_cons_of_mem item inside)
      rw [List.flatMap_cons, List.length_append, even item List.mem_cons_self, rest,
        List.length_cons, Nat.succ_mul, Nat.add_comm]

/-- The quotient is the row and the remainder the place within it. -/
theorem getElem?_flatMap_rows (positive : 0 < width) {rows : List α}
    (even : ∀ item ∈ rows, (row item).length = width) (index : ℕ) :
    (rows.flatMap row)[index]? =
      rows[index / width]?.bind fun item => (row item)[index % width]? := by
  induction rows generalizing index with
  | nil => rfl
  | cons item rows ih =>
      have head := even item List.mem_cons_self
      rw [List.flatMap_cons]
      by_cases first : index < width
      · rw [List.getElem?_append_left (head.symm ▸ first), Nat.div_eq_of_lt first,
          Nat.mod_eq_of_lt first]
        rfl
      · have later : width ≤ index := Nat.le_of_not_lt first
        rw [List.getElem?_append_right (head.symm ▸ later), head,
          ih fun other inside => even other (List.mem_cons_of_mem item inside),
          Nat.div_eq_sub_div positive later, List.getElem?_cons_succ, Nat.mod_eq_sub_mod later]

end Syscore
