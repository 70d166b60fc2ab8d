import Mathlib.Data.Nat.Digits.Lemmas
import Mathlib.Tactic.Ring

/-!
# Fixed-width little-endian numbers

`leBytes width value` lays a number out in `width` bytes, least significant byte first, and
`leValue` reads such a layout back.
-/

namespace Syscore

/-- The low `width` bytes of a number, least significant first. -/
def leBytes (width value : ℕ) : List UInt8 :=
  (List.range width).map fun place => UInt8.ofNat (value / 256 ^ place)

/-- The number that a list of bytes stands for, least significant byte first. -/
def leValue (bytes : List UInt8) : ℕ := Nat.ofDigits 256 (bytes.map UInt8.toNat)

@[simp]
theorem length_leBytes (width value : ℕ) : (leBytes width value).length = width := by
  simp [leBytes]

/-- Reading a layout back loses only what lies above the width. -/
theorem leValue_leBytes (width value : ℕ) :
    leValue (leBytes width value) = value % 256 ^ width := by
  induction width with
  | zero => simp [leValue, leBytes, Nat.mod_one]
  | succ width ih =>
      unfold leValue leBytes at ih ⊢
      rw [List.range_succ, List.map_append, List.map_append, Nat.ofDigits_append, ih,
        Nat.mod_pow_succ]
      simp

theorem leValue_leBytes_of_lt {width value : ℕ} (fits : value < 256 ^ width) :
    leValue (leBytes width value) = value := by
  rw [leValue_leBytes, Nat.mod_eq_of_lt fits]

/-- Read a number of `width` bytes; past the end of the bytes this fails. -/
def readLE (width : ℕ) (bytes : List UInt8) : Option ℕ :=
  if bytes.length < width then none else some (leValue (bytes.take width))

theorem readLE_append {width value : ℕ} (fits : value < 256 ^ width) (rest : List UInt8) :
    readLE width (leBytes width value ++ rest) = some value := by
  have enough : ¬ (leBytes width value ++ rest).length < width := by simp
  have prefix_eq : (leBytes width value ++ rest).take width = leBytes width value := by
    rw [List.take_append_of_le_length (length_leBytes width value).ge,
      List.take_of_length_le (length_leBytes width value).le]
  rw [readLE, if_neg enough, prefix_eq, leValue_leBytes_of_lt fits]

/-- The length of a table of records of one width. -/
theorem length_flatMap {α β : Type*} {record : α → List β} {width : ℕ} {table : List α}
    (uniform : ∀ item ∈ table, (record item).length = width) :
    (table.flatMap record).length = width * table.length := by
  rw [List.length_flatMap, List.map_congr_left uniform, List.map_const', List.sum_replicate_nat,
    Nat.mul_comm]

/-- A table of records of one width, from its record number `index` on. -/
theorem drop_flatMap {α β : Type*} {record : α → List β} {width : ℕ} {table : List α}
    (uniform : ∀ item ∈ table, (record item).length = width) (index : ℕ) :
    (table.flatMap record).drop (width * index) = (table.drop index).flatMap record := by
  induction table generalizing index with
  | nil => simp
  | cons head tail ih =>
      cases index with
      | zero => simp
      | succ index =>
          have own := uniform head List.mem_cons_self
          have rest := ih (fun item inside => uniform item (List.mem_cons_of_mem head inside)) index
          rw [List.flatMap_cons, Nat.mul_succ, Nat.add_comm, List.drop_append,
            List.drop_of_length_le (by omega), List.nil_append, own, Nat.add_sub_cancel_left, rest,
            List.drop_succ_cons]

/-- A loop of reads none of which fails. -/
theorem mapM_eq_some {α β : Type*} {f : α → Option β} {g : α → β} {list : List α}
    (each : ∀ item ∈ list, f item = some (g item)) : list.mapM f = some (list.map g) := by
  induction list with
  | nil => rfl
  | cons head tail ih =>
      have rest := ih fun item inside => each item (List.mem_cons_of_mem _ inside)
      simp [each head List.mem_cons_self, rest]

end Syscore
