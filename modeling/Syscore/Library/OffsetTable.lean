import Syscore.Library.Bytes

/-!
# Files with an offset table

A file that begins with the number of its entries and a table of their offsets. The layout of an
entry may depend on the offset at which it begins.
-/

namespace Syscore

variable {α : Type*} (entryAt : ℕ → α → List UInt8)

/-- The entries from offset `cur` on: their offsets, in 32 bits, and their bytes. -/
def layoutFrom (cur : ℕ) : List α → List ℕ × List UInt8
  | [] => ([], [])
  | item :: items =>
      let e := entryAt cur item
      let (offsets, blob) := layoutFrom (cur + e.length) items
      (cur % 2 ^ 32 :: offsets, e ++ blob)

/-- The number of entries, the table and the entries. -/
def tableFile (items : List α) : List UInt8 :=
  let (offsets, blob) := layoutFrom entryAt (4 + 4 * items.length) items
  leBytes 4 items.length ++ offsets.flatMap (leBytes 4) ++ blob

variable {entryAt}

/-- Entry number `index` lies where its offset says. -/
theorem layoutFrom_at (cur : ℕ) {items : List α} {index : ℕ} {item : α}
    (at_index : items[index]? = some item) :
    ∃ before after,
      (layoutFrom entryAt cur items).2 =
        before ++ entryAt (cur + before.length) item ++ after ∧
      (layoutFrom entryAt cur items).1[index]? = some ((cur + before.length) % 2 ^ 32) := by
  induction items generalizing cur index with
  | nil => simp at at_index
  | cons first items ih =>
      cases index with
      | zero =>
          obtain rfl : first = item := by simpa using at_index
          exact ⟨[], (layoutFrom entryAt (cur + (entryAt cur first).length) items).2, rfl, rfl⟩
      | succ index =>
          obtain ⟨before, after, blob, offset⟩ :=
            ih (cur + (entryAt cur first).length) (by simpa using at_index)
          refine ⟨entryAt cur first ++ before, after, ?_, ?_⟩
          · rw [layoutFrom, List.length_append, ← Nat.add_assoc]
            simp only [blob, List.append_assoc]
          · rw [layoutFrom, List.length_append, ← Nat.add_assoc]
            simpa using offset

theorem length_layoutFrom (cur : ℕ) (items : List α) :
    (layoutFrom entryAt cur items).1.length = items.length := by
  induction items generalizing cur with
  | nil => rfl
  | cons first items ih => simp [layoutFrom, ih]

theorem length_tableFile (items : List α) :
    (tableFile entryAt items).length =
      4 + 4 * items.length + (layoutFrom entryAt (4 + 4 * items.length) items).2.length := by
  have table (offsets : List ℕ) : (offsets.flatMap (leBytes 4)).length = 4 * offsets.length :=
    length_flatMap fun _ _ => length_leBytes 4 _
  simp only [tableFile, List.length_append, length_leBytes, table, length_layoutFrom]

/-- The number of entries reads back. -/
theorem readLE_tableFile {items : List α} (small : (tableFile entryAt items).length < 2 ^ 32) :
    readLE 4 (tableFile entryAt items) = some items.length := by
  rw [length_tableFile] at small
  simp only [tableFile, List.append_assoc]
  exact readLE_append (show items.length < 4294967296 by omega) _

/-- Table entry number `index` leads to entry number `index`. -/
theorem tableFile_entry {items : List α} (small : (tableFile entryAt items).length < 2 ^ 32)
    {index : ℕ} {item : α} (at_index : items[index]? = some item) :
    ∃ off after, readLE 4 ((tableFile entryAt items).drop (4 + 4 * index)) = some off ∧
      (tableFile entryAt items).drop off = entryAt off item ++ after := by
  rw [length_tableFile] at small
  obtain ⟨before, after, blob, offset⟩ :=
    layoutFrom_at (4 + 4 * items.length) at_index
  have count := @length_layoutFrom _ entryAt (4 + 4 * items.length) items
  have file : tableFile entryAt items = leBytes 4 items.length ++
      ((layoutFrom entryAt (4 + 4 * items.length) items).1.flatMap (leBytes 4) ++
        (before ++ entryAt (4 + 4 * items.length + before.length) item ++ after)) := by
    rw [← blob]
    simp only [tableFile, List.append_assoc]
  have header : ((layoutFrom entryAt (4 + 4 * items.length) items).1.flatMap
      (leBytes 4)).length = 4 * items.length := by
    rw [length_flatMap fun _ _ => length_leBytes 4 _, count]
  have inside : 4 + 4 * items.length + before.length < 2 ^ 32 := by
    rw [blob] at small
    simp only [List.length_append] at small
    omega
  rw [Nat.mod_eq_of_lt inside] at offset
  obtain ⟨bound, here⟩ := List.getElem?_eq_some_iff.mp offset
  refine ⟨4 + 4 * items.length + before.length, after, ?_, ?_⟩
  · have table := List.drop_eq_getElem_cons bound
    rw [here] at table
    rw [count] at bound
    rw [file, ← List.drop_drop, List.drop_left' (length_leBytes 4 _),
      List.drop_append_of_le_length (by omega),
      drop_flatMap (fun _ _ => length_leBytes 4 _), table, List.flatMap_cons, List.append_assoc]
    exact readLE_append (by simpa using inside) _
  · rw [file, Nat.add_assoc, ← List.drop_drop, List.drop_left' (length_leBytes 4 _),
      ← List.drop_drop, List.drop_left' header, List.append_assoc, List.drop_left]

end Syscore
