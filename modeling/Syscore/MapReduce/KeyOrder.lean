import Syscore.MapReduce.WordCount

/-!
# Records of one key

The reduce tasks sort whole records, and the key of a record is what precedes its tab. Not every
byte sorts behind the tab.
-/

namespace Syscore
namespace MapReduce

open WordCount (tab)

/-- A key is a record by itself and also the key of a record with a tab, and some record continues
it with a byte that sorts before the tab. -/
def Splits (records : List Text) : Prop :=
  ∃ key ∈ records, tab ∉ key ∧ (∃ value, key ++ tab :: value ∈ records) ∧
    ∃ byte rest, byte < tab ∧ key ++ byte :: rest ∈ records

/-! ## The order of records -/

theorem textLE_nil (text : Text) : textLE [] text = true := by
  cases text <;> rfl

theorem not_textLE_nil (x : UInt8) (xs : Text) : ¬ textLE (x :: xs) [] = true :=
  Bool.false_ne_true

theorem textLE_cons (x y : UInt8) (xs ys : Text) :
    textLE (x :: xs) (y :: ys) = true ↔ x < y ∨ x = y ∧ textLE xs ys = true := by
  rw [textLE, List.compare_cons_cons]
  cases order : compare x y with
  | lt =>
      have less : x < y := compareOfLessAndEq_eq_lt.mp order
      exact iff_of_true rfl (.inl less)
  | eq =>
      obtain rfl := Std.LawfulEqCmp.eq_of_compare order
      exact ⟨fun below => .inr ⟨rfl, below⟩, fun either =>
        either.elim (fun less => absurd less (UInt8.lt_irrefl x)) fun both => both.2⟩
  | gt =>
      have greater : y < x := by
        have swap : compare y x = (compare x y).swap := Std.OrientedCmp.eq_swap
        rw [order] at swap
        exact compareOfLessAndEq_eq_lt.mp swap
      refine iff_of_false Bool.false_ne_true ?_
      rintro (less | ⟨rfl, _⟩)
      · exact UInt8.lt_asymm less greater
      · exact UInt8.lt_irrefl x greater

theorem keyOf_append {key : Text} (free : tab ∉ key) (rest : Text) :
    keyOf (key ++ rest) = key ++ keyOf rest := by
  induction key with
  | nil => rfl
  | cons byte key ih =>
      obtain ⟨other, free⟩ := not_or.mp (mt List.mem_cons.mpr free)
      have kept : keyOf (byte :: (key ++ rest)) = byte :: keyOf (key ++ rest) :=
        List.takeWhile_cons_of_pos (decide_eq_true (Ne.symm other))
      rw [List.cons_append, kept, ih free, List.cons_append]

theorem tab_notMem_keyOf (record : Text) : tab ∉ keyOf record := by
  intro inside
  have other := List.mem_takeWhile_imp (p := (· ≠ (9 : UInt8))) inside
  exact of_decide_eq_true other rfl

/-- A record is its key, and nothing or a tab and a value behind it. -/
theorem eq_keyOf_append (record : Text) :
    record = keyOf record ∨ ∃ value, record = keyOf record ++ tab :: value := by
  have split := List.takeWhile_append_dropWhile (p := (· ≠ (9 : UInt8))) (l := record)
  cases rest : record.dropWhile (· ≠ 9) with
  | nil =>
      rw [rest, List.append_nil] at split
      exact .inl split.symm
  | cons byte value =>
      have stops := List.head?_dropWhile_not (fun byte : UInt8 => decide (byte ≠ 9)) record
      rw [rest] at stops
      have here : byte = tab := by
        change byte = 9
        simpa using stops
      rw [rest, here] at split
      exact .inr ⟨value, split.symm⟩

/-- What lies between two texts that begin alike begins like them. -/
theorem between_append {key left middle right : Text} (below : textLE (key ++ left) middle = true)
    (above : textLE middle (key ++ right) = true) :
    ∃ rest, middle = key ++ rest ∧ textLE left rest = true ∧ textLE rest right = true := by
  induction key generalizing middle with
  | nil => exact ⟨middle, rfl, below, above⟩
  | cons byte key ih =>
      cases middle with
      | nil => exact absurd below (not_textLE_nil byte _)
      | cons first middle =>
          rw [List.cons_append, textLE_cons] at below above
          rcases below with less | ⟨rfl, below⟩
          · rcases above with greater | ⟨rfl, _⟩
            · exact absurd less (UInt8.lt_asymm greater)
            · exact absurd less (UInt8.lt_irrefl _)
          · rcases above with greater | ⟨_, above⟩
            · exact absurd greater (UInt8.lt_irrefl _)
            · obtain ⟨rest, rfl, lower, upper⟩ := ih below above
              exact ⟨rest, rfl, lower, upper⟩

theorem textLE_append (key left right : Text) :
    textLE (key ++ left) (key ++ right) = true ↔ textLE left right = true := by
  induction key with
  | nil => rfl
  | cons byte key ih =>
      rw [List.cons_append, List.cons_append, textLE_cons, ← ih]
      exact ⟨fun either => either.elim (fun less => absurd less (UInt8.lt_irrefl byte))
        fun both => both.2, fun below => .inr ⟨rfl, below⟩⟩

/-- Two records of one key and a record of another between them, in detail. -/
theorem between_iff (left middle right : Text) :
    textLE left middle = true ∧ textLE middle right = true ∧ keyOf left = keyOf right ∧
        keyOf middle ≠ keyOf left ↔
      tab ∉ left ∧ (∃ value, right = left ++ tab :: value) ∧
        ∃ byte rest, byte < tab ∧ middle = left ++ byte :: rest := by
  constructor
  · rintro ⟨below, above, same, other⟩
    have free := tab_notMem_keyOf left
    have shape : ∀ text : Text, ∃ behind, text = keyOf text ++ behind ∧
        (behind = [] ∨ ∃ value, behind = tab :: value) := by
      intro text
      rcases eq_keyOf_append text with whole | ⟨value, whole⟩
      · exact ⟨[], (List.append_nil _).symm ▸ whole, .inl rfl⟩
      · exact ⟨tab :: value, whole, .inr ⟨value, rfl⟩⟩
    obtain ⟨lower, leftEq, lowerShape⟩ := shape left
    obtain ⟨upper, rightEq, upperShape⟩ := shape right
    rw [← same] at rightEq
    rw [leftEq] at below
    rw [rightEq] at above
    obtain ⟨rest, rfl, below, above⟩ := between_append below above
    rw [keyOf_append free] at other
    cases rest with
    | nil => exact absurd (List.append_nil _) other
    | cons byte rest =>
        have plain : byte ≠ tab := by
          rintro rfl
          exact other (List.append_nil _)
        rcases upperShape with rfl | ⟨value, rfl⟩
        · exact absurd above (not_textLE_nil byte rest)
        · have less := ((textLE_cons ..).mp above).resolve_right fun both => plain both.1
          rcases lowerShape with rfl | ⟨value', rfl⟩
          · rw [List.append_nil] at leftEq
            rw [← leftEq] at rightEq free ⊢
            exact ⟨free, ⟨value, rightEq⟩, byte, rest, less, rfl⟩
          · rcases (textLE_cons ..).mp below with greater | ⟨equal, _⟩
            · exact absurd less (UInt8.lt_asymm greater)
            · exact absurd equal.symm plain
  · rintro ⟨free, ⟨value, rfl⟩, byte, rest, less, rfl⟩
    have own : keyOf left = left := by
      have whole := keyOf_append free []
      rwa [List.append_nil, show keyOf [] = [] from rfl, List.append_nil] at whole
    have next : keyOf (byte :: rest) = byte :: keyOf rest := by
      have other : byte ≠ 9 := by
        rintro rfl
        exact UInt8.lt_irrefl tab less
      exact List.takeWhile_cons_of_pos (decide_eq_true other)
    refine ⟨?_, ?_, ?_, ?_⟩
    · have below := (textLE_append left [] (byte :: rest)).mpr (textLE_nil _)
      rwa [List.append_nil] at below
    · exact (textLE_append left _ _).mpr ((textLE_cons ..).mpr (.inl less))
    · rw [keyOf_append free, own]
      exact (List.append_nil left).symm
    · rw [keyOf_append free, own, next]
      exact fun same => List.cons_ne_nil _ _ (List.append_right_eq_self.mp same)

/-! ## What the reducers read -/

/-- In sorted records those of one key are together unless a key splits. -/
theorem together_iff_not_splits {records : List Text}
    (sorted : records.Pairwise fun left right => textLE left right = true) :
    Together keyOf records ↔ ¬ Splits records := by
  rw [together_iff (fun _ _ => textLE_antisymm) sorted]
  constructor
  · rintro between ⟨key, alone, free, ⟨value, tabbed⟩, byte, rest, less, continued⟩
    obtain ⟨below, above, same, other⟩ :=
      (between_iff key (key ++ byte :: rest) (key ++ tab :: value)).mpr
        ⟨free, ⟨value, rfl⟩, byte, rest, less, rfl⟩
    exact other (between key alone _ continued _ tabbed below above same)
  · intro whole left inLeft middle inMiddle right inRight below above same
    by_contra other
    obtain ⟨free, ⟨value, rfl⟩, byte, rest, less, rfl⟩ :=
      (between_iff left middle right).mp ⟨below, above, same, other⟩
    exact whole ⟨left, inLeft, free, ⟨value, inRight⟩, byte, rest, less, inMiddle⟩

/-- The records of a partition are those that the mappers emit for it. -/
theorem splits_sortedRecords (job : Job) (r : ℕ) :
    Splits (job.sortedRecords r) ↔ Splits (job.emitted.filter fun kv => job.route kv = r) := by
  simp only [Splits, (job.sortedRecords_perm r).mem_iff]

theorem together_sortedRecords_iff (job : Job) (r : ℕ) :
    Together keyOf (getlines (job.sequentialInput r)) ↔
      ¬ Splits (job.emitted.filter fun kv => job.route kv = r) := by
  rw [job.getlines_sequentialInput, ← splits_sortedRecords]
  exact together_iff_not_splits (List.pairwise_mergeSort textLE_trans textLE_total _)

/-- Each reducer sees the records of every key together just when none of the keys routed to it
splits. -/
theorem keys_together_iff {job : Job} {disk : Text → Option Text} {state : State}
    (reach : (machine job disk).Reachable .free state) {r : ℕ} (small : r < job.R)
    (started : state.reduces r ≠ .ready) :
    ∃ input, state.inputs r = some input ∧
      (Together keyOf (getlines input) ↔
        ¬ Splits (job.emitted.filter fun kv => job.route kv = r)) :=
  ⟨job.sequentialInput r, ((faithful_of_reachable reach).progress r small).input_eq started,
    together_sortedRecords_iff job r⟩

/-- A mapper that emits `a` by itself, with a value, and continued by the byte 1. -/
def splitJob : Job where
  input := ascii "line"
  M := 1
  R := 1
  M_pos := Nat.one_pos
  R_pos := Nat.one_pos
  hasher := List.length
  mapper _ := joinLines [ascii "a", ascii "a\t1", [97, 1]]
  reducer := id
  outDir := ascii "out"
  opens _ := true

theorem keys_together_iff_sharedKey :
    ∃ state input, (machine sharedKeyJob fun _ => none).Reachable .free state ∧
      state.inputs 1 = some input ∧ (Together keyOf (getlines input) ↔
        ¬ Splits (sharedKeyJob.emitted.filter fun kv => sharedKeyJob.route kv = 1)) := by
  obtain ⟨final, reach, complete, _⟩ :=
    complete_run (List.Perm.refl (List.range sharedKeyJob.R)) fun _ => none
  have started : final.reduces 1 ≠ .ready := by
    rw [complete.2 1 (by decide)]
    simp
  obtain ⟨input, read, together⟩ := keys_together_iff reach (by decide) started
  exact ⟨final, input, reach, read, together⟩

/-- The records `a`, `a\x01` and `a\t1` reach the reducer in this order. -/
theorem keys_apart :
    ∃ state input, (machine splitJob fun _ => none).Reachable .free state ∧
      state.inputs 0 = some input ∧ ¬ Together keyOf (getlines input) := by
  obtain ⟨final, reach, complete, _⟩ :=
    complete_run (List.Perm.refl (List.range splitJob.R)) fun _ => none
  have started : final.reduces 0 ≠ .ready := by
    rw [complete.2 0 (by decide)]
    simp
  have emitted : (splitJob.emitted.filter fun kv => splitJob.route kv = 0) =
      [ascii "a", ascii "a\t1", [97, 1]] := by
    decide +kernel
  refine ⟨final, _, reach, ((faithful_of_reachable reach).progress 0 (by decide)).input_eq started,
    ?_⟩
  rw [together_sortedRecords_iff, emitted, not_not]
  exact ⟨ascii "a", by decide, by decide, ⟨ascii "1", by decide⟩, 1, [], by decide, by decide⟩

end MapReduce
end Syscore
