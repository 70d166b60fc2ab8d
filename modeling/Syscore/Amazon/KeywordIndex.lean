import Syscore.Amazon.Builder
import Syscore.Amazon.Search
import Syscore.Library.OffsetTable

/-!
# The keyword index reads back

`findKeyword` on the file that the builder writes: the map holds the positions of every word, the
offset table leads to the entries, and the search finds the entry of a word exactly when there is
one.
-/

namespace Syscore
namespace Amazon

/-! ## The map -/

/-- What is appended to a possibly absent vector. -/
def appendTo {β : Type*} : Option (List β) → List β → Option (List β)
  | old, [] => old
  | old, item :: items => some (old.getD [] ++ item :: items)

/-- The occurrences of one word among the pushes. -/
def occurrencesOf (items : List (Text × ℕ × ℕ)) (word : Text) : List (ℕ × ℕ) :=
  (items.filter fun item => item.1 = word).map Prod.snd

/-- The map holds, under each word, the occurrences pushed for it in order. -/
theorem getElem?_foldl_pushBack (items : List (Text × ℕ × ℕ)) (kw : KeywordMap) (word : Text) :
    (items.foldl pushBack kw)[word]? = appendTo kw[word]? (occurrencesOf items word) := by
  induction items generalizing kw with
  | nil => rfl
  | cons item items ih =>
      rw [List.foldl_cons, ih, pushBack, Std.TreeMap.getElem?_alter, occurrencesOf, occurrencesOf]
      by_cases same : item.1 = word
      · subst same
        have equal : compare item.1 item.1 = .eq := Std.ReflCmp.compare_self
        rw [if_pos equal, List.filter_cons_of_pos (by simp), List.map_cons]
        cases later : (items.filter fun other => other.1 = item.1).map Prod.snd <;>
          simp [appendTo]
      · have apart : compare item.1 word ≠ .eq := fun equal =>
          same (Std.LawfulEqCmp.eq_of_compare equal)
        rw [if_neg apart, List.filter_cons_of_neg (by simpa using same)]

theorem getElem?_keywordMap (recs : List Rec) (word : Text) :
    (keywordMap recs)[word]? =
      appendTo none (occurrencesOf (occurrences recs (recs.length % 2 ^ 32)) word) := by
  rw [keywordMap, getElem?_foldl_pushBack, Std.TreeMap.getElem?_emptyc]

/-! ## The file -/

theorem keywordLayout_eq (cur : ℕ) (entries : List (Text × List (ℕ × ℕ))) :
    keywordLayout cur entries = layoutFrom keywordEntry cur entries := by
  induction entries generalizing cur with
  | nil => rfl
  | cons first entries ih => rw [keywordLayout, layoutFrom, ih]

theorem length_keywordIndexFile (recs : List Rec) :
    (keywordIndexFile recs).length = 4 + 4 * (keywordMap recs).size +
      (keywordLayout (4 + 4 * ((keywordMap recs).size % 2 ^ 32))
        (keywordMap recs).toList).2.length := by
  have table (offsets : List ℕ) : (offsets.flatMap (leBytes 4)).length = 4 * offsets.length :=
    length_flatMap fun _ _ => length_leBytes 4 _
  simp only [keywordIndexFile, keywordLayout_eq, List.length_append, length_leBytes, table,
    length_layoutFrom, Std.TreeMap.length_toList]

/-- In a file below 4 GiB the number of keywords is not truncated. -/
theorem size_keywordMap_lt {recs : List Rec} (small : (keywordIndexFile recs).length < 2 ^ 32) :
    (keywordMap recs).size < 2 ^ 30 := by
  rw [length_keywordIndexFile] at small
  omega

/-- Such a file is an offset table over the map. -/
theorem keywordIndexFile_eq {recs : List Rec} (small : (keywordIndexFile recs).length < 2 ^ 32) :
    keywordIndexFile recs = tableFile keywordEntry (keywordMap recs).toList := by
  have fits : (keywordMap recs).size < 2 ^ 32 := (size_keywordMap_lt small).trans (by decide)
  simp only [keywordIndexFile, tableFile, Nat.mod_eq_of_lt fits, keywordLayout_eq,
    Std.TreeMap.length_toList]

/-- The constructor maps the file and reads the number of keywords. -/
theorem open_keywordIndexFile {recs : List Rec}
    (small : (keywordIndexFile recs).length < 2 ^ 32) :
    Engine.open (keywordIndexFile recs) =
      some ⟨some (keywordIndexFile recs), (keywordMap recs).size⟩ := by
  have nonempty : keywordIndexFile recs ≠ [] := by
    rw [Ne, ← List.length_eq_zero_iff, length_keywordIndexFile]
    omega
  have count : readLE 4 (keywordIndexFile recs) = some (keywordMap recs).size := by
    have file := keywordIndexFile_eq small
    rw [file] at small
    rw [file, readLE_tableFile small, Std.TreeMap.length_toList]
  rw [Engine.open, if_neg nonempty, count]
  rfl

/-- Table entry number `index` leads to entry number `index` of the map. -/
theorem keywordIndexFile_entry {recs : List Rec}
    (small : (keywordIndexFile recs).length < 2 ^ 32) {index : ℕ} {entry : Text × List (ℕ × ℕ)}
    (at_index : (keywordMap recs).toList[index]? = some entry) :
    ∃ off after, readU32 (keywordIndexFile recs) (4 + 4 * index) = some off ∧
      (keywordIndexFile recs).drop off = keywordEntry off entry ++ after := by
  have file := keywordIndexFile_eq small
  rw [file] at small
  obtain ⟨off, after, table, bytes⟩ := tableFile_entry small at_index
  rw [file, readU32]
  exact ⟨off, after, table, bytes⟩

/-! ## Positions -/

/-- Word number `o.wordOffset` of field `o.field` of review `o.reviewIndex` is the word. -/
def IsPosition (recs : List Rec) (word : Text) (o : Occurrence) : Prop :=
  ∃ r text, recs[o.reviewIndex]? = some r ∧ r.fields[o.field]? = some text ∧
    (splitWords text)[o.wordOffset]? = some word

/-- The order of positions: by review, then by field, then by offset. -/
def Occurrence.Before (left right : Occurrence) : Prop :=
  left.reviewIndex < right.reviewIndex ∨ left.reviewIndex = right.reviewIndex ∧
    (left.field < right.field ∨ left.field = right.field ∧ left.wordOffset < right.wordOffset)

/-- Every field has fewer than `2 ^ 24` words. -/
def ShortFields (recs : List Rec) : Prop :=
  ∀ r ∈ recs, ∀ text ∈ r.fields, (splitWords text).length < 2 ^ 24

/-- All positions of a word in the reviews, in the order of the builder's loops. -/
def positions (recs : List Rec) (word : Text) : List Occurrence :=
  recs.zipIdx.flatMap fun (r, i) =>
    r.fields.zipIdx.flatMap fun (text, field) =>
      ((splitWords text).zipIdx.filter fun (other, _) => other = word).map fun (_, off) =>
        ⟨i, field, off⟩

/-- An occurrence as the builder packs it. -/
def Occurrence.pack (o : Occurrence) : ℕ × ℕ := (o.reviewIndex, location o.field o.wordOffset)

theorem mem_positions {recs : List Rec} {word : Text} {o : Occurrence} :
    o ∈ positions recs word ↔ IsPosition recs word o := by
  simp only [positions, List.mem_flatMap, List.mem_map, List.mem_filter, decide_eq_true_eq,
    Prod.exists, List.mem_zipIdx_iff_getElem?, IsPosition]
  constructor
  · rintro ⟨r, i, review, text, field, inside, other, off, ⟨at_off, rfl⟩, rfl⟩
    exact ⟨r, text, review, inside, at_off⟩
  · rintro ⟨r, text, review, inside, at_off⟩
    exact ⟨r, _, review, text, _, inside, word, _, ⟨at_off, rfl⟩, rfl⟩

/-- The numbers of a numbered list ascend. -/
theorem pairwise_zipIdx {α : Type*} (list : List α) :
    list.zipIdx.Pairwise fun left right => left.2 < right.2 := by
  have numbers : (list.zipIdx.map Prod.snd).Pairwise (· < ·) := by
    rw [List.zipIdx_map_snd]
    exact List.pairwise_lt_range'
  exact List.pairwise_map.mp numbers

theorem positions_pairwise (recs : List Rec) (word : Text) :
    (positions recs word).Pairwise Occurrence.Before := by
  apply List.pairwise_flatMap.mpr
  constructor
  · intro review _
    apply List.pairwise_flatMap.mpr
    constructor
    · intro field _
      apply List.pairwise_map.mpr
      exact ((pairwise_zipIdx _).filter _).imp fun later => Or.inr ⟨rfl, Or.inr ⟨rfl, later⟩⟩
    · refine (pairwise_zipIdx _).imp fun later o inside o' inside' => ?_
      obtain ⟨_, _, rfl⟩ := List.mem_map.mp inside
      obtain ⟨_, _, rfl⟩ := List.mem_map.mp inside'
      exact Or.inr ⟨rfl, Or.inl later⟩
  · refine (pairwise_zipIdx _).imp fun later o inside o' inside' => ?_
    simp only [List.mem_flatMap, List.mem_map] at inside inside'
    obtain ⟨_, _, _, _, rfl⟩ := inside
    obtain ⟨_, _, _, _, rfl⟩ := inside'
    exact Or.inl later

/-- What the builder pushes for a word. -/
theorem occurrencesOf_occurrences (recs : List Rec) (n : ℕ) (word : Text) :
    occurrencesOf (occurrences recs n) word = (positions (recs.take n) word).map
      Occurrence.pack := by
  simp only [occurrencesOf, occurrences, positions, List.filter_flatMap, List.map_flatMap,
    List.filter_map, List.map_map]
  rfl

theorem keywordMap_getElem? {recs : List Rec} (few : recs.length < 2 ^ 32) (word : Text) :
    (keywordMap recs)[word]? = appendTo none ((positions recs word).map Occurrence.pack) := by
  rw [getElem?_keywordMap, occurrencesOf_occurrences, Nat.mod_eq_of_lt few, List.take_length]

/-! ## Packing -/

theorem location_eq {field off : ℕ} (short : off < 2 ^ 24) :
    location field off = field * 2 ^ 24 + off := by
  have masked : off &&& 0x00FFFFFF = off % 2 ^ 24 := Nat.and_two_pow_sub_one_eq_mod off 24
  rw [location, masked, Nat.mod_eq_of_lt short, ← Nat.shiftLeft_add_eq_or_of_lt short,
    Nat.shiftLeft_eq]

theorem location_shiftRight {field off : ℕ} (short : off < 2 ^ 24) :
    location field off >>> 24 = field := by
  rw [location_eq short, Nat.shiftRight_eq_div_pow]
  omega

theorem location_and {field off : ℕ} (short : off < 2 ^ 24) :
    location field off &&& 0x00FFFFFF = off := by
  have masked := Nat.and_two_pow_sub_one_eq_mod (location field off) 24
  rw [location_eq short] at masked ⊢
  exact masked.trans (by omega)

/-- A position fits its packing. -/
theorem position_bounds {recs : List Rec} (few : recs.length < 2 ^ 32) (short : ShortFields recs)
    {word : Text} {o : Occurrence} (inside : o ∈ positions recs word) :
    o.reviewIndex < 2 ^ 32 ∧ o.field < 4 ∧ o.wordOffset < 2 ^ 24 := by
  obtain ⟨r, text, review, field, at_off⟩ := mem_positions.mp inside
  obtain ⟨reviewInside, _⟩ := List.getElem?_eq_some_iff.mp review
  obtain ⟨fieldInside, _⟩ := List.getElem?_eq_some_iff.mp field
  obtain ⟨offInside, _⟩ := List.getElem?_eq_some_iff.mp at_off
  have words := short r (List.mem_of_getElem? review) text (List.mem_of_getElem? field)
  exact ⟨reviewInside.trans few, fieldInside, offInside.trans words⟩

/-- The packed positions are sorted already. -/
theorem mergeSort_pack {recs : List Rec} (few : recs.length < 2 ^ 32) (short : ShortFields recs)
    (word : Text) :
    ((positions recs word).map Occurrence.pack).mergeSort pairLE =
      (positions recs word).map Occurrence.pack := by
  apply List.mergeSort_of_pairwise
  apply List.pairwise_map.mpr
  refine (positions_pairwise recs word).imp_of_mem fun {left right} inside inside' before => ?_
  obtain ⟨_, _, leftShort⟩ := position_bounds few short inside
  obtain ⟨_, _, rightShort⟩ := position_bounds few short inside'
  simp only [pairLE, Occurrence.pack, location_eq leftShort, location_eq rightShort,
    Bool.or_eq_true, Bool.and_eq_true, decide_eq_true_eq, beq_iff_eq]
  rcases before with review | ⟨same, field | ⟨field, off⟩⟩ <;> omega

/-! ## Finding a keyword -/

theorem length_occurrenceBytes (o : ℕ × ℕ) : (occurrenceBytes o).length = 8 := by
  simp [occurrenceBytes]

/-- One round of the loop over the occurrences reads what the entry packs. -/
theorem readOccurrence_packed {base after : List UInt8} {p i : ℕ} {occ : List Occurrence}
    {o : Occurrence}
    (at_p : base.drop p = (occ.map Occurrence.pack).flatMap occurrenceBytes ++ after)
    (at_i : occ[i]? = some o)
    (fits : o.reviewIndex < 2 ^ 32 ∧ o.field < 4 ∧ o.wordOffset < 2 ^ 24) :
    readOccurrence base p i = some o := by
  obtain ⟨reviewFits, fieldFits, short⟩ := fits
  obtain ⟨inside, own⟩ := List.getElem?_eq_some_iff.mp at_i
  have locationFits : location o.field o.wordOffset < 2 ^ 32 := by
    rw [location_eq short]
    omega
  have total : ((occ.map Occurrence.pack).flatMap occurrenceBytes).length = 8 * occ.length := by
    rw [length_flatMap fun _ _ => length_occurrenceBytes _, List.length_map]
  have here : base.drop (p + 8 * i) = leBytes 4 o.reviewIndex ++
      (leBytes 4 (location o.field o.wordOffset) ++
        (((occ.drop (i + 1)).map Occurrence.pack).flatMap occurrenceBytes ++ after)) := by
    rw [← List.drop_drop, at_p, List.drop_append_of_le_length (by omega),
      drop_flatMap (fun _ _ => length_occurrenceBytes _), ← List.map_drop,
      List.drop_eq_getElem_cons inside, own, List.map_cons, List.flatMap_cons, occurrenceBytes]
    simp only [Occurrence.pack, List.append_assoc]
  have first : readU32 base (p + 8 * i) = some o.reviewIndex := by
    rw [readU32, here]
    exact readLE_append (by simpa using reviewFits) _
  have second : readU32 base (p + 8 * i + 4) = some (location o.field o.wordOffset) := by
    rw [readU32, ← List.drop_drop, here, List.drop_left' (length_leBytes 4 _)]
    exact readLE_append (by simpa using locationFits) _
  rw [readOccurrence, first, second]
  simp [location_shiftRight short, location_and short]

/-- The entries of the map are the words that occur, with their packed positions. -/
theorem mem_toList_keywordMap {recs : List Rec} (few : recs.length < 2 ^ 32)
    {entry : Text × List (ℕ × ℕ)} : entry ∈ (keywordMap recs).toList ↔
      positions recs entry.1 ≠ [] ∧ entry.2 = (positions recs entry.1).map Occurrence.pack := by
  rw [Std.TreeMap.mem_toList_iff_getElem?_eq_some, keywordMap_getElem? few]
  cases found : positions recs entry.1 with
  | nil => simp [appendTo]
  | cons o occ =>
      simp only [List.map_cons, appendTo, Option.getD_none, List.nil_append, Option.some.injEq,
        ne_eq, reduceCtorEq, not_false_eq_true, true_and]
      exact eq_comm

/-- A word that occurs holds no NUL. -/
theorem nulFree_of_position {recs : List Rec} {word : Text} (occurs : positions recs word ≠ []) :
    0 ∉ word := by
  obtain ⟨o, inside⟩ := List.exists_mem_of_ne_nil _ occurs
  obtain ⟨r, text, _, _, at_off⟩ := mem_positions.mp inside
  exact splitWords_nulFree (List.mem_of_getElem? at_off)

/-- The words that occur, in the order of the map. -/
def keywords (recs : List Rec) : List Text := (keywordMap recs).toList.map Prod.fst

theorem length_keywords (recs : List Rec) : (keywords recs).length = (keywordMap recs).size := by
  rw [keywords, List.length_map, Std.TreeMap.length_toList]

theorem sorted_keywords (recs : List Rec) :
    (keywords recs).Pairwise fun left right => compare left right = .lt :=
  List.pairwise_map.mpr Std.TreeMap.ordered_keys_toList

theorem mem_keywords {recs : List Rec} (few : recs.length < 2 ^ 32) {word : Text} :
    word ∈ keywords recs ↔ positions recs word ≠ [] := by
  simp only [keywords, List.mem_map, mem_toList_keywordMap few]
  constructor
  · rintro ⟨entry, ⟨occurs, _⟩, rfl⟩
    exact occurs
  · intro occurs
    exact ⟨(word, (positions recs word).map Occurrence.pack), ⟨occurs, rfl⟩, rfl⟩

/-- What a table entry leads to: the keyword and its packed positions. -/
theorem keywordIndexFile_keyword {recs : List Rec} (few : recs.length < 2 ^ 32)
    (short : ShortFields recs) (small : (keywordIndexFile recs).length < 2 ^ 32) {index : ℕ}
    {word : Text} (at_index : (keywords recs)[index]? = some word) :
    ∃ off pad after, readU32 (keywordIndexFile recs) (4 + 4 * index) = some off ∧
      pad = (if (off + (word.length + 1)) % 2 ≠ 0 then [0] else []) ∧
      (keywordIndexFile recs).drop off = word ++ 0 :: (pad ++
        (leBytes 4 (positions recs word).length ++
          (((positions recs word).map Occurrence.pack).flatMap occurrenceBytes ++ after))) := by
  obtain ⟨entry, at_entry, rfl⟩ := by
    simpa only [keywords, List.getElem?_map, Option.map_eq_some_iff] using at_index
  obtain ⟨_, packed⟩ := (mem_toList_keywordMap few).mp (List.mem_of_getElem? at_entry)
  obtain ⟨off, after, table, bytes⟩ := keywordIndexFile_entry small at_entry
  refine ⟨off, _, after, table, rfl, ?_⟩
  rw [bytes, keywordEntry, packed, mergeSort_pack few short]
  simp only [List.length_append, List.length_singleton, List.length_map]
  split <;> simp

/-- The comparison of the binary search on a table entry. -/
theorem keywordBefore_keyword {recs : List Rec} (few : recs.length < 2 ^ 32)
    (short : ShortFields recs) (small : (keywordIndexFile recs).length < 2 ^ 32) {word : Text}
    (nulFree : 0 ∉ word) {index : ℕ} (inside : index < (keywords recs).length) :
    keywordBefore (keywordIndexFile recs) word index =
      some (compare (keywords recs)[index] word == .lt) := by
  obtain ⟨off, pad, after, table, -, bytes⟩ :=
    keywordIndexFile_keyword few short small (List.getElem?_eq_getElem inside)
  have occurs := (mem_keywords few).mp (List.getElem_mem inside)
  rw [keywordBefore, table]
  simp only [Option.bind_eq_bind, Option.bind_some, bytes,
    strcmp_append (nulFree_of_position occurs) nulFree]
  rfl

theorem lowerBound_keyword {recs : List Rec} (few : recs.length < 2 ^ 32)
    (short : ShortFields recs) (small : (keywordIndexFile recs).length < 2 ^ 32) {word : Text}
    (nulFree : 0 ∉ word) :
    lowerBound (keywordBefore (keywordIndexFile recs) word) 0 (keywords recs).length =
      some (partitionPoint (keywords recs) word) := by
  refine lowerBound_eq (Nat.zero_le _) ?_ fun index _ inside => ?_
  · rw [Nat.zero_add]
    exact List.findIdx_le_length
  · rw [Nat.zero_add] at inside
    rw [keywordBefore_keyword few short small nulFree inside,
      compare_getElem_partitionPoint (sorted_keywords recs) inside]

/-- What `findKeyword` reads behind the keyword at offset `off`. -/
theorem readEntry {recs : List Rec} (few : recs.length < 2 ^ 32) (short : ShortFields recs)
    (small : (keywordIndexFile recs).length < 2 ^ 32) {word : Text} {off : ℕ}
    {pad after : List UInt8}
    (parity : pad = if (off + (word.length + 1)) % 2 ≠ 0 then [0] else [])
    (bytes : (keywordIndexFile recs).drop off = word ++ 0 :: (pad ++
      (leBytes 4 (positions recs word).length ++
        (((positions recs word).map Occurrence.pack).flatMap occurrenceBytes ++ after)))) :
    let p := off + word.length + 1
    let p := if p % 2 ≠ 0 then p + 1 else p
    readU32 (keywordIndexFile recs) p = some (positions recs word).length ∧
      (List.range (positions recs word).length).mapM
        (readOccurrence (keywordIndexFile recs) (p + 4)) = some (positions recs word) := by
  intro p p'
  have skipped : p' = off + (word.length + 1 + pad.length) := by
    simp only [p', p, parity, Nat.add_assoc]
    split <;> rfl
  have at_p : (keywordIndexFile recs).drop p' = leBytes 4 (positions recs word).length ++
      (((positions recs word).map Occurrence.pack).flatMap occurrenceBytes ++ after) := by
    have regroup : word ++ 0 :: (pad ++ (leBytes 4 (positions recs word).length ++
        (((positions recs word).map Occurrence.pack).flatMap occurrenceBytes ++ after))) =
        (word ++ 0 :: pad) ++ (leBytes 4 (positions recs word).length ++
          (((positions recs word).map Occurrence.pack).flatMap occurrenceBytes ++ after)) := by
      simp
    rw [skipped, ← List.drop_drop, bytes, regroup, List.drop_left' (by simp; omega)]
  have total := congrArg List.length bytes
  simp only [List.length_drop, List.length_append, List.length_cons, length_leBytes,
    length_flatMap fun _ _ => length_occurrenceBytes _, List.length_map] at total
  constructor
  · rw [readU32, at_p]
    apply readLE_append
    change (positions recs word).length < 4294967296
    omega
  · have at_occ : (keywordIndexFile recs).drop (p' + 4) =
        ((positions recs word).map Occurrence.pack).flatMap occurrenceBytes ++ after := by
      rw [← List.drop_drop, at_p, List.drop_left' (length_leBytes 4 _)]
    have each : ∀ i ∈ List.range (positions recs word).length,
        readOccurrence (keywordIndexFile recs) (p' + 4) i =
          some ((positions recs word).getD i ⟨0, 0, 0⟩) := by
      intro i inside
      have at_i := List.getElem?_eq_getElem (List.mem_range.mp inside)
      rw [readOccurrence_packed at_occ at_i
        (position_bounds few short (List.getElem_mem (List.mem_range.mp inside))), List.getD,
        at_i, Option.getD_some]
    rw [mapM_eq_some each]
    refine congrArg some (List.ext_getElem (by simp) fun i _ inside => ?_)
    rw [List.getElem_map, List.getElem_range, List.getD, List.getElem?_eq_getElem inside,
      Option.getD_some]

/-- The search returns the positions of every word, whether it occurs or not. -/
theorem findKeyword_eq {recs : List Rec} (few : recs.length < 2 ^ 32)
    (short : ShortFields recs) (small : (keywordIndexFile recs).length < 2 ^ 32) {word : Text}
    (nulFree : 0 ∉ word) :
    findKeyword ⟨some (keywordIndexFile recs), (keywordMap recs).size⟩ word =
      some (!(positions recs word).isEmpty, positions recs word) := by
  simp only [findKeyword, ← length_keywords, lowerBound_keyword few short small nulFree,
    Option.bind_eq_bind, Option.bind_some]
  cases at_point : (keywords recs)[partitionPoint (keywords recs) word]? with
  | none =>
      -- every keyword is before the word
      have absent : positions recs word = [] := by
        by_contra occurs
        obtain ⟨index, at_index⟩ := List.mem_iff_getElem?.mp ((mem_keywords few).mpr occurs)
        rw [partitionPoint_eq_of_getElem? (sorted_keywords recs) at_index, at_index] at at_point
        cases at_point
      have atEnd : partitionPoint (keywords recs) word = (keywords recs).length :=
        Nat.le_antisymm List.findIdx_le_length (List.getElem?_eq_none_iff.mp at_point)
      rw [if_pos atEnd, absent]
      rfl
  | some keyword =>
      obtain ⟨inside, own⟩ := List.getElem?_eq_some_iff.mp at_point
      have occurs : positions recs keyword ≠ [] :=
        (mem_keywords few).mp (List.mem_of_getElem? at_point)
      obtain ⟨off, pad, after, table, parity, bytes⟩ :=
        keywordIndexFile_keyword few short small at_point
      have keywordFree := nulFree_of_position occurs
      rw [if_neg inside.ne, table]
      simp only [Option.bind_some, bytes, strcmp_append keywordFree nulFree]
      by_cases same : keyword = word
      · subst same
        obtain ⟨readCount, readOcc⟩ := readEntry few short small parity bytes
        have equal : compare keyword keyword = .eq := Std.ReflCmp.compare_self
        rw [equal, if_neg (by decide), strlen_append keywordFree]
        simp only [Option.bind_some, readCount, readOcc]
        cases found : positions recs keyword with
        | nil => exact absurd found occurs
        | cons o occ => rfl
      · have absent : positions recs word = [] := by
          by_contra occurs
          obtain ⟨index, at_index⟩ := List.mem_iff_getElem?.mp ((mem_keywords few).mpr occurs)
          rw [partitionPoint_eq_of_getElem? (sorted_keywords recs) at_index, at_index] at at_point
          exact same (Option.some.inj at_point).symm
        have apart : compare keyword word ≠ .eq := fun equal =>
          same (Std.LawfulEqCmp.eq_of_compare equal)
        rw [if_pos apart, absent]
        rfl

/-! ## The search is exact -/

/-- A word is one of the words of some field of some review. -/
def Occurs (recs : List Rec) (word : Text) : Prop :=
  ∃ r ∈ recs, ∃ text ∈ r.fields, word ∈ splitWords text

theorem positions_ne_nil {recs : List Rec} {word : Text} :
    positions recs word ≠ [] ↔ Occurs recs word := by
  constructor
  · intro occurs
    obtain ⟨o, inside⟩ := List.exists_mem_of_ne_nil _ occurs
    obtain ⟨r, text, review, field, at_off⟩ := mem_positions.mp inside
    exact ⟨r, List.mem_of_getElem? review, text, List.mem_of_getElem? field,
      List.mem_of_getElem? at_off⟩
  · rintro ⟨r, review, text, field, inside⟩
    obtain ⟨i, at_i⟩ := List.mem_iff_getElem?.mp review
    obtain ⟨f, at_f⟩ := List.mem_iff_getElem?.mp field
    obtain ⟨off, at_off⟩ := List.mem_iff_getElem?.mp inside
    have position : IsPosition recs word ⟨i, f, off⟩ := ⟨r, text, at_i, at_f, at_off⟩
    exact List.ne_nil_of_mem (mem_positions.mpr position)

/-- The result of `findKeyword` is right for a word: it succeeds when the word occurs, and then
yields every position of the word, once and in order. -/
def FindsExactly (recs : List Rec) (engine : Engine) (word : Text) : Prop :=
  ∃ found occ, findKeyword engine word = some (found, occ) ∧ (found = true ↔ Occurs recs word) ∧
    (found = true → occ.Pairwise Occurrence.Before ∧ ∀ o, o ∈ occ ↔ IsPosition recs word o)

/-- The keyword that a table entry points to. -/
def keywordAt (base : List UInt8) (index : ℕ) : Option Text :=
  (readU32 base (4 + 4 * index)).bind fun off => cString (base.drop off)

/-- The offset table is strictly increasing by `strcmp` of the keywords it points to. -/
def TableAscends (base : List UInt8) (numKeywords : ℕ) : Prop :=
  ∀ i j, i < j → j < numKeywords → ∃ off keyword,
    readU32 base (4 + 4 * i) = some off ∧ keywordAt base j = some keyword ∧
      strcmp (base.drop off) keyword = some .lt

/-- What a search promises on the file built from the reviews. -/
def SearchIsExact (recs : List Rec) : Prop :=
  ∃ engine, Engine.open (keywordIndexFile recs) = some engine ∧
    (∀ word : Text, 0 ∉ word → FindsExactly recs engine word) ∧
      TableAscends (keywordIndexFile recs) engine.numKeywords

theorem keywordAt_keyword {recs : List Rec} (few : recs.length < 2 ^ 32)
    (short : ShortFields recs) (small : (keywordIndexFile recs).length < 2 ^ 32) {index : ℕ}
    {word : Text} (at_index : (keywords recs)[index]? = some word) :
    keywordAt (keywordIndexFile recs) index = some word := by
  obtain ⟨off, pad, after, table, -, bytes⟩ := keywordIndexFile_keyword few short small at_index
  have occurs := (mem_keywords few).mp (List.mem_of_getElem? at_index)
  rw [keywordAt, table, Option.bind_some, bytes, cString_append (nulFree_of_position occurs)]

theorem table_ascends {recs : List Rec} (few : recs.length < 2 ^ 32)
    (short : ShortFields recs) (small : (keywordIndexFile recs).length < 2 ^ 32) :
    TableAscends (keywordIndexFile recs) (keywords recs).length := by
  intro i j order inside
  have insideI := Nat.lt_trans order inside
  obtain ⟨off, pad, after, table, -, bytes⟩ :=
    keywordIndexFile_keyword few short small (List.getElem?_eq_getElem insideI)
  have nulFree (index : ℕ) (inside : index < (keywords recs).length) :
      0 ∉ (keywords recs)[index] :=
    nulFree_of_position ((mem_keywords few).mp (List.getElem_mem inside))
  refine ⟨off, (keywords recs)[j], table,
    keywordAt_keyword few short small (List.getElem?_eq_getElem inside), ?_⟩
  rw [bytes, strcmp_append (nulFree i insideI) (nulFree j inside),
    List.pairwise_iff_getElem.mp (sorted_keywords recs) i j insideI inside order]

/-- The keyword index round-trips through the binary search, for fewer than `2 ^ 32` reviews. -/
theorem keyword_index_round_trip (recs : List Rec) (few : recs.length < 2 ^ 32)
    (short : ShortFields recs) (small : (keywordIndexFile recs).length < 2 ^ 32) :
    SearchIsExact recs := by
  refine ⟨_, open_keywordIndexFile small, fun word nulFree => ?_, ?_⟩
  · refine ⟨_, _, findKeyword_eq few short small nulFree, ?_, fun _ => ?_⟩
    · rw [← positions_ne_nil, Bool.not_eq_true', List.isEmpty_eq_false_iff]
    · exact ⟨positions_pairwise recs word, fun o => mem_positions⟩
  · rw [← length_keywords]
    exact table_ascends few short small

/-- Two reviews that share the word `go`, once twice in one field. -/
def twoReviews : List Rec :=
  [⟨[71, 111, 32, 103, 111], [97], [], [], 5, 2020, 1, 2⟩, ⟨[], [71, 79], [98], [], 4, 2021, 3, 4⟩]

theorem twoReviews_short : ShortFields twoReviews := by
  rw [ShortFields]
  decide +kernel

theorem twoReviews_small : (keywordIndexFile twoReviews).length < 2 ^ 32 := by
  have entries : (keywordMap twoReviews).toList =
      [([97], [(0, 16777216)]), ([98], [(1, 33554432)]),
        ([103, 111], [(0, 0), (0, 1), (1, 16777216)])] := by
    decide +kernel
  rw [length_keywordIndexFile, ← Std.TreeMap.length_toList, entries]
  simp [keywordLayout, keywordEntry, length_flatMap fun _ _ => length_occurrenceBytes _,
    length_occurrenceBytes]

theorem keyword_index_round_trip_two : SearchIsExact twoReviews :=
  keyword_index_round_trip twoReviews (by decide) twoReviews_short twoReviews_small

/-- So many reviews of the title `a` that their number wraps to zero. -/
def wrappedReviews : List Rec := List.replicate (2 ^ 32) ⟨[97], [], [], [], 5, 2020, 1, 2⟩

theorem mem_wrappedReviews {r : Rec} :
    r ∈ wrappedReviews ↔ r = ⟨[97], [], [], [], 5, 2020, 1, 2⟩ := by
  rw [wrappedReviews, List.mem_replicate]
  exact and_iff_right (by decide)

/-- The builder indexes none of them. -/
theorem keywordIndexFile_wrappedReviews : keywordIndexFile wrappedReviews = [0, 0, 0, 0] := by
  have empty : keywordMap wrappedReviews = ∅ := by
    rw [keywordMap, occurrences, wrappedReviews, List.length_replicate, Nat.mod_self,
      List.take_zero]
    rfl
  rw [keywordIndexFile, empty]
  decide +kernel

theorem keyword_index_wraps : ShortFields wrappedReviews ∧
    (keywordIndexFile wrappedReviews).length < 2 ^ 32 ∧ ¬ SearchIsExact wrappedReviews := by
  refine ⟨?_, ?_, ?_⟩
  · intro r inside
    rw [mem_wrappedReviews.mp inside]
    decide +kernel
  · rw [keywordIndexFile_wrappedReviews]
    decide
  · rintro ⟨engine, opened, exact_search, -⟩
    have mapped : Engine.open [0, 0, 0, 0] = some ⟨some [0, 0, 0, 0], 0⟩ := rfl
    rw [keywordIndexFile_wrappedReviews, mapped] at opened
    obtain rfl := Option.some.inj opened
    obtain ⟨found, occ, result, succeeds, -⟩ := exact_search [97] (by decide)
    have occurs : Occurs wrappedReviews [97] :=
      ⟨_, mem_wrappedReviews.mpr rfl, [97], List.mem_cons_self, by decide +kernel⟩
    simp only [findKeyword] at result
    rw [succeeds.mpr occurs, lowerBound, if_pos rfl] at result
    cases result

end Amazon
end Syscore
