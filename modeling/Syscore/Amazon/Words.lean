import Syscore.Library.Ascii
import Syscore.Library.Runs

/-!
# Words and queries

`splitWords`, which the builder and the search engine share, and `convertQuery`.
-/

namespace Syscore
namespace Amazon

/-- One character of `splitWords`: the finished words and the current one. -/
def splitWordsStep (state : List Text × Text) (ch : UInt8) : List Text × Text :=
  if isalnum ch then
    (state.1, state.2 ++ [tolower ch])
  else if state.2 ≠ [] then
    (state.1 ++ [state.2], [])
  else
    state

/-- `splitWords`. -/
def splitWords (s : Text) : List Text :=
  let (words, cur) := s.foldl splitWordsStep ([], [])
  if cur ≠ [] then words ++ [cur] else words

/-- The quotation mark. -/
def quote : UInt8 := 34

/-- `convertQuery`, from the position `i` on. -/
def convertQuery : Text → List (List Text)
  | [] => []
  | ch :: rest =>
      if isspace ch then
        convertQuery rest
      else if ch = quote then
        let phrase := rest.takeWhile (· ≠ quote)
        let words := splitWords phrase
        -- past the closing quotation mark, or the end of the query
        let remaining := (rest.dropWhile (· ≠ quote)).drop 1
        (if words ≠ [] then [words] else []) ++ convertQuery remaining
      else
        let inToken (ch : UInt8) : Bool := !isspace ch && ch ≠ quote
        let token := ch :: rest.takeWhile inToken
        (splitWords token).map (fun w => [w]) ++ convertQuery (rest.dropWhile inToken)
termination_by query => query.length
decreasing_by
  · simp
  · have shorter := (rest.dropWhile_sublist (· ≠ quote)).length_le
    simp only [List.length_drop, List.length_cons]
    omega
  · exact Nat.lt_succ_of_le (rest.dropWhile_sublist _).length_le

/-! ## What the words are made of -/

/-- The words are the runs of alphanumeric characters, in lower case. -/
theorem splitWords_eq (s : Text) : splitWords s = (runs isalnum s).map (List.map tolower) := by
  let emit (words : List Text) (cur : Text) : List Text :=
    if cur ≠ [] then words ++ [cur] else words
  have step : splitWordsStep = scanStep isalnum tolower emit := by
    funext state ch
    obtain ⟨words, cur⟩ := state
    cases cur with
    | nil => rw [splitWordsStep, scanStep]; rfl
    | cons first cur => rw [splitWordsStep, scanStep]; rfl
  have pushed (chosen : List Text) (nonempty : [] ∉ chosen) (words : List Text) :
      chosen.foldl emit words = words ++ chosen := by
    induction chosen generalizing words with
    | nil => rw [List.foldl_nil, List.append_nil]
    | cons cur chosen ih =>
        have here := List.ne_of_not_mem_cons nonempty
        have later := List.not_mem_of_not_mem_cons nonempty
        have own : emit words cur = words ++ [cur] := if_pos (Ne.symm here)
        rw [List.foldl_cons, own, ih later, List.append_assoc, List.singleton_append]
  have nonempty : [] ∉ (runs isalnum s).map (List.map tolower) := by
    intro inside
    obtain ⟨run, chosen, empty⟩ := List.mem_map.mp inside
    exact (mem_runs_iff.mp chosen).1 (List.map_eq_nil_iff.mp empty)
  have scanned := foldl_scanStep tolower emit isalnum (fun _ => rfl) s []
  rw [pushed _ nonempty, List.nil_append] at scanned
  rw [← scanned, splitWords, step]

/-- A text can be cut in front of a separator. -/
theorem splitWords_append (left : Text) {right : Text}
    (boundary : ∀ ch ∈ right.head?, isalnum ch = false) :
    splitWords (left ++ right) = splitWords left ++ splitWords right := by
  rw [splitWords_eq, splitWords_eq, splitWords_eq, runs_append left boundary, List.map_append]

theorem splitWords_cons {ch : UInt8} (separates : isalnum ch = false) (rest : Text) :
    splitWords (ch :: rest) = splitWords rest := by
  rw [splitWords_eq, splitWords_eq, runs_cons rest separates]

/-- A word is not empty and holds lower-case letters and digits only. -/
theorem splitWords_clean {s word : Text} (inside : word ∈ splitWords s) :
    word ≠ [] ∧ ∀ ch ∈ word, isalnum ch = true ∧ isupper ch = false := by
  rw [splitWords_eq] at inside
  obtain ⟨run, chosen, rfl⟩ := List.mem_map.mp inside
  obtain ⟨nonempty, alnum, _⟩ := mem_runs_iff.mp chosen
  refine ⟨fun empty => nonempty (List.map_eq_nil_iff.mp empty), fun ch member => ?_⟩
  obtain ⟨raw, here, rfl⟩ := List.mem_map.mp member
  exact ⟨isalnum_tolower (alnum raw here), isupper_tolower raw⟩

/-- No word holds a NUL. -/
theorem splitWords_nulFree {s word : Text} (inside : word ∈ splitWords s) : 0 ∉ word := by
  intro nul
  have alnum := ((splitWords_clean inside).2 0 nul).1
  exact absurd alnum (by decide)

/-- Every term of a query is made of words. -/
theorem convertQuery_terms {query : Text} {term : List Text} (inside : term ∈ convertQuery query) :
    term ≠ [] ∧ ∀ word ∈ term, 0 ∉ word := by
  induction query using convertQuery.induct with
  | case1 => simp [convertQuery] at inside
  | case2 ch rest space ih =>
      rw [convertQuery, if_pos space] at inside
      exact ih inside
  | case3 rest remaining space ih =>
      rw [convertQuery, if_neg space, if_pos rfl] at inside
      rcases List.mem_append.mp inside with own | later
      · split at own
        · rename_i nonempty
          rw [List.mem_singleton.mp own]
          exact ⟨nonempty, fun word inside => splitWords_nulFree inside⟩
        · cases own
      · exact ih later
  | case4 ch rest space other inToken ih =>
      rw [convertQuery, if_neg space, if_neg other] at inside
      rcases List.mem_append.mp inside with own | later
      · obtain ⟨word, found, rfl⟩ := List.mem_map.mp own
        refine ⟨List.cons_ne_nil word [], fun other inside => ?_⟩
        rw [List.mem_singleton.mp inside]
        exact splitWords_nulFree found
      · exact ih later

end Amazon
end Syscore
