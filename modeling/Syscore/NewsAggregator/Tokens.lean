import Syscore.Library.Runs
import Syscore.NewsAggregator.Queries

/-!
# The tokens of a text and the words of a query

The splitting loop of `tokenizeHTML` cuts a text at every character that is not alphanumeric, where
`normalize` leaves these characters out of a word.
-/

namespace Syscore
namespace NewsAggregator

/-! ## The splitting loop -/

/-- `flush` of `tokenizeHTML`: the tokens and the current one. -/
def flush (state : List Text × Text) : List Text × Text :=
  (if 2 ≤ state.2.length ∧ state.2.length ≤ 32 then state.1 ++ [state.2] else state.1, [])

/-- One character of the splitting loop. -/
def tokenStep (state : List Text × Text) (ch : UInt8) : List Text × Text :=
  if isalnum ch then (state.1, state.2 ++ [tolower ch]) else flush state

/-- The tokens that `tokenizeHTML` takes from the visible text. -/
def tokenize (text : Text) : List Text := (flush (text.foldl tokenStep ([], []))).1

/-- The tokens are the alphanumeric runs of two to 32 characters, in lower case. -/
theorem tokenize_eq (text : Text) :
    tokenize text = ((runs isalnum text).map (List.map tolower)).filter fun token =>
      2 ≤ token.length ∧ token.length ≤ 32 := by
  let emit (tokens : List Text) (cur : Text) : List Text :=
    if 2 ≤ cur.length ∧ cur.length ≤ 32 then tokens ++ [cur] else tokens
  have step : tokenStep = scanStep isalnum tolower emit := rfl
  have pushed (chosen tokens : List Text) :
      chosen.foldl emit tokens = tokens ++ chosen.filter fun token =>
        2 ≤ token.length ∧ token.length ≤ 32 := by
    induction chosen generalizing tokens with
    | nil => exact (List.append_nil tokens).symm
    | cons cur chosen ih =>
        rw [List.foldl_cons, ih, List.filter_cons]
        by_cases size : 2 ≤ cur.length ∧ cur.length ≤ 32
        · have own : emit tokens cur = tokens ++ [cur] := if_pos size
          rw [own, if_pos (decide_eq_true size), List.append_assoc, List.singleton_append]
        · have own : emit tokens cur = tokens := if_neg size
          rw [own, if_neg (by simpa using size)]
  have scanned := foldl_scanStep tolower emit isalnum (fun _ => rfl) text []
  rw [pushed, List.nil_append] at scanned
  rw [← scanned, tokenize, step]
  rfl

/-! ## The words of a text -/

/-- The words between white space have the runs of the text. -/
theorem runs_queryWords (text : Text) :
    runs isalnum text = (queryWords text).flatMap (runs isalnum) := by
  induction text using queryWords.induct with
  | case1 text blank =>
      rw [← runs_dropWhile (fun _ => isalnum_of_isspace) text, queryWords, blank]
      rfl
  | case2 text first rest start ih =>
      have whole := List.takeWhile_append_dropWhile (p := fun char => !isspace char)
        (l := first :: rest)
      have stop : ∀ char ∈ ((first :: rest).dropWhile fun char => !isspace char).head?,
          isalnum char = false := by
        intro char gap
        have stopped := List.head?_dropWhile_not (fun char => !isspace char) (first :: rest)
        rw [Option.mem_def.mp gap] at stopped
        exact isalnum_of_isspace (by simpa using stopped)
      have split := runs_append ((first :: rest).takeWhile fun char => !isspace char) stop
      rw [whole] at split
      have own : queryWords text =
          ((first :: rest).takeWhile fun char => !isspace char) ::
            queryWords ((first :: rest).dropWhile fun char => !isspace char) := by
        rw [queryWords, start]
      rw [← runs_dropWhile (fun _ => isalnum_of_isspace) text, start, split, ih, own,
        List.flatMap_cons]

/-- A word is a token of the text just when some word has it as a run. -/
theorem normalize_mem_tokenize_iff {text w : Text} (two : 2 ≤ (w.filter isalnum).length)
    (limit : (w.filter isalnum).length ≤ 32) :
    normalize w ∈ tokenize text ↔
      ∃ other ∈ queryWords text, ∃ run ∈ runs isalnum other, run.map tolower = normalize w := by
  have size : 2 ≤ (normalize w).length ∧ (normalize w).length ≤ 32 := by
    rw [normalize, List.length_map]
    exact ⟨two, limit⟩
  rw [tokenize_eq, List.mem_filter, and_iff_left (decide_eq_true size), runs_queryWords,
    List.mem_map]
  constructor
  · rintro ⟨run, inside, same⟩
    obtain ⟨other, word, found⟩ := List.mem_flatMap.mp inside
    exact ⟨other, word, run, found, same⟩
  · rintro ⟨other, word, run, found, same⟩
    exact ⟨run, List.mem_flatMap.mpr ⟨other, word, found⟩, same⟩

/-- A word of a text with two to 32 alphanumeric characters is found as a query if and only if these
stand together in it, or they are a run of some other word of the text, up to case. -/
theorem normalize_finds_iff {text w : Text} (inside : w ∈ queryWords text)
    (two : 2 ≤ (w.filter isalnum).length) (limit : (w.filter isalnum).length ≤ 32) :
    normalize w ∈ tokenize text ↔
      w.filter isalnum <:+: w ∨ ∃ other ∈ queryWords text, other ≠ w ∧
        ∃ run ∈ runs isalnum other, run.map tolower = (w.filter isalnum).map tolower := by
  have nonempty : w.filter isalnum ≠ [] := by
    intro none
    rw [none] at two
    exact absurd two (by decide)
  rw [normalize_mem_tokenize_iff two limit, filter_isInfix_iff nonempty]
  constructor
  · rintro ⟨other, word, run, found, same⟩
    by_cases own : other = w
    · rw [own] at found
      have sizes := congrArg List.length same
      rw [normalize, List.length_map, List.length_map] at sizes
      rw [← eq_filter_of_mem_runs found sizes.ge]
      exact Or.inl found
    · exact Or.inr ⟨other, word, own, run, found, same⟩
  · rintro (together | ⟨other, word, -, run, found, same⟩)
    · exact ⟨w, inside, w.filter isalnum, together, rfl⟩
    · exact ⟨other, word, run, found, same⟩

theorem normalize_finds_iff_contraction :
    normalize (ascii "don't") ∈ tokenize (ascii "They don't but dont.") ↔
      (ascii "don't").filter isalnum <:+: ascii "don't" ∨
        ∃ other ∈ queryWords (ascii "They don't but dont."), other ≠ ascii "don't" ∧
          ∃ run ∈ runs isalnum other,
            run.map tolower = ((ascii "don't").filter isalnum).map tolower :=
  normalize_finds_iff (by decide +kernel) (by decide) (by decide)

theorem normalize_misses_contraction :
    ascii "don't" ∈ queryWords (ascii "We don't stop.") ∧
      ((ascii "don't").filter isalnum).length = 4 ∧
      tokenize (ascii "We don't stop.") = [ascii "we", ascii "don", ascii "stop"] ∧
      normalize (ascii "don't") ∉ tokenize (ascii "We don't stop.") := by
  refine ⟨by decide +kernel, by decide, by decide +kernel, by decide +kernel⟩

end NewsAggregator
end Syscore
