import Syscore.Library.Ranking
import Syscore.NewsAggregator.Model

/-!
# Answering queries

`normalize` and `runQueries`: what is written for the words on standard input once everything is
indexed.
-/

namespace Syscore
namespace NewsAggregator

/-- `normalize`. -/
def normalize (word : Text) : Text := (word.filter isalnum).map tolower

/-- The words that a loop of `in >> word` extracts. -/
def queryWords (input : Text) : List Text :=
  match _start : input.dropWhile isspace with
  | [] => []
  | first :: rest =>
      ((first :: rest).takeWhile fun char => !isspace char) ::
        queryWords ((first :: rest).dropWhile fun char => !isspace char)
termination_by input.length
decreasing_by
  have kept := List.head?_dropWhile_not isspace input
  rw [_start] at kept
  have word : isspace first = false := by simpa using kept
  have shorter := (rest.dropWhile_sublist fun char => !isspace char).length_le
  have skipped := (input.dropWhile_sublist isspace).length_le
  rw [_start, List.length_cons] at skipped
  rw [List.dropWhile_cons_of_pos (by simp [word])]
  omega

/-- `articles[idx]`. -/
def Shared.article (shared : Shared) (idx : ℕ) : Article :=
  (shared.articles[idx]?).getD { title := [], url := [] }

/-- The entries of `invertedIndex` under a token, by article. -/
def Shared.hits (shared : Shared) (q : Text) : List (ℕ × ℕ) :=
  (List.range shared.articles.length).filterMap fun idx =>
    (shared.invertedIndex q idx).map fun count => (idx, count)

/-- `<` of strings. -/
def textLess (a b : Text) : Bool := compare a b = .lt

/-- The comparison of `runQueries` on a count and an article. -/
def ranksBefore (a b : ℕ × Article) : Bool :=
  if a.1 ≠ b.1 then b.1 < a.1 else textLess a.2.title b.2.title

/-- A hit with its article. -/
def Shared.record (shared : Shared) (hit : ℕ × ℕ) : ℕ × Article := (hit.2, shared.article hit.1)

/-- The comparison that `runQueries` hands to `sort`. -/
def compareHits (shared : Shared) (a b : ℕ × ℕ) : Bool :=
  ranksBefore (shared.record a) (shared.record b)

/-- The line for a hit. -/
def hitLine (record : ℕ × Article) : Text :=
  ascii "  " ++ decimal record.1 ++ ascii "\t" ++ record.2.title ++ ascii " [" ++ record.2.url ++
    ascii "]\n"

/-- One round of the loop of `runQueries`: at most ten hits are shown. -/
def answer (std : StdSort (ℕ × ℕ)) (shared : Shared) (word : Text) : Text :=
  let q := normalize word
  let hits := shared.hits q
  if q = [] ∨ hits = [] then
    ascii "No matches for \"" ++ word ++ ascii "\".\n"
  else
    let sorted := std.sort (compareHits shared) hits
    decimal hits.length ++ ascii " article(s) contain \"" ++ q ++ ascii "\":\n" ++
      (sorted.take 10).flatMap fun hit => hitLine (shared.record hit)

/-- `runQueries`: what is written for an input. -/
def runQueries (std : StdSort (ℕ × ℕ)) (shared : Shared) (input : Text) : Text :=
  (queryWords input).flatMap (answer std shared)

/-! ## The comparison -/

theorem strictWeakOrder_textLess : StrictWeakOrder textLess where
  asymm a b less := by
    have swap : compare b a = (compare a b).swap := Std.OrientedCmp.eq_swap
    rw [textLess, decide_eq_true_iff] at less
    rw [textLess, decide_eq_false_iff_not, swap, less]
    decide
  cotrans a b c less := by
    have swap : compare b a = (compare a b).swap := Std.OrientedCmp.eq_swap
    rw [textLess, decide_eq_true_iff] at less
    by_cases first : compare a b = .lt
    · exact Or.inl (decide_eq_true first)
    · refine Or.inr (decide_eq_true (Std.TransCmp.lt_of_isLE_of_lt ?_ less))
      rw [swap]
      cases order : compare a b with
      | lt => exact absurd order first
      | eq => rfl
      | gt => rfl

/-- Titles neither of which is smaller are equal. -/
theorem eq_of_textLess {a b : Text} (forward : textLess a b = false)
    (backward : textLess b a = false) : a = b := by
  have swap : compare b a = (compare a b).swap := Std.OrientedCmp.eq_swap
  rw [textLess, decide_eq_false_iff_not] at forward backward
  rw [swap] at backward
  cases order : compare a b with
  | eq => exact Std.LawfulEqCmp.eq_of_compare order
  | lt => exact absurd order forward
  | gt => exact absurd (by rw [order]; rfl) backward

theorem strictWeakOrder_ranksBefore : StrictWeakOrder ranksBefore where
  asymm a b before := by
    rw [ranksBefore] at before ⊢
    by_cases same : a.1 = b.1
    · rw [if_neg (not_not.mpr same)] at before
      rw [if_neg (not_not.mpr same.symm)]
      exact strictWeakOrder_textLess.asymm _ _ before
    · rw [if_pos same, decide_eq_true_iff] at before
      rw [if_pos (Ne.symm same), decide_eq_false_iff_not]
      exact before.asymm
  cotrans a b c before := by
    rw [ranksBefore] at before
    rw [ranksBefore, ranksBefore]
    by_cases same : a.1 = c.1
    · rw [if_neg (not_not.mpr same)] at before
      by_cases middle : a.1 = b.1
      · rw [if_neg (not_not.mpr middle), if_neg (not_not.mpr (middle.symm.trans same))]
        exact strictWeakOrder_textLess.cotrans _ _ _ before
      · rw [if_pos middle, if_pos fun equal => middle (same.trans equal.symm), decide_eq_true_iff,
          decide_eq_true_iff]
        omega
    · rw [if_pos same, decide_eq_true_iff] at before
      by_cases first : a.1 = b.1
      · rw [if_pos fun equal => same (first.trans equal)]
        exact Or.inr (decide_eq_true (by omega))
      · rw [if_pos first]
        by_cases second : b.1 = c.1
        · exact Or.inl (decide_eq_true (by omega))
        · rw [if_pos second, decide_eq_true_iff, decide_eq_true_iff]
          omega

theorem strictWeakOrder_compareHits (shared : Shared) : StrictWeakOrder (compareHits shared) where
  asymm _ _ := strictWeakOrder_ranksBefore.asymm _ _
  cotrans _ _ _ := strictWeakOrder_ranksBefore.cotrans _ _ _

/-! ## The ranking of the articles -/

/-- The hits of a token with their articles. -/
def Shared.records (shared : Shared) (q : Text) : List (ℕ × Article) :=
  (shared.hits q).map shared.record

/-- The hits in the order in which `sort` leaves them, with their articles. -/
def ranking (std : StdSort (ℕ × ℕ)) (shared : Shared) (q : Text) : List (ℕ × Article) :=
  (std.sort (compareHits shared) (shared.hits q)).map shared.record

theorem ranking_perm (std : StdSort (ℕ × ℕ)) (shared : Shared) (q : Text) :
    (ranking std shared q).Perm (shared.records q) :=
  (std.perm _ _).map _

theorem ranking_sorted (std : StdSort (ℕ × ℕ)) (shared : Shared) (q : Text) :
    (ranking std shared q).Pairwise fun first second => ranksBefore second first = false := by
  rw [ranking, List.pairwise_map]
  exact std.sorted _ (strictWeakOrder_compareHits shared) _

/-- An answer depends on the number of hits and on the first ten of their ranking. -/
theorem answer_congr {std : StdSort (ℕ × ℕ)} {first second : Shared} {word : Text}
    (number : (first.records (normalize word)).length = (second.records (normalize word)).length)
    (top : (ranking std first (normalize word)).take 10 =
      (ranking std second (normalize word)).take 10) :
    answer std first word = answer std second word := by
  have lines (shared : Shared) :
      ((std.sort (compareHits shared) (shared.hits (normalize word))).take 10).flatMap
          (fun hit => hitLine (shared.record hit)) =
        ((ranking std shared (normalize word)).take 10).flatMap hitLine := by
    rw [ranking, ← List.map_take, List.flatMap_map]
  have count : (first.hits (normalize word)).length = (second.hits (normalize word)).length := by
    simpa only [Shared.records, List.length_map] using number
  have empty : first.hits (normalize word) = [] ↔ second.hits (normalize word) = [] := by
    rw [← List.length_eq_zero_iff, ← List.length_eq_zero_iff, count]
  simp only [answer, lines, top, count, empty]

end NewsAggregator
end Syscore
