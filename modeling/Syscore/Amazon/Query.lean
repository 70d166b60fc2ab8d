import Mathlib.Data.List.Infix
import Syscore.Amazon.KeywordIndex

/-!
# Queries are exact

`searchKeywordIndex` on the file that the builder writes returns the reviews that hold every term of
the query, a term being held when its words follow one another in one field.
-/

namespace Syscore
namespace Amazon

/-! ## Terms -/

/-- Some field of the review holds the words of the term one after the other. -/
def HoldsTerm (r : Rec) (term : List Text) : Prop :=
  ∃ text ∈ r.fields, term <:+: splitWords text

/-- The words of a term stand one after the other from a place in a field on. -/
def TermAt (recs : List Rec) (term : List Text) (review field off : ℕ) : Prop :=
  ∀ k word, term[k]? = some word → IsPosition recs word ⟨review, field, off + k⟩

theorem exists_termAt {recs : List Rec} {term : List Text} (nonempty : term ≠ []) {review : ℕ} :
    (∃ field off, TermAt recs term review field off) ↔
      ∃ r, recs[review]? = some r ∧ HoldsTerm r term := by
  constructor
  · rintro ⟨field, off, placed⟩
    have someLast :=
      List.getElem?_eq_getElem (Nat.sub_one_lt (List.length_pos_iff.mpr nonempty).ne')
    obtain ⟨r, text, at_review, at_field, at_last⟩ := placed _ _ someLast
    obtain ⟨inside, _⟩ := List.getElem?_eq_some_iff.mp at_last
    have inside : off + (term.length - 1) < (splitWords text).length := inside
    refine ⟨r, at_review, text, List.mem_of_getElem? at_field, List.infix_iff_getElem?.mpr
      ⟨off, by omega, fun k small => ?_⟩⟩
    obtain ⟨r', text', at_review', at_field', at_off⟩ :=
      placed k term[k] (List.getElem?_eq_getElem small)
    obtain rfl := Option.some.inj (at_review.symm.trans at_review')
    obtain rfl := Option.some.inj (at_field.symm.trans at_field')
    rw [Nat.add_comm]
    exact at_off
  · rintro ⟨r, at_review, text, holds, within⟩
    obtain ⟨field, at_field⟩ := List.mem_iff_getElem?.mp holds
    obtain ⟨off, _, words⟩ := List.infix_iff_getElem?.mp within
    refine ⟨field, off, fun k word at_k => ⟨r, text, at_review, at_field, ?_⟩⟩
    obtain ⟨small, rfl⟩ := List.getElem?_eq_some_iff.mp at_k
    have here := words k small
    rwa [Nat.add_comm] at here

/-! ## Matching one term -/

/-- The engine on the file of the reviews. -/
def built (recs : List Rec) : Engine := ⟨some (keywordIndexFile recs), (keywordMap recs).size⟩

/-- The set of positions that a phrase search collects for a word. -/
def positionSet (recs : List Rec) (word : Text) : Finset Pos :=
  ((positions recs word).map fun o => (o.reviewIndex, o.field, o.wordOffset)).toFinset

theorem mem_positionSet {recs : List Rec} {word : Text} {pos : Pos} :
    pos ∈ positionSet recs word ↔ IsPosition recs word ⟨pos.1, pos.2.1, pos.2.2⟩ := by
  simp only [positionSet, List.mem_toFinset, List.mem_map]
  constructor
  · rintro ⟨o, inside, rfl⟩
    exact mem_positions.mp inside
  · intro position
    exact ⟨_, mem_positions.mpr position, rfl⟩

theorem toInt_of_lt {value : ℕ} (small : value < 2 ^ 31) : toInt value = value := if_pos small

section Built

variable {recs : List Rec} (few : recs.length < 2 ^ 31) (short : ShortFields recs)
  (small : (keywordIndexFile recs).length < 2 ^ 32)

include few short in
theorem isPosition_bounds {word : Text} {o : Occurrence} (position : IsPosition recs word o) :
    o.reviewIndex < 2 ^ 31 ∧ o.wordOffset < 2 ^ 24 := by
  have fits := position_bounds (few.trans (by decide)) short (mem_positions.mpr position)
  obtain ⟨r, text, review, _⟩ := position
  obtain ⟨inside, _⟩ := List.getElem?_eq_some_iff.mp review
  exact ⟨inside.trans few, fits.2.2⟩

include few short small in
theorem findKeyword_built {word : Text} (nulFree : 0 ∉ word) :
    findKeyword (built recs) word =
      some (!(positions recs word).isEmpty, positions recs word) :=
  findKeyword_eq (few.trans (by decide)) short small nulFree

include few short small in
/-- The phrase search collects the positions of every word, or stops at one that does not occur. -/
theorem phrasePositions_built {term : List Text} (nulFree : ∀ word ∈ term, 0 ∉ word) :
    phrasePositions (built recs) term =
      some (if ∀ word ∈ term, positions recs word ≠ [] then
        some (term.map (positionSet recs)) else none) := by
  induction term with
  | nil => simp [phrasePositions]
  | cons word term ih =>
      have later := ih fun word inside => nulFree word (List.mem_cons_of_mem _ inside)
      rw [phrasePositions, findKeyword_built few short small (nulFree word List.mem_cons_self),
        later]
      cases found : positions recs word with
      | nil => simp [found]
      | cons o occ =>
          simp only [List.isEmpty_cons, List.forall_mem_cons, found]
          by_cases occur : ∀ word ∈ term, positions recs word ≠ [] <;>
            simp [occur, positionSet, found]

include few short in
/-- The offsets that the verification adds up never wrap. -/
theorem phraseFollows_iff {first : Text} {rest : List Text} {anchor : Pos}
    (anchored : IsPosition recs first ⟨anchor.1, anchor.2.1, anchor.2.2⟩) :
    phraseFollows anchor (rest.map (positionSet recs)) = true ↔
      TermAt recs (first :: rest) anchor.1 anchor.2.1 anchor.2.2 := by
  have verified : phraseFollows anchor (rest.map (positionSet recs)) = true ↔
      ∀ k word, rest[k]? = some word → IsPosition recs word
        ⟨anchor.1, anchor.2.1, (anchor.2.2 + (k + 1) % 2 ^ 32) % 2 ^ 32⟩ := by
    simp only [phraseFollows, List.all_eq_true, Prod.forall, List.mem_zipIdx_iff_getElem?,
      decide_eq_true_eq, List.getElem?_map, Option.map_eq_some_iff]
    constructor
    · intro each k word at_k
      exact mem_positionSet.mp (each _ k ⟨word, at_k, rfl⟩)
    · rintro each _ k ⟨word, at_k, rfl⟩
      exact mem_positionSet.mpr (each k word at_k)
  rw [verified]
  constructor
  · intro follows k
    induction k with
    | zero =>
        intro word at_zero
        obtain rfl : first = word := by simpa using at_zero
        exact anchored
    | succ k ih =>
        intro word at_k
        have at_k : rest[k]? = some word := by simpa using at_k
        obtain ⟨inside, _⟩ := List.getElem?_eq_some_iff.mp at_k
        have before : k < (first :: rest).length := by simp; omega
        have bound := (isPosition_bounds few short (ih _ (List.getElem?_eq_getElem before))).2
        have bound : anchor.2.2 + k < 2 ^ 24 := bound
        have position := follows k word at_k
        rwa [show (anchor.2.2 + (k + 1) % 2 ^ 32) % 2 ^ 32 = anchor.2.2 + (k + 1) by omega]
          at position
  · intro placed k word at_k
    have position := placed (k + 1) word (by simpa using at_k)
    have bound : anchor.2.2 + (k + 1) < 2 ^ 24 := (isPosition_bounds few short position).2
    rwa [show (anchor.2.2 + (k + 1) % 2 ^ 32) % 2 ^ 32 = anchor.2.2 + (k + 1) by omega]

include few short small in
/-- The reviews that one term matches. -/
theorem termMatches_built {term : List Text} (nonempty : term ≠ [])
    (nulFree : ∀ word ∈ term, 0 ∉ word) :
    ∃ found, termMatches (built recs) term = some found ∧ ∀ i : ℤ, i ∈ found ↔
      ∃ review : ℕ, i = review ∧ ∃ field off, TermAt recs term review field off := by
  have asInt {word : Text} {o : Occurrence} (position : IsPosition recs word o) :
      toInt o.reviewIndex = o.reviewIndex :=
    toInt_of_lt (isPosition_bounds few short position).1
  match term, nonempty with
  | [word], _ =>
      have nulFree := nulFree word List.mem_cons_self
      refine ⟨((positions recs word).map fun o => toInt o.reviewIndex).toFinset, ?_, fun i => ?_⟩
      · rw [termMatches, findKeyword_built few short small nulFree]
        cases positions recs word <;> rfl
      · simp only [List.mem_toFinset, List.mem_map, mem_positions]
        constructor
        · rintro ⟨o, position, rfl⟩
          refine ⟨o.reviewIndex, asInt position, o.field, o.wordOffset, fun k other at_k => ?_⟩
          cases k with
          | zero =>
              obtain rfl : word = other := by simpa using at_k
              exact position
          | succ k => simp at at_k
        · rintro ⟨review, rfl, field, off, placed⟩
          have position := placed 0 word rfl
          exact ⟨_, position, asInt position⟩
  | first :: second :: rest, _ =>
      rw [termMatches.eq_2 _ _ (by simp), phrasePositions_built few short small nulFree]
      by_cases occur : ∀ word ∈ first :: second :: rest, positions recs word ≠ []
      · rw [if_pos occur]
        refine ⟨_, rfl, fun i => ?_⟩
        simp only [List.map_cons, Finset.mem_image, Finset.mem_filter]
        constructor
        · rintro ⟨anchor, ⟨inside, follows⟩, rfl⟩
          have anchored := mem_positionSet.mp inside
          rw [← List.map_cons, phraseFollows_iff few short anchored] at follows
          exact ⟨anchor.1, asInt anchored, anchor.2.1, anchor.2.2, follows⟩
        · rintro ⟨review, rfl, field, off, placed⟩
          have anchored := placed 0 first rfl
          refine ⟨(review, field, off), ⟨mem_positionSet.mpr anchored, ?_⟩, asInt anchored⟩
          rw [← List.map_cons]
          exact (phraseFollows_iff few short anchored).mpr placed
      · rw [if_neg occur]
        refine ⟨∅, rfl, fun i => ⟨fun inside => absurd inside (Finset.notMem_empty i), ?_⟩⟩
        rintro ⟨review, rfl, field, off, placed⟩
        refine absurd (fun word inside => ?_) occur
        obtain ⟨k, at_k⟩ := List.mem_iff_getElem?.mp inside
        exact List.ne_nil_of_mem (mem_positions.mpr (placed k word at_k))

end Built

/-! ## The whole query -/

/-- The intersection over the terms, whether or not the loop leaves early. -/
theorem searchTerms_some {engine : Engine} {terms : List (List Text)} {holds : List Text → ℤ → Prop}
    (each : ∀ term ∈ terms, ∃ found, termMatches engine term = some found ∧
      ∀ i, i ∈ found ↔ holds term i) (result : Finset ℤ) :
    ∃ final, searchTerms engine (some result) terms = some final ∧
      ∀ i, i ∈ final ↔ i ∈ result ∧ ∀ term ∈ terms, holds term i := by
  induction terms generalizing result with
  | nil => exact ⟨result, rfl, by simp⟩
  | cons term terms ih =>
      obtain ⟨found, matched, members⟩ := each term List.mem_cons_self
      have both (i : ℤ) : i ∈ result ∩ found ↔ i ∈ result ∧ holds term i := by
        rw [Finset.mem_inter, members]
      rw [searchTerms, matched]
      simp only [Option.bind_eq_bind, Option.bind_some, List.forall_mem_cons, ← and_assoc, ← both]
      by_cases empty : result ∩ found = ∅
      · refine ⟨∅, by rw [if_pos empty, empty]; rfl, fun i => ?_⟩
        simp [empty]
      · rw [if_neg empty]
        exact ih (fun term inside => each term (List.mem_cons_of_mem _ inside)) _

theorem searchTerms_none {engine : Engine} {terms : List (List Text)} {holds : List Text → ℤ → Prop}
    (nonempty : terms ≠ []) (each : ∀ term ∈ terms, ∃ found,
      termMatches engine term = some found ∧ ∀ i, i ∈ found ↔ holds term i) :
    ∃ final, searchTerms engine none terms = some final ∧
      ∀ i, i ∈ final ↔ ∀ term ∈ terms, holds term i := by
  cases terms with
  | nil => exact absurd rfl nonempty
  | cons term terms =>
      obtain ⟨found, matched, members⟩ := each term List.mem_cons_self
      rw [searchTerms, matched]
      simp only [Option.bind_eq_bind, Option.bind_some, List.forall_mem_cons, ← members]
      by_cases empty : found = ∅
      · refine ⟨∅, by rw [if_pos empty, empty]; rfl, fun i => ?_⟩
        simp [empty]
      · rw [if_neg empty]
        exact searchTerms_some (fun term inside => each term (List.mem_cons_of_mem _ inside)) _

/-- The review of a number holds every term of the query, and the query has a term. -/
def Answers (recs : List Rec) (query : Text) (i : ℤ) : Prop :=
  convertQuery query ≠ [] ∧ ∃ review : ℕ, i = review ∧ ∃ r, recs[review]? = some r ∧
    ∀ term ∈ convertQuery query, HoldsTerm r term

/-- A search yields the answers in strictly ascending order, and tells whether there are any. -/
def AnswersExactly (recs : List Rec) (engine : Engine) (query : Text) : Prop :=
  ∃ found reviewIndexes, searchKeywordIndex engine query = some (found, reviewIndexes) ∧
    reviewIndexes.Pairwise (· < ·) ∧ (∀ i, i ∈ reviewIndexes ↔ Answers recs query i) ∧
      (convertQuery query = [] → reviewIndexes = []) ∧ (found = true ↔ reviewIndexes ≠ [])

/-- Keyword search over a built database is exact. -/
theorem keyword_search_exact (recs : List Rec) (few : recs.length < 2 ^ 31)
    (short : ShortFields recs) (small : (keywordIndexFile recs).length < 2 ^ 32) :
    ∃ engine, Engine.open (keywordIndexFile recs) = some engine ∧
      ∀ query : Text, AnswersExactly recs engine query := by
  refine ⟨built recs, open_keywordIndexFile small, fun query => ?_⟩
  by_cases empty : convertQuery query = []
  · refine ⟨false, [], by rw [searchKeywordIndex, if_pos empty], List.Pairwise.nil, fun i => ?_,
      fun _ => rfl, by simp⟩
    exact ⟨fun inside => absurd inside List.not_mem_nil, fun answers => absurd empty answers.1⟩
  · have each : ∀ term ∈ convertQuery query, ∃ found, termMatches (built recs) term = some found ∧
        ∀ i : ℤ, i ∈ found ↔ ∃ review : ℕ, i = review ∧ ∃ r, recs[review]? = some r ∧
          HoldsTerm r term := by
      intro term inside
      obtain ⟨nonempty, nulFree⟩ := convertQuery_terms inside
      simp only [← exists_termAt nonempty]
      exact termMatches_built few short small nonempty nulFree
    obtain ⟨final, searched, members⟩ := searchTerms_none empty each
    refine ⟨_, final.sort (· ≤ ·), by rw [searchKeywordIndex, if_neg empty, searched]; rfl,
      final.sortedLT_sort.pairwise, fun i => ?_, fun none => absurd none empty, by simp⟩
    rw [Finset.mem_sort, members]
    constructor
    · intro holds
      refine ⟨empty, ?_⟩
      obtain ⟨term, inside⟩ := List.exists_mem_of_ne_nil _ empty
      obtain ⟨review, rfl, r, at_review, _⟩ := holds term inside
      refine ⟨review, rfl, r, at_review, fun term inside => ?_⟩
      obtain ⟨review', same, r', at_review', held⟩ := holds term inside
      obtain rfl := Int.ofNat_inj.mp same
      obtain rfl := Option.some.inj (at_review.symm.trans at_review')
      exact held
    · rintro ⟨_, review, rfl, r, at_review, held⟩ term inside
      exact ⟨review, rfl, r, at_review, held term inside⟩

theorem keyword_search_exact_two : ∃ engine,
    Engine.open (keywordIndexFile twoReviews) = some engine ∧
      ∀ query : Text, AnswersExactly twoReviews engine query :=
  keyword_search_exact twoReviews (by decide) twoReviews_short twoReviews_small

end Amazon
end Syscore
