import Syscore.Amazon.Words
import Syscore.Library.Stream

/-!
# What quotation marks do in a query

The terms of `convertQuery` follow the stretches of the query between its quotation marks: a stretch
inside quotation marks is one term, and each word outside is a term of its own.
-/

namespace Syscore
namespace Amazon

/-! ## The stretches of a query -/

/-- A stretch of a query without a quotation mark. -/
structure Segment where
  quoted : Bool
  text : Text
  deriving DecidableEq

/-- The terms that a stretch gives: all its words as one term, or each as its own. -/
def Segment.terms (segment : Segment) : List (List Text) :=
  if segment.quoted then
    if splitWords segment.text ≠ [] then [splitWords segment.text] else []
  else
    (splitWords segment.text).map fun word => [word]

/-- Every second one of some stretches is quoted. -/
def alternate (quoted : Bool) : List Text → List Segment
  | [] => []
  | text :: texts => { quoted, text } :: alternate (!quoted) texts

/-- The stretches between the quotation marks of a query: the first is outside them. -/
def segments (query : Text) : List Segment := alternate false (query.splitOn quote)

theorem quote_separates : isalnum quote = false := by decide

/-- The stretches of a query make up the query. -/
theorem segments_text (query : Text) :
    [quote].intercalate ((segments query).map Segment.text) = query := by
  have texts (quoted : Bool) (texts : List Text) :
      (alternate quoted texts).map Segment.text = texts := by
    induction texts generalizing quoted with
    | nil => rfl
    | cons text texts ih => rw [alternate, List.map_cons, ih]
  rw [segments, texts, List.intercalate_splitOn]

/-- No stretch of a query holds a quotation mark. -/
theorem quote_notMem_segments (query : Text) :
    ∀ segment ∈ segments query, quote ∉ segment.text := by
  have texts (quoted : Bool) (texts : List Text) (free : ∀ text ∈ texts, quote ∉ text) :
      ∀ segment ∈ alternate quoted texts, quote ∉ segment.text := by
    induction texts generalizing quoted with
    | nil => exact fun _ inside => absurd inside List.not_mem_nil
    | cons text texts ih =>
        obtain ⟨own, later⟩ := List.forall_mem_cons.mp free
        exact List.forall_mem_cons.mpr ⟨own, ih (!quoted) later⟩
  refine texts false _ fun text inside member => ?_
  have apart := not_sep_of_mem_splitOnP inside quote member
  exact absurd apart (by decide)

/-- A stretch keeps its words. -/
theorem Segment.flatten_terms (segment : Segment) :
    segment.terms.flatten = splitWords segment.text := by
  rw [Segment.terms]
  split
  · split
    · exact List.flatten_singleton
    · rename_i none
      rw [not_not.mp none, List.flatten_nil]
  · rw [← List.flatMap_def]
    exact List.flatMap_singleton' _

/-- A term of several words is the only one of a quoted stretch. -/
theorem Segment.terms_of_several {segment : Segment} {term : List Text}
    (inside : term ∈ segment.terms) (several : 1 < term.length) :
    segment.quoted = true ∧ term = splitWords segment.text ∧ segment.terms = [term] := by
  rw [Segment.terms] at inside ⊢
  split at inside
  · rename_i quoted
    split at inside
    · rename_i nonempty
      rw [if_pos quoted, if_pos nonempty, List.mem_singleton.mp inside]
      exact ⟨quoted, rfl, rfl⟩
    · cases inside
  · obtain ⟨word, found, rfl⟩ := List.mem_map.mp inside
    exact absurd several (Nat.lt_irrefl 1)

/-! ## The scanner follows the stretches -/

/-- What the stretches of a query give as its terms. -/
def segmentTerms (texts : List Text) (quoted : Bool) : List (List Text) :=
  (alternate quoted texts).flatMap Segment.terms

/-- A text in front of a query goes to its first stretch. -/
theorem splitOn_append {token : Text} (free : quote ∉ token) (rest : Text) :
    (token ++ rest).splitOn quote = (rest.splitOn quote).modifyHead (token ++ ·) := by
  induction token with
  | nil => exact (congrFun List.modifyHead_id _).symm
  | cons ch token ih =>
      have other : (ch == quote) = false :=
        beq_eq_false_iff_ne.mpr (List.ne_of_not_mem_cons free).symm
      rw [List.cons_append, List.splitOn_cons_eq_if_modifyHead, other, if_neg Bool.false_ne_true,
        ih (List.not_mem_of_not_mem_cons free), List.modifyHead_modifyHead]
      rfl

/-- The stretch at the front of a query. -/
theorem exists_splitOn_eq_cons (rest : Text) :
    ∃ head tail, rest.splitOn quote = head :: tail ∧ head <+: rest := by
  cases rest with
  | nil => exact ⟨[], [], rfl, List.nil_prefix⟩
  | cons ch rest =>
      obtain ⟨head, tail, shape⟩ :=
        List.exists_cons_of_ne_nil (List.splitOn_ne_nil quote (ch :: rest))
      have whole : [quote].intercalate ((ch :: rest).splitOn quote) = ch :: rest :=
        List.intercalate_splitOn quote
      rw [shape] at whole
      cases tail with
      | nil =>
          rw [List.intercalate_singleton] at whole
          exact ⟨head, [], shape, whole ▸ List.prefix_rfl⟩
      | cons next tail =>
          rw [List.intercalate_cons_cons, List.append_assoc] at whole
          exact ⟨head, next :: tail, shape, whole ▸ List.prefix_append _ _⟩

/-- A token outside quotation marks gives its words, one term each. -/
theorem segmentTerms_append {token : Text} (free : quote ∉ token) (rest : Text)
    (cuts : ∀ head, head <+: rest →
      splitWords (token ++ head) = splitWords token ++ splitWords head) :
    segmentTerms ((token ++ rest).splitOn quote) false =
      (splitWords token).map (fun word => [word]) ++ segmentTerms (rest.splitOn quote) false := by
  obtain ⟨head, tail, shape, start⟩ := exists_splitOn_eq_cons rest
  have bare (text : Text) :
      Segment.terms ⟨false, text⟩ = (splitWords text).map fun word => [word] :=
    rfl
  rw [splitOn_append free, shape, List.modifyHead_cons, segmentTerms, alternate, List.flatMap_cons,
    bare, cuts head start, List.map_append, List.append_assoc]
  rfl

/-- A phrase in quotation marks is one term; without a closing one it reaches to the end. -/
theorem segmentTerms_quote (rest : Text) :
    segmentTerms ((quote :: rest).splitOn quote) false =
      Segment.terms ⟨true, rest.takeWhile (· ≠ quote)⟩ ++
        segmentTerms (((rest.dropWhile (· ≠ quote)).drop 1).splitOn quote) false := by
  have opened : (quote :: rest).splitOn quote = [] :: rest.splitOn quote :=
    List.splitOn_append_cons_self_of_not_mem List.not_mem_nil rest
  have outside : segmentTerms ([] :: rest.splitOn quote) false =
      segmentTerms (rest.splitOn quote) true := rfl
  rw [opened, outside]
  by_cases closed : quote ∈ rest
  · obtain ⟨phrase, remaining, rfl, free⟩ := List.eq_append_cons_of_mem closed
    obtain ⟨taken, dropped⟩ := cut_at free remaining
    rw [List.splitOn_append_cons_self_of_not_mem free, taken, dropped]
    rfl
  · have kept : ∀ ch ∈ rest, decide (ch ≠ quote) = true := fun ch inside =>
      decide_eq_true fun same => closed (same ▸ inside)
    rw [List.splitOn_eq_singleton closed, List.takeWhile_eq_self_iff.mpr kept,
      List.dropWhile_eq_nil_iff.mpr kept]
    rfl

/-- The terms of a query are those of its stretches. -/
theorem convertQuery_eq (query : Text) :
    convertQuery query = (segments query).flatMap Segment.terms := by
  change convertQuery query = segmentTerms (query.splitOn quote) false
  induction query using convertQuery.induct with
  | case1 => rw [convertQuery]; rfl
  | case2 ch rest space ih =>
      have separates := isalnum_of_isspace space
      have other : quote ∉ [ch] := fun inside => by
        rw [← List.mem_singleton.mp inside] at space
        exact absurd space (by decide)
      have none : splitWords [ch] = [] := splitWords_cons separates []
      have split := segmentTerms_append other rest fun head _ => by
        rw [none]
        exact splitWords_cons separates head
      rw [none] at split
      rw [convertQuery, if_pos space, ih]
      exact split.symm
  | case3 rest remaining space ih =>
      rw [convertQuery, if_neg space, if_pos rfl, segmentTerms_quote]
      exact congrArg (Segment.terms ⟨true, _⟩ ++ ·) ih
  | case4 ch rest space other inToken ih =>
      let token := ch :: rest.takeWhile inToken
      have whole : token ++ rest.dropWhile inToken = ch :: rest :=
        congrArg (ch :: ·) List.takeWhile_append_dropWhile
      have free : quote ∉ token := by
        rw [List.mem_cons, not_or]
        refine ⟨Ne.symm other, fun inside => ?_⟩
        have kept := List.all_eq_true.mp List.all_takeWhile quote inside
        exact absurd kept (by simp [inToken])
      -- the token ends at a space, at a quotation mark or at the end of the query
      have stop : ∀ c ∈ (rest.dropWhile inToken).head?, isalnum c = false := by
        intro c first
        have stopped := List.head?_dropWhile_not inToken rest
        rw [Option.mem_def.mp first] at stopped
        have separator : (!isspace c && decide (c ≠ quote)) = false := stopped
        cases gap : isspace c with
        | true => exact isalnum_of_isspace gap
        | false =>
            rw [gap, Bool.not_false, Bool.true_and, decide_eq_false_iff_not, not_not] at separator
            rw [separator]
            exact quote_separates
      have cuts (head : Text) (start : head <+: rest.dropWhile inToken) :
          splitWords (token ++ head) = splitWords token ++ splitWords head := by
        obtain ⟨tail, same⟩ := start
        refine splitWords_append token fun c first => stop c ?_
        rw [← same, List.head?_append, Option.mem_def.mp first]
        rfl
      have split := segmentTerms_append free _ cuts
      rw [whole] at split
      rw [convertQuery, if_neg space, if_neg other, split]
      exact congrArg ((splitWords token).map (fun word => [word]) ++ ·) ih

/-! ## Quoting groups words -/

/-- The stretches of a query keep its words. -/
theorem flatten_segments (query : Text) :
    ((segments query).flatMap Segment.terms).flatten = splitWords query := by
  have words (texts : List Text) (quoted : Bool) :
      ((alternate quoted texts).flatMap Segment.terms).flatten = texts.flatMap splitWords := by
    induction texts generalizing quoted with
    | nil => rfl
    | cons text texts ih =>
        rw [alternate, List.flatMap_cons, List.flatten_append, Segment.flatten_terms, ih,
          List.flatMap_cons]
  have cut (texts : List Text) :
      splitWords ([quote].intercalate texts) = texts.flatMap splitWords := by
    rw [splitWords_eq, runs_intercalate quote_separates, List.map_flatMap]
    exact List.flatMap_congr fun text _ => (splitWords_eq text).symm
  rw [segments, words, ← cut, List.intercalate_splitOn]

/-- A term of several words among those of some stretches has a quoted stretch to itself. -/
theorem exists_segment {stretches : List Segment} {before after : List (List Text)}
    {term : List Text} (found : stretches.flatMap Segment.terms = before ++ term :: after)
    (several : 1 < term.length) :
    ∃ earlier phrase later, stretches = earlier ++ ⟨true, phrase⟩ :: later ∧
      term = splitWords phrase ∧ earlier.flatMap Segment.terms = before ∧
      later.flatMap Segment.terms = after := by
  induction stretches generalizing before with
  | nil => simp at found
  | cons segment stretches ih =>
      rw [List.flatMap_cons] at found
      rcases List.append_eq_append_iff.mp found with ⟨skipped, here, rest⟩ | ⟨own, here, rest⟩
      · -- the term belongs to a later stretch
        obtain ⟨earlier, phrase, later, rfl, words, first, last⟩ := ih rest
        refine ⟨segment :: earlier, phrase, later, rfl, words, ?_, last⟩
        rw [List.flatMap_cons, first, here]
      · cases own with
        | nil =>
            rw [List.append_nil] at here
            obtain ⟨earlier, phrase, later, rfl, words, first, last⟩ :=
              ih (rest.symm.trans (List.nil_append _).symm)
            refine ⟨segment :: earlier, phrase, later, rfl, words, ?_, last⟩
            rw [List.flatMap_cons, first, List.append_nil, here]
        | cons head own =>
            -- the term belongs to this stretch and is all of it
            obtain ⟨rfl, later⟩ := List.cons.inj rest
            have inside : term ∈ segment.terms := by rw [here]; simp
            obtain ⟨quoted, words, alone⟩ := Segment.terms_of_several inside several
            obtain ⟨flag, text⟩ := segment
            subst quoted
            rw [alone] at here
            obtain ⟨none, rest⟩ : before = [] ∧ own = [] := by
              have sizes := congrArg List.length here
              rw [List.length_append, List.length_singleton, List.length_cons] at sizes
              exact ⟨List.length_eq_zero_iff.mp (by omega), List.length_eq_zero_iff.mp (by omega)⟩
            rw [later, none, rest]
            exact ⟨[], text, stretches, rfl, words, rfl, rfl⟩

/-- Quotation marks only group the words of a query: the terms hold its words in order, and a term
of several words is all that one quoted stretch gives. -/
theorem convertQuery_groups_words (query : Text) :
    (convertQuery query).flatten = splitWords query ∧
      (∀ term ∈ convertQuery query, term ≠ [] ∧
        ∀ word ∈ term, word ≠ [] ∧ ∀ ch ∈ word, isalnum ch = true ∧ isupper ch = false) ∧
      [quote].intercalate ((segments query).map Segment.text) = query ∧
      (∀ segment ∈ segments query, quote ∉ segment.text) ∧
      convertQuery query = (segments query).flatMap Segment.terms ∧
      ∀ before term after, convertQuery query = before ++ term :: after → 1 < term.length →
        ∃ earlier phrase later, segments query = earlier ++ ⟨true, phrase⟩ :: later ∧
          term = splitWords phrase ∧ earlier.flatMap Segment.terms = before ∧
          later.flatMap Segment.terms = after := by
  have words : (convertQuery query).flatten = splitWords query := by
    rw [convertQuery_eq, flatten_segments]
  refine ⟨words, fun term inside => ⟨(convertQuery_terms inside).1, fun word member => ?_⟩,
    segments_text query, quote_notMem_segments query, convertQuery_eq query,
    fun before term after found several => ?_⟩
  · refine splitWords_clean (s := query) ?_
    rw [← words]
    exact List.mem_flatten_of_mem inside member
  · rw [convertQuery_eq] at found
    exact exists_segment found several

/-- An unclosed phrase after a word and a closed one. -/
example : convertQuery (ascii "Red \"hot, pan\" x\"to go") =
    [[ascii "red"], [ascii "hot", ascii "pan"], [ascii "x"], [ascii "to", ascii "go"]] := by
  decide +kernel

end Amazon
end Syscore
