import Syscore.Amazon.Lines
import Syscore.Amazon.Query
import Syscore.Library.Ranking

/-!
# The report of a search

`main` of `amazon_search`, from the words of the query to what is printed: the two files are opened,
the keyword index is searched, the reviews found are fetched, sorted and printed up to a limit. Over
files that `mkamazondb` wrote it reports the reviews that match, ranked.
-/

namespace Syscore
namespace Amazon

/-! ## Printing -/

/-- `printReview`. -/
def printReview (r : Review) : Text :=
  ascii "Review #" ++ decimal r.index ++ ascii ":\n" ++
    ascii "  Title:    " ++ r.productTitle ++ ascii "\n" ++
    ascii "  Category: " ++ r.productCategory ++ ascii "\n" ++
    ascii "  Rating:   " ++ decimalInt r.starRating ++ ascii " star(s)\n" ++
    ascii "  Headline: " ++ r.reviewHeadline ++ ascii "\n" ++
    ascii "  Date:     " ++ decimalInt r.reviewYear ++ ascii "-" ++ decimalInt r.reviewMonth ++
      ascii "-" ++ decimalInt r.reviewDay ++ ascii "\n" ++
    ascii "  Body:     " ++ r.reviewBody ++ ascii "\n"

/-- The loop over the sorted reviews: `shown` so far. -/
def printReviews (limit : ℤ) (shown : ℕ) : List Review → Text
  | [] => []
  | r :: reviews =>
      if 0 ≤ limit ∧ limit.toNat ≤ shown then
        []
      else
        printReview r ++ printReviews limit (shown + 1) reviews

/-- The line before the reviews. -/
def foundLine (found totalReviews : ℕ) : Text :=
  ascii "Found " ++ decimal found ++ ascii " matching reviews out of " ++ decimal totalReviews ++
    ascii " reviews in the database.\n"

/-! ## Sorting -/

/-- The `cmp` of a key: any other key than the three is the date. -/
def compareBy (key : Text) (a b : Review) : Bool :=
  if key = ascii "stars" then
    a.starRating < b.starRating
  else if key = ascii "bodysize" then
    a.reviewBody.length < b.reviewBody.length
  else if key = ascii "title" then
    compare a.productTitle b.productTitle = .lt
  else if a.reviewYear ≠ b.reviewYear then
    a.reviewYear < b.reviewYear
  else if a.reviewMonth ≠ b.reviewMonth then
    a.reviewMonth < b.reviewMonth
  else
    a.reviewDay < b.reviewDay

/-- What `getopt_long` leaves: `-d`, `-f`, `-k`, `-r` and `-n`, and the arguments from `optind`
on. -/
structure Arguments where
  directory : Text := ascii "."
  filesPrefix : Text := ascii "amazon_reviews_us_Electronics_v1_00"
  key : Text := ascii "date"
  reversed : Bool := false
  limit : ℤ := -1
  words : List Text

/-- The comparison that `main` hands to `getSortedReviewsFromIndexes`. -/
def Arguments.cmp (args : Arguments) (a b : Review) : Bool :=
  if args.reversed then compareBy args.key b a else compareBy args.key a b

/-- The loop that joins the words of the query. -/
def Arguments.query (args : Arguments) : Text :=
  args.words.foldl (fun query word => (if query = [] then query else query ++ [32]) ++ word) []

/-- `getSortedReviewsFromIndexes`. -/
def getSortedReviewsFromIndexes (std : StdSort Review) (database : Database)
    (reviewIndexes : List ℤ) (cmp : Review → Review → Bool) : Option (List Review) := do
  let found ← reviewIndexes.mapM fun idx => getReview database (idx % 2 ^ 32).toNat
  return std.sort cmp found.reduceOption

/-! ## The program -/

/-- `base` in the constructor: the path of the files without their extension. -/
def basePath (directory filesPrefix : Text) : Text :=
  if directory = [] then filesPrefix else directory ++ ascii "/" ++ filesPrefix

/-- The message where one of the files cannot be opened or is empty. -/
def Arguments.notOpened (args : Arguments) : Text :=
  ascii "error: could not open database '" ++ args.filesPrefix ++ ascii "' in '" ++
    args.directory ++ ascii "'\n"

/-- What the program leaves behind. -/
structure Outcome where
  status : ℕ
  out : Text := []
  err : Text := []

/-- `main` after the options, on a file system that maps a path to the contents of a file that can
be opened: `none` where a read leaves the mapping. -/
def amazonSearch (std : StdSort Review) (files : Text → Option (List UInt8)) (args : Arguments) :
    Option Outcome :=
  if args.query = [] then
    some { status := 1, err := ascii "error: empty query\n" }
  else do
    let base := basePath args.directory args.filesPrefix
    let database ← Database.open ((files (base ++ ascii ".db")).getD [])
    let engine ← Engine.open ((files (base ++ ascii ".kwi")).getD [])
    if database.databaseFile = none ∨ engine.keywordIndexFile = none then
      return { status := 1, err := args.notOpened }
    let (_, indexes) ← searchKeywordIndex engine args.query
    let reviews ← getSortedReviewsFromIndexes std database indexes args.cmp
    let found := foundLine indexes.length database.numReviews
    return { status := 0, out := found ++ printReviews args.limit 0 reviews }

/-! ## What is asked for -/

/-- A review answers a query that has a term and all of whose terms it holds. -/
def Matches (query : Text) (r : Rec) : Prop :=
  convertQuery query ≠ [] ∧ ∀ term ∈ convertQuery query, HoldsTerm r term

instance (query : Text) (r : Rec) : Decidable (Matches query r) :=
  inferInstanceAs (Decidable (convertQuery query ≠ [] ∧
    ∀ term ∈ convertQuery query, ∃ text ∈ r.fields, term <:+: splitWords text))

/-- The reviews that answer a query, with their numbers. -/
def answers (recs : List Rec) (query : Text) : List (Rec × ℕ) :=
  recs.zipIdx.filter fun (r, _) => Matches query r

/-- The reviews that answer a query, as they are read back. -/
def matching (recs : List Rec) (query : Text) : List Review :=
  (answers recs query).map fun (r, i) => r.review i

/-- The first reviews of a ranking, or all of them. -/
def shown (limit : ℤ) (ranking : List Review) : List Review :=
  if limit < 0 then ranking else ranking.take limit.toNat

/-- A report: how many reviews answer the query out of how many, and the first of them in an order
that the comparison does not contradict. -/
def IsReport (recs : List Rec) (args : Arguments) (printed : Text) : Prop :=
  ∃ ranking : List Review, ranking.Perm (matching recs args.query) ∧
    ranking.Pairwise (fun first second => args.cmp second first = false) ∧
      printed = foundLine (matching recs args.query).length recs.length ++
        (shown args.limit ranking).flatMap printReview

/-! ## The comparison -/

theorem strictWeakOrder_compareBy (key : Text) : StrictWeakOrder (compareBy key) := by
  unfold compareBy
  split
  · exact (strictWeakOrder_lt ℤ).comap Review.starRating
  · split
    · exact (strictWeakOrder_lt ℕ).comap fun r : Review => r.reviewBody.length
    · split
      · exact (strictWeakOrder_compare Text).comap Review.productTitle
      · have day := (strictWeakOrder_lt ℤ).comap Review.reviewDay
        exact (day.lex Review.reviewMonth).lex Review.reviewYear

theorem strictWeakOrder_cmp (args : Arguments) : StrictWeakOrder args.cmp := by
  unfold Arguments.cmp
  split
  · exact (strictWeakOrder_compareBy args.key).swap
  · exact strictWeakOrder_compareBy args.key

/-! ## The search -/

section Built

variable {recs : List Rec}

/-- The number of a review that holds the terms is the number of an answer. -/
theorem mem_numbers_iff {query : Text} (nonempty : convertQuery query ≠ []) {i : ℤ} :
    i ∈ (answers recs query).map (fun answer => (answer.2 : ℤ)) ↔
      ∀ term ∈ convertQuery query, ∃ review : ℕ, i = review ∧
        ∃ r, recs[review]? = some r ∧ HoldsTerm r term := by
  simp only [answers, List.mem_map, List.mem_filter, decide_eq_true_iff, Prod.exists,
    List.mk_mem_zipIdx_iff_getElem?]
  constructor
  · rintro ⟨r, review, ⟨at_review, -, holds⟩, rfl⟩ term inside
    exact ⟨review, rfl, r, at_review, holds term inside⟩
  · intro each
    obtain ⟨term, inside⟩ := List.exists_mem_of_ne_nil _ nonempty
    obtain ⟨review, rfl, r, at_review, -⟩ := each term inside
    refine ⟨r, review, ⟨at_review, nonempty, fun term inside => ?_⟩, rfl⟩
    obtain ⟨other, same, r', at_other, holds⟩ := each term inside
    obtain rfl := Int.ofNat_inj.mp same
    obtain rfl := Option.some.inj (at_review.symm.trans at_other)
    exact holds

/-- The numbers of the answers ascend. -/
theorem numbers_ascend (recs : List Rec) (query : Text) :
    ((answers recs query).map fun answer => (answer.2 : ℤ)).Pairwise (· < ·) := by
  rw [List.pairwise_map]
  exact ((pairwise_zipIdx recs).filter _).imp fun {_ _} before => Int.ofNat_lt.mpr before

/-- The search fills its vector with the numbers of the answers. -/
theorem searchKeywordIndex_built (few : recs.length < 2 ^ 31) (short : ShortFields recs)
    (small : (keywordIndexFile recs).length < 2 ^ 32) (query : Text) :
    ∃ found, searchKeywordIndex (built recs) query =
      some (found, (answers recs query).map fun answer => (answer.2 : ℤ)) := by
  by_cases empty : convertQuery query = []
  · refine ⟨false, ?_⟩
    have none_matches (answer : Rec × ℕ) : ¬ Matches query answer.1 := fun both => both.1 empty
    rw [searchKeywordIndex, if_pos empty, answers, List.filter_eq_nil_iff.mpr fun answer _ => by
      simpa using none_matches answer]
    rfl
  · obtain ⟨final, searched, members⟩ := searchTerms_none empty fun term inside => by
      obtain ⟨nonempty, nulFree⟩ := convertQuery_terms inside
      exact termMatches_built few short small nonempty nulFree
    have sorted : final.sort (· ≤ ·) = (answers recs query).map fun answer => (answer.2 : ℤ) := by
      have same : final = ((answers recs query).map fun answer => (answer.2 : ℤ)).toFinset := by
        ext i
        rw [members, List.mem_toFinset, mem_numbers_iff empty]
        refine forall₂_congr fun term inside => ?_
        simp only [exists_termAt (convertQuery_terms inside).1]
      have ascend := numbers_ascend recs query
      rw [same]
      exact (List.toFinset_sort _ ascend.nodup).mpr (ascend.imp le_of_lt)
    rw [searchKeywordIndex, if_neg empty, searched]
    exact ⟨_, by rw [← sorted]; rfl⟩

/-- Every answer is fetched. -/
theorem getReview_answer (few : recs.length < 2 ^ 32) (storable : ∀ r ∈ recs, r.Storable)
    (small : (databaseFile recs).length < 2 ^ 32) {query : Text} {answer : Rec × ℕ}
    (inside : answer ∈ answers recs query) :
    getReview ⟨some (databaseFile recs), recs.length⟩ (((answer.2 : ℤ) % 2 ^ 32).toNat) =
      some (some (answer.1.review answer.2)) := by
  have at_index := List.mk_mem_zipIdx_iff_getElem?.mp (List.mem_of_mem_filter inside)
  have known := (List.getElem?_eq_some_iff.mp at_index).1
  rw [databaseFile_eq few] at small ⊢
  obtain ⟨off, after, table, bytes⟩ := tableFile_entry small at_index
  rw [length_tableFile] at small
  have index : (((answer.2 : ℤ) % 2 ^ 32).toNat) = answer.2 := by omega
  rw [index]
  refine getReview_record (storable _ (List.mem_of_getElem? at_index)) known ?_ bytes
  rw [Nat.mod_eq_of_lt (by omega), readU32]
  exact table

/-- The answers are fetched and sorted. -/
theorem getSortedReviews_answers (std : StdSort Review) (few : recs.length < 2 ^ 32)
    (storable : ∀ r ∈ recs, r.Storable) (small : (databaseFile recs).length < 2 ^ 32)
    (query : Text) (cmp : Review → Review → Bool) :
    getSortedReviewsFromIndexes std ⟨some (databaseFile recs), recs.length⟩
        ((answers recs query).map fun answer => (answer.2 : ℤ)) cmp =
      some (std.sort cmp (matching recs query)) := by
  have each : (answers recs query).mapM (fun answer =>
      getReview ⟨some (databaseFile recs), recs.length⟩ (((answer.2 : ℤ) % 2 ^ 32).toNat)) =
        some ((answers recs query).map fun answer => some (answer.1.review answer.2)) :=
    mapM_eq_some fun answer inside => getReview_answer few storable small inside
  have kept : ((answers recs query).map fun answer => some (answer.1.review answer.2)).reduceOption
      = matching recs query := by
    change List.filterMap id _ = _
    rw [matching, List.filterMap_map]
    exact congrFun List.filterMap_eq_map _
  rw [getSortedReviewsFromIndexes, List.mapM_map]
  simp only [Function.comp_def, each, Option.bind_eq_bind, Option.bind_some, kept]
  rfl

end Built

/-! ## Printing -/

/-- The loop prints the reviews that are shown. -/
theorem printReviews_eq (limit : ℤ) (ranking : List Review) :
    printReviews limit 0 ranking = (shown limit ranking).flatMap printReview := by
  have loop (count : ℕ) : printReviews limit count ranking =
      (if limit < 0 then ranking else ranking.take (limit.toNat - count)).flatMap printReview := by
    induction ranking generalizing count with
    | nil => simp [printReviews]
    | cons r ranking ih =>
        rw [printReviews]
        by_cases all : limit < 0
        · rw [if_neg fun both => both.1.not_gt all, if_pos all, ih, if_pos all, List.flatMap_cons]
        · rw [if_neg all]
          by_cases enough : limit.toNat ≤ count
          · rw [if_pos ⟨not_lt.mp all, enough⟩, Nat.sub_eq_zero_of_le enough, List.take_zero]
            rfl
          · rw [if_neg fun both => enough both.2, ih, if_neg all,
              show limit.toNat - count = (limit.toNat - (count + 1)) + 1 by omega,
              List.take_succ_cons, List.flatMap_cons]
  exact loop 0

/-! ## From the lines of the reviews to the report -/

/-- The fields of the two formats have room for the reviews. -/
structure Room (recs : List Rec) : Prop where
  few : recs.length < 2 ^ 31
  short : ShortFields recs
  database : (databaseFile recs).length < 2 ^ 32
  keywords : (keywordIndexFile recs).length < 2 ^ 32

/-- A search over the files that the builder wrote reports the well-formed lines that match. -/
theorem search_reports (std : StdSort Review) {reviews : Text}
    (checked : CheckedLinesWellFormed reviews)
    (room : Room ((lines reviews).filterMap wellFormed)) :
    ∃ db kwi, mkamazondb reviews = some (db, kwi) ∧
      ∀ (files : Text → Option (List UInt8)) (args : Arguments),
        files (basePath args.directory args.filesPrefix ++ ascii ".db") = some db →
        files (basePath args.directory args.filesPrefix ++ ascii ".kwi") = some kwi →
        args.query ≠ [] →
          ∃ printed, amazonSearch std files args = some { status := 0, out := printed } ∧
            IsReport ((lines reviews).filterMap wellFormed) args printed := by
  have storable : ∀ r ∈ (lines reviews).filterMap wellFormed, r.Storable := by
    intro r inside
    obtain ⟨line, -, good⟩ := List.mem_filterMap.mp inside
    exact (parseLine_of_wellFormed good).2
  rw [mkamazondb, parseRecs_of_wellFormed checked]
  generalize (lines reviews).filterMap wellFormed = recs at room storable
  refine ⟨_, _, rfl, fun files args dbFile kwiFile asked => ?_⟩
  have few : recs.length < 2 ^ 32 := room.few.trans (by decide)
  have opened := open_databaseFile recs
  rw [Nat.mod_eq_of_lt few] at opened
  obtain ⟨found, searched⟩ := searchKeywordIndex_built room.few room.short room.keywords args.query
  refine ⟨_, ?_, std.sort args.cmp (matching recs args.query), std.perm _ _,
    std.sorted _ (strictWeakOrder_cmp args) _, rfl⟩
  have fetched := getSortedReviews_answers std few storable room.database args.query args.cmp
  simp only [amazonSearch, if_neg asked, dbFile, kwiFile, Option.getD_some, opened,
    open_keywordIndexFile room.keywords, Option.bind_eq_bind, Option.bind_some]
  rw [if_neg (by simp)]
  rw [built] at searched
  simp only [searched, fetched, Option.bind_some, List.length_map, printReviews_eq, matching]
  rfl

deriving instance DecidableEq for Rec

/-- The lines of the two reviews. -/
def twoLines : Text := ascii "Go go\ta\t5\t\t\t2020\t1\t2\n\tGO\t4\tb\t\t2021\t3\t4\n"

/-- The two files in the current directory. -/
def twoFiles (path : Text) : Option (List UInt8) :=
  if path = ascii "./two.db" then
    some (databaseFile twoReviews)
  else if path = ascii "./two.kwi" then
    some (keywordIndexFile twoReviews)
  else
    none

/-- The better of the two reviews with the word in them. -/
def bestOfTwo : Arguments where
  filesPrefix := ascii "two"
  key := ascii "stars"
  reversed := true
  limit := 1
  words := [ascii "go"]

theorem search_reports_two :
    ∃ printed, amazonSearch (insertionSort Review) twoFiles bestOfTwo =
        some { status := 0, out := printed } ∧ IsReport twoReviews bestOfTwo printed := by
  have parsed : (lines twoLines).filterMap wellFormed = twoReviews := by
    decide +kernel
  have checked : CheckedLinesWellFormed twoLines := by
    rw [CheckedLinesWellFormed]
    decide +kernel
  obtain ⟨db, kwi, written, reports⟩ := search_reports (insertionSort Review) checked (by
    rw [parsed]
    exact ⟨by decide, twoReviews_short, by decide +kernel, twoReviews_small⟩)
  rw [mkamazondb, parseRecs_of_wellFormed checked, parsed] at written
  obtain ⟨rfl, rfl⟩ := Prod.mk.inj (Option.some.inj written)
  rw [parsed] at reports
  refine reports twoFiles bestOfTwo (if_pos (by decide +kernel)) ?_ (by decide +kernel)
  rw [twoFiles, if_neg (by decide +kernel), if_pos (by decide +kernel)]

end Amazon
end Syscore
