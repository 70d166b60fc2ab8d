import Syscore.NewsAggregator.Outcome
import Syscore.NewsAggregator.Queries

/-!
# What the answers owe to timing

The schedule decides which title a shared link keeps and in which order articles with one count and
one title are listed. Where neither shows among the first ten hits, the answers do not depend on it.
-/

namespace Syscore
namespace NewsAggregator

section Web

variable (web : Web) (feeds : List RSSItem) (q : Text)

/-- The link is indexed with a count for the token. -/
def Matches (link : Text) (count : ℕ) : Prop :=
  (∃ item, Offered web feeds item ∧ item.link = link) ∧ expected web link q = some count

/-- A title under which the link is offered. -/
def Titled (link title : Text) : Prop := Offered web feeds { title, link }

/-- The link ranks before the other under whatever titles the two keep. -/
def Outranks (better link : Text) : Prop :=
  ∃ more less, Matches web feeds q better more ∧ Matches web feeds q link less ∧
    (less < more ∨ (more = less ∧ ∀ title title', Titled web feeds better title →
      Titled web feeds link title' → textLess title title' = true))

/-- The link has one title, and no other link with its count is offered under it. -/
def Undisputed (link : Text) : Prop :=
  ∀ title title' other count, Titled web feeds link title → Titled web feeds other title' →
    Matches web feeds q link count → Matches web feeds q other count →
      (other = link ↔ title' = title)

/-- Every matching link is undisputed, or ten links rank before it. -/
def Settled : Prop :=
  ∀ link count, Matches web feeds q link count → Undisputed web feeds q link ∨
    ∃ better : List Text, better.Nodup ∧ better.length = 10 ∧
      ∀ other ∈ better, Outranks web feeds q other link

end Web

variable {web : Web} {feeds : List RSSItem} {state first second : State} {q : Text}

/-! ## The records of a run -/

theorem article_of_lt {shared : Shared} {idx : ℕ} (inside : idx < shared.articles.length) :
    shared.article idx = shared.articles[idx] := by
  rw [Shared.article, List.getElem?_eq_getElem inside, Option.getD_some]

theorem mem_records_iff {shared : Shared} {record : ℕ × Article} :
    record ∈ shared.records q ↔ ∃ idx, ∃ inside : idx < shared.articles.length,
      shared.articles[idx] = record.2 ∧ shared.invertedIndex q idx = some record.1 := by
  rw [Shared.records, List.mem_map]
  constructor
  · rintro ⟨hit, listed, rfl⟩
    obtain ⟨idx, inside, found⟩ := List.mem_filterMap.mp listed
    obtain ⟨count, indexed, rfl⟩ := Option.map_eq_some_iff.mp found
    have inside := List.mem_range.mp inside
    exact ⟨idx, inside, (article_of_lt inside).symm, indexed⟩
  · rintro ⟨idx, inside, article, indexed⟩
    refine ⟨(idx, record.1), List.mem_filterMap.mpr ⟨idx, List.mem_range.mpr inside, ?_⟩, ?_⟩
    · rw [indexed, Option.map_some]
    · exact Prod.ext rfl ((article_of_lt inside).trans article)

section Joined

variable (sound : Sound web feeds state) (joined : state.main = .joined)

include sound joined in
/-- Past both waits the records are the articles with a count for the token. -/
theorem mem_records_of_joined {record : ℕ × Article} : record ∈ state.shared.records q ↔
    record.2 ∈ state.shared.articles ∧ expected web record.2.url q = some record.1 := by
  rw [mem_records_iff]
  constructor
  · rintro ⟨idx, inside, article, indexed⟩
    rw [sound.invertedIndex_eq joined, List.getElem?_eq_getElem inside, article] at indexed
    exact ⟨article ▸ List.getElem_mem inside, indexed⟩
  · rintro ⟨listed, counted⟩
    obtain ⟨idx, inside, article⟩ := List.getElem_of_mem listed
    refine ⟨idx, inside, article, ?_⟩
    rw [sound.invertedIndex_eq joined, List.getElem?_eq_getElem inside, article]
    exact counted

include sound in
/-- An article is known by its link. -/
theorem eq_of_url {a b : Article} (left : a ∈ state.shared.articles)
    (right : b ∈ state.shared.articles) (same : a.url = b.url) : a = b :=
  List.inj_on_of_nodup_map sound.articleTasks.consistent.nodup left right same

include sound joined in
/-- A record is known by its link. -/
theorem record_eq_of_url {a b : ℕ × Article} (left : a ∈ state.shared.records q)
    (right : b ∈ state.shared.records q) (same : a.2.url = b.2.url) : a = b := by
  obtain ⟨leftListed, leftCount⟩ := (mem_records_of_joined sound joined).mp left
  obtain ⟨rightListed, rightCount⟩ := (mem_records_of_joined sound joined).mp right
  rw [same, rightCount] at leftCount
  exact Prod.ext (Option.some.inj leftCount).symm (eq_of_url sound leftListed rightListed same)

include sound joined in
/-- A record is a matching link with one of its titles. -/
theorem matches_of_record {record : ℕ × Article} (listed : record ∈ state.shared.records q) :
    Matches web feeds q record.2.url record.1 ∧ Titled web feeds record.2.url record.2.title := by
  obtain ⟨inside, counted⟩ := (mem_records_of_joined sound joined).mp listed
  have offered := (sound.articleTasks.consistent.articles _ inside).2.2
  exact ⟨⟨⟨_, offered, rfl⟩, counted⟩, offered⟩

include sound joined in
/-- Every matching link has a record. -/
theorem exists_record {link : Text} {count : ℕ} (matched : Matches web feeds q link count) :
    ∃ record ∈ state.shared.records q, record.2.url = link ∧ record.1 = count := by
  obtain ⟨offered, counted⟩ := matched
  have indexable : Indexable web link := by
    rw [expected] at counted
    split at counted
    · rename_i tokens page
      split at counted
      · rename_i inside
        exact ⟨tokens, page, List.ne_nil_of_mem inside⟩
      · cases counted
    · cases counted
  obtain ⟨article, listed, rfl⟩ :=
    List.mem_map.mp ((sound.mem_urls_iff joined).mpr ⟨offered, indexable⟩)
  exact ⟨(count, article), (mem_records_of_joined sound joined).mpr ⟨listed, counted⟩, rfl, rfl⟩

include sound in
theorem nodup_records (q : Text) : (state.shared.records q).Nodup := by
  have articles : state.shared.articles.Nodup := sound.articleTasks.consistent.nodup.of_map
  rw [Shared.records]
  refine List.Nodup.map_on (fun left leftListed right rightListed same => ?_) ?_
  · obtain ⟨i, leftInside, leftFound⟩ := List.mem_filterMap.mp leftListed
    obtain ⟨j, rightInside, rightFound⟩ := List.mem_filterMap.mp rightListed
    obtain ⟨count, _, rfl⟩ := Option.map_eq_some_iff.mp leftFound
    obtain ⟨count', _, rfl⟩ := Option.map_eq_some_iff.mp rightFound
    obtain ⟨counts, article⟩ := Prod.mk.inj same
    rw [article_of_lt (List.mem_range.mp leftInside), article_of_lt (List.mem_range.mp rightInside)]
      at article
    exact Prod.ext ((articles.getElem_inj_iff).mp article) counts
  · refine List.Nodup.filterMap (fun i j hit left right => ?_) List.nodup_range
    obtain ⟨_, _, rfl⟩ := Option.map_eq_some_iff.mp left
    obtain ⟨_, _, same⟩ := Option.map_eq_some_iff.mp right
    exact (Prod.mk.inj same).1.symm

include sound joined in
/-- A link that ranks before another has a record that is ranked before the other's. -/
theorem exists_record_before {better : Text} {record : ℕ × Article}
    (listed : record ∈ state.shared.records q)
    (outranks : Outranks web feeds q better record.2.url) :
    ∃ before ∈ state.shared.records q,
      before.2.url = better ∧ ranksBefore before record = true := by
  obtain ⟨more, less, matched, own, wins⟩ := outranks
  obtain ⟨before, inside, rfl, rfl⟩ := exists_record sound joined matched
  obtain ⟨ownMatch, ownTitle⟩ := matches_of_record sound joined listed
  obtain rfl := Option.some.inj (own.2.symm.trans ownMatch.2)
  refine ⟨before, inside, rfl, ?_⟩
  rw [ranksBefore]
  rcases wins with more | ⟨same, titles⟩
  · rw [if_pos more.ne', decide_eq_true_iff]
    exact more
  · rw [if_neg (not_not.mpr same)]
    exact titles _ _ (matches_of_record sound joined inside).2 ownTitle

include sound joined in
/-- The first ten of the ranking are undisputed. -/
theorem undisputed_of_top (std : StdSort (ℕ × ℕ)) (settled : Settled web feeds q)
    {record : ℕ × Article} (top : record ∈ (ranking std state.shared q).take 10) :
    Undisputed web feeds q record.2.url := by
  have perm := ranking_perm std state.shared q
  have listed := perm.subset (List.mem_of_mem_take top)
  rcases settled _ _ (matches_of_record sound joined listed).1 with
    undisputed | ⟨better, distinct, ten, outrank⟩
  · exact undisputed
  · have each (link : Text) (inside : link ∈ better) :=
      exists_record_before sound joined listed (outrank link inside)
    have : Nonempty (ℕ × Article) := ⟨record⟩
    choose! recordOf inside url wins using each
    obtain ⟨position, bound, at_position⟩ := List.getElem_of_mem top
    rw [List.length_take] at bound
    rw [List.getElem_take] at at_position
    have here : (ranking std state.shared q)[position]? = some record := by
      rw [← at_position, List.getElem?_eq_getElem (by omega)]
    have recordsDistinct : (better.map recordOf).Nodup := by
      refine distinct.map_on fun a left b right same => ?_
      rw [← url a left, ← url b right, same]
    have recordsListed : ∀ other ∈ better.map recordOf, other ∈ ranking std state.shared q := by
      intro other mapped
      obtain ⟨link, member, rfl⟩ := List.mem_map.mp mapped
      exact perm.symm.subset (inside link member)
    have recordsWin : ∀ other ∈ better.map recordOf, ranksBefore other record = true := by
      intro other mapped
      obtain ⟨link, member, rfl⟩ := List.mem_map.mp mapped
      exact wins link member
    have few := length_le_of_beaten strictWeakOrder_ranksBefore (ranking_sorted std state.shared q)
      here recordsDistinct recordsListed recordsWin
    rw [List.length_map, ten] at few
    omega

end Joined

/-! ## Two runs -/

/-- Undisputed records are the same in every run. -/
theorem mem_records_of_undisputed (sound : Sound web feeds first) (joined : first.main = .joined)
    (sound' : Sound web feeds second) (joined' : second.main = .joined) {record : ℕ × Article}
    (undisputed : Undisputed web feeds q record.2.url) (listed : record ∈ first.shared.records q) :
    record ∈ second.shared.records q := by
  obtain ⟨matched, titled⟩ := matches_of_record sound joined listed
  obtain ⟨other, inside, url, count⟩ := exists_record sound' joined' matched
  obtain ⟨otherMatched, otherTitled⟩ := matches_of_record sound' joined' inside
  have title := (undisputed _ _ _ _ titled otherTitled matched (count ▸ otherMatched)).mp url
  have same : other = record :=
    Prod.ext count (congrArg₂ Article.mk title url)
  exact same ▸ inside

/-- Every run finds the same number of records. -/
theorem length_records_le (sound : Sound web feeds first) (joined : first.main = .joined)
    (sound' : Sound web feeds second) (joined' : second.main = .joined) (q : Text) :
    (first.shared.records q).length ≤ (second.shared.records q).length := by
  have distinct : ((first.shared.records q).map fun record => record.2.url).Nodup :=
    (nodup_records sound q).map_on fun a left b right same =>
      record_eq_of_url sound joined left right same
  have listed : ((first.shared.records q).map fun record => record.2.url) ⊆
      (second.shared.records q).map fun record => record.2.url := by
    intro url inside
    obtain ⟨record, member, rfl⟩ := List.mem_map.mp inside
    obtain ⟨other, inside', same, _⟩ :=
      exists_record sound' joined' (matches_of_record sound joined member).1
    exact List.mem_map.mpr ⟨other, inside', same⟩
  simpa only [List.length_map] using distinct.length_le_of_subset listed

/-- Undisputed records are never equivalent. -/
theorem eq_of_undisputed (sound : Sound web feeds state) (joined : state.main = .joined)
    {a b : ℕ × Article} (left : a ∈ state.shared.records q) (right : b ∈ state.shared.records q)
    (undisputed : Undisputed web feeds q a.2.url) (forward : ranksBefore a b = false)
    (backward : ranksBefore b a = false) : a = b := by
  obtain ⟨leftMatched, leftTitled⟩ := matches_of_record sound joined left
  obtain ⟨rightMatched, rightTitled⟩ := matches_of_record sound joined right
  rw [ranksBefore] at forward backward
  by_cases counts : a.1 = b.1
  · rw [if_neg (not_not.mpr counts)] at forward
    rw [if_neg (not_not.mpr counts.symm)] at backward
    have url := (undisputed _ _ _ _ leftTitled rightTitled leftMatched (counts ▸ rightMatched)).mpr
      (eq_of_textLess backward forward)
    exact record_eq_of_url sound joined left right url.symm
  · rw [if_pos counts, decide_eq_false_iff_not] at forward
    rw [if_pos (Ne.symm counts), decide_eq_false_iff_not] at backward
    omega

/-- The first ten of the ranking are the same in every run. -/
theorem top_eq (std : StdSort (ℕ × ℕ)) (settled : Settled web feeds q)
    (sound : Sound web feeds first) (joined : first.main = .joined)
    (sound' : Sound web feeds second) (joined' : second.main = .joined) :
    (ranking std first.shared q).take 10 = (ranking std second.shared q).take 10 := by
  classical
  have perm := ranking_perm std first.shared q
  have perm' := ranking_perm std second.shared q
  have inPart (records : List (ℕ × Article)) (record : ℕ × Article) :
      record ∈ records.filter (fun record => Undisputed web feeds q record.2.url) ↔
        record ∈ records ∧ Undisputed web feeds q record.2.url := by
    rw [List.mem_filter, decide_eq_true_iff]
  refine take_eq_of_settled (ranking_sorted std first.shared q) (ranking_sorted std second.shared q)
    (fun record top => decide_eq_true (undisputed_of_top sound joined std settled top))
    (fun record top => decide_eq_true (undisputed_of_top sound' joined' std settled top)) ?_ ?_
  · refine (List.perm_ext_iff_of_nodup ((perm.nodup_iff.mpr (nodup_records sound q)).filter _)
      ((perm'.nodup_iff.mpr (nodup_records sound' q)).filter _)).mpr fun record => ?_
    rw [inPart, inPart, perm.mem_iff, perm'.mem_iff]
    refine and_congr_left fun undisputed => ⟨fun listed => ?_, fun listed => ?_⟩
    · exact mem_records_of_undisputed sound joined sound' joined' undisputed listed
    · exact mem_records_of_undisputed sound' joined' sound joined undisputed listed
  · intro a left b right forward backward
    rw [inPart, perm.mem_iff] at left right
    exact eq_of_undisputed sound joined left.1 right.1 left.2 forward backward

/-- Where every query is settled, its answers do not depend on the schedule. -/
theorem answers_independent (std : StdSort (ℕ × ℕ)) (web : Web) (feeds : List RSSItem)
    (input : Text)
    (settled : ∀ word ∈ queryWords input, normalize word ≠ [] → Settled web feeds (normalize word))
    {first second : State} (reach : (machine web feeds).Reachable .free first)
    (joined : first.main = .joined) (reach' : (machine web feeds).Reachable .free second)
    (joined' : second.main = .joined) :
    runQueries std first.shared input = runQueries std second.shared input := by
  have sound := sound_of_reachable reach
  have sound' := sound_of_reachable reach'
  refine List.flatMap_congr fun word asked => ?_
  by_cases empty : normalize word = []
  · simp [answer, empty]
  · refine answer_congr (le_antisymm ?_ ?_) ?_
    · exact length_records_le sound joined sound' joined' _
    · exact length_records_le sound' joined' sound joined _
    · exact top_eq std (settled word asked empty) sound joined sound' joined'

/-- Two feeds with a link each, under these titles, and pages of one content. -/
def twoLinks (title title' : Text) : Web where
  feed link :=
    if link = ascii "http://h/a" then
      some [{ title, link := ascii "http://h/x" }]
    else
      some [{ title := title', link := ascii "http://h/y" }]
  page _ := some [ascii "to", ascii "be", ascii "to"]

/-- Both article tasks are dispatched before the first one begins; one of them runs to its end, and
the other follows. -/
def articleRace (leader follower : Fin articleThreads) (steps : ℕ) : List Thread :=
  List.flatten
    [List.replicate 12 .main, List.replicate 16 .feedDispatcher, List.replicate 10 (.feedWorker 0),
      List.replicate 8 .articleDispatcher, List.replicate 6 (.feedWorker 0),
      List.replicate 10 (.feedWorker 1), List.replicate 8 .articleDispatcher,
      List.replicate 6 (.feedWorker 1), List.replicate 3 .main,
      List.replicate 13 (.articleWorker leader), List.replicate steps (.articleWorker follower),
      List.replicate 2 .main]

/-- Where `main` is after a run, and what it answers to one query. -/
def answerAfter (web : Web) (run : List Thread) : Option (MainPc × Text) :=
  ((machine web twoFeeds).exec .free (start twoFeeds) run).map fun state =>
    (state.main, runQueries (insertionSort _) state.shared (ascii "To\n"))

/-- A race decides the title of a shared link, and the order of links with one count and one
title. -/
theorem answers_depend_on_timing :
    (answerAfter sharedLink (articleRace 0 1 7) = some (.joined, ascii
          "1 article(s) contain \"to\":\n  2\tfirst [http://h/x]\n") ∧
        answerAfter sharedLink (articleRace 1 0 7) = some (.joined, ascii
          "1 article(s) contain \"to\":\n  2\tsecond [http://h/x]\n")) ∧
      answerAfter (twoLinks (ascii "same") (ascii "same")) (articleRace 0 1 13) =
          some (.joined, ascii
            "2 article(s) contain \"to\":\n  2\tsame [http://h/x]\n  2\tsame [http://h/y]\n") ∧
        answerAfter (twoLinks (ascii "same") (ascii "same")) (articleRace 1 0 13) =
          some (.joined, ascii
            "2 article(s) contain \"to\":\n  2\tsame [http://h/y]\n  2\tsame [http://h/x]\n") := by
  refine ⟨⟨?_, ?_⟩, ?_, ?_⟩
  all_goals decide +kernel

/-- Who is offered by the two feeds. -/
theorem titled_twoLinks {title title' link kept : Text}
    (titled : Titled (twoLinks title title') twoFeeds link kept) :
    (link = ascii "http://h/x" ∧ kept = title) ∨ (link = ascii "http://h/y" ∧ kept = title') := by
  obtain ⟨feed, _, items, fetched, inside⟩ := titled
  simp only [twoLinks] at fetched
  split at fetched
  · rw [← Option.some.inj fetched, List.mem_singleton] at inside
    obtain ⟨same, there⟩ := RSSItem.mk.inj inside
    exact Or.inl ⟨there, same⟩
  · rw [← Option.some.inj fetched, List.mem_singleton] at inside
    obtain ⟨same, there⟩ := RSSItem.mk.inj inside
    exact Or.inr ⟨there, same⟩

/-- Two links with two titles are undisputed. -/
theorem settled_twoLinks {title title' : Text} (apart : title ≠ title') (q : Text) :
    Settled (twoLinks title title') twoFeeds q := by
  have links : ascii "http://h/x" ≠ ascii "http://h/y" := by decide +kernel
  refine fun link count _ => Or.inl fun kept kept' other count' titled titled' _ _ => ?_
  rcases titled_twoLinks titled with ⟨rfl, rfl⟩ | ⟨rfl, rfl⟩
  · rcases titled_twoLinks titled' with ⟨rfl, rfl⟩ | ⟨rfl, rfl⟩
    · exact iff_of_true rfl rfl
    · exact iff_of_false links.symm apart.symm
  · rcases titled_twoLinks titled' with ⟨rfl, rfl⟩ | ⟨rfl, rfl⟩
    · exact iff_of_false links apart
    · exact iff_of_true rfl rfl

/-- A web of two links with two titles. -/
def apartLinks : Web := twoLinks (ascii "first") (ascii "second")

/-- What `main` finds after a race between the two links. -/
def raceEnd (leader follower : Fin articleThreads)
    (finishes : ((machine apartLinks twoFeeds).exec .free (start twoFeeds)
      (articleRace leader follower 13)).isSome = true) : State :=
  ((machine apartLinks twoFeeds).exec .free (start twoFeeds) (articleRace leader follower 13)).get
    finishes

theorem answers_independent_apart :
    runQueries (insertionSort _) (raceEnd 0 1 (by decide +kernel)).shared (ascii "To be\n") =
      runQueries (insertionSort _) (raceEnd 1 0 (by decide +kernel)).shared (ascii "To be\n") := by
  have apart : ascii "first" ≠ ascii "second" := by decide +kernel
  exact answers_independent _ apartLinks twoFeeds _ (fun _ _ _ => settled_twoLinks apart _)
    (.of_exec rfl _ _) (by decide +kernel) (.of_exec rfl _ _) (by decide +kernel)

end NewsAggregator
end Syscore
