import Mathlib.Data.List.Induction
import Syscore.NewsAggregator.Model

/-!
# The index under interleaved article tasks

A family of article tasks works on the shared state. Each task that has claimed a link, and each
task that has allocated a position, is the only one; what no task is working on is final.
-/

namespace Syscore
namespace NewsAggregator

/-! ## Counting tokens -/

theorem lookup_cons_text (token other : Text) (count : ℕ) (counts : List (Text × ℕ)) :
    ((other, count) :: counts).lookup token =
      if token = other then some count else counts.lookup token := by
  rw [List.lookup_cons]
  by_cases same : token = other
  · rw [if_pos same, beq_iff_eq.mpr same]
  · rw [if_neg same, beq_false_of_ne same]

theorem lookup_increment (tok token : Text) (counts : List (Text × ℕ)) :
    (increment tok counts).lookup token =
      if token = tok then some ((counts.lookup token).getD 0 + 1) else counts.lookup token := by
  induction counts with
  | nil => rw [increment, lookup_cons_text, List.lookup_nil, Option.getD_none, Nat.zero_add]
  | cons entry counts ih =>
      obtain ⟨other, count⟩ := entry
      rw [increment, lookup_cons_text]
      by_cases found : other = tok
      · subst found
        rw [if_pos rfl, lookup_cons_text]
        by_cases same : token = other
        · simp only [same, if_true, Option.getD_some]
        · simp only [same, if_false]
      · rw [if_neg found, lookup_cons_text, ih]
        by_cases here : token = other
        · have apart : token ≠ tok := fun same => found (here.symm.trans same)
          simp only [here, found, if_true, if_false]
        · simp only [here, if_false]

theorem keys_increment (tok : Text) (counts : List (Text × ℕ)) :
    (increment tok counts).map Prod.fst =
      if tok ∈ counts.map Prod.fst then counts.map Prod.fst else counts.map Prod.fst ++ [tok] := by
  induction counts with
  | nil => rfl
  | cons entry counts ih =>
      obtain ⟨other, count⟩ := entry
      rw [increment]
      by_cases found : other = tok
      · simp [found]
      · rw [if_neg found, List.map_cons, List.map_cons, ih]
        have apart : tok ≠ other := Ne.symm found
        by_cases inside : tok ∈ counts.map Prod.fst
        · rw [if_pos inside, if_pos (List.mem_cons_of_mem _ inside)]
        · rw [if_neg inside, if_neg (mt List.mem_cons.mp (not_or.mpr ⟨apart, inside⟩))]
          rfl

theorem countTokens_concat (tokens : List Text) (tok : Text) :
    countTokens (tokens ++ [tok]) = increment tok (countTokens tokens) := by
  rw [countTokens, List.foldl_append]
  rfl

/-- The counts of a page are the numbers of occurrences. -/
theorem lookup_countTokens (tokens : List Text) (token : Text) :
    (countTokens tokens).lookup token =
      if token ∈ tokens then some (tokens.count token) else none := by
  induction tokens using List.reverseRecOn with
  | nil => rfl
  | append_singleton tokens tok ih =>
      rw [countTokens_concat, lookup_increment, ih, List.count_append, List.count_singleton]
      by_cases same : token = tok
      · subst same
        by_cases inside : token ∈ tokens
        · simp [inside]
        · simp [inside, List.count_eq_zero.mpr inside]
      · have apart : ¬ tok = token := Ne.symm same
        simp [same, apart]

theorem nodup_countTokens (tokens : List Text) : ((countTokens tokens).map Prod.fst).Nodup := by
  induction tokens using List.reverseRecOn with
  | nil => exact List.nodup_nil
  | append_singleton tokens tok ih =>
      rw [countTokens_concat, keys_increment]
      split
      · exact ih
      · rename_i outside
        exact List.nodup_append.mpr ⟨ih, List.nodup_singleton _, by
          rintro _ inside _ same rfl
          exact outside (List.mem_singleton.mp same ▸ inside)⟩

theorem countTokens_eq_nil {tokens : List Text} : countTokens tokens = [] ↔ tokens = [] := by
  constructor
  · intro empty
    by_contra nonempty
    obtain ⟨token, rest, rfl⟩ := List.exists_cons_of_ne_nil nonempty
    have found := lookup_countTokens (token :: rest) token
    rw [empty, if_pos List.mem_cons_self] at found
    cases found
  · rintro rfl
    rfl

/-- What the loop over the counts adds to the index. -/
theorem invertedIndex_addCounts {counts : List (Text × ℕ)} (nodup : (counts.map Prod.fst).Nodup)
    (idx : ℕ) (shared : Shared) (token : Text) (position : ℕ) :
    (counts.foldl (fun shared entry => shared.addCount idx entry) shared).invertedIndex token
        position =
      if position = idx then
        match counts.lookup token with
        | some count => some ((shared.invertedIndex token idx).getD 0 + count)
        | none => shared.invertedIndex token idx
      else
        shared.invertedIndex token position := by
  induction counts generalizing shared with
  | nil =>
      by_cases here : position = idx
      · subst here
        simp
      · simp [here]
  | cons entry counts ih =>
      obtain ⟨other, count⟩ := entry
      obtain ⟨absent, nodup⟩ := List.nodup_cons.mp nodup
      have missing : counts.lookup other = none := by
        refine List.lookup_eq_none_iff.mpr fun entry inside => bne_iff_ne.mpr fun same => absent ?_
        have key : entry.1 ∈ counts.map Prod.fst := List.mem_map_of_mem inside
        exact same.symm ▸ key
      rw [List.foldl_cons, ih nodup, lookup_cons_text]
      by_cases same : token = other
      · subst same
        rw [missing, if_pos rfl]
        by_cases here : position = idx
        · simp [Shared.addCount, here]
        · simp [Shared.addCount, here]
      · simp [Shared.addCount, same]

theorem addCounts_frame (counts : List (Text × ℕ)) (idx : ℕ) (shared : Shared) :
    (counts.foldl (fun shared entry => shared.addCount idx entry) shared).articles =
        shared.articles ∧
      (counts.foldl (fun shared entry => shared.addCount idx entry) shared).seenURLs =
        shared.seenURLs := by
  induction counts generalizing shared with
  | nil => exact ⟨rfl, rfl⟩
  | cons entry counts ih => exact ih (shared.addCount idx entry)

/-! ## What the tasks keep -/

/-- What the index should say about an article. -/
def expected (web : Web) (url token : Text) : Option ℕ :=
  match web.page url with
  | some tokens => if token ∈ tokens then some (tokens.count token) else none
  | none => none

/-- The download of a link succeeds with at least one token. -/
def Indexable (web : Web) (link : Text) : Prop :=
  ∃ tokens, web.page link = some tokens ∧ tokens ≠ []

/-- An item of a feed that is fetched. -/
def Offered (web : Web) (feeds : List RSSItem) (item : RSSItem) : Prop :=
  ∃ feed ∈ feeds, ∃ items, web.feed feed.link = some items ∧ item ∈ items

/-- A task: its item and where it is. -/
abbrev Task : Type := RSSItem × ArticlePc

/-- What a task works on alone: a link it has claimed, or a position it has allocated. -/
def claim : Option Task → Option (Text ⊕ ℕ)
  | some (item, .server) | some (item, .wait) | some (item, .fetch) | some (item, .signal _)
  | some (item, .push _) => some (.inl item.link)
  | some (_, .fold _ idx) => some (.inr idx)
  | some (_, .seen) | some (_, .returned) | none => none

/-- The links of the articles. -/
def Shared.urls (shared : Shared) : List Text := shared.articles.map Article.url

/-- Where a task is agrees with the shared state. -/
def TaskOk (web : Web) (shared : Shared) (item : RSSItem) : ArticlePc → Prop
  | .seen => True
  | .server | .wait | .fetch => item.link ∈ shared.seenURLs ∧ item.link ∉ shared.urls
  | .signal page =>
      (item.link ∈ shared.seenURLs ∧ item.link ∉ shared.urls) ∧ page = web.page item.link
  | .push counts =>
      (item.link ∈ shared.seenURLs ∧ item.link ∉ shared.urls) ∧ counts ≠ [] ∧
        ∃ tokens, web.page item.link = some tokens ∧ counts = countTokens tokens
  | .fold counts idx =>
      shared.articles[idx]? = some { title := item.title, url := item.link } ∧
        item.link ∈ shared.seenURLs ∧ (∀ token, shared.invertedIndex token idx = none) ∧
        ∃ tokens, web.page item.link = some tokens ∧ counts = countTokens tokens
  | .returned => item.link ∈ shared.seenURLs

/-- The shared state agrees with the tasks at work on it. -/
structure Consistent {ι : Type*} (web : Web) (feeds : List RSSItem) (tasks : ι → Option Task)
    (shared : Shared) : Prop where
  task : ∀ id item pc, tasks id = some (item, pc) → TaskOk web shared item pc
  offered : ∀ id item pc, tasks id = some (item, pc) → Offered web feeds item
  alone : ∀ id other work, claim (tasks id) = some work → claim (tasks other) = some work →
    id = other
  settled : ∀ link ∈ shared.seenURLs, (∃ id, claim (tasks id) = some (.inl link)) ∨
    (Indexable web link → link ∈ shared.urls)
  nodup : shared.urls.Nodup
  articles : ∀ article ∈ shared.articles, article.url ∈ shared.seenURLs ∧
    Indexable web article.url ∧ Offered web feeds { title := article.title, link := article.url }
  index : ∀ idx article, shared.articles[idx]? = some article →
    (∃ id, claim (tasks id) = some (.inr idx)) ∨
      ∀ token, shared.invertedIndex token idx = expected web article.url token
  beyond : ∀ idx ≥ shared.articles.length, ∀ token, shared.invertedIndex token idx = none

section Tasks

variable {ι : Type*} [DecidableEq ι] {web : Web} {feeds : List RSSItem} {tasks : ι → Option Task}
  {shared after : Shared} {id : ι} {item : RSSItem}

theorem claim_update (tasks : ι → Option Task) (id : ι) (next : Option Task) (other : ι) :
    claim (Function.update tasks id next other) =
      if other = id then claim next else claim (tasks other) := by
  by_cases here : other = id
  · rw [if_pos here, here, Function.update_self]
  · rw [if_neg here, Function.update_of_ne here]

/-- Work that one task does not claim is still claimed after that task has moved. -/
theorem claim_update_of {next : Option Task} {other : ι} {work : Text ⊕ ℕ}
    (claimed : claim (tasks other) = some work) (apart : claim (tasks id) ≠ some work) :
    claim (Function.update tasks id next other) = some work := by
  rw [claim_update, if_neg, claimed]
  rintro rfl
  exact apart claimed

omit [DecidableEq ι] in
/-- A claimed link is seen and not yet an article; a claimed position is that of an article. -/
theorem Consistent.claimed (consistent : Consistent web feeds tasks shared) {work : Text ⊕ ℕ}
    (claimed : claim (tasks id) = some work) :
    (∀ link, work = .inl link → link ∈ shared.seenURLs ∧ link ∉ shared.urls) ∧
      ∀ idx, work = .inr idx → idx < shared.articles.length := by
  cases entry : tasks id with
  | none => simp [entry, claim] at claimed
  | some task =>
      obtain ⟨item, pc⟩ := task
      have ok := consistent.task id item pc entry
      rw [entry] at claimed
      cases pc with
      | seen | returned => cases claimed
      | server | wait | fetch =>
          obtain rfl := Option.some.inj claimed
          exact ⟨fun link same => Sum.inl.inj same ▸ ok, nofun⟩
      | signal | push =>
          obtain rfl := Option.some.inj claimed
          exact ⟨fun link same => Sum.inl.inj same ▸ ok.1, nofun⟩
      | fold counts idx =>
          obtain rfl := Option.some.inj claimed
          refine ⟨nofun, fun position same => ?_⟩
          obtain rfl := Sum.inr.inj same
          exact (List.getElem?_eq_some_iff.mp ok.1).1

/-- The three parts of the shared state that the article tasks read and write. -/
structure SameIndex (shared after : Shared) : Prop where
  articles : after.articles = shared.articles
  invertedIndex : after.invertedIndex = shared.invertedIndex
  seenURLs : after.seenURLs = shared.seenURLs

omit [DecidableEq ι] in
theorem sameIndex_serverSemaphore (shared : Shared) (server : Text) :
    SameIndex shared (shared.serverSemaphore server) := by
  unfold Shared.serverSemaphore
  split <;> exact ⟨rfl, rfl, rfl⟩

theorem sameIndex_wait {server : Text} (waited : shared.wait server = some after) :
    SameIndex shared after := by
  unfold Shared.wait at waited
  split at waited
  · obtain rfl := Option.some.inj waited
    exact ⟨rfl, rfl, rfl⟩
  · cases waited

theorem sameIndex_signal (shared : Shared) (server : Text) :
    SameIndex shared (shared.signal server) :=
  ⟨rfl, rfl, rfl⟩

theorem SameIndex.urls (same : SameIndex shared after) : after.urls = shared.urls := by
  rw [Shared.urls, same.articles, Shared.urls]

theorem SameIndex.taskOk (same : SameIndex shared after) {pc : ArticlePc}
    (ok : TaskOk web shared item pc) : TaskOk web after item pc := by
  cases pc with
  | seen => trivial
  | _ => simpa only [TaskOk, same.urls, same.articles, same.invertedIndex, same.seenURLs] using ok

omit [DecidableEq ι] in
/-- A step that leaves the index and the claims alone. -/
theorem Consistent.of_claims (consistent : Consistent web feeds tasks shared)
    (same : SameIndex shared after) {next : ι → Option Task}
    (claims : ∀ id, claim (next id) = claim (tasks id))
    (ok : ∀ id item pc, next id = some (item, pc) →
      TaskOk web after item pc ∧ Offered web feeds item) : Consistent web feeds next after := by
  refine ⟨fun id item pc entry => (ok id item pc entry).1,
    fun id item pc entry => (ok id item pc entry).2, ?_, ?_, ?_, ?_, ?_, ?_⟩
  · intro left right work
    rw [claims, claims]
    exact consistent.alone left right work
  · simp only [claims, same.seenURLs, same.urls]
    exact consistent.settled
  · rw [same.urls]
    exact consistent.nodup
  · simp only [same.articles, same.seenURLs]
    exact consistent.articles
  · simp only [claims, same.articles, same.invertedIndex]
    exact consistent.index
  · simp only [same.articles, same.invertedIndex]
    exact consistent.beyond

omit [DecidableEq ι] in
/-- A step that changes only what no article task reads. -/
theorem Consistent.frame (consistent : Consistent web feeds tasks shared)
    (same : SameIndex shared after) : Consistent web feeds tasks after :=
  consistent.of_claims same (fun _ => rfl) fun id item pc entry =>
    ⟨same.taskOk (consistent.task id item pc entry), consistent.offered id item pc entry⟩

/-- The tasks after one of them has moved. -/
theorem update_cases {next : Option Task} {other : ι} {pc : ArticlePc}
    (entry : Function.update tasks id next other = some (item, pc)) :
    (other = id ∧ next = some (item, pc)) ∨ (other ≠ id ∧ tasks other = some (item, pc)) := by
  by_cases here : other = id
  · subst here
    rw [Function.update_self] at entry
    exact .inl ⟨rfl, entry⟩
  · rw [Function.update_of_ne here] at entry
    exact .inr ⟨here, entry⟩

/-- What is known of the tasks after one of them has moved. -/
theorem task_update {next : ArticlePc} (own : TaskOk web after item next)
    (others : ∀ other task pc, other ≠ id → tasks other = some (task, pc) →
      TaskOk web after task pc)
    (other : ι) (task : RSSItem) (pc : ArticlePc)
    (moved : Function.update tasks id (some (item, next)) other = some (task, pc)) :
    TaskOk web after task pc := by
  rcases update_cases moved with ⟨_, moved⟩ | ⟨apart, moved⟩
  · obtain ⟨rfl, rfl⟩ := Prod.mk.inj (Option.some.inj moved)
    exact own
  · exact others other task pc apart moved

/-- A task that moves keeps its item. -/
theorem Consistent.offered_update (consistent : Consistent web feeds tasks shared)
    {pc next : ArticlePc} (entry : tasks id = some (item, pc)) (other : ι) (task : RSSItem)
    (pc' : ArticlePc)
    (moved : Function.update tasks id (some (item, next)) other = some (task, pc')) :
    Offered web feeds task := by
  rcases update_cases moved with ⟨_, moved⟩ | ⟨_, moved⟩
  · obtain ⟨rfl, rfl⟩ := Prod.mk.inj (Option.some.inj moved)
    exact consistent.offered id item pc entry
  · exact consistent.offered other task pc' moved

/-- A task that moves claims nothing, or what no task had claimed. -/
theorem Consistent.alone_update (consistent : Consistent web feeds tasks shared)
    {next : Option Task}
    (fresh : ∀ work other, claim next = some work → claim (tasks other) ≠ some work)
    (left right : ι)
    (work : Text ⊕ ℕ) (here : claim (Function.update tasks id next left) = some work)
    (there : claim (Function.update tasks id next right) = some work) : left = right := by
  rw [claim_update] at here there
  split at here <;> split at there
  · rename_i left_eq right_eq
    exact left_eq.trans right_eq.symm
  · exact absurd there (fresh work right here)
  · exact absurd here (fresh work left there)
  · exact consistent.alone left right work here there

/-- One task moves, and keeps its claim. -/
theorem Consistent.replace (consistent : Consistent web feeds tasks shared)
    (same : SameIndex shared after) {next : Option Task} (keeps : claim next = claim (tasks id))
    (ok : ∀ item pc, next = some (item, pc) → TaskOk web after item pc ∧ Offered web feeds item) :
    Consistent web feeds (Function.update tasks id next) after := by
  refine consistent.of_claims same ?_ ?_
  · intro other
    rw [claim_update]
    split
    · rename_i here
      rw [keeps, here]
    · rfl
  · intro other item pc entry
    rcases update_cases entry with ⟨_, entry⟩ | ⟨_, entry⟩
    · exact ok item pc entry
    · exact ⟨same.taskOk (consistent.task other item pc entry),
        consistent.offered other item pc entry⟩

/-- The `seenMutex` region claims a link that is new. -/
theorem Consistent.claimLink (consistent : Consistent web feeds tasks shared)
    (entry : tasks id = some (item, .seen)) (fresh : item.link ∉ shared.seenURLs) :
    Consistent web feeds (Function.update tasks id (some (item, .server)))
      { shared with seenURLs := item.link :: shared.seenURLs } := by
  have unlisted : item.link ∉ shared.urls := by
    intro listed
    obtain ⟨article, inside, url⟩ := List.mem_map.mp listed
    exact fresh (url ▸ (consistent.articles article inside).1)
  have unclaimed {work : Text ⊕ ℕ} : claim (tasks id) ≠ some work := by
    rw [entry]
    exact nofun
  have elsewhere {other : ι} {link : Text} (claimed : claim (tasks other) = some (.inl link)) :
      link ≠ item.link := by
    rintro rfl
    exact fresh ((consistent.claimed claimed).1 _ rfl).1
  refine ⟨task_update ⟨List.mem_cons_self, unlisted⟩ ?_, consistent.offered_update entry,
    consistent.alone_update ?_, ?_, consistent.nodup, ?_, ?_, consistent.beyond⟩
  · intro other task pc _ moved
    have old := consistent.task other task pc moved
    cases pc with
    | seen => trivial
    | server | wait | fetch => exact ⟨List.mem_cons_of_mem _ old.1, old.2⟩
    | signal | push => exact ⟨⟨List.mem_cons_of_mem _ old.1.1, old.1.2⟩, old.2⟩
    | fold => exact ⟨old.1, List.mem_cons_of_mem _ old.2.1, old.2.2⟩
    | returned => exact List.mem_cons_of_mem _ old
  · intro work other own claimed
    obtain rfl := Option.some.inj own
    exact absurd rfl (elsewhere claimed)
  · intro link seen
    rcases List.mem_cons.mp seen with rfl | seen
    · exact .inl ⟨id, by rw [claim_update, if_pos rfl]; rfl⟩
    · rcases consistent.settled link seen with ⟨other, claimed⟩ | settled
      · exact .inl ⟨other, claim_update_of claimed unclaimed⟩
      · exact .inr settled
  · intro article inside
    obtain ⟨seen, rest⟩ := consistent.articles article inside
    exact ⟨List.mem_cons_of_mem _ seen, rest⟩
  · intro idx article inside
    rcases consistent.index idx article inside with ⟨other, claimed⟩ | final
    · exact .inl ⟨other, claim_update_of claimed unclaimed⟩
    · exact .inr final

/-- A task whose link has no article to give drops its claim. -/
theorem Consistent.drop (consistent : Consistent web feeds tasks shared)
    (same : SameIndex shared after) {page : Option (List Text)}
    (entry : tasks id = some (item, .signal page)) (useless : ¬ Indexable web item.link) :
    Consistent web feeds (Function.update tasks id (some (item, .returned))) after := by
  have ok := consistent.task id item _ entry
  have own : claim (tasks id) = some (.inl item.link) := by
    rw [entry]
    rfl
  have done : TaskOk web after item .returned :=
    same.taskOk (show TaskOk web shared item .returned from ok.1.1)
  refine ⟨task_update done fun other task pc _ moved => ?_, consistent.offered_update entry,
    consistent.alone_update nofun, ?_, ?_, ?_, ?_, ?_⟩
  · exact same.taskOk (consistent.task other task pc moved)
  · intro link seen
    rw [same.seenURLs] at seen
    rw [same.urls]
    by_cases here : link = item.link
    · exact .inr fun indexable => absurd (here ▸ indexable) useless
    · rcases consistent.settled link seen with ⟨other, claimed⟩ | settled
      · refine .inl ⟨other, claim_update_of claimed ?_⟩
        rw [own]
        exact fun equal => here (Sum.inl.inj (Option.some.inj equal)).symm
      · exact .inr settled
  · rw [same.urls]
    exact consistent.nodup
  · rw [same.articles, same.seenURLs]
    exact consistent.articles
  · intro idx article inside
    rw [same.articles] at inside
    rw [same.invertedIndex]
    rcases consistent.index idx article inside with ⟨other, claimed⟩ | final
    · refine .inl ⟨other, claim_update_of claimed ?_⟩
      rw [own]
      exact nofun
    · exact .inr final
  · rw [same.articles, same.invertedIndex]
    exact consistent.beyond

/-- The `articlesMutex` region turns the claim of a link into that of a fresh position. -/
theorem Consistent.pushArticle (consistent : Consistent web feeds tasks shared)
    {counts : List (Text × ℕ)} (entry : tasks id = some (item, .push counts)) :
    Consistent web feeds
      (Function.update tasks id (some (item, .fold counts shared.articles.length)))
      { shared with
        articles := shared.articles ++ [{ title := item.title, url := item.link }] } := by
  obtain ⟨⟨seen, unlisted⟩, nonempty, tokens, page, counts_eq⟩ := consistent.task id item _ entry
  have offered := consistent.offered id item _ entry
  have own : claim (tasks id) = some (.inl item.link) := by
    rw [entry]
    rfl
  have indexable : Indexable web item.link :=
    ⟨tokens, page, fun empty => nonempty (counts_eq.trans (countTokens_eq_nil.mpr empty))⟩
  have urls : ({ shared with
      articles := shared.articles ++ [{ title := item.title, url := item.link }] } : Shared).urls =
        shared.urls ++ [item.link] := List.map_append
  have elsewhere {other : ι} (apart : other ≠ id) {link : Text}
      (claimed : claim (tasks other) = some (.inl link)) : link ≠ item.link := by
    rintro rfl
    exact apart (consistent.alone other id _ claimed own)
  have unlisted' {other : ι} (apart : other ≠ id) {link : Text}
      (claimed : claim (tasks other) = some (.inl link)) (free : link ∉ shared.urls) :
      link ∉ shared.urls ++ [item.link] := by
    rintro inside
    rcases List.mem_append.mp inside with listed | new
    · exact free listed
    · exact elsewhere apart claimed (List.mem_singleton.mp new)
  refine ⟨task_update ?_ ?_, consistent.offered_update entry, consistent.alone_update ?_, ?_, ?_,
    ?_,
    ?_, ?_⟩
  · exact ⟨by simp, seen, consistent.beyond _ le_rfl, tokens, page, counts_eq⟩
  · intro other task pc apart moved
    have old := consistent.task other task pc moved
    have claimed : claim (tasks other) = claim (some (task, pc)) := by rw [moved]
    cases pc with
    | seen => trivial
    | server | wait | fetch => exact ⟨old.1, urls ▸ unlisted' apart claimed old.2⟩
    | signal | push => exact ⟨⟨old.1.1, urls ▸ unlisted' apart claimed old.1.2⟩, old.2⟩
    | fold =>
        refine ⟨?_, old.2⟩
        rw [List.getElem?_append_left (List.getElem?_eq_some_iff.mp old.1).1]
        exact old.1
    | returned => exact old
  · intro work other position claimed
    obtain rfl := Option.some.inj position
    exact lt_irrefl _ ((consistent.claimed claimed).2 _ rfl)
  · intro link inside
    rw [urls]
    by_cases here : link = item.link
    · exact .inr fun _ => List.mem_append_right _ (List.mem_singleton.mpr here)
    · rcases consistent.settled link inside with ⟨other, claimed⟩ | settled
      · refine .inl ⟨other, claim_update_of claimed ?_⟩
        rw [own]
        exact fun equal => here (Sum.inl.inj (Option.some.inj equal)).symm
      · exact .inr fun indexable => List.mem_append_left _ (settled indexable)
  · rw [urls]
    refine List.nodup_append.mpr ⟨consistent.nodup, List.nodup_singleton _, ?_⟩
    rintro link listed _ new rfl
    exact unlisted (List.mem_singleton.mp new ▸ listed)
  · intro article inside
    rcases List.mem_append.mp inside with old | new
    · exact consistent.articles article old
    · obtain rfl := List.mem_singleton.mp new
      exact ⟨seen, indexable, offered⟩
  · intro idx article inside
    rw [List.getElem?_append] at inside
    split at inside
    · rcases consistent.index idx article inside with ⟨other, claimed⟩ | final
      · refine .inl ⟨other, claim_update_of claimed ?_⟩
        rw [own]
        exact nofun
      · exact .inr final
    · rename_i outside
      obtain ⟨bound, _⟩ := List.getElem?_eq_some_iff.mp inside
      have last : idx = shared.articles.length := by
        rw [List.length_singleton] at bound
        omega
      exact .inl ⟨id, by rw [claim_update, if_pos rfl, last]; rfl⟩
  · intro idx outside
    rw [List.length_append, List.length_singleton] at outside
    exact consistent.beyond idx (Nat.le_of_succ_le outside)

/-- The `indexMutex` region fills the claimed position. -/
theorem Consistent.foldCounts (consistent : Consistent web feeds tasks shared)
    {counts : List (Text × ℕ)} {idx : ℕ} (entry : tasks id = some (item, .fold counts idx)) :
    Consistent web feeds (Function.update tasks id (some (item, .returned)))
      (counts.foldl (fun shared entry => shared.addCount idx entry) shared) := by
  obtain ⟨listed, seen, empty, tokens, page, rfl⟩ := consistent.task id item _ entry
  have own : claim (tasks id) = some (.inr idx) := by
    rw [entry]
    rfl
  have column := invertedIndex_addCounts (nodup_countTokens tokens) idx shared
  obtain ⟨articles, seenURLs⟩ := addCounts_frame (countTokens tokens) idx shared
  generalize (countTokens tokens).foldl (fun shared entry => shared.addCount idx entry) shared =
    after at column articles seenURLs
  have urls : after.urls = shared.urls := by rw [Shared.urls, articles, Shared.urls]
  have filled (token : Text) : after.invertedIndex token idx = expected web item.link token := by
    rw [column, if_pos rfl, lookup_countTokens, expected, page, empty]
    by_cases inside : token ∈ tokens
    · simp only [inside, if_true, Option.getD_none, Nat.zero_add]
    · simp only [inside, if_false]
  have kept {position : ℕ} (apart : position ≠ idx) (token : Text) :
      after.invertedIndex token position = shared.invertedIndex token position := by
    rw [column, if_neg apart]
  refine ⟨task_update ?_ ?_, consistent.offered_update entry, consistent.alone_update nofun, ?_, ?_,
    ?_, ?_, ?_⟩
  · rw [TaskOk, seenURLs]
    exact seen
  · intro other task pc apart moved
    have old := consistent.task other task pc moved
    cases pc with
    | fold counts position =>
        have distinct : position ≠ idx := by
          rintro rfl
          exact apart (consistent.alone other id (.inr position) (by rw [moved]; rfl) own)
        simp only [TaskOk, articles, seenURLs, kept distinct]
        exact old
    | seen => trivial
    | _ => simpa only [TaskOk, urls, seenURLs] using old
  · intro link inside
    rw [seenURLs] at inside
    rw [urls]
    rcases consistent.settled link inside with ⟨other, claimed⟩ | settled
    · refine .inl ⟨other, claim_update_of claimed ?_⟩
      rw [own]
      exact nofun
    · exact .inr settled
  · rw [urls]
    exact consistent.nodup
  · rw [articles, seenURLs]
    exact consistent.articles
  · intro position article inside
    rw [articles] at inside
    by_cases here : position = idx
    · subst here
      obtain rfl := Option.some.inj (listed.symm.trans inside)
      exact .inr filled
    · rcases consistent.index position article inside with ⟨other, claimed⟩ | final
      · refine .inl ⟨other, claim_update_of claimed ?_⟩
        rw [own]
        exact fun equal => here (Sum.inr.inj (Option.some.inj equal)).symm
      · exact .inr fun token => (kept here token).trans (final token)
  · intro position outside token
    rw [articles] at outside
    have inside := (List.getElem?_eq_some_iff.mp listed).1
    rw [kept (inside.trans_le outside).ne' token]
    exact consistent.beyond position outside token

/-- The next region of an article task keeps the shared state consistent. -/
theorem Consistent.processArticle (consistent : Consistent web feeds tasks shared)
    {pc next : ArticlePc} (entry : tasks id = some (item, pc))
    (moved : processArticle web item shared pc = some (after, next)) :
    Consistent web feeds (Function.update tasks id (some (item, next))) after := by
  have ok := consistent.task id item pc entry
  have offered := consistent.offered id item pc entry
  have single {after : Shared} {next : ArticlePc} (same : SameIndex shared after)
      (keeps : claim (some (item, next)) = claim (some (item, pc)))
      (fine : TaskOk web shared item next) :
      Consistent web feeds (Function.update tasks id (some (item, next))) after := by
    refine consistent.replace same (keeps.trans (by rw [entry])) ?_
    rintro _ _ same_task
    obtain ⟨rfl, rfl⟩ := Prod.mk.inj (Option.some.inj same_task)
    exact ⟨same.taskOk fine, offered⟩
  cases pc with
  | seen =>
      rw [NewsAggregator.processArticle] at moved
      split at moved
      · rename_i seen
        obtain ⟨rfl, rfl⟩ := Prod.mk.inj (Option.some.inj moved)
        exact single ⟨rfl, rfl, rfl⟩ rfl seen
      · rename_i fresh
        obtain ⟨rfl, rfl⟩ := Prod.mk.inj (Option.some.inj moved)
        exact consistent.claimLink entry fresh
  | server =>
      obtain ⟨rfl, rfl⟩ := Prod.mk.inj (Option.some.inj moved)
      exact single (sameIndex_serverSemaphore _ _) rfl ok
  | wait =>
      obtain ⟨limited, waited, same⟩ := Option.map_eq_some_iff.mp moved
      obtain ⟨rfl, rfl⟩ := Prod.mk.inj same
      exact single (sameIndex_wait waited) rfl ok
  | fetch =>
      obtain ⟨rfl, rfl⟩ := Prod.mk.inj (Option.some.inj moved)
      exact single ⟨rfl, rfl, rfl⟩ rfl ⟨ok, rfl⟩
  | signal page =>
      obtain ⟨claimed, rfl⟩ := ok
      have same := sameIndex_signal shared (parseHttpURL item.link).server
      cases fetched : web.page item.link with
      | none =>
          rw [fetched, NewsAggregator.processArticle] at moved
          obtain ⟨rfl, rfl⟩ := Prod.mk.inj (Option.some.inj moved)
          refine consistent.drop same entry ?_
          rintro ⟨tokens, page, _⟩
          rw [fetched] at page
          cases page
      | some tokens =>
          rw [fetched, NewsAggregator.processArticle] at moved
          split at moved
          · rename_i empty
            obtain ⟨rfl, rfl⟩ := Prod.mk.inj (Option.some.inj moved)
            refine consistent.drop same entry ?_
            rintro ⟨tokens', page, nonempty⟩
            rw [fetched] at page
            obtain rfl := Option.some.inj page
            exact nonempty (countTokens_eq_nil.mp empty)
          · rename_i nonempty
            obtain ⟨rfl, rfl⟩ := Prod.mk.inj (Option.some.inj moved)
            exact single same rfl ⟨claimed, nonempty, tokens, fetched, rfl⟩
  | push counts =>
      obtain ⟨rfl, rfl⟩ := Prod.mk.inj (Option.some.inj moved)
      exact consistent.pushArticle entry
  | fold counts idx =>
      obtain ⟨rfl, rfl⟩ := Prod.mk.inj (Option.some.inj moved)
      exact consistent.foldCounts entry
  | returned => cases moved

end Tasks

end NewsAggregator
end Syscore
