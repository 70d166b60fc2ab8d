import Syscore.NewsAggregator.Wiring

/-!
# The final index

Whatever the schedule of the two pools, the index that the main thread finds is the one that a
sequential program would have built.
-/

namespace Syscore
namespace NewsAggregator

open ThreadPool (Entry Ticket Call SchedulePc WaitPc)

variable {web : Web} {feeds : List RSSItem} {state after : State}

theorem getElem?_issue {thunks : List RSSItem} {ticket : Ticket} (old : ticket < thunks.length)
    (call : Call) (item : RSSItem) : (issue thunks call item)[ticket]? = thunks[ticket]? := by
  unfold issue
  split
  · exact List.getElem?_append_left old
  · rfl

theorem subset_issue (thunks : List RSSItem) (call : Call) (item : RSSItem) :
    thunks ⊆ issue thunks call item := by
  unfold issue
  split
  · exact List.subset_append_left _ _
  · exact List.Subset.refl _

/-! ## Feed tasks -/

/-- All items of a feed have been given to the article pool. -/
def Published (web : Web) (thunks : List RSSItem) (feed : RSSItem) : Prop :=
  ∀ items, web.feed feed.link = some items → items ⊆ thunks

/-- Where a feed task is agrees with the items given to the article pool. -/
def FeedOk (web : Web) (thunks : List RSSItem) (call : Option Call) (feed : RSSItem) : FeedPc → Prop
  | .server | .wait | .fetch => True
  | .signal items => items = web.feed feed.link
  | .loop rest => ∃ items, web.feed feed.link = some items ∧ rest ⊆ items ∧
      ∀ item ∈ items, item ∈ rest ∨ item ∈ thunks
  | .schedule item rest => ∃ items, web.feed feed.link = some items ∧ item :: rest ⊆ items ∧
      ∀ other ∈ items, other ∈ rest ∨ other ∈ thunks ∨
        other = item ∧ call = some (.schedule .increment)
  | .returned => Published web thunks feed

theorem FeedOk.mono {thunks later : List RSSItem} {call : Option Call} {feed : RSSItem}
    {pc : FeedPc}
    (ok : FeedOk web thunks call feed pc) (grown : thunks ⊆ later) :
    FeedOk web later call feed pc := by
  cases pc with
  | server | wait | fetch | signal => exact ok
  | loop =>
      obtain ⟨items, fetched, part, each⟩ := ok
      exact ⟨items, fetched, part, fun item inside => (each item inside).imp id (@grown item)⟩
  | schedule =>
      obtain ⟨items, fetched, part, each⟩ := ok
      exact ⟨items, fetched, part, fun item inside =>
        (each item inside).imp id (Or.imp (@grown item) id)⟩
  | returned => exact fun items fetched => List.Subset.trans (ok items fetched) grown

/-- The feed tasks have published what they should. -/
structure FeedsOk (web : Web) (feeds : List RSSItem) (state : State) : Prop where
  feed : ∀ id ticket feed, state.feedPool.body id = some ticket →
    state.feedThunks[ticket]? = some feed →
      FeedOk web state.articleThunks (state.articlePool.clients (some id)) feed (state.feedPcs id)
  done : ∀ ticket ∈ state.feedPool.pool.completed, ∀ feed, state.feedThunks[ticket]? = some feed →
    Published web state.articleThunks feed
  offered : ∀ item ∈ state.articleThunks, Offered web feeds item

namespace FeedsOk

variable (ok : FeedsOk web feeds state) (guided : Guided feeds state) (pools : Pools state)

include ok guided pools in
/-- A step of the feed pool that returns no body. -/
theorem feedPool {pool : ThreadPool.State feedThreads Unit} {thunks : List RSSItem}
    (bodies : ∀ id ticket, pool.body id = some ticket →
      state.feedPool.body id = some ticket ∨ state.feedPool.body id = none)
    (completed : pool.pool.completed = state.feedPool.pool.completed)
    (kept : ∀ ticket < state.feedThunks.length, thunks[ticket]? = state.feedThunks[ticket]?) :
    FeedsOk web feeds { state with feedPool := pool, feedThunks := thunks } where
  feed id ticket feed running thunk := by
    rcases bodies id ticket running with before | idle
    · have known := guided.feedTickets.symm ▸ (pools.feed.of_body before).1
      exact ok.feed id ticket feed before ((kept ticket known).symm.trans thunk)
    · have start := guided.idle id idle
      show FeedOk web state.articleThunks _ feed (state.feedPcs id)
      rw [start]
      trivial
  done ticket returned feed thunk := by
    have returned : ticket ∈ state.feedPool.pool.completed := completed ▸ returned
    have known := guided.feedTickets.symm ▸ pools.feed.of_completed returned
    exact ok.done ticket returned feed ((kept ticket known).symm.trans thunk)
  offered := ok.offered

include ok in
/-- A step of the article pool that no feed task takes. -/
theorem articlePool {pool : ThreadPool.State articleThreads ArticleClient}
    (clients : ∀ id, pool.clients (some id) = state.articlePool.clients (some id)) :
    FeedsOk web feeds { state with articlePool := pool } where
  feed id ticket feed running thunk := by
    show FeedOk web state.articleThunks (pool.clients (some id)) feed (state.feedPcs id)
    rw [clients]
    exact ok.feed id ticket feed running thunk
  done := ok.done
  offered := ok.offered

include ok in
/-- One feed task moves, and may schedule an item. -/
theorem update {id : Fin feedThreads} {ticket : Ticket} {feed : RSSItem}
    (running : state.feedPool.body id = some ticket) (thunk : state.feedThunks[ticket]? = some feed)
    {pool : ThreadPool.State articleThreads ArticleClient} {thunks : List RSSItem} {pc : FeedPc}
    (others : ∀ other, other ≠ id →
      pool.clients (some other) = state.articlePool.clients (some other))
    (grown : state.articleThunks ⊆ thunks) (offered : ∀ item ∈ thunks, Offered web feeds item)
    (next : FeedOk web thunks (pool.clients (some id)) feed pc) :
    FeedsOk web feeds
      { state with
        articlePool := pool
        articleThunks := thunks
        feedPcs := Function.update state.feedPcs id pc } where
  feed other ticket' feed' running' thunk' := by
    show FeedOk web thunks (pool.clients (some other)) feed'
      (Function.update state.feedPcs id pc other)
    by_cases here : other = id
    · subst here
      obtain rfl := Option.some.inj (running.symm.trans running')
      obtain rfl := Option.some.inj (thunk.symm.trans thunk')
      rw [Function.update_self]
      exact next
    · rw [Function.update_of_ne here, others other here]
      exact (ok.feed other ticket' feed' running' thunk').mono grown
  done ticket returned feed thunk items fetched :=
    List.Subset.trans (ok.done ticket returned feed thunk items fetched) grown
  offered := offered

include ok guided pools in
theorem move (move : Move web state after) : FeedsOk web feeds after := by
  cases move with
  | mainCalls position taken | mainWaits position taken =>
      obtain ⟨_, _, _, same, workers⟩ := ThreadPool.begins_call taken
      have bodies := ThreadPool.body_of_workers workers
      exact { ok.feedPool guided pools (fun id _ running => .inl ((bodies id).symm.trans running))
        (by rw [same]) (fun _ _ => rfl) with }
  | mainSchedules position inside taken =>
      have bodies := ThreadPool.body_client taken
      exact ok.feedPool guided pools (fun id _ running => .inl ((bodies id).symm.trans running))
        (ThreadPool.completed_client taken) fun _ known => getElem?_issue known _ _
  | mainNext position outside => exact { ok with }
  | mainBlocks position inside taken =>
      have bodies := ThreadPool.body_client taken
      exact ok.feedPool guided pools (fun id _ running => .inl ((bodies id).symm.trans running))
        (ThreadPool.completed_client taken) fun _ _ => rfl
  | mainTurns position outside taken =>
      obtain ⟨_, _, others, _, _⟩ := ThreadPool.begins_call taken
      exact { ok.articlePool fun id => others (some id) (Option.some_ne_none id) with }
  | mainBlocksAgain position inside taken =>
      exact ok.articlePool fun id => ThreadPool.clients_of_ne (Option.some_ne_none id) taken
  | mainJoins position outside => exact { ok with }
  | feedPool free taken =>
      refine ok.feedPool guided pools ?_ (free.history pools.feedUncalled taken).1 fun _ _ => rfl
      intro id ticket running
      cases before : state.feedPool.body id with
      | none => exact .inr rfl
      | some earlier => exact .inl ((free.body taken before).symm.trans running)
  | articlePool free taken =>
      exact ok.articlePool fun id => guided.clients_of_wake (free.clients taken _)
  | @feedEnds id ticket feed running thunk position =>
      have here := ok.feed id ticket feed running thunk
      rw [position] at here
      refine ok.update running thunk (fun _ _ => rfl) (List.Subset.refl _) ok.offered ?_
      obtain ⟨items, fetched, _, each⟩ := here
      intro items' fetched' item inside
      obtain rfl := Option.some.inj (fetched.symm.trans fetched')
      exact (each item inside).resolve_left List.not_mem_nil
  | @feedCalls id ticket feed item rest pool running thunk position taken =>
      obtain ⟨_, begun, others, _, _⟩ := ThreadPool.begins_call taken
      have here := ok.feed id ticket feed running thunk
      rw [position] at here
      obtain ⟨items, fetched, part, each⟩ := here
      refine ok.update running thunk
        (fun other apart => others (some other) fun equal => apart (Option.some.inj equal))
        (List.Subset.refl _) ok.offered ⟨items, fetched, part, ?_⟩
      intro other inside
      rcases each other inside with later | given
      · rcases List.mem_cons.mp later with rfl | later
        · exact .inr (.inr ⟨rfl, begun⟩)
        · exact .inl later
      · exact .inr (.inl given)
  | @feedSchedules id ticket feed item rest call pool running thunk position inside taken =>
      obtain ⟨_, pc, rfl⟩ := guided.calls id call inside
      have here := ok.feed id ticket feed running thunk
      rw [position, inside] at here
      obtain ⟨items, fetched, part, each⟩ := here
      have feed_known : feed ∈ feeds :=
        guided.main.subset (List.mem_of_getElem? thunk)
      have offered : ∀ other ∈ issue state.articleThunks (.schedule pc) item,
          Offered web feeds other := by
        intro other given
        unfold issue at given
        split at given
        · rcases List.mem_append.mp given with old | new
          · exact ok.offered other old
          · obtain rfl := List.mem_singleton.mp new
            exact ⟨feed, feed_known, items, fetched, part List.mem_cons_self⟩
        · exact ok.offered other given
      have stays : Function.update state.feedPcs id (.schedule item rest) = state.feedPcs := by
        rw [← position, Function.update_eq_self]
      have next : FeedOk web (issue state.articleThunks (.schedule pc) item)
          (pool.clients (some id)) feed (.schedule item rest) := by
        refine ⟨items, fetched, part, fun other inside => ?_⟩
        rcases each other inside with later | given | ⟨rfl, counting⟩
        · exact .inl later
        · exact .inr (.inl (subset_issue _ _ _ given))
        · obtain rfl := Call.schedule.inj (Option.some.inj counting)
          exact .inr (.inl (List.mem_append_right _ List.mem_cons_self))
      have moved := ok.update running thunk
        (fun other apart => ThreadPool.clients_of_ne
          (fun equal : some other = some id => apart (Option.some.inj equal)) taken)
        (subset_issue _ (.schedule pc) item) offered next
      rw [stays] at moved
      exact moved
  | @feedNext id ticket feed item rest running thunk position outside =>
      have here := ok.feed id ticket feed running thunk
      rw [position, outside] at here
      obtain ⟨items, fetched, part, each⟩ := here
      refine ok.update running thunk (fun _ _ => rfl) (List.Subset.refl _) ok.offered
        ⟨items, fetched, fun other inside => part (List.mem_cons_of_mem _ inside), ?_⟩
      intro other inside
      rcases each other inside with later | given | ⟨_, counting⟩
      · exact .inl later
      · exact .inr given
      · cases counting
  | @feedReturns id ticket feed pool running thunk position taken =>
      obtain ⟨completed, _, returned, _⟩ := ThreadPool.returns_worker running taken
      have here := ok.feed id ticket feed running thunk
      rw [position] at here
      refine ⟨?_, ?_, ok.offered⟩
      · intro other ticket' feed' running' thunk'
        have apart : other ≠ id := by
          rintro rfl
          cases returned.symm.trans running'
        show FeedOk web _ _ feed' (Function.update state.feedPcs id .server other)
        rw [Function.update_of_ne apart]
        exact ok.feed other ticket' feed' ((ThreadPool.body_worker apart taken).symm.trans running')
          thunk'
      · intro ticket' inside feed' thunk'
        rw [completed] at inside
        rcases List.mem_append.mp inside with old | new
        · exact ok.done ticket' old feed' thunk'
        · obtain rfl := List.mem_singleton.mp new
          obtain rfl := Option.some.inj (thunk.symm.trans thunk')
          exact here
  | @feedBody id ticket feed shared pc running thunk moved =>
      have here := ok.feed id ticket feed running thunk
      have next : FeedOk web state.articleThunks (state.articlePool.clients (some id)) feed pc := by
        cases position : state.feedPcs id with
        | server =>
            rw [position] at moved
            obtain ⟨_, rfl⟩ := Prod.mk.inj (Option.some.inj moved)
            trivial
        | wait =>
            rw [position] at moved
            obtain ⟨_, _, same⟩ := Option.map_eq_some_iff.mp moved
            obtain ⟨_, rfl⟩ := Prod.mk.inj same
            trivial
        | fetch =>
            rw [position] at moved
            obtain ⟨_, rfl⟩ := Prod.mk.inj (Option.some.inj moved)
            rfl
        | signal items =>
            rw [position] at moved here
            cases items with
            | none =>
                obtain ⟨_, rfl⟩ := Prod.mk.inj (Option.some.inj moved)
                intro items fetched
                cases here.trans fetched
            | some items =>
                obtain ⟨_, rfl⟩ := Prod.mk.inj (Option.some.inj moved)
                exact ⟨items, here.symm, List.Subset.refl _, fun _ inside => .inl inside⟩
        | _ =>
            rw [position] at moved
            cases moved
      exact { ok.update running thunk (fun _ _ => rfl) (List.Subset.refl _) ok.offered next with }
  | articleReturns running thunk position taken =>
      obtain ⟨_, _, _, clients⟩ := ThreadPool.returns_worker running taken
      exact { ok.articlePool fun id => by rw [clients] with }
  | articleBody running thunk moved => exact { ok with }

end FeedsOk

/-! ## Article tasks -/

/-- The article tasks at work. -/
def State.tasks (state : State) (id : Fin articleThreads) : Option Task :=
  (state.articlePool.body id).bind fun ticket =>
    (state.articleThunks[ticket]?).map fun item => (item, state.articlePcs id)

/-- The shared state agrees with the article tasks, and every finished one has seen its link. -/
structure ArticlesOk (web : Web) (feeds : List RSSItem) (state : State) : Prop where
  idle : ∀ id, state.articlePool.body id = none → state.articlePcs id = .seen
  consistent : Consistent web feeds state.tasks state.shared
  done : ∀ ticket ∈ state.articlePool.pool.completed, ∀ item,
    state.articleThunks[ticket]? = some item → item.link ∈ state.shared.seenURLs

theorem tasks_of_body {id : Fin articleThreads} {ticket : Ticket} {item : RSSItem}
    (running : state.articlePool.body id = some ticket)
    (thunk : state.articleThunks[ticket]? = some item) :
    state.tasks id = some (item, state.articlePcs id) := by
  rw [State.tasks, running, Option.bind_some, thunk, Option.map_some]

theorem tasks_of_idle {id : Fin articleThreads} (idle : state.articlePool.body id = none) :
    state.tasks id = none := by
  rw [State.tasks, idle, Option.bind_none]

/-- Links stay seen. -/
theorem seen_of_processArticle {item : RSSItem} {shared shared' : Shared} {pc next : ArticlePc}
    (moved : processArticle web item shared pc = some (shared', next)) :
    shared.seenURLs ⊆ shared'.seenURLs := by
  cases pc with
  | seen =>
      rw [processArticle] at moved
      split at moved
      · obtain ⟨rfl, _⟩ := Prod.mk.inj (Option.some.inj moved)
        exact List.Subset.refl _
      · obtain ⟨rfl, _⟩ := Prod.mk.inj (Option.some.inj moved)
        exact List.subset_cons_self _ _
  | server =>
      obtain ⟨rfl, _⟩ := Prod.mk.inj (Option.some.inj moved)
      exact (sameIndex_serverSemaphore shared _).seenURLs ▸ List.Subset.refl _
  | wait =>
      obtain ⟨_, waited, same⟩ := Option.map_eq_some_iff.mp moved
      obtain ⟨rfl, _⟩ := Prod.mk.inj same
      exact (sameIndex_wait waited).seenURLs ▸ List.Subset.refl _
  | signal page =>
      rw [processArticle.eq_def] at moved
      cases page with
      | none =>
          obtain ⟨rfl, _⟩ := Prod.mk.inj (Option.some.inj moved)
          exact List.Subset.refl _
      | some tokens =>
          simp only at moved
          split at moved
          all_goals
            obtain ⟨rfl, _⟩ := Prod.mk.inj (Option.some.inj moved)
            exact List.Subset.refl _
  | fetch | push =>
      obtain ⟨rfl, _⟩ := Prod.mk.inj (Option.some.inj moved)
      exact List.Subset.refl _
  | fold counts idx =>
      obtain ⟨rfl, _⟩ := Prod.mk.inj (Option.some.inj moved)
      exact (addCounts_frame counts idx shared).2 ▸ List.Subset.refl _
  | returned => cases moved

/-- Feed tasks touch nothing but the semaphores. -/
theorem sameIndex_processFeed {feed : RSSItem} {shared shared' : Shared} {pc next : FeedPc}
    (moved : processFeed web feed shared pc = some (shared', next)) : SameIndex shared shared' := by
  cases pc with
  | server =>
      obtain ⟨rfl, _⟩ := Prod.mk.inj (Option.some.inj moved)
      exact sameIndex_serverSemaphore shared _
  | wait =>
      obtain ⟨_, waited, same⟩ := Option.map_eq_some_iff.mp moved
      obtain ⟨rfl, _⟩ := Prod.mk.inj same
      exact sameIndex_wait waited
  | fetch =>
      obtain ⟨rfl, _⟩ := Prod.mk.inj (Option.some.inj moved)
      exact ⟨rfl, rfl, rfl⟩
  | signal items =>
      cases items <;>
      · obtain ⟨rfl, _⟩ := Prod.mk.inj (Option.some.inj moved)
        exact sameIndex_signal shared _
  | _ => cases moved

namespace ArticlesOk

variable (ok : ArticlesOk web feeds state) (guided : Guided feeds state) (pools : Pools state)

include ok guided pools in
/-- A step of the article pool that returns no body. -/
theorem articlePool {pool : ThreadPool.State articleThreads ArticleClient} {thunks : List RSSItem}
    (bodies : ∀ id ticket, state.articlePool.body id = some ticket → pool.body id = some ticket)
    (completed : pool.pool.completed = state.articlePool.pool.completed)
    (kept : ∀ ticket < state.articleThunks.length, thunks[ticket]? = state.articleThunks[ticket]?)
    (offered : ∀ item ∈ thunks, Offered web feeds item) :
    ArticlesOk web feeds { state with articlePool := pool, articleThunks := thunks } := by
  have known {ticket : Ticket} (given : ticket < state.articlePool.pool.issued) :
      thunks[ticket]? = state.articleThunks[ticket]? := kept ticket (guided.articleTickets ▸ given)
  have idle (id : Fin articleThreads) (idle : pool.body id = none) :
      state.articlePool.body id = none := by
    refine Option.eq_none_iff_forall_not_mem.mpr fun ticket running => ?_
    cases (bodies id ticket running).symm.trans idle
  have cases_of (id : Fin articleThreads) :
      (State.tasks { state with articlePool := pool, articleThunks := thunks } id =
          state.tasks id) ∨
        state.tasks id = none ∧
          (State.tasks { state with articlePool := pool, articleThunks := thunks } id = none ∨
            ∃ item ∈ thunks, State.tasks
              { state with articlePool := pool, articleThunks := thunks } id =
                some (item, .seen)) := by
    cases before : state.articlePool.body id with
    | some ticket =>
        refine .inl ?_
        rw [State.tasks, State.tasks, before]
        simp only [bodies id ticket before, Option.bind_some,
          known (pools.article.of_body before).1]
    | none =>
        refine .inr ⟨tasks_of_idle before, ?_⟩
        unfold State.tasks
        cases pool.body id with
        | none => exact .inl rfl
        | some ticket =>
            cases thunk : thunks[ticket]? with
            | none => exact .inl (by simp only [Option.bind_some, thunk, Option.map_none])
            | some item =>
                refine .inr ⟨item, List.mem_of_getElem? thunk, ?_⟩
                simp only [Option.bind_some, thunk, Option.map_some, ok.idle id before]
  refine ⟨fun id still => ok.idle id (idle id still), ?_, ?_⟩
  · refine ok.consistent.of_claims ⟨rfl, rfl, rfl⟩ ?_ ?_
    · intro id
      rcases cases_of id with same | ⟨before, outside | ⟨item, _, begun⟩⟩
      · rw [same]
      · rw [outside, before]
      · rw [begun, before]
        rfl
    · intro id item pc entry
      rcases cases_of id with same | ⟨_, outside | ⟨item', given, begun⟩⟩
      · rw [same] at entry
        exact ⟨ok.consistent.task id item pc entry, ok.consistent.offered id item pc entry⟩
      · cases outside.symm.trans entry
      · obtain ⟨rfl, rfl⟩ := Prod.mk.inj (Option.some.inj (begun.symm.trans entry))
        exact ⟨trivial, offered item' given⟩
  · intro ticket returned item thunk
    have returned : ticket ∈ state.articlePool.pool.completed := completed ▸ returned
    exact ok.done ticket returned item
      ((known (pools.article.of_completed returned)).symm.trans thunk)

include ok guided pools in
theorem move (feedsOk : FeedsOk web feeds after) (move : Move web state after) :
    ArticlesOk web feeds after := by
  cases move with
  | mainCalls | mainSchedules | mainNext | mainWaits | mainBlocks | mainJoins | feedPool
  | feedEnds | feedNext | feedReturns => exact { ok with }
  | mainTurns position outside taken =>
      obtain ⟨_, _, _, same, workers⟩ := ThreadPool.begins_call taken
      have bodies := ThreadPool.body_of_workers workers
      exact { ok.articlePool guided pools (fun id _ running => (bodies id).trans running)
        (by rw [same]) (fun _ _ => rfl) feedsOk.offered with }
  | mainBlocksAgain position inside taken =>
      have bodies := ThreadPool.body_client taken
      exact ok.articlePool guided pools (fun id _ running => (bodies id).trans running)
        (ThreadPool.completed_client taken) (fun _ _ => rfl) feedsOk.offered
  | articlePool free taken =>
      exact ok.articlePool guided pools (fun _ _ running => free.body taken running)
        (free.history pools.articleUncalled taken).1 (fun _ _ => rfl) feedsOk.offered
  | feedCalls running thunk position taken =>
      obtain ⟨_, _, _, same, workers⟩ := ThreadPool.begins_call taken
      have bodies := ThreadPool.body_of_workers workers
      exact { ok.articlePool guided pools (fun id _ running => (bodies id).trans running)
        (by rw [same]) (fun _ _ => rfl) feedsOk.offered with }
  | feedSchedules running thunk position inside taken =>
      have bodies := ThreadPool.body_client taken
      exact ok.articlePool guided pools (fun id _ running => (bodies id).trans running)
        (ThreadPool.completed_client taken) (fun _ known => getElem?_issue known _ _)
        feedsOk.offered
  | feedBody running thunk moved =>
      have same := sameIndex_processFeed moved
      refine ⟨ok.idle, ok.consistent.frame same, fun ticket returned item thunk => ?_⟩
      exact same.seenURLs ▸ ok.done ticket returned item thunk
  | @articleReturns id ticket item pool running thunk position taken =>
      obtain ⟨completed, _, returned, _⟩ := ThreadPool.returns_worker running taken
      have here := tasks_of_body running thunk
      rw [position] at here
      have tasks : State.tasks
          { state with
            articlePool := pool
            articlePcs := Function.update state.articlePcs id .seen } =
          Function.update state.tasks id none := by
        funext other
        by_cases same : other = id
        · rw [same, Function.update_self]
          exact tasks_of_idle returned
        · rw [Function.update_of_ne same]
          simp only [State.tasks, ThreadPool.body_worker same taken, Function.update_of_ne same]
      refine ⟨?_, ?_, ?_⟩
      · intro other idle
        by_cases same : other = id
        · rw [same]
          exact Function.update_self ..
        · refine (Function.update_of_ne same ..).trans (ok.idle other ?_)
          exact (ThreadPool.body_worker same taken).symm.trans idle
      · rw [tasks]
        refine ok.consistent.replace ⟨rfl, rfl, rfl⟩ ?_ nofun
        rw [here]
        rfl
      · intro ticket' inside item' thunk'
        rw [completed] at inside
        rcases List.mem_append.mp inside with old | new
        · exact ok.done ticket' old item' thunk'
        · obtain rfl := List.mem_singleton.mp new
          obtain rfl := Option.some.inj (thunk.symm.trans thunk')
          exact ok.consistent.task id item _ here
  | @articleBody id ticket item shared pc running thunk moved =>
      have here := tasks_of_body running thunk
      have tasks : State.tasks
          { state with shared, articlePcs := Function.update state.articlePcs id pc } =
          Function.update state.tasks id (some (item, pc)) := by
        funext other
        by_cases same : other = id
        · subst same
          rw [Function.update_self]
          simp only [State.tasks, running, Option.bind_some, thunk, Option.map_some,
            Function.update_self]
        · rw [Function.update_of_ne same]
          simp only [State.tasks, Function.update_of_ne same]
      refine ⟨?_, ?_, ?_⟩
      · intro other idle
        have apart : other ≠ id := by
          rintro rfl
          cases running.symm.trans idle
        exact (Function.update_of_ne apart ..).trans (ok.idle other idle)
      · rw [tasks]
        exact ok.consistent.processArticle here moved
      · intro ticket' returned item' thunk'
        exact seen_of_processArticle moved (ok.done ticket' returned item' thunk')

end ArticlesOk

/-! ## Every run -/

/-- What holds in every reachable state. -/
structure Sound (web : Web) (feeds : List RSSItem) (state : State) : Prop where
  pools : Pools state
  guided : Guided feeds state
  feedTasks : FeedsOk web feeds state
  articleTasks : ArticlesOk web feeds state

theorem sound_start (web : Web) (feeds : List RSSItem) : Sound web feeds (start feeds) where
  pools := ⟨ThreadPool.invariant_construct, ThreadPool.invariant_construct, fun _ => rfl,
    fun _ => rfl⟩
  guided := ⟨⟨rfl, rfl, rfl⟩, rfl, rfl, nofun, fun _ _ => rfl⟩
  feedTasks := ⟨nofun, nofun, nofun⟩
  articleTasks := ⟨fun _ _ => rfl, ⟨nofun, nofun, nofun, nofun, List.nodup_nil, nofun, nofun,
    fun _ _ _ => rfl⟩, nofun⟩

theorem Sound.move (sound : Sound web feeds state) (move : Move web state after) :
    Sound web feeds after := by
  have feedsOk := sound.feedTasks.move sound.guided sound.pools move
  exact ⟨sound.pools.move move, sound.guided.move sound.pools move, feedsOk,
    sound.articleTasks.move sound.guided sound.pools feedsOk move⟩

theorem sound_of_reachable (reach : (machine web feeds).Reachable .free state) :
    Sound web feeds state := by
  refine reach.invariant (Sound web feeds) ?_ ?_
  · rintro _ rfl
    exact sound_start web feeds
  · intro _ _ _ sound _ taken
    exact sound.move (move_of_step taken)

/-! ## Past both waits -/

/-- A drained pool runs no body. -/
theorem body_of_drained {numThreads : ℕ} {Client : Type} [Fintype Client]
    {pool : ThreadPool.State numThreads Client} (invariant : ThreadPool.Invariant pool)
    (drained : pool.Drained) (id : Fin numThreads) : pool.body id = none :=
  Option.eq_none_iff_forall_not_mem.mpr fun _ running =>
    not_drained_of_body invariant running drained

/-- The thunk of every ticket of a drained pool has run. -/
theorem exists_completed {numThreads : ℕ} {Client : Type}
    {pool : ThreadPool.State numThreads Client} (drained : pool.Drained) {thunks : List RSSItem}
    (tickets : thunks.length = pool.pool.issued) {item : RSSItem} (given : item ∈ thunks) :
    ∃ ticket ∈ pool.pool.completed, thunks[ticket]? = some item := by
  obtain ⟨ticket, thunk⟩ := List.getElem?_of_mem given
  have known := (List.getElem?_eq_some_iff.mp thunk).1
  exact ⟨ticket, drained ticket (tickets ▸ known), thunk⟩

namespace Sound

variable (sound : Sound web feeds state) (joined : state.main = .joined)

include sound joined in
theorem drained :
    state.feedThunks = feeds ∧ state.feedPool.Drained ∧ state.articlePool.Drained := by
  have main := sound.guided.main
  rw [joined] at main
  exact ⟨main.1, main.2.2.1, main.2.2.2.2⟩

include sound joined in
/-- Past both waits every offered link has been seen. -/
theorem seen_of_offered {item : RSSItem} (offered : Offered web feeds item) :
    item.link ∈ state.shared.seenURLs := by
  obtain ⟨whole, feedDrained, articleDrained⟩ := sound.drained joined
  obtain ⟨feed, known, items, fetched, inside⟩ := offered
  obtain ⟨ticket, returned, thunk⟩ :=
    exists_completed feedDrained sound.guided.feedTickets (whole.symm ▸ known)
  have given := sound.feedTasks.done ticket returned feed thunk items fetched inside
  obtain ⟨ticket, returned, thunk⟩ :=
    exists_completed articleDrained sound.guided.articleTickets given
  exact sound.articleTasks.done ticket returned item thunk

include sound joined in
/-- Past both waits no article task is at work. -/
theorem tasks_of_joined (id : Fin articleThreads) : claim (state.tasks id) = none := by
  obtain ⟨_, _, drained⟩ := sound.drained joined
  rw [tasks_of_idle (body_of_drained sound.pools.article drained id)]
  rfl

include sound joined in
/-- Past both waits the articles are the offered links that could be indexed. -/
theorem mem_urls_iff {link : Text} : link ∈ state.shared.urls ↔
    (∃ item, Offered web feeds item ∧ item.link = link) ∧ Indexable web link := by
  have consistent := sound.articleTasks.consistent
  constructor
  · intro listed
    obtain ⟨article, inside, rfl⟩ := List.mem_map.mp listed
    obtain ⟨_, indexable, offered⟩ := consistent.articles article inside
    exact ⟨⟨_, offered, rfl⟩, indexable⟩
  · rintro ⟨⟨item, offered, rfl⟩, indexable⟩
    rcases consistent.settled item.link (sound.seen_of_offered joined offered) with
      ⟨id, claimed⟩ | settled
    · cases (sound.tasks_of_joined joined id).symm.trans claimed
    · exact settled indexable

include sound joined in
/-- Past both waits every article has its counts. -/
theorem invertedIndex_eq (token : Text) (idx : ℕ) : state.shared.invertedIndex token idx =
    match state.shared.articles[idx]? with
    | some article => expected web article.url token
    | none => none := by
  have consistent := sound.articleTasks.consistent
  cases listed : state.shared.articles[idx]? with
  | none => exact consistent.beyond idx (List.getElem?_eq_none_iff.mp listed) token
  | some article =>
      rcases consistent.index idx article listed with ⟨id, claimed⟩ | final
      · cases (sound.tasks_of_joined joined id).symm.trans claimed
      · exact final token

end Sound

/-- The index that `main` finds past both waits is the sequential one, whatever the schedule. -/
theorem final_index (web : Web) (feeds : List RSSItem) (state : State)
    (reach : (machine web feeds).Reachable .free state) (joined : state.main = .joined) :
    state.shared.urls.Nodup ∧
      (∀ link, link ∈ state.shared.urls ↔
        (∃ item, Offered web feeds item ∧ item.link = link) ∧ Indexable web link) ∧
      (∀ article ∈ state.shared.articles,
        Offered web feeds { title := article.title, link := article.url }) ∧
      ∀ token idx, state.shared.invertedIndex token idx =
        match state.shared.articles[idx]? with
        | some article => expected web article.url token
        | none => none := by
  have sound := sound_of_reachable reach
  have consistent := sound.articleTasks.consistent
  exact ⟨consistent.nodup, fun _ => sound.mem_urls_iff joined,
    fun article listed => (consistent.articles article listed).2.2, sound.invertedIndex_eq joined⟩

/-- Two feeds with one link between them, and a page of three words. -/
def sharedLink : Web where
  feed link :=
    if link = ascii "http://h/a" then
      some [{ title := ascii "first", link := ascii "http://h/x" }]
    else
      some [{ title := ascii "second", link := ascii "http://h/x" }]
  page _ := some [ascii "to", ascii "be", ascii "to"]

def twoFeeds : List RSSItem :=
  [{ title := ascii "A", link := ascii "http://h/a" },
    { title := ascii "B", link := ascii "http://h/b" }]

/-- Both feed tasks are done before the first article task begins. -/
def overlappingRun : List Thread :=
  List.flatten
    [List.replicate 12 .main, List.replicate 16 .feedDispatcher, List.replicate 10 (.feedWorker 0),
      List.replicate 8 .articleDispatcher, List.replicate 6 (.feedWorker 0),
      List.replicate 10 (.feedWorker 1), List.replicate 8 .articleDispatcher,
      List.replicate 6 (.feedWorker 1), List.replicate 3 .main,
      List.replicate 13 (.articleWorker 0), List.replicate 7 (.articleWorker 1),
      List.replicate 2 .main]

theorem overlappingRun_finishes :
    ((machine sharedLink twoFeeds).exec .free (start twoFeeds) overlappingRun).isSome = true := by
  decide +kernel

/-- What `main` finds after `overlappingRun`. -/
def overlappingEnd : State :=
  ((machine sharedLink twoFeeds).exec .free (start twoFeeds) overlappingRun).get
    overlappingRun_finishes

theorem final_index_shared :
    overlappingEnd.shared.urls = [ascii "http://h/x"] ∧
      overlappingEnd.shared.urls.Nodup ∧
      overlappingEnd.shared.invertedIndex (ascii "to") 0 = some 2 := by
  have reach : (machine sharedLink twoFeeds).Reachable .free overlappingEnd :=
    .of_exec rfl overlappingRun overlappingRun_finishes
  obtain ⟨nodup, _, _, index⟩ :=
    final_index sharedLink twoFeeds overlappingEnd reach (by decide +kernel)
  have listed : overlappingEnd.shared.articles =
      [{ title := ascii "first", url := ascii "http://h/x" }] := by
    decide +kernel
  refine ⟨by rw [Shared.urls, listed]; rfl, nodup, (index (ascii "to") 0).trans ?_⟩
  rw [listed]
  decide +kernel

end NewsAggregator
end Syscore
