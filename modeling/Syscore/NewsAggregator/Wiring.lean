import Mathlib.Data.Fintype.Option
import Syscore.NewsAggregator.Index
import Syscore.NewsAggregator.Steps

/-!
# Two pools and the main thread

Feed tasks schedule the items of their feeds on the article pool, and the main thread waits for one
pool and then for the other. When it has, every feed and every scheduled item has been processed.
-/

namespace Syscore
namespace NewsAggregator

open ThreadPool (Entry Ticket Call SchedulePc WaitPc)

variable {web : Web} {feeds : List RSSItem} {state after : State}

/-! ## Pools -/

section Free

variable {numThreads : ℕ} {Client : Type} [NeZero numThreads] [DecidableEq Client]
  {pool next : ThreadPool.State numThreads Client} {main : Client}
  {action : ThreadPool.Action numThreads Client}

omit [NeZero numThreads] [DecidableEq Client] in
theorem Free.plain (free : Free pool main action) : action.plain = true := by
  cases free <;> rfl

theorem Free.history (free : Free pool main action) (uncalled : pool.Uncalled)
    (taken : ThreadPool.step pool action = some next) :
    next.pool.completed = pool.pool.completed ∧ next.pool.issued = pool.pool.issued := by
  cases free with
  | dispatcher => exact ThreadPool.history_dispatcher taken
  | worker id idle => exact ThreadPool.history_worker uncalled idle taken
  | wake =>
      obtain rfl := Option.some.inj taken
      exact ⟨rfl, rfl⟩

theorem Free.body (free : Free pool main action) (taken : ThreadPool.step pool action = some next)
    {id : Fin numThreads} {thunk : Ticket} (running : pool.body id = some thunk) :
    next.body id = some thunk := by
  cases free with
  | dispatcher => rw [ThreadPool.body_dispatcher taken, running]
  | worker other idle =>
      by_cases same : id = other
      · rw [same, idle] at running
        cases running
      · rw [ThreadPool.body_worker same taken, running]
  | wake =>
      obtain rfl := Option.some.inj taken
      exact running

theorem Free.clients (free : Free pool main action)
    (taken : ThreadPool.step pool action = some next)
    (client : Client) :
    next.clients client = pool.clients client ∨
      next.clients client = (pool.clients client).map Call.wake := by
  cases free with
  | dispatcher => exact .inl (by rw [(ThreadPool.frame_dispatcher taken).1])
  | worker id idle => exact ThreadPool.clients_worker taken client
  | wake =>
      obtain rfl := Option.some.inj taken
      by_cases same : client = main
      · subst same
        exact .inr (by simp)
      · exact .inl (by simp [same])

end Free

/-- What is known of the two pools. -/
structure Pools (state : State) : Prop where
  feed : ThreadPool.Invariant state.feedPool
  article : ThreadPool.Invariant state.articlePool
  feedUncalled : state.feedPool.Uncalled
  articleUncalled : state.articlePool.Uncalled

/-- Each pool steps by itself. -/
theorem pools_of_move (move : Move web state after) :
    (after.feedPool = state.feedPool ∨ ∃ action, action.plain = true ∧
        ThreadPool.step state.feedPool action = some after.feedPool) ∧
      (after.articlePool = state.articlePool ∨ ∃ action, action.plain = true ∧
        ThreadPool.step state.articlePool action = some after.articlePool) := by
  cases move with
  | mainCalls _ taken | mainWaits _ taken => exact ⟨.inr ⟨_, rfl, taken⟩, .inl rfl⟩
  | mainSchedules _ _ taken | mainBlocks _ _ taken => exact ⟨.inr ⟨_, rfl, taken⟩, .inl rfl⟩
  | mainTurns _ _ taken | mainBlocksAgain _ _ taken => exact ⟨.inl rfl, .inr ⟨_, rfl, taken⟩⟩
  | feedPool free taken => exact ⟨.inr ⟨_, free.plain, taken⟩, .inl rfl⟩
  | articlePool free taken => exact ⟨.inl rfl, .inr ⟨_, free.plain, taken⟩⟩
  | feedCalls _ _ _ taken => exact ⟨.inl rfl, .inr ⟨_, rfl, taken⟩⟩
  | feedSchedules _ _ _ _ taken => exact ⟨.inl rfl, .inr ⟨_, rfl, taken⟩⟩
  | feedReturns _ _ _ taken => exact ⟨.inr ⟨_, rfl, taken⟩, .inl rfl⟩
  | articleReturns _ _ _ taken => exact ⟨.inl rfl, .inr ⟨_, rfl, taken⟩⟩
  | mainNext | mainJoins | feedEnds | feedNext | feedBody | articleBody =>
      exact ⟨.inl rfl, .inl rfl⟩

theorem Pools.move (pools : Pools state) (move : Move web state after) : Pools after := by
  obtain ⟨feed, article⟩ := pools_of_move move
  constructor
  · rcases feed with same | ⟨_, _, taken⟩
    · rw [same]
      exact pools.feed
    · exact pools.feed.step taken
  · rcases article with same | ⟨_, _, taken⟩
    · rw [same]
      exact pools.article
    · exact pools.article.step taken
  · rcases feed with same | ⟨_, plain, taken⟩
    · rw [same]
      exact pools.feedUncalled
    · exact pools.feedUncalled.step plain taken
  · rcases article with same | ⟨_, plain, taken⟩
    · rw [same]
      exact pools.articleUncalled
    · exact pools.articleUncalled.step plain taken

/-! ## The main thread -/

/-- Where `main` is agrees with the calls it is in, and with what it has waited for. -/
def MainOk (feeds thunks : List RSSItem) (call turn : Option Call) (drained drained' : Prop) :
    MainPc → Prop
  | .loop rest => call = none ∧ turn = none ∧ thunks ++ rest = feeds
  | .schedule feed rest =>
      turn = none ∧
        (call = some (.schedule .increment) ∧ thunks ++ feed :: rest = feeds ∨
          (call = none ∨ ∃ pc, pc ≠ .increment ∧ call = some (.schedule pc)) ∧
            thunks ++ rest = feeds)
  | .waitFeeds =>
      turn = none ∧ thunks = feeds ∧
        ((∃ pc since, call = some (.wait pc since)) ∨ call = none ∧ drained)
  | .waitArticles =>
      thunks = feeds ∧ call = none ∧ drained ∧
        ((∃ pc since, turn = some (.wait pc since)) ∨ turn = none ∧ drained')
  | .joined => thunks = feeds ∧ call = none ∧ drained ∧ turn = none ∧ drained'

namespace MainOk

variable {thunks : List RSSItem} {call turn : Option Call} {drained drained' later later' : Prop}
  {pc : MainPc}

theorem mono (ok : MainOk feeds thunks call turn drained drained' pc) (first : drained → later)
    (second : drained → drained' → later') : MainOk feeds thunks call turn later later' pc := by
  cases pc with
  | loop | schedule => exact ok
  | waitFeeds =>
      obtain ⟨outside, all, inside | ⟨returned, done⟩⟩ := ok
      · exact ⟨outside, all, .inl inside⟩
      · exact ⟨outside, all, .inr ⟨returned, first done⟩⟩
  | waitArticles =>
      obtain ⟨all, outside, done, inside | ⟨returned, done'⟩⟩ := ok
      · exact ⟨all, outside, first done, .inl inside⟩
      · exact ⟨all, outside, first done, .inr ⟨returned, second done done'⟩⟩
  | joined =>
      obtain ⟨all, outside, done, returned, done'⟩ := ok
      exact ⟨all, outside, first done, returned, second done done'⟩

theorem wake_schedule {pc : SchedulePc} :
    (some (Call.schedule pc)).map Call.wake = some (.schedule pc) := rfl

theorem wake_wait {pc : WaitPc} {since : ℕ} :
    ∃ pc', (some (Call.wait pc since)).map Call.wake = some (.wait pc' since) := by
  cases pc <;> exact ⟨_, rfl⟩

/-- Notifications do not matter to `main`. -/
theorem wake {call' turn' : Option Call} (ok : MainOk feeds thunks call turn drained drained' pc)
    (first : call' = call ∨ call' = call.map Call.wake)
    (second : turn' = turn ∨ turn' = turn.map Call.wake) :
    MainOk feeds thunks call' turn' drained drained' pc := by
  have quiet {call call' : Option Call} (woken : call' = call ∨ call' = call.map Call.wake)
      (outside : call = none) : call' = none := by
    rcases woken with rfl | rfl <;> simp [outside]
  have same {call call' : Option Call} (woken : call' = call ∨ call' = call.map Call.wake)
      {pc : SchedulePc} (inside : call = some (.schedule pc)) : call' = some (.schedule pc) := by
    rcases woken with rfl | rfl
    · exact inside
    · rw [inside, wake_schedule]
  have waits {call call' : Option Call} (woken : call' = call ∨ call' = call.map Call.wake)
      (inside : ∃ pc since, call = some (.wait pc since)) :
      ∃ pc since, call' = some (.wait pc since) := by
    obtain ⟨pc, since, inside⟩ := inside
    rcases woken with rfl | rfl
    · exact ⟨pc, since, inside⟩
    · obtain ⟨pc', woken⟩ := @wake_wait pc since
      exact ⟨pc', since, by rw [inside, woken]⟩
  cases pc with
  | loop => exact ⟨quiet first ok.1, quiet second ok.2.1, ok.2.2⟩
  | schedule =>
      obtain ⟨outside, ⟨counting, rest⟩ | ⟨returned | ⟨pc, past, inside⟩, rest⟩⟩ := ok
      · exact ⟨quiet second outside, .inl ⟨same first counting, rest⟩⟩
      · exact ⟨quiet second outside, .inr ⟨.inl (quiet first returned), rest⟩⟩
      · exact ⟨quiet second outside, .inr ⟨.inr ⟨pc, past, same first inside⟩, rest⟩⟩
  | waitFeeds =>
      obtain ⟨outside, all, inside | ⟨returned, done⟩⟩ := ok
      · exact ⟨quiet second outside, all, .inl (waits first inside)⟩
      · exact ⟨quiet second outside, all, .inr ⟨quiet first returned, done⟩⟩
  | waitArticles =>
      obtain ⟨all, outside, done, inside | ⟨returned, done'⟩⟩ := ok
      · exact ⟨all, quiet first outside, done, .inl (waits second inside)⟩
      · exact ⟨all, quiet first outside, done, .inr ⟨quiet second returned, done'⟩⟩
  | joined =>
      obtain ⟨all, outside, done, returned, done'⟩ := ok
      exact ⟨all, quiet first outside, done, quiet second returned, done'⟩

/-- The thunks given to the feed pool are the first feeds. -/
theorem subset (ok : MainOk feeds thunks call turn drained drained' pc) : thunks ⊆ feeds := by
  have first {rest : List RSSItem} (whole : thunks ++ rest = feeds) : thunks ⊆ feeds :=
    whole ▸ List.subset_append_left _ _
  cases pc with
  | loop => exact first ok.2.2
  | schedule =>
      obtain ⟨_, ⟨_, whole⟩ | ⟨_, whole⟩⟩ := ok
      · exact first whole
      · exact first whole
  | waitFeeds => exact ok.2.1 ▸ List.Subset.refl _
  | waitArticles | joined => exact ok.1 ▸ List.Subset.refl _

end MainOk

/-- `MainOk` of a state, and a ticket for every thunk. -/
structure Guided (feeds : List RSSItem) (state : State) : Prop where
  main : MainOk feeds state.feedThunks (state.feedPool.clients ()) (state.articlePool.clients none)
    state.feedPool.Drained state.articlePool.Drained state.main
  feedTickets : state.feedThunks.length = state.feedPool.pool.issued
  articleTickets : state.articleThunks.length = state.articlePool.pool.issued
  /-- Only a thread of the feed pool inside the loop over its items is in a call. -/
  calls : ∀ id call, state.articlePool.clients (some id) = some call →
    (∃ item rest, state.feedPcs id = .schedule item rest) ∧ ∃ pc, call = .schedule pc
  idle : ∀ id, state.feedPool.body id = none → state.feedPcs id = .server

theorem length_issue (thunks : List RSSItem) (pc : SchedulePc) (item : RSSItem) :
    (issue thunks (.schedule pc) item).length =
      thunks.length + if pc = .increment then 1 else 0 := by
  unfold issue
  by_cases counting : pc = .increment
  · rw [if_pos (by rw [counting]), if_pos counting, List.length_append, List.length_singleton]
  · rw [if_neg (by simpa using counting), if_neg counting, Nat.add_zero]

/-- Nothing is taken from a pool that gives out no ticket. -/
theorem drained_of_history {numThreads : ℕ} {Client : Type}
    {pool next : ThreadPool.State numThreads Client} (drained : pool.Drained)
    (completed : ∀ thunk ∈ pool.pool.completed, thunk ∈ next.pool.completed)
    (issued : next.pool.issued = pool.pool.issued) : next.Drained :=
  fun thunk known => completed thunk (drained thunk (issued ▸ known))

/-- While a body runs, its pool is not drained. -/
theorem not_drained_of_body {numThreads : ℕ} {Client : Type} [Fintype Client]
    {pool : ThreadPool.State numThreads Client} (invariant : ThreadPool.Invariant pool)
    {id : Fin numThreads} {thunk : Ticket} (running : pool.body id = some thunk) :
    ¬ pool.Drained := fun drained =>
  (invariant.of_body running).2 (drained thunk (invariant.of_body running).1)

namespace Guided

variable (guided : Guided feeds state) (pools : Pools state)

include guided in
/-- What `main` is in when it is inside `schedule`. -/
theorem inside_schedule {feed : RSSItem} {rest : List RSSItem} {call : Call}
    (position : state.main = .schedule feed rest) (inside : state.feedPool.clients () = some call) :
    state.articlePool.clients none = none ∧
      ∃ pc, call = .schedule pc ∧ issue state.feedThunks call feed ++ rest = feeds := by
  have main := guided.main
  rw [position, inside] at main
  obtain ⟨outside, ⟨counting, whole⟩ | ⟨returned | ⟨pc, past, calling⟩, whole⟩⟩ := main
  · obtain rfl := Option.some.inj counting
    refine ⟨outside, .increment, rfl, ?_⟩
    rw [issue, if_pos rfl, List.append_assoc]
    exact whole
  · cases returned
  · obtain rfl := Option.some.inj calling
    refine ⟨outside, pc, rfl, ?_⟩
    rw [issue, if_neg (by simpa using past)]
    exact whole

include guided in
/-- Outside the loop over its items a feed task is in no call. -/
theorem outside_call {id : Fin feedThreads}
    (elsewhere : ∀ item rest, state.feedPcs id ≠ .schedule item rest) :
    state.articlePool.clients (some id) = none := by
  refine Option.eq_none_iff_forall_not_mem.mpr fun call inside => ?_
  obtain ⟨⟨item, rest, position⟩, _⟩ := guided.calls id call inside
  exact elsewhere item rest position

include guided in
/-- Notifications do not matter to the feed tasks. -/
theorem clients_of_wake {id : Fin feedThreads} {next : Option Call}
    (woken : next = state.articlePool.clients (some id) ∨
      next = (state.articlePool.clients (some id)).map Call.wake) :
    next = state.articlePool.clients (some id) := by
  rcases woken with rfl | rfl
  · rfl
  · cases inside : state.articlePool.clients (some id) with
    | none => rfl
    | some call =>
        obtain ⟨_, pc, rfl⟩ := guided.calls id call inside
        rfl

include guided in
theorem calls_update {id : Fin feedThreads} (outside : state.articlePool.clients (some id) = none)
    (pc : FeedPc) (other : Fin feedThreads) (call : Call)
    (inside : state.articlePool.clients (some other) = some call) :
    (∃ item rest, Function.update state.feedPcs id pc other = .schedule item rest) ∧
      ∃ pc, call = .schedule pc := by
  have apart : other ≠ id := by
    rintro rfl
    rw [outside] at inside
    cases inside
  rw [Function.update_of_ne apart]
  exact guided.calls other call inside

include guided in
theorem idle_update {id : Fin feedThreads} {ticket : Ticket}
    (running : state.feedPool.body id = some ticket) (pc : FeedPc) (other : Fin feedThreads)
    (idle : state.feedPool.body other = none) :
    Function.update state.feedPcs id pc other = .server := by
  have apart : other ≠ id := by
    rintro rfl
    rw [running] at idle
    cases idle
  rw [Function.update_of_ne apart]
  exact guided.idle other idle

include guided pools in
theorem move (move : Move web state after) : Guided feeds after := by
  cases move with
  | mainCalls position taken =>
      obtain ⟨_, begun, _, same, workers⟩ := ThreadPool.begins_call taken
      have main := guided.main
      rw [position] at main
      refine { guided with main := ?_, feedTickets := ?_, idle := ?_ }
      · exact ⟨main.2.1, .inl ⟨begun, main.2.2⟩⟩
      · exact guided.feedTickets.trans (by rw [same])
      · intro id idle
        exact guided.idle id ((ThreadPool.body_of_workers workers id).symm.trans idle)
  | mainSchedules position inside taken =>
      obtain ⟨outside, pc, rfl, whole⟩ := guided.inside_schedule position inside
      obtain ⟨completed, issued, next⟩ := ThreadPool.schedule_region inside taken
      refine { guided with main := ?_, feedTickets := ?_, idle := ?_ }
      · rw [position]
        exact ⟨outside, .inr ⟨next, whole⟩⟩
      · exact (length_issue _ _ _).trans (by rw [guided.feedTickets, issued])
      · intro id idle
        exact guided.idle id ((ThreadPool.body_client taken id).symm.trans idle)
  | mainNext position outside =>
      have main := guided.main
      rw [position, outside] at main
      obtain ⟨quiet, ⟨counting, _⟩ | ⟨_, whole⟩⟩ := main
      · cases counting
      · exact { guided with main := ⟨outside, quiet, whole⟩ }
  | mainWaits position taken =>
      obtain ⟨_, begun, _, same, workers⟩ := ThreadPool.begins_call taken
      have main := guided.main
      rw [position] at main
      obtain ⟨_, quiet, whole⟩ := main
      refine { guided with main := ?_, feedTickets := ?_, idle := ?_ }
      · exact ⟨quiet, (List.append_nil _).symm.trans whole, .inl ⟨_, _, begun⟩⟩
      · exact guided.feedTickets.trans (by rw [same])
      · intro id idle
        exact guided.idle id ((ThreadPool.body_of_workers workers id).symm.trans idle)
  | mainBlocks position inside taken =>
      have main := guided.main
      rw [position, inside] at main
      obtain ⟨quiet, whole, ⟨pc, since, waiting⟩ | ⟨returned, _⟩⟩ := main
      · obtain rfl := Option.some.inj waiting
        obtain ⟨same, next⟩ := ThreadPool.wait_region pools.feed inside taken
        refine { guided with main := ?_, feedTickets := ?_, idle := ?_ }
        · rw [position]
          refine ⟨quiet, whole, next.imp ?_ id⟩
          exact fun ⟨pc, waiting⟩ => ⟨pc, since, waiting⟩
        · exact guided.feedTickets.trans (by rw [same])
        · intro id idle
          exact guided.idle id ((ThreadPool.body_client taken id).symm.trans idle)
      · cases returned
  | mainTurns position outside taken =>
      obtain ⟨_, begun, others, same, _⟩ := ThreadPool.begins_call taken
      have main := guided.main
      rw [position, outside] at main
      obtain ⟨_, whole, ⟨_, _, waiting⟩ | ⟨_, drained⟩⟩ := main
      · cases waiting
      · refine { guided with main := ?_, articleTickets := ?_, calls := ?_ }
        · exact ⟨whole, outside, drained, .inl ⟨_, _, begun⟩⟩
        · exact guided.articleTickets.trans (by rw [same])
        · intro id call inside
          exact guided.calls id call ((others (some id) (Option.some_ne_none id)).symm.trans inside)
  | mainBlocksAgain position inside taken =>
      have main := guided.main
      rw [position, inside] at main
      obtain ⟨whole, outside, drained, ⟨pc, since, waiting⟩ | ⟨returned, _⟩⟩ := main
      · obtain rfl := Option.some.inj waiting
        obtain ⟨same, next⟩ := ThreadPool.wait_region pools.article inside taken
        refine { guided with main := ?_, articleTickets := ?_, calls := ?_ }
        · rw [position]
          refine ⟨whole, outside, drained, next.imp ?_ id⟩
          exact fun ⟨pc, waiting⟩ => ⟨pc, since, waiting⟩
        · exact guided.articleTickets.trans (by rw [same])
        · intro id call inside
          have same := ThreadPool.clients_of_ne (Option.some_ne_none id) taken
          exact guided.calls id call (same.symm.trans inside)
      · cases returned
  | mainJoins position outside =>
      have main := guided.main
      rw [position, outside] at main
      obtain ⟨whole, quiet, drained, ⟨_, _, waiting⟩ | ⟨_, drained'⟩⟩ := main
      · cases waiting
      · exact { guided with main := ⟨whole, quiet, drained, outside, drained'⟩ }
  | feedPool free taken =>
      obtain ⟨completed, issued⟩ := free.history pools.feedUncalled taken
      refine { guided with main := ?_, feedTickets := ?_, idle := ?_ }
      · refine (guided.main.mono (fun drained => ?_) fun _ drained => drained).wake
          (free.clients taken ()) (.inl rfl)
        exact drained_of_history drained (fun _ old => completed ▸ old) issued
      · exact guided.feedTickets.trans issued.symm
      · intro id idle
        refine guided.idle id (Option.eq_none_iff_forall_not_mem.mpr fun thunk running => ?_)
        have still := free.body taken running
        rw [idle] at still
        cases still
  | articlePool free taken =>
      obtain ⟨completed, issued⟩ := free.history pools.articleUncalled taken
      refine { guided with main := ?_, articleTickets := ?_, calls := ?_ }
      · refine (guided.main.mono id fun _ drained => ?_).wake (.inl rfl) (free.clients taken none)
        exact drained_of_history drained (fun _ old => completed ▸ old) issued
      · exact guided.articleTickets.trans issued.symm
      · intro id call inside
        exact guided.calls id call
          ((guided.clients_of_wake (free.clients taken _)).symm.trans inside)
  | feedEnds running thunk position =>
      have outside := guided.outside_call fun item rest => by
        rw [position]
        exact nofun
      exact { guided with
        calls := guided.calls_update outside _
        idle := guided.idle_update running _ }
  | @feedCalls id ticket feed item rest pool running thunk position taken =>
      obtain ⟨outside, begun, others, same, _⟩ := ThreadPool.begins_call taken
      refine { guided with main := ?_, articleTickets := ?_, calls := ?_, idle := ?_ }
      · refine (guided.main.mono (fun first => first) fun _ drained => ?_).wake (.inl rfl)
          (.inl (others none (Option.some_ne_none id).symm))
        exact drained_of_history drained (fun _ old => by rwa [same]) (by rw [same])
      · exact guided.articleTickets.trans (by rw [same])
      · intro other call inside
        by_cases here : other = id
        · subst here
          refine ⟨⟨item, rest, Function.update_self ..⟩, .increment, ?_⟩
          exact Option.some.inj (inside.symm.trans begun)
        · have kept := others (some other) fun equal => here (Option.some.inj equal)
          exact guided.calls_update outside _ other call (kept.symm.trans inside)
      · exact guided.idle_update running _
  | @feedSchedules id ticket feed item rest call pool running thunk position inside taken =>
      obtain ⟨_, pc, rfl⟩ := guided.calls id call inside
      obtain ⟨_, issued, next⟩ := ThreadPool.schedule_region inside taken
      have busy := not_drained_of_body pools.feed running
      refine { guided with main := ?_, articleTickets := ?_, calls := ?_ }
      · exact (guided.main.mono (fun first => first) fun drained => absurd drained busy).wake
          (.inl rfl) (.inl (ThreadPool.clients_of_ne (Option.some_ne_none id).symm taken))
      · exact (length_issue _ _ _).trans (by rw [guided.articleTickets, issued])
      · intro other call inside'
        by_cases here : other = id
        · subst here
          refine ⟨⟨item, rest, position⟩, ?_⟩
          rcases next with returned | ⟨pc, _, calling⟩
          · cases returned.symm.trans inside'
          · exact ⟨pc, Option.some.inj (inside'.symm.trans calling)⟩
        · have kept := ThreadPool.clients_of_ne
            (fun equal : some other = some id => here (Option.some.inj equal)) taken
          exact guided.calls other call (kept.symm.trans inside')
  | feedNext running thunk position outside =>
      exact { guided with
        calls := guided.calls_update outside _
        idle := guided.idle_update running _ }
  | @feedReturns id ticket feed pool running thunk position taken =>
      obtain ⟨_, issued, returned, clients⟩ := ThreadPool.returns_worker running taken
      have busy := not_drained_of_body pools.feed running
      have outside := guided.outside_call fun item rest => by
        rw [position]
        exact nofun
      refine { guided with main := ?_, feedTickets := ?_, calls := ?_, idle := ?_ }
      · exact (guided.main.mono (fun drained => absurd drained busy) fun _ drained => drained).wake
          (.inl (by rw [clients])) (.inl rfl)
      · exact guided.feedTickets.trans issued.symm
      · exact guided.calls_update outside _
      · intro other idle
        by_cases here : other = id
        · rw [here]
          exact Function.update_self ..
        · refine (Function.update_of_ne here ..).trans (guided.idle other ?_)
          exact (ThreadPool.body_worker here taken).symm.trans idle
  | feedBody running thunk moved =>
      have outside := guided.outside_call fun item rest position => by
        rw [position] at moved
        cases moved
      exact { guided with
        calls := guided.calls_update outside _
        idle := guided.idle_update running _ }
  | articleReturns running thunk position taken =>
      obtain ⟨completed, issued, _, clients⟩ := ThreadPool.returns_worker running taken
      refine { guided with main := ?_, articleTickets := ?_, calls := ?_ }
      · refine (guided.main.mono id fun _ drained => ?_).wake (.inl rfl) (.inl (by rw [clients]))
        exact drained_of_history drained
          (fun _ old => completed ▸ List.mem_append_left _ old) issued
      · exact guided.articleTickets.trans issued.symm
      · intro id call inside
        exact guided.calls id call (by rw [← inside, clients])
  | articleBody running thunk moved => exact { guided with }

end Guided

end NewsAggregator
end Syscore
