import Syscore.NewsAggregator.Model
import Syscore.ThreadPool.Callers

/-!
# What one step of the aggregator does

Every step is one of the moves below. Each of the two pools steps as a pool of its own, so what is
known of pools holds of both.
-/

namespace Syscore
namespace NewsAggregator

open ThreadPool (Entry Ticket Call SchedulePc WaitPc)

section PoolWorker

variable {numThreads : ℕ} {Client σ τ : Type} [NeZero numThreads] [DecidableEq Client]
  {pool : ThreadPool.State numThreads Client} {thunks : List RSSItem} {body : RSSItem → Option σ}
  {put : ThreadPool.State numThreads Client → σ} {id : Fin numThreads}

theorem poolWorkerStep_of_body {ticket : Ticket} (running : pool.body id = some ticket) :
    poolWorkerStep pool thunks body put id = (thunks[ticket]?).bind body := by
  rw [poolWorkerStep, ThreadPool.body_eq_some.mp running]

theorem poolWorkerStep_of_idle (idle : pool.body id = none) :
    poolWorkerStep pool thunks body put id = (ThreadPool.step pool (.worker id)).map put := by
  rw [poolWorkerStep]
  split
  · rename_i ticket running
    rw [ThreadPool.body_eq_some.mpr running] at idle
    cases idle
  · rfl

/-- What a thread with a task does next. -/
theorem poolWorkerStep_of_item {item : RSSItem}
    (here : (pool.body id).bind (thunks[·]?) = some item) :
    poolWorkerStep pool thunks body put id = body item := by
  obtain ⟨ticket, running, thunk⟩ := Option.bind_eq_some_iff.mp here
  rw [poolWorkerStep_of_body running, thunk, Option.bind_some]

/-- A thread goes on in its task, or it moves in its pool. -/
theorem poolWorkerStep_cases {after : σ}
    (taken : poolWorkerStep pool thunks body put id = some after) :
    (∃ ticket item, pool.body id = some ticket ∧ thunks[ticket]? = some item ∧
        body item = some after) ∨
      pool.body id = none ∧ ∃ next, ThreadPool.step pool (.worker id) = some next ∧
        put next = after := by
  cases running : pool.body id with
  | none =>
      rw [poolWorkerStep_of_idle running] at taken
      exact .inr ⟨rfl, Option.map_eq_some_iff.mp taken⟩
  | some ticket =>
      rw [poolWorkerStep_of_body running] at taken
      obtain ⟨item, thunk, taken⟩ := Option.bind_eq_some_iff.mp taken
      exact .inl ⟨ticket, item, rfl, thunk, taken⟩

/-- A view that the tasks and the pool agree on is one of the whole thread. -/
theorem poolWorkerStep_map {body' : RSSItem → Option τ}
    {put' : ThreadPool.State numThreads Client → τ} (view : σ → τ)
    (bodies : ∀ item, (pool.body id).bind (thunks[·]?) = some item →
      body' item = (body item).map view)
    (puts : ∀ next, put' next = view (put next)) :
    poolWorkerStep pool thunks body' put' id =
      (poolWorkerStep pool thunks body put id).map view := by
  cases running : pool.body id with
  | none =>
      rw [poolWorkerStep_of_idle running, poolWorkerStep_of_idle running, Option.map_map,
        show put' = view ∘ put from funext puts]
  | some ticket =>
      rw [poolWorkerStep_of_body running, poolWorkerStep_of_body running]
      cases thunk : thunks[ticket]? with
      | none => rfl
      | some item => exact bodies item (by rw [running, Option.bind_some, thunk])

end PoolWorker

/-- The moves of the pool threads outside the bodies of their thunks. -/
inductive Free {numThreads : ℕ} {Client : Type} (pool : ThreadPool.State numThreads Client)
    (main : Client) : ThreadPool.Action numThreads Client → Prop
  | dispatcher : Free pool main .dispatcher
  | worker (id : Fin numThreads) (idle : pool.body id = none) : Free pool main (.worker id)
  | wake : Free pool main (.spuriousWake (.client main))

/-- The moves of the aggregator. -/
inductive Move (web : Web) (state : State) : State → Prop
  | mainCalls {feed rest pool} (position : state.main = .loop (feed :: rest))
      (taken : ThreadPool.step state.feedPool (.clientCalls () .schedule) = some pool) :
      Move web state { state with feedPool := pool, main := .schedule feed rest }
  | mainSchedules {feed rest call pool} (position : state.main = .schedule feed rest)
      (inside : state.feedPool.clients () = some call)
      (taken : ThreadPool.step state.feedPool (.client ()) = some pool) :
      Move web state
        { state with feedPool := pool, feedThunks := issue state.feedThunks call feed }
  | mainNext {feed rest} (position : state.main = .schedule feed rest)
      (outside : state.feedPool.clients () = none) :
      Move web state { state with main := .loop rest }
  | mainWaits {pool} (position : state.main = .loop [])
      (taken : ThreadPool.step state.feedPool (.clientCalls () .wait) = some pool) :
      Move web state { state with feedPool := pool, main := .waitFeeds }
  | mainBlocks {call pool} (position : state.main = .waitFeeds)
      (inside : state.feedPool.clients () = some call)
      (taken : ThreadPool.step state.feedPool (.client ()) = some pool) :
      Move web state { state with feedPool := pool }
  | mainTurns {pool} (position : state.main = .waitFeeds)
      (outside : state.feedPool.clients () = none)
      (taken : ThreadPool.step state.articlePool (.clientCalls none .wait) = some pool) :
      Move web state { state with articlePool := pool, main := .waitArticles }
  | mainBlocksAgain {call pool} (position : state.main = .waitArticles)
      (inside : state.articlePool.clients none = some call)
      (taken : ThreadPool.step state.articlePool (.client none) = some pool) :
      Move web state { state with articlePool := pool }
  | mainJoins (position : state.main = .waitArticles)
      (outside : state.articlePool.clients none = none) :
      Move web state { state with main := .joined }
  | feedPool {action pool} (free : Free state.feedPool () action)
      (taken : ThreadPool.step state.feedPool action = some pool) :
      Move web state { state with feedPool := pool }
  | articlePool {action pool} (free : Free state.articlePool none action)
      (taken : ThreadPool.step state.articlePool action = some pool) :
      Move web state { state with articlePool := pool }
  | feedEnds {id ticket feed} (running : state.feedPool.body id = some ticket)
      (thunk : state.feedThunks[ticket]? = some feed) (position : state.feedPcs id = .loop []) :
      Move web state { state with feedPcs := Function.update state.feedPcs id .returned }
  | feedCalls {id ticket feed item rest pool} (running : state.feedPool.body id = some ticket)
      (thunk : state.feedThunks[ticket]? = some feed)
      (position : state.feedPcs id = .loop (item :: rest))
      (taken : ThreadPool.step state.articlePool (.clientCalls (some id) .schedule) = some pool) :
      Move web state
        { state with
          articlePool := pool
          feedPcs := Function.update state.feedPcs id (.schedule item rest) }
  | feedSchedules {id ticket feed item rest call pool}
      (running : state.feedPool.body id = some ticket)
      (thunk : state.feedThunks[ticket]? = some feed)
      (position : state.feedPcs id = .schedule item rest)
      (inside : state.articlePool.clients (some id) = some call)
      (taken : ThreadPool.step state.articlePool (.client (some id)) = some pool) :
      Move web state
        { state with articlePool := pool, articleThunks := issue state.articleThunks call item }
  | feedNext {id ticket feed item rest} (running : state.feedPool.body id = some ticket)
      (thunk : state.feedThunks[ticket]? = some feed)
      (position : state.feedPcs id = .schedule item rest)
      (outside : state.articlePool.clients (some id) = none) :
      Move web state { state with feedPcs := Function.update state.feedPcs id (.loop rest) }
  | feedReturns {id ticket feed pool} (running : state.feedPool.body id = some ticket)
      (thunk : state.feedThunks[ticket]? = some feed) (position : state.feedPcs id = .returned)
      (taken : ThreadPool.step state.feedPool (.worker id) = some pool) :
      Move web state
        { state with feedPool := pool, feedPcs := Function.update state.feedPcs id .server }
  | feedBody {id ticket feed shared pc} (running : state.feedPool.body id = some ticket)
      (thunk : state.feedThunks[ticket]? = some feed)
      (moved : processFeed web feed state.shared (state.feedPcs id) = some (shared, pc)) :
      Move web state { state with shared, feedPcs := Function.update state.feedPcs id pc }
  | articleReturns {id ticket item pool} (running : state.articlePool.body id = some ticket)
      (thunk : state.articleThunks[ticket]? = some item)
      (position : state.articlePcs id = .returned)
      (taken : ThreadPool.step state.articlePool (.worker id) = some pool) :
      Move web state
        { state with articlePool := pool, articlePcs := Function.update state.articlePcs id .seen }
  | articleBody {id ticket item shared pc} (running : state.articlePool.body id = some ticket)
      (thunk : state.articleThunks[ticket]? = some item)
      (moved : processArticle web item state.shared (state.articlePcs id) = some (shared, pc)) :
      Move web state { state with shared, articlePcs := Function.update state.articlePcs id pc }

variable {web : Web} {state after : State}

theorem move_of_mainStep (taken : state.mainStep = some after) : Move web state after := by
  unfold State.mainStep at taken
  split at taken
  · rename_i feed rest position
    obtain ⟨pool, moved, rfl⟩ := Option.map_eq_some_iff.mp taken
    exact .mainCalls position moved
  · rename_i feed rest position
    split at taken
    · rename_i outside
      obtain rfl := Option.some.inj taken
      exact .mainNext position outside
    · rename_i call inside
      obtain ⟨pool, moved, rfl⟩ := Option.map_eq_some_iff.mp taken
      exact .mainSchedules position inside moved
  · rename_i position
    obtain ⟨pool, moved, rfl⟩ := Option.map_eq_some_iff.mp taken
    exact .mainWaits position moved
  · rename_i position
    split at taken
    · rename_i outside
      obtain ⟨pool, moved, rfl⟩ := Option.map_eq_some_iff.mp taken
      exact .mainTurns position outside moved
    · rename_i call inside
      obtain ⟨pool, moved, rfl⟩ := Option.map_eq_some_iff.mp taken
      exact .mainBlocks position inside moved
  · rename_i position
    split at taken
    · rename_i outside
      obtain rfl := Option.some.inj taken
      exact .mainJoins position outside
    · rename_i call inside
      obtain ⟨pool, moved, rfl⟩ := Option.map_eq_some_iff.mp taken
      exact .mainBlocksAgain position inside moved
  · cases taken

theorem move_of_feedBodyStep {id : Fin feedThreads} {ticket : Ticket} {feed : RSSItem}
    (running : state.feedPool.body id = some ticket) (thunk : state.feedThunks[ticket]? = some feed)
    (taken : state.feedBodyStep web id feed = some after) : Move web state after := by
  unfold State.feedBodyStep at taken
  split at taken
  · rename_i position
    obtain rfl := Option.some.inj taken
    exact .feedEnds running thunk position
  · rename_i item rest position
    obtain ⟨pool, moved, rfl⟩ := Option.map_eq_some_iff.mp taken
    exact .feedCalls running thunk position moved
  · rename_i item rest position
    split at taken
    · rename_i outside
      obtain rfl := Option.some.inj taken
      exact .feedNext running thunk position outside
    · rename_i call inside
      obtain ⟨pool, moved, rfl⟩ := Option.map_eq_some_iff.mp taken
      exact .feedSchedules running thunk position inside moved
  · rename_i position
    obtain ⟨pool, moved, rfl⟩ := Option.map_eq_some_iff.mp taken
    exact .feedReturns running thunk position moved
  · obtain ⟨⟨shared, pc⟩, moved, rfl⟩ := Option.map_eq_some_iff.mp taken
    exact .feedBody running thunk moved

theorem move_of_articleBodyStep {id : Fin articleThreads} {ticket : Ticket} {item : RSSItem}
    (running : state.articlePool.body id = some ticket)
    (thunk : state.articleThunks[ticket]? = some item)
    (taken : state.articleBodyStep web id item = some after) : Move web state after := by
  unfold State.articleBodyStep at taken
  split at taken
  · rename_i position
    obtain ⟨pool, moved, rfl⟩ := Option.map_eq_some_iff.mp taken
    exact .articleReturns running thunk position moved
  · obtain ⟨⟨shared, pc⟩, moved, rfl⟩ := Option.map_eq_some_iff.mp taken
    exact .articleBody running thunk moved

/-- Every step is one of the moves. -/
theorem move_of_step {thread : Thread} (taken : step web state thread = some after) :
    Move web state after := by
  cases thread with
  | main => exact move_of_mainStep taken
  | feedDispatcher =>
      obtain ⟨pool, moved, rfl⟩ := Option.map_eq_some_iff.mp taken
      exact .feedPool .dispatcher moved
  | articleDispatcher =>
      obtain ⟨pool, moved, rfl⟩ := Option.map_eq_some_iff.mp taken
      exact .articlePool .dispatcher moved
  | feedWorker id =>
      rcases poolWorkerStep_cases taken with
        ⟨_, _, running, thunk, taken⟩ | ⟨idle, pool, moved, rfl⟩
      · exact move_of_feedBodyStep running thunk taken
      · exact .feedPool (.worker id idle) moved
  | articleWorker id =>
      rcases poolWorkerStep_cases taken with
        ⟨_, _, running, thunk, taken⟩ | ⟨idle, pool, moved, rfl⟩
      · exact move_of_articleBodyStep running thunk taken
      · exact .articlePool (.worker id idle) moved
  | wakeFeeds =>
      rw [step] at taken
      obtain ⟨pool, moved, rfl⟩ := Option.map_eq_some_iff.mp taken
      exact .feedPool .wake moved
  | wakeArticles =>
      rw [step] at taken
      obtain ⟨pool, moved, rfl⟩ := Option.map_eq_some_iff.mp taken
      exact .articlePool .wake moved

end NewsAggregator
end Syscore
