import Syscore.Library.Inevitable
import Syscore.NewsAggregator.References
import Syscore.ThreadPool.Work

/-!
# The aggregator gets done

Two pools, one of which fills the other, the semaphores of the servers, and `main`, which waits for
the pools in turn. Every run gets past both waits: no thread is left waiting for another one that
never comes, and every step leaves less to do.
-/

namespace Syscore
namespace NewsAggregator

open ThreadPool (Ticket Call Entry queuedWork waiters)

/-- Not a wakeup from `allDone` without a notification. -/
def Thread.moves : Thread → Bool
  | .wakeFeeds | .wakeArticles => false
  | _ => true

/-- Nobody wakes without a notification. -/
def notified : Discipline State Thread := fun _ thread => thread.moves = true

/-! ## What is left to do -/

/-- The regions ahead of an article task. -/
def ArticlePc.left : ArticlePc → ℕ
  | .seen => 7
  | .server => 6
  | .wait => 5
  | .fetch => 4
  | .signal _ => 3
  | .push _ => 2
  | .fold _ _ => 1
  | .returned => 0

/-- The most regions of an article task. -/
abbrev articleCost : ℕ := 7

/-- Scheduling one item, and all that comes of it. -/
abbrev itemWork : ℕ := queuedWork (waiters ArticleClient) articleCost + 5

/-- The regions ahead of a feed task, with all that they start, when a feed has so many items at
most. -/
def FeedPc.left (most : ℕ) : FeedPc → ℕ
  | .server => most * itemWork + 5
  | .wait => most * itemWork + 4
  | .fetch => most * itemWork + 3
  | .signal none => 1
  | .signal (some items) => items.length * itemWork + 2
  | .loop rest => rest.length * itemWork + 1
  | .schedule _ rest => rest.length * itemWork + 2
  | .returned => 0

section Work

variable (web : Web) (feeds : List RSSItem)

/-- The number of items in all feeds. -/
def mostItems : ℕ := (feeds.map fun feed => ((web.feed feed.link).getD []).length).sum

/-- The most that a feed task does and starts. -/
def feedCost : ℕ := (FeedPc.server).left (mostItems web feeds)

/-- Scheduling one feed, and all that comes of it. -/
def feedWork : ℕ := queuedWork (waiters Unit) (feedCost web feeds) + 5

/-- The regions ahead of `main`, with all that they start. -/
def MainPc.left : MainPc → ℕ
  | .loop rest => rest.length * feedWork web feeds + 5
  | .schedule _ rest => rest.length * feedWork web feeds + 6
  | .waitFeeds => 3
  | .waitArticles => 1
  | .joined => 0

/-- The work that the aggregator has left. -/
def State.work (state : State) : ℕ :=
  state.main.left web feeds +
    state.feedPool.work (feedCost web feeds)
      (fun id => (state.feedPcs id).left (mostItems web feeds)) +
    state.articlePool.work articleCost (fun id => (state.articlePcs id).left)

end Work

variable {web : Web} {feeds : List RSSItem} {state after : State}

theorem ArticlePc.left_le (pc : ArticlePc) : pc.left ≤ articleCost := by
  cases pc <;> simp [ArticlePc.left, articleCost]

/-- A feed has no more items than all feeds. -/
theorem length_le_mostItems {feed : RSSItem} {items : List RSSItem} (known : feed ∈ feeds)
    (fetched : web.feed feed.link = some items) : items.length ≤ mostItems web feeds := by
  have listed : items.length ∈ feeds.map fun feed => ((web.feed feed.link).getD []).length :=
    List.mem_map.mpr ⟨feed, known, by rw [fetched, Option.getD_some]⟩
  exact List.le_sum_of_mem listed

theorem left_processArticle {item : RSSItem} {shared shared' : Shared} {pc next : ArticlePc}
    (moved : processArticle web item shared pc = some (shared', next)) : next.left < pc.left := by
  cases pc with
  | seen =>
      rw [processArticle] at moved
      split at moved
      all_goals
        obtain ⟨_, rfl⟩ := Prod.mk.inj (Option.some.inj moved)
        simp [ArticlePc.left]
  | wait =>
      obtain ⟨_, _, same⟩ := Option.map_eq_some_iff.mp moved
      obtain ⟨_, rfl⟩ := Prod.mk.inj same
      exact Nat.lt_succ_self 4
  | signal page =>
      cases page with
      | none =>
          obtain ⟨_, rfl⟩ := Prod.mk.inj (Option.some.inj moved)
          exact Nat.succ_pos 2
      | some tokens =>
          simp only [processArticle] at moved
          split at moved
          all_goals
            obtain ⟨_, rfl⟩ := Prod.mk.inj (Option.some.inj moved)
            simp [ArticlePc.left]
  | server | fetch | push | fold =>
      obtain ⟨_, rfl⟩ := Prod.mk.inj (Option.some.inj moved)
      exact Nat.lt_succ_self _
  | returned => cases moved

theorem left_processFeed {feed : RSSItem} {shared shared' : Shared} {pc next : FeedPc}
    (known : feed ∈ feeds) (moved : processFeed web feed shared pc = some (shared', next)) :
    next.left (mostItems web feeds) < pc.left (mostItems web feeds) := by
  cases pc with
  | server =>
      obtain ⟨_, rfl⟩ := Prod.mk.inj (Option.some.inj moved)
      exact Nat.lt_succ_self _
  | wait =>
      obtain ⟨_, _, same⟩ := Option.map_eq_some_iff.mp moved
      obtain ⟨_, rfl⟩ := Prod.mk.inj same
      exact Nat.lt_succ_self _
  | fetch =>
      obtain ⟨_, rfl⟩ := Prod.mk.inj (Option.some.inj moved)
      cases fetched : web.feed feed.link with
      | none =>
          simp only [FeedPc.left]
          omega
      | some items =>
          have few := Nat.mul_le_mul_right itemWork (length_le_mostItems known fetched)
          simp only [FeedPc.left]
          omega
  | signal items =>
      cases items with
      | none =>
          obtain ⟨_, rfl⟩ := Prod.mk.inj (Option.some.inj moved)
          exact Nat.one_pos
      | some items =>
          obtain ⟨_, rfl⟩ := Prod.mk.inj (Option.some.inj moved)
          exact Nat.lt_succ_self _
  | loop | schedule | returned => cases moved

/-! ## Every step leaves less -/

/-- The positions of the other tasks stay. -/
theorem left_of_ne {numThreads : ℕ} {Pc : Type} (left : Pc → ℕ) (pcs : Fin numThreads → Pc)
    {id : Fin numThreads} (pc : Pc) (other : Fin numThreads) (apart : other ≠ id) :
    left (Function.update pcs id pc other) = left (pcs other) := by
  rw [Function.update_of_ne apart]

section Falls

variable (sound : Sound web feeds state)

theorem work_mainStep (taken : state.mainStep = some after) :
    after.work web feeds < state.work web feeds := by
  unfold State.mainStep at taken
  split at taken
  · rename_i feed rest position
    obtain ⟨pool, moved, rfl⟩ := Option.map_eq_some_iff.mp taken
    have paid := ThreadPool.work_clientCalls (feedCost web feeds)
      (fun id => (state.feedPcs id).left (mostItems web feeds)) moved
    simp only [State.work, position, MainPc.left, Entry.work, List.length_cons, Nat.succ_mul,
      feedWork] at paid ⊢
    omega
  · rename_i feed rest position
    split at taken
    · obtain rfl := Option.some.inj taken
      simp only [State.work, position, MainPc.left]
      omega
    · obtain ⟨pool, moved, rfl⟩ := Option.map_eq_some_iff.mp taken
      have less := ThreadPool.work_client (feedCost web feeds)
        (fun id => (state.feedPcs id).left (mostItems web feeds)) moved
      simp only [State.work] at less ⊢
      omega
  · rename_i position
    obtain ⟨pool, moved, rfl⟩ := Option.map_eq_some_iff.mp taken
    have paid := ThreadPool.work_clientCalls (feedCost web feeds)
      (fun id => (state.feedPcs id).left (mostItems web feeds)) moved
    simp only [State.work, position, MainPc.left, Entry.work, List.length_nil] at paid ⊢
    omega
  · rename_i position
    split at taken
    · obtain ⟨pool, moved, rfl⟩ := Option.map_eq_some_iff.mp taken
      have paid := ThreadPool.work_clientCalls articleCost
        (fun id => (state.articlePcs id).left) moved
      simp only [State.work, position, MainPc.left, Entry.work] at paid ⊢
      omega
    · obtain ⟨pool, moved, rfl⟩ := Option.map_eq_some_iff.mp taken
      have less := ThreadPool.work_client (feedCost web feeds)
        (fun id => (state.feedPcs id).left (mostItems web feeds)) moved
      simp only [State.work] at less ⊢
      omega
  · rename_i position
    split at taken
    · obtain rfl := Option.some.inj taken
      simp only [State.work, position, MainPc.left]
      omega
    · obtain ⟨pool, moved, rfl⟩ := Option.map_eq_some_iff.mp taken
      have less := ThreadPool.work_client articleCost
        (fun id => (state.articlePcs id).left) moved
      simp only [State.work] at less ⊢
      omega
  · cases taken

include sound in
theorem work_feedBodyStep {id : Fin feedThreads} {ticket : Ticket} {feed : RSSItem}
    (running : state.feedPool.body id = some ticket) (thunk : state.feedThunks[ticket]? = some feed)
    (taken : state.feedBodyStep web id feed = some after) :
    after.work web feeds < state.work web feeds := by
  have body (pc : FeedPc) := ThreadPool.work_body (feedCost web feeds) running
    (left_of_ne (FeedPc.left (mostItems web feeds)) state.feedPcs pc)
  simp only [Function.update_self] at body
  unfold State.feedBodyStep at taken
  split at taken
  · rename_i position
    obtain rfl := Option.some.inj taken
    have body := body .returned
    rw [position, FeedPc.left, FeedPc.left] at body
    simp only [State.work]
    omega
  · rename_i item rest position
    obtain ⟨pool, moved, rfl⟩ := Option.map_eq_some_iff.mp taken
    have paid := ThreadPool.work_clientCalls articleCost
      (fun id => (state.articlePcs id).left) moved
    have body := body (.schedule item rest)
    rw [position, FeedPc.left, FeedPc.left, List.length_cons, Nat.succ_mul] at body
    have each : itemWork = queuedWork (waiters ArticleClient) articleCost + 5 := rfl
    simp only [State.work, Entry.work] at paid ⊢
    omega
  · rename_i item rest position
    split at taken
    · obtain rfl := Option.some.inj taken
      have body := body (.loop rest)
      rw [position, FeedPc.left, FeedPc.left] at body
      simp only [State.work]
      omega
    · obtain ⟨pool, moved, rfl⟩ := Option.map_eq_some_iff.mp taken
      have less := ThreadPool.work_client articleCost
        (fun id => (state.articlePcs id).left) moved
      simp only [State.work] at less ⊢
      omega
  · rename_i position
    obtain ⟨pool, moved, rfl⟩ := Option.map_eq_some_iff.mp taken
    have less := ThreadPool.work_returns (feedCost web feeds) running
      (left_of_ne (FeedPc.left (mostItems web feeds)) state.feedPcs .server) moved
    simp only [State.work] at less ⊢
    omega
  · obtain ⟨⟨shared, pc⟩, moved, rfl⟩ := Option.map_eq_some_iff.mp taken
    have known : feed ∈ feeds := sound.guided.main.subset (List.mem_of_getElem? thunk)
    have less := left_processFeed known moved
    have body := body pc
    simp only [State.work]
    omega

theorem work_articleBodyStep {id : Fin articleThreads} {ticket : Ticket} {item : RSSItem}
    (running : state.articlePool.body id = some ticket)
    (taken : state.articleBodyStep web id item = some after) :
    after.work web feeds < state.work web feeds := by
  unfold State.articleBodyStep at taken
  split at taken
  · rename_i position
    obtain ⟨pool, moved, rfl⟩ := Option.map_eq_some_iff.mp taken
    have less := ThreadPool.work_returns articleCost running
      (left_of_ne ArticlePc.left state.articlePcs .seen) moved
    simp only [State.work] at less ⊢
    omega
  · obtain ⟨⟨shared, pc⟩, moved, rfl⟩ := Option.map_eq_some_iff.mp taken
    have less := left_processArticle moved
    have body := ThreadPool.work_body articleCost running
      (left_of_ne ArticlePc.left state.articlePcs pc)
    simp only [Function.update_self] at body
    simp only [State.work]
    omega

include sound in
/-- Every step leaves less to do. -/
theorem work_step {thread : Thread} (calm : notified state thread)
    (taken : step web state thread = some after) :
    after.work web feeds < state.work web feeds := by
  cases thread with
  | main => exact work_mainStep taken
  | feedDispatcher =>
      obtain ⟨pool, moved, rfl⟩ := Option.map_eq_some_iff.mp taken
      have less := ThreadPool.work_dispatcher (feedCost web feeds)
        (fun id => (state.feedPcs id).left (mostItems web feeds)) moved
      simp only [State.work] at less ⊢
      omega
  | articleDispatcher =>
      obtain ⟨pool, moved, rfl⟩ := Option.map_eq_some_iff.mp taken
      have less := ThreadPool.work_dispatcher articleCost
        (fun id => (state.articlePcs id).left) moved
      simp only [State.work] at less ⊢
      omega
  | feedWorker id =>
      rcases poolWorkerStep_cases taken with
        ⟨_, _, running, thunk, taken⟩ | ⟨idle, pool, moved, rfl⟩
      · exact work_feedBodyStep sound running thunk taken
      · have less := ThreadPool.work_worker (feedCost web feeds)
          (fun id => (state.feedPcs id).left (mostItems web feeds))
          sound.pools.feedUncalled idle (by rw [sound.guided.idle id idle]; exact le_rfl) moved
        simp only [State.work] at less ⊢
        omega
  | articleWorker id =>
      rcases poolWorkerStep_cases taken with
        ⟨_, _, running, _, taken⟩ | ⟨idle, pool, moved, rfl⟩
      · exact work_articleBodyStep running taken
      · have less := ThreadPool.work_worker articleCost
          (fun id => (state.articlePcs id).left)
          sound.pools.articleUncalled idle (ArticlePc.left_le _) moved
        simp only [State.work] at less ⊢
        omega
  | wakeFeeds | wakeArticles => cases calm

end Falls

/-! ## Nobody is left waiting -/

/-- The semaphore that a task uses has been made. -/
def Made (state : State) : Prop :=
  ∀ worker item, state.item worker = some item → (state.place worker).usesSem = true →
    (state.shared.serverLimits item.server).isSome = true

/-- A task gets to use a semaphore only once it has been made. -/
theorem Throttled.made {server : Text} {limits limits' : Text → Option ℕ} {stage stage' : Stage}
    (throttled : Throttled server limits stage limits' stage') (uses : stage'.usesSem = true) :
    stage.usesSem = true ∨ (limits' server).isSome = true := by
  cases throttled with
  | quiet => exact .inl uses
  | finds made => exact .inr (Option.isSome_of_eq_some made)
  | makes fresh =>
      rw [Function.update_self]
      exact .inr rfl
  | takes | fetches => exact .inl rfl
  | gives => cases uses

theorem Made.move (made : Made state) (sound : Sound web feeds state)
    (move : Move web state after) : Made after := by
  have kept {server : Text} (before : (state.shared.serverLimits server).isSome = true) :
      (after.shared.serverLimits server).isSome = true :=
    (permitStep_of_move sound move).isSome before
  intro worker item here uses
  rcases region_or_quiet sound move with region | quiet
  · obtain ⟨mover, moved, at_mover, items, others, throttled⟩ := throttled_of_region region
    rw [items] at here
    by_cases same : worker = mover
    · subst same
      obtain rfl := Option.some.inj (at_mover.symm.trans here)
      rcases throttled.made uses with before | new
      · exact kept (made worker moved here before)
      · exact new
    · rw [others worker same] at uses
      exact kept (made worker item here uses)
  · obtain ⟨item', place⟩ := quiet.stays worker (.inr uses)
    rw [item'] at here
    rw [place] at uses
    exact kept (made worker item here uses)

/-- Neither pool is being destroyed. -/
def Undestroyed (state : State) : Prop :=
  state.feedPool.destructor = .idle ∧ state.articlePool.destructor = .idle

theorem Undestroyed.move (idle : Undestroyed state) (move : Move web state after) :
    Undestroyed after := by
  obtain ⟨feed, article⟩ := pools_of_move move
  constructor
  · rcases feed with same | ⟨_, plain, taken⟩
    · rw [same]
      exact idle.1
    · exact ThreadPool.idle_of_plain plain idle.1 taken
  · rcases article with same | ⟨_, plain, taken⟩
    · rw [same]
      exact idle.2
    · exact ThreadPool.idle_of_plain plain idle.2 taken

/-- What progress rests on. -/
structure Live (web : Web) (feeds : List RSSItem) (state : State) : Prop where
  sound : Sound web feeds state
  balanced : Balanced kMaxConnectionsPerServer state.shared.serverLimits state.held
  made : Made state
  undestroyed : Undestroyed state

theorem live_of_reachable (reach : (machine web feeds).Reachable .free state) :
    Live web feeds state := by
  have known : Made state ∧ Undestroyed state := by
    refine reach.invariant_with (fun state => Made state ∧ Undestroyed state)
      (fun _ => sound_of_reachable) ?_ ?_
    · rintro _ rfl
      refine ⟨fun worker item here => ?_, rfl, rfl⟩
      cases worker <;> cases here
    · intro _ _ _ sound _ ⟨made, idle⟩ _ taken
      exact ⟨made.move sound (move_of_step taken), idle.move (move_of_step taken)⟩
  exact ⟨sound_of_reachable reach, balanced_of_reachable reach, known.1, known.2⟩

section Blocked

variable {numThreads : ℕ} {Client σ : Type} [NeZero numThreads] [DecidableEq Client]
  {pool : ThreadPool.State numThreads Client} {thunks : List RSSItem} {body : RSSItem → Option σ}
  {put : ThreadPool.State numThreads Client → σ} {id : Fin numThreads}

/-- A thread without a task that cannot move cannot move in its pool. -/
theorem step_of_blocked (blocked : poolWorkerStep pool thunks body put id = none)
    (idle : pool.body id = none) : ThreadPool.step pool (.worker id) = none := by
  rw [poolWorkerStep_of_idle idle] at blocked
  exact Option.map_eq_none_iff.mp blocked

/-- A pool without a destructor is at rest when neither its dispatcher nor a thread of it can move,
no thunk runs, and no call of it can go on. -/
theorem parked_of_blocked [Fintype Client] {bodies : Fin numThreads → RSSItem → Option σ}
    (invariant : ThreadPool.Invariant pool) (uncalled : pool.Uncalled)
    (undestroyed : pool.destructor = .idle) (dispatcher : ThreadPool.step pool .dispatcher = none)
    (idle : ∀ id, pool.body id = none)
    (workers : ∀ id, poolWorkerStep pool thunks (bodies id) put id = none)
    (clients : ∀ client call, pool.clients client = some call →
      ThreadPool.step pool (.client client) = none) : ThreadPool.Parked pool := by
  refine ThreadPool.parked_of_still invariant uncalled undestroyed dispatcher
    (fun id => step_of_blocked (workers id) (idle id)) fun client => ?_
  cases inside : pool.clients client with
  | none => rw [ThreadPool.step, ThreadPool.clientStep, inside]
  | some call => exact clients client call inside

omit [NeZero numThreads] [DecidableEq Client] in
/-- A thread that runs a thunk can return from it. -/
theorem workerStep_of_body {ticket : Ticket} (running : pool.body id = some ticket) :
    ThreadPool.workerStep pool id ≠ none := by
  rw [ThreadPool.workerStep, ThreadPool.body_eq_some.mp running]
  exact Option.some_ne_none _

omit [NeZero numThreads] [DecidableEq Client] in
/-- A thunk that runs is that of a task. -/
theorem item_of_body [Fintype Client] (invariant : ThreadPool.Invariant pool)
    (tickets : thunks.length = pool.pool.issued) {ticket : Ticket}
    (running : pool.body id = some ticket) :
    ∃ item, (pool.body id).bind (thunks[·]?) = some item := by
  have given := (invariant.of_body running).1
  rw [← tickets] at given
  exact ⟨thunks[ticket], by rw [running, Option.bind_some, List.getElem?_eq_getElem given]⟩

end Blocked

section Still

variable (live : Live web feeds state)
  (still : ∀ thread, notified state thread → step web state thread = none)

include live still in
/-- A task that cannot move waits for a permit, so that its holder can. -/
theorem not_waiting {worker : Worker} {item : RSSItem} (here : state.item worker = some item)
    (uses : (state.place worker).usesSem = true)
    (blocked : state.shared.wait item.server = none) : False := by
  have made := live.made worker item here uses
  obtain ⟨value, found⟩ := Option.isSome_iff_exists.mp made
  rw [Shared.wait, found] at blocked
  cases value with
  | zero =>
      obtain ⟨holder, holds⟩ := live.balanced.exists_holder (Nat.succ_pos 7) found
      have moves : (step web state holder.thread).isSome = true := step_of_held holds
      have calm : notified state holder.thread := by
        cases holder <;> rfl
      rw [still holder.thread calm] at moves
      cases moves
  | succ value => cases blocked

include live still in
theorem article_idle (id : Fin articleThreads) : state.articlePool.body id = none := by
  refine Option.eq_none_iff_forall_not_mem.mpr fun ticket running => ?_
  obtain ⟨item, here⟩ :=
    item_of_body live.sound.pools.article live.sound.guided.articleTickets running
  have here : state.item (.inr id) = some item := here
  have blocked : state.articleWorkerStep web id = none := still (.articleWorker id) rfl
  rw [articleWorkerStep_of_item here, State.articleBodyStep] at blocked
  cases position : state.articlePcs id with
  | returned =>
      rw [position] at blocked
      exact absurd (Option.map_eq_none_iff.mp blocked) (workerStep_of_body running)
  | wait =>
      rw [position] at blocked
      refine not_waiting live still here ?_
        (Option.map_eq_none_iff.mp (Option.map_eq_none_iff.mp blocked))
      show (state.articlePcs id).usesSem = true
      rw [position]
      rfl
  | seen =>
      simp only [position, processArticle] at blocked
      split at blocked <;> cases blocked
  | signal page =>
      rw [position] at blocked
      cases page with
      | none => cases blocked
      | some tokens =>
          simp only [processArticle] at blocked
          split at blocked <;> cases blocked
  | server | fetch | push | fold =>
      rw [position] at blocked
      cases blocked

include live still in
theorem feed_idle (id : Fin feedThreads) : state.feedPool.body id = none := by
  refine Option.eq_none_iff_forall_not_mem.mpr fun ticket running => ?_
  obtain ⟨feed, here⟩ := item_of_body live.sound.pools.feed live.sound.guided.feedTickets running
  have here : state.item (.inl id) = some feed := here
  have blocked : state.feedWorkerStep web id = none := still (.feedWorker id) rfl
  rw [feedWorkerStep_of_item here, State.feedBodyStep] at blocked
  cases position : state.feedPcs id with
  | returned =>
      rw [position] at blocked
      exact absurd (Option.map_eq_none_iff.mp blocked) (workerStep_of_body running)
  | loop rest =>
      rw [position] at blocked
      cases rest with
      | nil => cases blocked
      | cons item rest =>
          have elsewhere (item : RSSItem) (rest : List RSSItem) :
              state.feedPcs id ≠ .schedule item rest := by
            intro same
            rw [position] at same
            cases same
          have outside := live.sound.guided.outside_call elsewhere
          simp only [ThreadPool.step, outside] at blocked
          cases blocked
  | schedule item rest =>
      rw [position] at blocked
      cases inside : state.articlePool.clients (some id) with
      | none =>
          simp only [inside] at blocked
          cases blocked
      | some call =>
          obtain ⟨_, pc, rfl⟩ := live.sound.guided.calls id call inside
          simp only [inside, ThreadPool.step, ThreadPool.clientStep] at blocked
          cases blocked
  | wait =>
      rw [position] at blocked
      refine not_waiting live still here ?_
        (Option.map_eq_none_iff.mp (Option.map_eq_none_iff.mp blocked))
      show (state.feedPcs id).usesSem = true
      rw [position]
      rfl
  | signal items =>
      rw [position] at blocked
      cases items <;> cases blocked
  | server | fetch =>
      rw [position] at blocked
      cases blocked

include live still in
theorem feed_parked : ThreadPool.Parked state.feedPool := by
  refine parked_of_blocked live.sound.pools.feed live.sound.pools.feedUncalled live.undestroyed.1
    (Option.map_eq_none_iff.mp (still .feedDispatcher rfl)) (feed_idle live still)
    (fun id => still (.feedWorker id) rfl) fun client call inside => ?_
  -- what `main` is at while it calls the pool is this call
  have blocked : state.mainStep = none := still .main rfl
  have main := live.sound.guided.main
  rw [inside] at main
  cases position : state.main with
  | loop =>
      rw [position] at main
      cases main.1
  | schedule | waitFeeds =>
      simp only [State.mainStep, position, inside] at blocked
      exact Option.map_eq_none_iff.mp blocked
  | waitArticles | joined =>
      rw [position] at main
      cases main.2.1

include live still in
theorem article_parked : ThreadPool.Parked state.articlePool := by
  refine parked_of_blocked live.sound.pools.article live.sound.pools.articleUncalled
    live.undestroyed.2 (Option.map_eq_none_iff.mp (still .articleDispatcher rfl))
    (article_idle live still) (fun id => still (.articleWorker id) rfl) fun client call inside => ?_
  cases client with
  | some id =>
      obtain ⟨⟨item, rest, scheduling⟩, _⟩ := live.sound.guided.calls id call inside
      rw [live.sound.guided.idle id (feed_idle live still id)] at scheduling
      cases scheduling
  | none =>
      have blocked : state.mainStep = none := still .main rfl
      have main := live.sound.guided.main
      rw [inside] at main
      cases position : state.main with
      | waitArticles =>
          simp only [State.mainStep, position, inside] at blocked
          exact Option.map_eq_none_iff.mp blocked
      | loop =>
          rw [position] at main
          cases main.2.1
      | schedule | waitFeeds =>
          rw [position] at main
          cases main.1
      | joined =>
          rw [position] at main
          cases main.2.2.2.1

include live still in
/-- Where no thread can move, `main` is past both waits. -/
theorem joined_of_still : state.main = .joined := by
  have blocked : state.mainStep = none := still .main rfl
  have outside := (feed_parked live still).clients ()
  have outside' := (article_parked live still).clients none
  cases position : state.main with
  | loop rest =>
      cases rest with
      | nil | cons =>
          simp only [State.mainStep, position, ThreadPool.step, outside] at blocked
          cases blocked
  | schedule =>
      simp only [State.mainStep, position, outside] at blocked
      cases blocked
  | waitFeeds =>
      simp only [State.mainStep, position, outside, ThreadPool.step, outside'] at blocked
      cases blocked
  | waitArticles =>
      simp only [State.mainStep, position, outside'] at blocked
      cases blocked
  | joined => rfl

end Still

/-! ## Runs -/

/-- While every download returns, every way to go on from a state that a run can come to gets past
both waits, and there the index is the sequential one. -/
theorem always_joins (web : Web) (feeds : List RSSItem) {state : State}
    (reach : (machine web feeds).Reachable .free state) :
    (machine web feeds).Inevitable notified (fun last => last.main = .joined ∧
      (∀ link, link ∈ last.shared.urls ↔
        (∃ item, Offered web feeds item ∧ item.link = link) ∧ Indexable web link) ∧
      ∀ token idx, last.shared.invertedIndex token idx =
        match last.shared.articles[idx]? with
        | some article => expected web article.url token
        | none => none) state := by
  refine Machine.inevitable_of_measure (State.work web feeds) (fun state reach => ?_)
    (fun before after reach => ?_) reach
  · have live := live_of_reachable reach
    by_cases moves : ∃ next, (machine web feeds).Step notified state next
    · exact .inr moves
    · have joined : state.main = .joined := by
        refine joined_of_still live fun thread calm => ?_
        by_contra some
        obtain ⟨next, taken⟩ := Option.ne_none_iff_exists'.mp some
        exact moves ⟨next, thread, calm, taken⟩
      have sound := live.sound
      exact .inl ⟨joined, fun _ => sound.mem_urls_iff joined, sound.invertedIndex_eq joined⟩
  · rintro ⟨thread, calm, taken⟩
    exact ⟨reach.next trivial taken, work_step (sound_of_reachable reach) calm taken⟩

/-- A run up to where both feeds are scheduled and the dispatcher is at work. -/
theorem halfway_finishes :
    ((machine sharedLink twoFeeds).exec .free (start twoFeeds)
      (overlappingRun.take 20)).isSome = true := by
  decide +kernel

/-- The aggregator there. -/
def halfway : State :=
  ((machine sharedLink twoFeeds).exec .free (start twoFeeds) (overlappingRun.take 20)).get
    halfway_finishes

theorem always_joins_halfway : halfway.main ≠ .joined ∧
    ∃ last, (machine sharedLink twoFeeds).Leads notified halfway last ∧ last.main = .joined ∧
      ascii "http://h/x" ∈ last.shared.urls := by
  have reach : (machine sharedLink twoFeeds).Reachable .free halfway :=
    .of_exec rfl (overlappingRun.take 20) halfway_finishes
  obtain ⟨last, leads, joined, urls, -⟩ :=
    (always_joins sharedLink twoFeeds reach).exists_leads
  refine ⟨by decide +kernel, last, leads, joined, (urls _).mpr ⟨?_, ?_⟩⟩
  · exact ⟨_, ⟨_, List.mem_cons_self, _, rfl, List.mem_singleton_self _⟩, rfl⟩
  · exact ⟨_, rfl, List.cons_ne_nil _ _⟩

end NewsAggregator
end Syscore
