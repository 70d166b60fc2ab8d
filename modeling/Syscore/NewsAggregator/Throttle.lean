import Mathlib.Data.Fintype.Sum
import Syscore.Library.Counting
import Syscore.Library.Permits
import Syscore.NewsAggregator.Outcome

/-!
# Connections to a server

A task holds a permit of its server between `sem.wait()` and `sem.signal()`. The permits left and
the permits held make up the limit, whatever the schedule.
-/

namespace Syscore
namespace NewsAggregator

open ThreadPool (Ticket Call)

/-- The threads that run tasks. -/
abbrev Worker : Type := Fin feedThreads ⊕ Fin articleThreads

/-- The server string of an item. -/
def RSSItem.server (item : RSSItem) : Text := (parseHttpURL item.link).server

/-- Where a task is on its semaphore. -/
inductive Stage
  | outside
  /-- At `sem.wait()`. -/
  | waiting
  /-- Past `sem.wait()`. -/
  | holding
  /-- At `sem.signal()`. -/
  | signalling

namespace Stage

/-- `sem` is in use. -/
def usesSem : Stage → Bool
  | .waiting | .holding | .signalling => true
  | .outside => false

/-- The permit is taken and not given back. -/
def holds : Stage → Bool
  | .holding | .signalling => true
  | .outside | .waiting => false

/-- The call of the semaphore. -/
def request : Stage → Option Counting.Request
  | .waiting => some .wait
  | .signalling => some .signal
  | .outside | .holding => none

end Stage

def FeedPc.stage : FeedPc → Stage
  | .wait => .waiting
  | .fetch => .holding
  | .signal _ => .signalling
  | .server | .loop _ | .schedule _ _ | .returned => .outside

def ArticlePc.stage : ArticlePc → Stage
  | .wait => .waiting
  | .fetch => .holding
  | .signal _ => .signalling
  | .seen | .server | .push _ | .fold _ _ | .returned => .outside

@[inherit_doc Stage.usesSem]
def FeedPc.usesSem (pc : FeedPc) : Bool := pc.stage.usesSem

@[inherit_doc Stage.usesSem]
def ArticlePc.usesSem (pc : ArticlePc) : Bool := pc.stage.usesSem

/-- A position in one of the two tasks. -/
abbrev Place : Type := FeedPc ⊕ ArticlePc

def Place.stage : Place → Stage := Sum.elim FeedPc.stage ArticlePc.stage

@[inherit_doc Stage.usesSem]
def Place.usesSem (place : Place) : Bool := place.stage.usesSem

@[inherit_doc Stage.holds]
def Place.holds (place : Place) : Bool := place.stage.holds

theorem Place.usesSem_of_holds {place : Place} (holds : place.holds = true) :
    place.usesSem = true := by
  rw [Place.holds] at holds
  rw [Place.usesSem]
  cases stage : place.stage with
  | outside =>
      rw [stage] at holds
      cases holds
  | _ => rfl

namespace State

/-- The item of the task on a thread. -/
def item (state : State) : Worker → Option RSSItem
  | .inl id => (state.feedPool.body id).bind fun ticket => state.feedThunks[ticket]?
  | .inr id => (state.articlePool.body id).bind fun ticket => state.articleThunks[ticket]?

/-- Where the task on a thread is. -/
def place (state : State) : Worker → Place
  | .inl id => .inl (state.feedPcs id)
  | .inr id => .inr (state.articlePcs id)

/-- The server that a thread holds a permit of. -/
def held (state : State) (worker : Worker) : Option Text :=
  if (state.place worker).holds then (state.item worker).map RSSItem.server else none

end State

variable {web : Web} {feeds : List RSSItem} {state after : State}

/-! ## Regions of tasks, and the rest -/

/-- A region of the task on a thread. -/
inductive Region (web : Web) (state : State) : State → Prop
  | feed {id feed shared pc} (here : state.item (.inl id) = some feed)
      (moved : processFeed web feed state.shared (state.feedPcs id) = some (shared, pc)) :
      Region web state { state with shared, feedPcs := Function.update state.feedPcs id pc }
  | article {id item shared pc} (here : state.item (.inr id) = some item)
      (moved : processArticle web item state.shared (state.articlePcs id) = some (shared, pc)) :
      Region web state { state with shared, articlePcs := Function.update state.articlePcs id pc }

/-- A move that leaves alone what the tasks share, and the tasks that use a semaphore. -/
structure Quiet (state after : State) : Prop where
  shared : after.shared = state.shared
  stays : ∀ worker, (state.place worker).usesSem = true ∨ (after.place worker).usesSem = true →
    after.item worker = state.item worker ∧ after.place worker = state.place worker

/-- No move makes a task begin or end between `sem.wait()` and `sem.signal()`. -/
theorem Quiet.held (quiet : Quiet state after) : after.held = state.held := by
  funext worker
  rw [State.held, State.held]
  by_cases inside : (state.place worker).holds = true ∨ (after.place worker).holds = true
  · obtain ⟨item, place⟩ :=
      quiet.stays worker (inside.imp Place.usesSem_of_holds Place.usesSem_of_holds)
    rw [item, place]
  · rw [not_or] at inside
    rw [if_neg inside.1, if_neg inside.2]

section Tasks

variable {numThreads : ℕ} {Client Pc : Type} {uses : Pc → Bool}
  {pool next : ThreadPool.State numThreads Client} {thunks later : List RSSItem}
  {pcs : Fin numThreads → Pc}

/-- A pool whose thunks are tasks: a thread that uses a semaphore runs one. -/
structure Tasked [Fintype Client] (uses : Pc → Bool) (pool : ThreadPool.State numThreads Client)
    (thunks : List RSSItem) (pcs : Fin numThreads → Pc) : Prop where
  invariant : ThreadPool.Invariant pool
  tickets : thunks.length = pool.pool.issued
  idle : ∀ id, pool.body id = none → uses (pcs id) = false

/-- The tasks of a pool that use a semaphore stay. -/
def Kept (uses : Pc → Bool) (pool next : ThreadPool.State numThreads Client)
    (thunks later : List RSSItem) (pcs pcs' : Fin numThreads → Pc) : Prop :=
  ∀ id, uses (pcs id) = true ∨ uses (pcs' id) = true →
    (next.body id).bind (later[·]?) = (pool.body id).bind (thunks[·]?) ∧ pcs' id = pcs id

theorem Kept.refl : Kept uses pool pool thunks thunks pcs pcs := fun _ _ => ⟨rfl, rfl⟩

variable [Fintype Client] (tasked : Tasked uses pool thunks pcs)

include tasked in
/-- A thread that uses a semaphore keeps its item while its body and the thunks stay. -/
theorem Tasked.item_eq {id : Fin numThreads} (inside : uses (pcs id) = true)
    (kept : ∀ ticket < thunks.length, later[ticket]? = thunks[ticket]?)
    (bodies : ∀ ticket, pool.body id = some ticket → next.body id = some ticket) :
    (next.body id).bind (later[·]?) = (pool.body id).bind (thunks[·]?) := by
  have busy : pool.body id ≠ none := by
    intro idle
    rw [tasked.idle id idle] at inside
    cases inside
  obtain ⟨ticket, running⟩ := Option.ne_none_iff_exists'.mp busy
  have known := tasked.tickets.symm ▸ (tasked.invariant.of_body running).1
  rw [running, bodies ticket running, Option.bind_some, Option.bind_some, kept ticket known]

include tasked in
/-- The pool steps while its running thunks stay. -/
theorem Tasked.kept
    (bodies : ∀ id ticket, pool.body id = some ticket → next.body id = some ticket)
    (kept : ∀ ticket < thunks.length, later[ticket]? = thunks[ticket]?) :
    Kept uses pool next thunks later pcs pcs := fun id inside =>
  ⟨tasked.item_eq ((or_self_iff ..).mp inside) kept (bodies id), rfl⟩

include tasked in
/-- Nothing begins to run or returns. -/
theorem Tasked.kept_of_body (bodies : ∀ id, next.body id = pool.body id) :
    Kept uses pool next thunks thunks pcs pcs :=
  tasked.kept (fun id _ running => (bodies id).trans running) fun _ _ => rfl

include tasked in
/-- A task that uses no semaphore moves on. -/
theorem Tasked.kept_update {id : Fin numThreads} {pc : Pc} (before : uses (pcs id) = false)
    (after : uses pc = false)
    (bodies : ∀ other, other ≠ id → ∀ ticket, pool.body other = some ticket →
      next.body other = some ticket) :
    Kept uses pool next thunks thunks pcs (Function.update pcs id pc) := by
  intro other inside
  have apart : other ≠ id := by
    rintro rfl
    rw [before, Function.update_self, after, or_self_iff] at inside
    cases inside
  rw [Function.update_of_ne apart, or_self_iff] at inside
  exact ⟨tasked.item_eq inside (fun _ _ => rfl) (bodies other apart),
    Function.update_of_ne apart ..⟩

end Tasks

section Pools

variable (sound : Sound web feeds state)

include sound in
theorem feedTasked :
    Tasked FeedPc.usesSem state.feedPool state.feedThunks state.feedPcs where
  invariant := sound.pools.feed
  tickets := sound.guided.feedTickets
  idle id idle := by rw [sound.guided.idle id idle]; rfl

include sound in
theorem articleTasked :
    Tasked ArticlePc.usesSem state.articlePool state.articleThunks state.articlePcs where
  invariant := sound.pools.article
  tickets := sound.guided.articleTickets
  idle id idle := by rw [sound.articleTasks.idle id idle]; rfl

/-- What leaves the tasks of both pools alone is quiet. -/
theorem quiet_of_kept (shared : after.shared = state.shared)
    (feeds : Kept FeedPc.usesSem state.feedPool after.feedPool state.feedThunks after.feedThunks
      state.feedPcs after.feedPcs)
    (articles : Kept ArticlePc.usesSem state.articlePool after.articlePool state.articleThunks
      after.articleThunks state.articlePcs after.articlePcs) : Quiet state after := by
  refine ⟨shared, fun worker inside => ?_⟩
  cases worker with
  | inl id =>
      obtain ⟨item, place⟩ := feeds id inside
      exact ⟨item, congrArg Sum.inl place⟩
  | inr id =>
      obtain ⟨item, place⟩ := articles id inside
      exact ⟨item, congrArg Sum.inr place⟩

include sound in
/-- Every move is a region of a task, or leaves the semaphores alone. -/
theorem region_or_quiet (move : Move web state after) :
    Region web state after ∨ Quiet state after := by
  have feeds := feedTasked sound
  have articles := articleTasked sound
  cases move with
  | mainCalls position taken | mainWaits position taken =>
      obtain ⟨_, _, _, _, workers⟩ := ThreadPool.begins_call taken
      exact .inr (quiet_of_kept rfl (feeds.kept_of_body (ThreadPool.body_of_workers workers)) .refl)
  | mainSchedules position inside taken =>
      have bodies := ThreadPool.body_client taken
      refine .inr (quiet_of_kept rfl (feeds.kept (fun id _ running => ?_) fun _ known => ?_) .refl)
      · exact (bodies id).trans running
      · exact getElem?_issue known _ _
  | mainBlocks position inside taken =>
      exact .inr (quiet_of_kept rfl (feeds.kept_of_body (ThreadPool.body_client taken)) .refl)
  | mainNext | mainJoins => exact .inr (quiet_of_kept rfl .refl .refl)
  | mainTurns position outside taken =>
      obtain ⟨_, _, _, _, workers⟩ := ThreadPool.begins_call taken
      have bodies := ThreadPool.body_of_workers workers
      exact .inr (quiet_of_kept rfl .refl (articles.kept_of_body bodies))
  | mainBlocksAgain position inside taken =>
      exact .inr (quiet_of_kept rfl .refl (articles.kept_of_body (ThreadPool.body_client taken)))
  | feedPool free taken =>
      refine .inr (quiet_of_kept rfl (feeds.kept (fun _ _ running => ?_) fun _ _ => rfl) .refl)
      exact free.body taken running
  | articlePool free taken =>
      refine .inr (quiet_of_kept rfl .refl (articles.kept (fun _ _ running => ?_) fun _ _ => rfl))
      exact free.body taken running
  | feedEnds running thunk position | feedNext running thunk position outside =>
      refine .inr (quiet_of_kept rfl (feeds.kept_update ?_ rfl fun _ _ _ running => running) .refl)
      rw [position]
      rfl
  | feedCalls running thunk position taken =>
      obtain ⟨_, _, _, _, workers⟩ := ThreadPool.begins_call taken
      have bodies := ThreadPool.body_of_workers workers
      refine .inr (quiet_of_kept rfl (feeds.kept_update ?_ rfl fun _ _ _ running => running)
        (articles.kept_of_body bodies))
      rw [position]
      rfl
  | feedSchedules running thunk position inside taken =>
      have bodies := ThreadPool.body_client taken
      refine .inr (quiet_of_kept rfl .refl
        (articles.kept (fun id _ running => ?_) fun _ known => ?_))
      · exact (bodies id).trans running
      · exact getElem?_issue known _ _
  | feedReturns running thunk position taken =>
      refine .inr (quiet_of_kept rfl (feeds.kept_update ?_ rfl fun _ apart _ running => ?_) .refl)
      · rw [position]
        rfl
      · exact (ThreadPool.body_worker apart taken).trans running
  | articleReturns running thunk position taken =>
      refine .inr (quiet_of_kept rfl .refl
        (articles.kept_update ?_ rfl fun _ apart _ running => ?_))
      · rw [position]
        rfl
      · exact (ThreadPool.body_worker apart taken).trans running
  | feedBody running thunk moved =>
      exact .inl (.feed (by rw [State.item, running, Option.bind_some, thunk]) moved)
  | articleBody running thunk moved =>
      exact .inl (.article (by rw [State.item, running, Option.bind_some, thunk]) moved)

end Pools

/-! ## Permits -/

/-- What a region of a task does to the semaphore of its server. -/
inductive Throttled (server : Text) (limits : Text → Option ℕ) :
    Stage → (Text → Option ℕ) → Stage → Prop
  | quiet : Throttled server limits .outside limits .outside
  | finds {value} (made : limits server = some value) :
      Throttled server limits .outside limits .waiting
  | makes (fresh : limits server = none) :
      Throttled server limits .outside
        (Function.update limits server (some kMaxConnectionsPerServer)) .waiting
  | takes {value} (left : limits server = some (value + 1)) :
      Throttled server limits .waiting (Function.update limits server (some value)) .holding
  | fetches : Throttled server limits .holding limits .signalling
  | gives : Throttled server limits .signalling
      (Function.update limits server ((limits server).map (· + 1))) .outside

theorem throttled_serverSemaphore (shared : Shared) (server : Text) :
    Throttled server shared.serverLimits .outside (shared.serverSemaphore server).serverLimits
      .waiting := by
  rw [Shared.serverSemaphore]
  split
  · rename_i made
    exact .finds made
  · rename_i fresh
    exact .makes fresh

theorem throttled_wait {shared shared' : Shared} {server : Text}
    (waited : shared.wait server = some shared') :
    Throttled server shared.serverLimits .waiting shared'.serverLimits .holding := by
  rw [Shared.wait] at waited
  split at waited
  · rename_i value left
    obtain rfl := Option.some.inj waited
    exact .takes left
  · cases waited

theorem throttled_processFeed {feed : RSSItem} {shared shared' : Shared} {pc next : FeedPc}
    (moved : processFeed web feed shared pc = some (shared', next)) :
    Throttled feed.server shared.serverLimits pc.stage shared'.serverLimits next.stage := by
  cases pc with
  | server =>
      obtain ⟨rfl, rfl⟩ := Prod.mk.inj (Option.some.inj moved)
      exact throttled_serverSemaphore shared _
  | wait =>
      obtain ⟨_, waited, same⟩ := Option.map_eq_some_iff.mp moved
      obtain ⟨rfl, rfl⟩ := Prod.mk.inj same
      exact throttled_wait waited
  | fetch =>
      obtain ⟨rfl, rfl⟩ := Prod.mk.inj (Option.some.inj moved)
      exact .fetches
  | signal items =>
      cases items <;>
      · obtain ⟨rfl, rfl⟩ := Prod.mk.inj (Option.some.inj moved)
        exact .gives
  | _ => cases moved

/-- Counts touch no semaphore. -/
theorem serverLimits_addCounts (counts : List (Text × ℕ)) (idx : ℕ) (shared : Shared) :
    (counts.foldl (fun shared entry => shared.addCount idx entry) shared).serverLimits =
      shared.serverLimits := by
  induction counts generalizing shared with
  | nil => rfl
  | cons entry counts ih => exact ih (shared.addCount idx entry)

theorem throttled_processArticle {item : RSSItem} {shared shared' : Shared} {pc next : ArticlePc}
    (moved : processArticle web item shared pc = some (shared', next)) :
    Throttled item.server shared.serverLimits pc.stage shared'.serverLimits next.stage := by
  cases pc with
  | seen =>
      rw [processArticle] at moved
      split at moved
      all_goals
        obtain ⟨rfl, rfl⟩ := Prod.mk.inj (Option.some.inj moved)
        exact .quiet
  | server =>
      obtain ⟨rfl, rfl⟩ := Prod.mk.inj (Option.some.inj moved)
      exact throttled_serverSemaphore shared _
  | wait =>
      obtain ⟨_, waited, same⟩ := Option.map_eq_some_iff.mp moved
      obtain ⟨rfl, rfl⟩ := Prod.mk.inj same
      exact throttled_wait waited
  | fetch =>
      obtain ⟨rfl, rfl⟩ := Prod.mk.inj (Option.some.inj moved)
      exact .fetches
  | push =>
      obtain ⟨rfl, rfl⟩ := Prod.mk.inj (Option.some.inj moved)
      exact .quiet
  | signal page =>
      rw [processArticle.eq_def] at moved
      cases page with
      | none =>
          obtain ⟨rfl, rfl⟩ := Prod.mk.inj (Option.some.inj moved)
          exact .gives
      | some tokens =>
          simp only at moved
          split at moved
          all_goals
            obtain ⟨rfl, rfl⟩ := Prod.mk.inj (Option.some.inj moved)
            exact .gives
  | fold counts idx =>
      obtain ⟨rfl, rfl⟩ := Prod.mk.inj (Option.some.inj moved)
      rw [serverLimits_addCounts]
      exact .quiet
  | returned => cases moved

/-- A region moves one task, on the semaphore of its server. -/
theorem throttled_of_region (region : Region web state after) :
    ∃ worker item, state.item worker = some item ∧ after.item = state.item ∧
      (∀ other, other ≠ worker → after.place other = state.place other) ∧
      Throttled item.server state.shared.serverLimits (state.place worker).stage
        after.shared.serverLimits (after.place worker).stage := by
  cases region with
  | @feed id feed shared pc here moved =>
      refine ⟨.inl id, feed, here, rfl, fun other apart => ?_, ?_⟩
      · cases other with
        | inl other =>
            exact congrArg Sum.inl
              (Function.update_of_ne (fun same => apart (congrArg Sum.inl same)) ..)
        | inr other => rfl
      · show Throttled feed.server state.shared.serverLimits (state.feedPcs id).stage
          shared.serverLimits (Function.update state.feedPcs id pc id).stage
        rw [Function.update_self]
        exact throttled_processFeed moved
  | @article id item shared pc here moved =>
      refine ⟨.inr id, item, here, rfl, fun other apart => ?_, ?_⟩
      · cases other with
        | inl other => rfl
        | inr other =>
            exact congrArg Sum.inr
              (Function.update_of_ne (fun same => apart (congrArg Sum.inr same)) ..)
      · show Throttled item.server state.shared.serverLimits (state.articlePcs id).stage
          shared.serverLimits (Function.update state.articlePcs id pc id).stage
        rw [Function.update_self]
        exact throttled_processArticle moved

/-- A region of the task on a thread, as a step on permits. -/
theorem permitStep_of_throttled {worker : Worker} {item : RSSItem}
    (here : state.item worker = some item) (items : after.item = state.item)
    (others : ∀ other, other ≠ worker → after.place other = state.place other)
    (throttled : Throttled item.server state.shared.serverLimits (state.place worker).stage
      after.shared.serverLimits (after.place worker).stage) :
    PermitStep kMaxConnectionsPerServer state.shared.serverLimits state.held
      after.shared.serverLimits after.held := by
  have held : after.held = Function.update state.held worker
      (if (after.place worker).stage.holds then some item.server else none) := by
    funext other
    by_cases same : other = worker
    · rw [same, Function.update_self, State.held, items, here]
      rfl
    · rw [Function.update_of_ne same, State.held, State.held, others other same, items]
  have before :
      state.held worker = if (state.place worker).stage.holds then some item.server else none := by
    rw [State.held, here]
    rfl
  have stays (same : (after.place worker).stage.holds = (state.place worker).stage.holds) :
      after.held = state.held := by
    rw [held, same, ← before, Function.update_eq_self]
  revert held before stays
  generalize after.shared.serverLimits = limits', (after.place worker).stage = stage' at throttled
  generalize (state.place worker).stage = stage at throttled
  intro held before stays
  cases throttled with
  | quiet | finds | fetches =>
      rw [stays rfl]
      exact .quiet
  | makes fresh =>
      rw [stays rfl]
      exact .makes fresh
  | takes left =>
      rw [held]
      exact .takes before left
  | gives =>
      rw [held]
      exact .gives before

/-- Every move is a step on permits. -/
theorem permitStep_of_move (sound : Sound web feeds state) (move : Move web state after) :
    PermitStep kMaxConnectionsPerServer state.shared.serverLimits state.held
      after.shared.serverLimits after.held := by
  rcases region_or_quiet sound move with region | quiet
  · obtain ⟨worker, item, here, items, others, throttled⟩ := throttled_of_region region
    exact permitStep_of_throttled here items others throttled
  · rw [quiet.shared, quiet.held]
    exact .quiet

/-- In every reachable state the permits of every server are accounted for. -/
theorem balanced_of_reachable (reach : (machine web feeds).Reachable .free state) :
    Balanced kMaxConnectionsPerServer state.shared.serverLimits state.held := by
  refine reach.invariant_with
    (fun state => Balanced kMaxConnectionsPerServer state.shared.serverLimits state.held)
    (fun _ => sound_of_reachable) ?_ ?_
  · rintro _ rfl
    refine ⟨nofun, fun server _ => ?_⟩
    rw [Finset.eq_empty_iff_forall_notMem]
    intro worker holds
    rw [mem_holders] at holds
    cases worker <;> cases holds
  · intro _ _ _ sound _ balanced _ taken
    exact balanced.step (permitStep_of_move sound (move_of_step taken))

/-! ## The semaphore of a server -/

/-- A semaphore that has not been made counts as one with all its permits. -/
def State.counter (state : State) (server : Text) : Counting.State Worker where
  value := (state.shared.serverLimits server).getD kMaxConnectionsPerServer
  calls worker :=
    if (state.item worker).map RSSItem.server = some server then (state.place worker).stage.request
    else none

section Throttled

variable {server other : Text} {limits limits' : Text → Option ℕ} {stage stage' : Stage}

theorem Throttled.turn (throttled : Throttled server limits stage limits' stage')
    (made : stage.holds = true → (limits server).isSome = true) :
    Counting.Turn ((limits server).getD kMaxConnectionsPerServer) stage.request
      ((limits' server).getD kMaxConnectionsPerServer) stage'.request := by
  cases throttled with
  | quiet => exact .rests
  | finds | fetches => exact .calls
  | makes fresh =>
      rw [fresh, Function.update_self]
      exact .calls
  | @takes value left =>
      rw [left, Function.update_self]
      exact .takes (Nat.succ_pos value)
  | gives =>
      obtain ⟨value, found⟩ := Option.isSome_iff_exists.mp (made rfl)
      rw [found, Function.update_self]
      exact .gives

theorem Throttled.limits_of_ne (throttled : Throttled server limits stage limits' stage')
    (apart : other ≠ server) : limits' other = limits other := by
  cases throttled with
  | quiet | finds | fetches => rfl
  | makes | takes | gives => exact Function.update_of_ne apart ..

end Throttled

/-- A move that is quiet does not show. -/
theorem Quiet.counter (quiet : Quiet state after) (server : Text) :
    after.counter server = state.counter server := by
  rw [State.counter, State.counter, quiet.shared]
  congr 1
  funext worker
  by_cases inside : (state.place worker).usesSem = true ∨ (after.place worker).usesSem = true
  · obtain ⟨item, place⟩ := quiet.stays worker inside
    rw [item, place]
  · have silent (place : Place) (outside : ¬ place.usesSem = true) :
        place.stage.request = none := by
      rw [Place.usesSem] at outside
      cases stage : place.stage with
      | outside => rfl
      | _ =>
          rw [stage] at outside
          exact absurd rfl outside
    rw [not_or] at inside
    rw [silent _ inside.1, silent _ inside.2, ite_self, ite_self]

/-- Every move is one turn of the semaphore of a server. -/
theorem counter_of_move (sound : Sound web feeds state)
    (balanced : Balanced kMaxConnectionsPerServer state.shared.serverLimits state.held)
    (move : Move web state after) (server : Text) :
    Counting.Step (state.counter server) (after.counter server) := by
  rcases region_or_quiet sound move with region | quiet
  · obtain ⟨worker, item, here, items, others, throttled⟩ := throttled_of_region region
    refine ⟨worker, ?_, fun other apart => ?_⟩
    · simp only [State.counter, items, here, Option.map_some]
      by_cases same : item.server = server
      · subst same
        rw [if_pos rfl, if_pos rfl]
        refine throttled.turn fun holds => Option.isSome_iff_ne_none.mpr fun unmade => ?_
        have inside : worker ∈ holders state.held item.server := by
          have holds : (state.place worker).holds = true := holds
          rw [mem_holders, State.held, if_pos holds, here, Option.map_some]
        rw [balanced.unmade item.server unmade] at inside
        exact Finset.notMem_empty worker inside
      · rw [if_neg fun equal => same (Option.some.inj equal),
          if_neg fun equal => same (Option.some.inj equal), throttled.limits_of_ne (Ne.symm same)]
        exact .rests
    · simp only [State.counter, items, others other apart]
  · rw [quiet.counter]
    exact ⟨.inl 0, .rests, fun _ _ => rfl⟩

/-- The semaphore of every server, as the tasks use it, is a counting semaphore. -/
theorem counting_of_reachable (server : Text) (reach : (machine web feeds).Reachable .free state) :
    Counting.Run kMaxConnectionsPerServer (state.counter server) := by
  refine Counting.Run.of_reachable (fun state => state.counter server)
    (fun state => Sound web feeds state ∧
      Balanced kMaxConnectionsPerServer state.shared.serverLimits state.held)
    (fun _ reach => ⟨sound_of_reachable reach, balanced_of_reachable reach⟩) ?_ ?_ reach
  · rintro _ rfl
    refine .of_call (.inl 0) rfl fun worker _ => ?_
    cases worker <;> rfl
  · intro _ _ _ known _ taken
    exact counter_of_move known.1 known.2 (move_of_step taken) server

end NewsAggregator
end Syscore
