import Syscore.NewsAggregator.Throttle

/-!
# Semaphores behind references

`serverSemaphore` hands out a reference, which a task keeps and uses outside the lock of the table.
The aggregator with such references does what the one that finds its semaphores by name does.
-/

namespace Syscore
namespace NewsAggregator

/-! ## The table and its semaphores -/

/-- `serverLimits`, and the values of its semaphores in the order in which they were made. -/
structure Semaphores where
  slots : Text → Option ℕ
  values : List ℕ

namespace Semaphores

def initial : Semaphores where
  slots _ := none
  values := []

/-- `serverSemaphore`: also the reference that it returns. -/
def serverSemaphore (semaphores : Semaphores) (server : Text) : Semaphores × ℕ :=
  match semaphores.slots server with
  | some ref => (semaphores, ref)
  | none =>
      ({ slots := Function.update semaphores.slots server (some semaphores.values.length)
         values := semaphores.values ++ [kMaxConnectionsPerServer] },
        semaphores.values.length)

/-- `sem.wait()`: blocked while the value is zero. -/
def wait (semaphores : Semaphores) (ref : ℕ) : Option Semaphores :=
  match semaphores.values[ref]? with
  | some (value + 1) => some { semaphores with values := semaphores.values.set ref value }
  | _ => none

/-- `sem.signal()`. -/
def signal (semaphores : Semaphores) (ref : ℕ) : Semaphores :=
  { semaphores with values := semaphores.values.modify ref (· + 1) }

/-- The value of the semaphore of a server. -/
def limits (semaphores : Semaphores) (server : Text) : Option ℕ :=
  (semaphores.slots server).bind fun ref => semaphores.values[ref]?

/-- Every pointer owns a semaphore of its own. -/
structure Owned (semaphores : Semaphores) : Prop where
  made : ∀ server ref, semaphores.slots server = some ref → ref < semaphores.values.length
  apart : ∀ server other ref, semaphores.slots server = some ref →
    semaphores.slots other = some ref → server = other

variable {semaphores : Semaphores} {server : Text} {ref : ℕ}

theorem limits_of_slot (slot : semaphores.slots server = some ref) :
    semaphores.limits server = semaphores.values[ref]? := by
  rw [limits, slot, Option.bind_some]

/-- What happens to a semaphore is seen under the name of its server alone. -/
theorem Owned.limits_update (owned : semaphores.Owned) (slot : semaphores.slots server = some ref)
    {values : List ℕ} (others : ∀ other, other ≠ ref → values[other]? = semaphores.values[other]?) :
    limits { semaphores with values } =
      Function.update semaphores.limits server values[ref]? := by
  funext other
  by_cases same : other = server
  · rw [same, Function.update_self]
    exact limits_of_slot slot
  · rw [Function.update_of_ne same, limits, limits]
    cases found : semaphores.slots other with
    | none => rfl
    | some index =>
        rw [Option.bind_some, Option.bind_some]
        refine others index fun equal => same ?_
        exact owned.apart other server ref (equal ▸ found) slot

theorem Owned.wait (owned : semaphores.Owned) (slot : semaphores.slots server = some ref)
    {after : Semaphores} (waited : semaphores.wait ref = some after) :
    after.slots = semaphores.slots ∧ after.Owned ∧
      ∃ value, semaphores.limits server = some (value + 1) ∧
        after.limits = Function.update semaphores.limits server (some value) := by
  rw [Semaphores.wait] at waited
  split at waited
  · rename_i value left
    obtain rfl := Option.some.inj waited
    have here : ref < semaphores.values.length := owned.made server ref slot
    refine ⟨rfl, ⟨fun other index found => ?_, owned.apart⟩, value,
      (limits_of_slot slot).trans left, ?_⟩
    · rw [List.length_set]
      exact owned.made other index found
    · rw [owned.limits_update slot fun other distinct =>
        List.getElem?_set_ne (Ne.symm distinct), List.getElem?_set_self here]
  · cases waited

theorem Owned.signal (owned : semaphores.Owned) (slot : semaphores.slots server = some ref) :
    (semaphores.signal ref).Owned ∧
      (semaphores.signal ref).limits =
        Function.update semaphores.limits server ((semaphores.limits server).map (· + 1)) := by
  constructor
  · refine ⟨fun other index found => ?_, owned.apart⟩
    rw [Semaphores.signal, List.length_modify]
    exact owned.made other index found
  · rw [Semaphores.signal, owned.limits_update slot fun other distinct =>
      List.getElem?_modify_ne _ _ (Ne.symm distinct), limits_of_slot slot, List.getElem?_modify_eq]
    rfl

/-- A semaphore is made for a server without one. -/
theorem Owned.make (owned : semaphores.Owned) (server : Text) :
    let made : Semaphores :=
      { slots := Function.update semaphores.slots server (some semaphores.values.length)
        values := semaphores.values ++ [kMaxConnectionsPerServer] }
    made.Owned ∧ made.limits =
      Function.update semaphores.limits server (some kMaxConnectionsPerServer) := by
  intro made
  have shape : made.slots =
      Function.update semaphores.slots server (some semaphores.values.length) := rfl
  have old {other : Text} {index : ℕ} (distinct : other ≠ server)
      (found : made.slots other = some index) : semaphores.slots other = some index := by
    rw [shape, Function.update_of_ne distinct] at found
    exact found
  have new {index : ℕ} (found : made.slots server = some index) :
      semaphores.values.length = index := by
    rw [shape, Function.update_self] at found
    exact Option.some.inj found
  refine ⟨⟨fun other index found => ?_, fun left right index found found' => ?_⟩, ?_⟩
  · rw [List.length_append, List.length_singleton]
    by_cases same : other = server
    · rw [same] at found
      rw [← new found]
      exact Nat.lt_succ_self _
    · exact Nat.lt_succ_of_lt (owned.made other index (old same found))
  · by_cases same : left = server <;> by_cases same' : right = server
    · rw [same, same']
    · have before := owned.made right index (old same' found')
      rw [same] at found
      exact absurd (new found) (Nat.ne_of_gt before)
    · have before := owned.made left index (old same found)
      rw [same'] at found'
      exact absurd (new found') (Nat.ne_of_gt before)
    · exact owned.apart left right index (old same found) (old same' found')
  · funext other
    by_cases same : other = server
    · have slot : made.slots other = some semaphores.values.length := by
        rw [shape, same, Function.update_self]
      rw [limits_of_slot slot, same, Function.update_self]
      exact List.getElem?_concat_length
    · have slot : made.slots other = semaphores.slots other := by
        rw [shape, Function.update_of_ne same]
      rw [Function.update_of_ne same, limits, limits, slot]
      cases found : semaphores.slots other with
      | none => rfl
      | some index => exact List.getElem?_append_left (owned.made other index found)

theorem Owned.serverSemaphore (owned : semaphores.Owned) (server : Text) :
    (semaphores.serverSemaphore server).1.Owned ∧
      (semaphores.serverSemaphore server).1.slots server =
        some (semaphores.serverSemaphore server).2 ∧
      (∀ other ref, semaphores.slots other = some ref →
        (semaphores.serverSemaphore server).1.slots other = some ref) ∧
      (semaphores.serverSemaphore server).1.limits =
        if (semaphores.limits server).isSome then semaphores.limits
        else Function.update semaphores.limits server (some kMaxConnectionsPerServer) := by
  rw [Semaphores.serverSemaphore]
  split
  · rename_i ref slot
    have found : (semaphores.limits server).isSome = true := by
      rw [limits_of_slot slot, List.getElem?_eq_getElem (owned.made server ref slot)]
      rfl
    rw [if_pos found]
    exact ⟨owned, slot, fun _ _ kept => kept, rfl⟩
  · rename_i fresh
    have absent : semaphores.limits server = none := by
      rw [limits, fresh, Option.bind_none]
    rw [absent]
    refine ⟨(owned.make server).1, Function.update_self .., fun other ref kept => ?_,
      (owned.make server).2⟩
    have distinct : other ≠ server := by
      rintro rfl
      cases fresh.symm.trans kept
    exact (Function.update_of_ne distinct ..).trans kept

end Semaphores

/-! ## The aggregator with references -/

/-- A call on semaphores. -/
inductive SemaphoreCall
  | serverSemaphore (server : Text)
  | wait
  | signal

/-- The call that comes next in `processFeed(feed)`. -/
def FeedPc.call (feed : RSSItem) : FeedPc → Option SemaphoreCall
  | .server => some (.serverSemaphore feed.server)
  | .wait => some .wait
  | .signal _ => some .signal
  | .fetch | .loop _ | .schedule _ _ | .returned => none

/-- The call that comes next in `processArticle(item)`. -/
def ArticlePc.call (item : RSSItem) : ArticlePc → Option SemaphoreCall
  | .server => some (.serverSemaphore item.server)
  | .wait => some .wait
  | .signal _ => some .signal
  | .seen | .fetch | .push _ | .fold _ _ | .returned => none

/-- The pool thread that moves. -/
def Thread.worker : Thread → Option Worker
  | .feedWorker id => some (.inl id)
  | .articleWorker id => some (.inr id)
  | .main | .feedDispatcher | .articleDispatcher | .wakeFeeds | .wakeArticles => none

namespace State

/-- The call on semaphores that comes next on a thread. -/
def semaphoreCall (state : State) (worker : Worker) : Option SemaphoreCall :=
  (state.item worker).bind fun item =>
    (state.place worker).elim (FeedPc.call item) (ArticlePc.call item)

/-- The task on a thread gets to a position. -/
def goTo (state : State) (feedPc : FeedPc) (articlePc : ArticlePc) : Worker → State
  | .inl id => { state with feedPcs := Function.update state.feedPcs id feedPc }
  | .inr id => { state with articlePcs := Function.update state.articlePcs id articlePc }

/-- The same state under another table of semaphores. -/
def withLimits (state : State) (serverLimits : Text → Option ℕ) : State :=
  { state with shared := { state.shared with serverLimits } }

end State

/-- The aggregator whose tasks keep references. -/
structure Referring where
  /-- Everything else; its own table stays empty. -/
  base : State
  semaphores : Semaphores
  /-- `sem` of the task on a thread, where it is in use. -/
  sem : Worker → ℕ

namespace Referring

/-- A region of a thread whose next call is on semaphores. -/
def callStep (web : Web) (state : Referring) (thread : Thread) (worker : Worker) :
    SemaphoreCall → Option Referring
  | .serverSemaphore server =>
      let made := state.semaphores.serverSemaphore server
      some
        { base := state.base.goTo .wait .wait worker
          semaphores := made.1
          sem := Function.update state.sem worker made.2 }
  | .wait =>
      (state.semaphores.wait (state.sem worker)).map fun semaphores =>
        { state with base := state.base.goTo .fetch .fetch worker, semaphores }
  | .signal =>
      (NewsAggregator.step web state.base thread).map fun base =>
        { state with base, semaphores := state.semaphores.signal (state.sem worker) }

/-- One step: semaphores are reached through the references of the tasks. -/
def step (web : Web) (state : Referring) (thread : Thread) : Option Referring :=
  match thread.worker.bind fun worker =>
      (state.base.semaphoreCall worker).map fun call => (worker, call) with
  | some (worker, call) => state.callStep web thread worker call
  | none => (NewsAggregator.step web state.base thread).map fun base => { state with base }

def start (feeds : List RSSItem) : Referring where
  base := NewsAggregator.start feeds
  semaphores := .initial
  sem _ := 0

/-- The aggregator with references as a machine. -/
def machine (web : Web) (feeds : List RSSItem) : Machine Referring Thread where
  start state := state = start feeds
  step := step web

/-- The aggregator that finds its semaphores by name. -/
def view (state : Referring) : State := state.base.withLimits state.semaphores.limits

end Referring

/-! ## By reference and by name -/

variable {web : Web} {feeds : List RSSItem}

theorem withLimits_addCounts (counts : List (Text × ℕ)) (idx : ℕ) (shared : Shared)
    (serverLimits : Text → Option ℕ) :
    counts.foldl (fun shared entry => shared.addCount idx entry) { shared with serverLimits } =
      { counts.foldl (fun shared entry => shared.addCount idx entry) shared with
        serverLimits } := by
  induction counts generalizing shared with
  | nil => rfl
  | cons entry counts ih => exact ih (shared.addCount idx entry)

/-- Outside calls on semaphores their table does not matter. -/
theorem processArticle_withLimits {item : RSSItem} {pc : ArticlePc} (quiet : pc.call item = none)
    (shared : Shared) (serverLimits : Text → Option ℕ) :
    processArticle web item { shared with serverLimits } pc =
      (processArticle web item shared pc).map fun (shared, pc) =>
        ({ shared with serverLimits }, pc) := by
  cases pc with
  | server | wait | signal => cases quiet
  | seen =>
      rw [processArticle, processArticle]
      split <;> rfl
  | fold counts idx =>
      rw [processArticle, withLimits_addCounts]
      rfl
  | fetch | push | returned => rfl

section Regions

variable (state : State) (limits : Text → Option ℕ)

theorem mainStep_withLimits :
    (state.withLimits limits).mainStep = state.mainStep.map (·.withLimits limits) := by
  rw [State.mainStep, State.mainStep]
  cases position : state.main with
  | loop rest =>
      cases rest <;>
      · simp only [State.withLimits, position, Option.map_map]
        rfl
  | schedule feed rest =>
      cases inside : state.feedPool.clients () <;>
      · simp only [State.withLimits, position, inside, Option.map_map]
        rfl
  | waitFeeds =>
      cases inside : state.feedPool.clients () <;>
      · simp only [State.withLimits, position, inside, Option.map_map]
        rfl
  | waitArticles =>
      cases inside : state.articlePool.clients none <;>
      · simp only [State.withLimits, position, inside, Option.map_map]
        rfl
  | joined =>
      simp only [State.withLimits, position]
      rfl

theorem feedBodyStep_withLimits {id : Fin feedThreads} {feed : RSSItem}
    (quiet : (state.feedPcs id).call feed = none) :
    (state.withLimits limits).feedBodyStep web id feed =
      (state.feedBodyStep web id feed).map (·.withLimits limits) := by
  rw [State.feedBodyStep, State.feedBodyStep]
  cases position : state.feedPcs id with
  | server | wait | signal =>
      rw [position] at quiet
      cases quiet
  | fetch =>
      simp only [State.withLimits, position]
      rfl
  | loop rest =>
      cases rest <;>
      · simp only [State.withLimits, position, Option.map_map]
        rfl
  | schedule item rest =>
      cases inside : state.articlePool.clients (some id) <;>
      · simp only [State.withLimits, position, inside, Option.map_map]
        rfl
  | returned =>
      simp only [State.withLimits, position, Option.map_map]
      rfl

theorem articleBodyStep_withLimits {id : Fin articleThreads} {item : RSSItem}
    (quiet : (state.articlePcs id).call item = none) :
    (state.withLimits limits).articleBodyStep web id item =
      (state.articleBodyStep web id item).map (·.withLimits limits) := by
  have region : processArticle web item { state.shared with serverLimits := limits }
      (state.articlePcs id) = _ := processArticle_withLimits quiet state.shared limits
  rw [State.articleBodyStep, State.articleBodyStep]
  cases position : state.articlePcs id with
  | returned =>
      simp only [State.withLimits, position, Option.map_map]
      rfl
  | _ =>
      rw [position] at region
      simp only [State.withLimits, position, region, Option.map_map]
      rfl

variable {state} in
/-- What a feed thread with a task does next. -/
theorem feedWorkerStep_of_item {id : Fin feedThreads} {feed : RSSItem}
    (here : state.item (.inl id) = some feed) :
    state.feedWorkerStep web id = state.feedBodyStep web id feed :=
  poolWorkerStep_of_item here

variable {state} in
/-- What an article thread with a task does next. -/
theorem articleWorkerStep_of_item {id : Fin articleThreads} {item : RSSItem}
    (here : state.item (.inr id) = some item) :
    state.articleWorkerStep web id = state.articleBodyStep web id item :=
  poolWorkerStep_of_item here

/-- A thread whose next call is on no semaphore does the same under every table. -/
theorem step_withLimits {thread : Thread}
    (quiet : ∀ worker ∈ thread.worker, state.semaphoreCall worker = none) :
    step web (state.withLimits limits) thread =
      (step web state thread).map (·.withLimits limits) := by
  cases thread with
  | main => exact mainStep_withLimits state limits
  | feedWorker id =>
      have quiet := quiet _ rfl
      rw [step, step, State.feedWorkerStep, State.feedWorkerStep]
      refine poolWorkerStep_map (State.withLimits · limits) (fun feed here => ?_) fun _ => rfl
      have here : state.item (.inl id) = some feed := here
      rw [State.semaphoreCall, here] at quiet
      exact feedBodyStep_withLimits state limits quiet
  | articleWorker id =>
      have quiet := quiet _ rfl
      rw [step, step, State.articleWorkerStep, State.articleWorkerStep]
      refine poolWorkerStep_map (State.withLimits · limits) (fun item here => ?_) fun _ => rfl
      have here : state.item (.inr id) = some item := here
      rw [State.semaphoreCall, here] at quiet
      exact articleBodyStep_withLimits state limits quiet
  | feedDispatcher | articleDispatcher | wakeFeeds | wakeArticles =>
      rw [step, step, Option.map_map]
      rfl

section Calls

variable {state} {thread : Thread} {worker : Worker} {item : RSSItem}
  (moves : thread.worker = some worker) (here : state.item worker = some item)

include moves here in
/-- `serverSemaphore` by name. -/
theorem step_serverSemaphore {server : Text}
    (next : state.semaphoreCall worker = some (.serverSemaphore server)) :
    step web (state.withLimits limits) thread =
      some ((state.goTo .wait .wait worker).withLimits
        (if (limits server).isSome then limits
          else Function.update limits server (some kMaxConnectionsPerServer))) := by
  rw [State.semaphoreCall, here, Option.bind_some] at next
  cases thread with
  | feedWorker id =>
      obtain rfl := Option.some.inj moves
      have next : (state.feedPcs id).call item = some (.serverSemaphore server) := next
      have here : (state.withLimits limits).item (.inl id) = some item := here
      rw [step, feedWorkerStep_of_item here, State.feedBodyStep]
      cases position : state.feedPcs id with
      | server =>
          rw [position] at next
          obtain rfl := SemaphoreCall.serverSemaphore.inj (Option.some.inj next)
          cases found : limits item.server <;>
          · simp only [State.withLimits, position, processFeed, Shared.serverSemaphore]
            rw [← RSSItem.server, found]
            rfl
      | _ =>
          rw [position] at next
          cases next
  | articleWorker id =>
      obtain rfl := Option.some.inj moves
      have next : (state.articlePcs id).call item = some (.serverSemaphore server) := next
      have here : (state.withLimits limits).item (.inr id) = some item := here
      rw [step, articleWorkerStep_of_item here, State.articleBodyStep]
      cases position : state.articlePcs id with
      | server =>
          rw [position] at next
          obtain rfl := SemaphoreCall.serverSemaphore.inj (Option.some.inj next)
          cases found : limits item.server <;>
          · simp only [State.withLimits, position, processArticle, Shared.serverSemaphore]
            rw [← RSSItem.server, found]
            rfl
      | _ =>
          rw [position] at next
          cases next
  | _ => cases moves

include moves here in
/-- `sem.wait()` by name. -/
theorem step_wait (next : state.semaphoreCall worker = some .wait) :
    step web (state.withLimits limits) thread =
      match limits item.server with
      | some (value + 1) =>
          some ((state.goTo .fetch .fetch worker).withLimits
            (Function.update limits item.server (some value)))
      | _ => none := by
  rw [State.semaphoreCall, here, Option.bind_some] at next
  cases thread with
  | feedWorker id =>
      obtain rfl := Option.some.inj moves
      have next : (state.feedPcs id).call item = some .wait := next
      have here : (state.withLimits limits).item (.inl id) = some item := here
      rw [step, feedWorkerStep_of_item here, State.feedBodyStep]
      cases position : state.feedPcs id with
      | wait =>
          simp only [State.withLimits, position, processFeed, Shared.wait]
          rw [← RSSItem.server]
          rcases limits item.server with _ | _ | value <;> rfl
      | _ =>
          rw [position] at next
          cases next
  | articleWorker id =>
      obtain rfl := Option.some.inj moves
      have next : (state.articlePcs id).call item = some .wait := next
      have here : (state.withLimits limits).item (.inr id) = some item := here
      rw [step, articleWorkerStep_of_item here, State.articleBodyStep]
      cases position : state.articlePcs id with
      | wait =>
          simp only [State.withLimits, position, processArticle, Shared.wait]
          rw [← RSSItem.server]
          rcases limits item.server with _ | _ | value <;> rfl
      | _ =>
          rw [position] at next
          cases next
  | _ => cases moves

include moves here in
/-- `sem.signal()` by name. -/
theorem step_signal (next : state.semaphoreCall worker = some .signal) :
    step web (state.withLimits limits) thread =
      (step web state thread).map (·.withLimits
        (Function.update limits item.server ((limits item.server).map (· + 1)))) := by
  rw [State.semaphoreCall, here, Option.bind_some] at next
  cases thread with
  | feedWorker id =>
      obtain rfl := Option.some.inj moves
      have next : (state.feedPcs id).call item = some .signal := next
      have here' : (state.withLimits limits).item (.inl id) = some item := here
      rw [step, step, feedWorkerStep_of_item here, feedWorkerStep_of_item here',
        State.feedBodyStep, State.feedBodyStep]
      cases position : state.feedPcs id with
      | signal items =>
          cases items <;>
          · simp only [State.withLimits, position, processFeed, Option.map_some]
            rfl
      | _ =>
          rw [position] at next
          cases next
  | articleWorker id =>
      obtain rfl := Option.some.inj moves
      have next : (state.articlePcs id).call item = some .signal := next
      have here' : (state.withLimits limits).item (.inr id) = some item := here
      rw [step, step, articleWorkerStep_of_item here, articleWorkerStep_of_item here',
        State.articleBodyStep, State.articleBodyStep]
      cases position : state.articlePcs id with
      | signal page =>
          cases page with
          | none =>
              simp only [State.withLimits, position, processArticle, Option.map_some]
              rfl
          | some tokens =>
              by_cases empty : countTokens tokens = [] <;>
              · simp only [State.withLimits, position, processArticle, empty, if_true, if_false,
                  Option.map_some]
                rfl
      | _ =>
          rw [position] at next
          cases next
  | _ => cases moves

end Calls

end Regions

/-! ## Refinement -/

/-- What is known of the aggregator does not depend on the table of semaphores. -/
theorem Sound.withLimits {state : State} (sound : Sound web feeds state)
    (limits : Text → Option ℕ) : Sound web feeds (state.withLimits limits) where
  pools := { sound.pools with }
  guided := { sound.guided with }
  feedTasks := { sound.feedTasks with }
  articleTasks :=
    { idle := sound.articleTasks.idle
      consistent := sound.articleTasks.consistent.frame ⟨rfl, rfl, rfl⟩
      done := sound.articleTasks.done }

/-- A task gets to use `sem` only through the table. -/
theorem Throttled.usesSem_of_empty {server : Text} {limits limits' : Text → Option ℕ}
    {stage stage' : Stage} (throttled : Throttled server limits stage limits' stage')
    (empty : limits' = fun _ => none) (uses : stage'.usesSem = true) : stage.usesSem = true := by
  cases throttled with
  | quiet => exact uses
  | finds made =>
      rw [empty] at made
      cases made
  | makes fresh =>
      have absent := congrFun empty server
      rw [Function.update_self] at absent
      cases absent
  | takes | fetches => rfl
  | gives => cases uses

/-- Until a call on semaphores, a task keeps its item and does not start to use `sem`. -/
theorem stays_of_move {state after : State} (sound : Sound web feeds state)
    (empty : after.shared.serverLimits = fun _ => none) (move : Move web state after)
    {worker : Worker} (uses : (after.place worker).usesSem = true) :
    (state.place worker).usesSem = true ∧ after.item worker = state.item worker := by
  rcases region_or_quiet sound move with region | quiet
  · obtain ⟨mover, item, here, items, others, throttled⟩ := throttled_of_region region
    refine ⟨?_, by rw [items]⟩
    by_cases same : worker = mover
    · subst same
      exact throttled.usesSem_of_empty empty uses
    · exact others worker same ▸ uses
  · obtain ⟨item, place⟩ := quiet.stays worker (.inr uses)
    exact ⟨place ▸ uses, item⟩

namespace Referring

variable {state next : Referring} {thread : Thread}

/-- Every task that uses `sem` has the semaphore that the table has for its server. -/
structure Tied (state : Referring) : Prop where
  owned : state.semaphores.Owned
  tied : ∀ worker item, state.base.item worker = some item →
    (state.base.place worker).usesSem = true →
      state.semaphores.slots item.server = some (state.sem worker)
  empty : state.base.shared.serverLimits = fun _ => none

theorem step_of_call {worker : Worker} {call : SemaphoreCall} (moves : thread.worker = some worker)
    (calls : state.base.semaphoreCall worker = some call) :
    state.step web thread = state.callStep web thread worker call := by
  rw [step, moves, Option.bind_some, calls]
  rfl

theorem step_of_quiet (quiet : ∀ worker ∈ thread.worker, state.base.semaphoreCall worker = none) :
    state.step web thread =
      (NewsAggregator.step web state.base thread).map fun base => { state with base } := by
  rw [step]
  cases moves : thread.worker with
  | none => rfl
  | some worker => rw [Option.bind_some, quiet worker moves, Option.map_none]

/-- A thread is at a call on semaphores of its task, or it is not. -/
theorem call_or_quiet (state : Referring) (thread : Thread) :
    (∃ worker call item, thread.worker = some worker ∧
        state.base.semaphoreCall worker = some call ∧ state.base.item worker = some item) ∨
      ∀ worker ∈ thread.worker, state.base.semaphoreCall worker = none := by
  by_cases quiet : ∀ worker ∈ thread.worker, state.base.semaphoreCall worker = none
  · exact .inr quiet
  · push Not at quiet
    obtain ⟨worker, moves, busy⟩ := quiet
    obtain ⟨call, calls⟩ := Option.ne_none_iff_exists'.mp busy
    obtain ⟨item, here, _⟩ := Option.bind_eq_some_iff.mp calls
    exact .inl ⟨worker, call, item, moves, calls, here⟩

/-- A task at `sem.wait()` or `sem.signal()` uses its semaphore. -/
theorem usesSem_of_call {base : State} {worker : Worker} {call : SemaphoreCall}
    (calls : base.semaphoreCall worker = some call)
    (inUse : ∀ server, call ≠ .serverSemaphore server) : (base.place worker).usesSem = true := by
  obtain ⟨item, _, calls⟩ := Option.bind_eq_some_iff.mp calls
  cases place : base.place worker with
  | inl pc =>
      rw [place] at calls
      cases pc with
      | wait | signal => rfl
      | server => exact absurd (Option.some.inj calls).symm (inUse _)
      | _ => cases calls
  | inr pc =>
      rw [place] at calls
      cases pc with
      | wait | signal => rfl
      | server => exact absurd (Option.some.inj calls).symm (inUse _)
      | _ => cases calls

/-- `serverSemaphore` is called for the server of the task. -/
theorem server_of_call {base : State} {worker : Worker} {item : RSSItem} {server : Text}
    (here : base.item worker = some item)
    (calls : base.semaphoreCall worker = some (.serverSemaphore server)) :
    server = item.server := by
  rw [State.semaphoreCall, here, Option.bind_some] at calls
  cases place : base.place worker with
  | inl pc =>
      rw [place] at calls
      cases pc with
      | server => exact (SemaphoreCall.serverSemaphore.inj (Option.some.inj calls)).symm
      | _ => cases calls
  | inr pc =>
      rw [place] at calls
      cases pc with
      | server => exact (SemaphoreCall.serverSemaphore.inj (Option.some.inj calls)).symm
      | _ => cases calls

/-- Seen by name, the aggregator with references does what the aggregator does. -/
theorem step_view (tied : state.Tied) :
    NewsAggregator.step web state.view thread = (state.step web thread).map view := by
  rcases state.call_or_quiet thread with ⟨worker, call, item, moves, calls, here⟩ | quiet
  · rw [step_of_call moves calls]
    cases call with
    | serverSemaphore server =>
        rw [view, step_serverSemaphore _ moves here calls, callStep, Option.map_some, view,
          (tied.owned.serverSemaphore server).2.2.2]
    | wait =>
        have slot := tied.tied worker item here (usesSem_of_call calls nofun)
        rw [view, step_wait _ moves here calls, callStep, Option.map_map]
        cases waited : state.semaphores.wait (state.sem worker) with
        | some after =>
            obtain ⟨_, _, value, before, later⟩ := tied.owned.wait slot waited
            rw [before]
            show some ((state.base.goTo .fetch .fetch worker).withLimits _) =
              some ((state.base.goTo .fetch .fetch worker).withLimits after.limits)
            rw [later]
        | none =>
            rw [Semaphores.limits_of_slot slot]
            rw [Semaphores.wait] at waited
            split at waited
            · cases waited
            · rfl
    | signal =>
        have slot := tied.tied worker item here (usesSem_of_call calls nofun)
        rw [view, step_signal _ moves here calls, callStep, Option.map_map,
          ← (tied.owned.signal slot).2]
        rfl
  · rw [step_of_quiet quiet, view, step_withLimits _ _ quiet, Option.map_map]
    rfl

/-- A step without a call on semaphores keeps the ties. -/
theorem Tied.of_base (sound : Sound web feeds state.base) (tied : state.Tied) {base : State}
    {semaphores : Semaphores} (owned : semaphores.Owned)
    (slots : semaphores.slots = state.semaphores.slots)
    (empty : base.shared.serverLimits = fun _ => none)
    (moved : NewsAggregator.step web state.base thread = some base) :
    Tied { state with base, semaphores } where
  owned := owned
  tied worker item here uses := by
    obtain ⟨before, same⟩ := stays_of_move sound empty (move_of_step moved) uses
    show semaphores.slots item.server = some (state.sem worker)
    rw [slots]
    exact tied.tied worker item (same.symm.trans here) before
  empty := empty

/-- Under an empty table a step without `serverSemaphore` leaves it empty. -/
theorem empty_of_step (tied : state.Tied) {base : State}
    (moved : NewsAggregator.step web state.base thread = some base)
    (same : NewsAggregator.step web (state.base.withLimits fun _ => none) thread =
      (NewsAggregator.step web state.base thread).map (·.withLimits fun _ => none)) :
    base.shared.serverLimits = fun _ => none := by
  have unchanged : state.base.withLimits (fun _ => none) = state.base := by
    rw [← tied.empty]
    rfl
  rw [unchanged, moved, Option.map_some] at same
  rw [Option.some.inj same]
  rfl

/-- Only the position of the one task changes. -/
theorem goTo_frame (base : State) (feedPc : FeedPc) (articlePc : ArticlePc) (worker : Worker) :
    (base.goTo feedPc articlePc worker).item = base.item ∧
      (base.goTo feedPc articlePc worker).shared = base.shared ∧
      ∀ other, other ≠ worker →
        (base.goTo feedPc articlePc worker).place other = base.place other := by
  cases worker with
  | inl id =>
      refine ⟨rfl, rfl, fun other apart => ?_⟩
      cases other with
      | inl other =>
          exact congrArg Sum.inl
            (Function.update_of_ne (fun same => apart (congrArg Sum.inl same)) ..)
      | inr other => rfl
  | inr id =>
      refine ⟨rfl, rfl, fun other apart => ?_⟩
      cases other with
      | inl other => rfl
      | inr other =>
          exact congrArg Sum.inr
            (Function.update_of_ne (fun same => apart (congrArg Sum.inr same)) ..)

/-- Every step keeps the ties. -/
theorem Tied.step (sound : Sound web feeds state.base) (tied : state.Tied)
    (taken : state.step web thread = some next) : next.Tied := by
  rcases state.call_or_quiet thread with ⟨worker, call, item, moves, calls, here⟩ | quiet
  · rw [step_of_call moves calls] at taken
    cases call with
    | serverSemaphore server =>
        obtain rfl := Option.some.inj taken
        obtain ⟨items, shared, others⟩ := goTo_frame state.base .wait .wait worker
        obtain ⟨owned, slot, kept, _⟩ := tied.owned.serverSemaphore server
        refine ⟨owned, fun other item' here' uses => ?_, ?_⟩
        · rw [items] at here'
          show (state.semaphores.serverSemaphore server).1.slots item'.server =
            some (Function.update state.sem worker
              (state.semaphores.serverSemaphore server).2 other)
          by_cases same : other = worker
          · subst same
            obtain rfl := Option.some.inj (here.symm.trans here')
            rw [Function.update_self, ← server_of_call here calls]
            exact slot
          · rw [others other same] at uses
            rw [Function.update_of_ne same]
            exact kept _ _ (tied.tied other item' here' uses)
        · rw [shared]
          exact tied.empty
    | wait =>
        have uses := usesSem_of_call calls nofun
        have slot := tied.tied worker item here uses
        obtain ⟨after, waited, rfl⟩ := Option.map_eq_some_iff.mp taken
        obtain ⟨items, shared, others⟩ := goTo_frame state.base .fetch .fetch worker
        obtain ⟨slots, owned, _⟩ := tied.owned.wait slot waited
        refine ⟨owned, fun other item' here' uses' => ?_, ?_⟩
        · rw [items] at here'
          rw [slots]
          refine tied.tied other item' here' ?_
          by_cases same : other = worker
          · rw [same]
            exact uses
          · rw [others other same] at uses'
            exact uses'
        · rw [shared]
          exact tied.empty
    | signal =>
        have slot := tied.tied worker item here (usesSem_of_call calls nofun)
        obtain ⟨base, moved, rfl⟩ := Option.map_eq_some_iff.mp taken
        refine tied.of_base sound (tied.owned.signal slot).1 rfl ?_ moved
        refine empty_of_step tied moved ((step_signal _ moves here calls).trans ?_)
        rw [Option.map_none, Function.update_eq_self]
  · rw [step_of_quiet quiet] at taken
    obtain ⟨base, moved, rfl⟩ := Option.map_eq_some_iff.mp taken
    exact tied.of_base sound tied.owned rfl
      (empty_of_step tied moved (step_withLimits _ _ quiet)) moved

/-- A semaphore that has been made keeps its place in the table. -/
theorem Tied.slots_of_step (tied : state.Tied) (taken : state.step web thread = some next)
    {server : Text} {ref : ℕ} (slot : state.semaphores.slots server = some ref) :
    next.semaphores.slots server = some ref := by
  rcases state.call_or_quiet thread with ⟨worker, call, item, moves, calls, here⟩ | quiet
  · rw [step_of_call moves calls] at taken
    cases call with
    | serverSemaphore other =>
        obtain rfl := Option.some.inj taken
        exact (tied.owned.serverSemaphore other).2.2.1 server ref slot
    | wait =>
        have own := tied.tied worker item here (usesSem_of_call calls nofun)
        obtain ⟨after, waited, rfl⟩ := Option.map_eq_some_iff.mp taken
        show after.slots server = some ref
        rw [(tied.owned.wait own waited).1]
        exact slot
    | signal =>
        obtain ⟨base, _, rfl⟩ := Option.map_eq_some_iff.mp taken
        exact slot
  · rw [step_of_quiet quiet] at taken
    obtain ⟨base, _, rfl⟩ := Option.map_eq_some_iff.mp taken
    exact slot

theorem tied_start (feeds : List RSSItem) : (start feeds).Tied where
  owned := ⟨nofun, nofun⟩
  tied worker _ here _ := by cases worker <;> cases here
  empty := rfl

/-- Every run of the aggregator with references is one of the aggregator. -/
theorem known_of_reachable (reach : (machine web feeds).Reachable .free state) :
    state.Tied ∧ (NewsAggregator.machine web feeds).Reachable .free state.view := by
  refine reach.invariant
    (fun state => state.Tied ∧ (NewsAggregator.machine web feeds).Reachable .free state.view) ?_ ?_
  · rintro _ rfl
    exact ⟨tied_start feeds, .of_start rfl⟩
  · intro before thread after known _ taken
    obtain ⟨tied, reached⟩ := known
    have sound : Sound web feeds before.base :=
      (sound_of_reachable reached).withLimits before.base.shared.serverLimits
    have taken : before.step web thread = some after := taken
    have moved : NewsAggregator.step web before.view thread = some after.view := by
      rw [step_view tied, taken, Option.map_some]
    exact ⟨tied.step sound taken, reached.next trivial moved⟩

end Referring

/-! ## Throttling -/

/-- The thread of a pool. -/
def Worker.thread : Worker → Thread
  | .inl id => .feedWorker id
  | .inr id => .articleWorker id

/-- A thread that holds a permit downloads or gives the permit back. -/
theorem step_of_held {state : State} {worker : Worker} {server : Text}
    (held : state.held worker = some server) : (step web state worker.thread).isSome = true := by
  rw [State.held] at held
  split at held
  · rename_i holds
    obtain ⟨item, here, _⟩ := Option.map_eq_some_iff.mp held
    cases worker with
    | inl id =>
        have holds : (state.feedPcs id).stage.holds = true := holds
        rw [Worker.thread, step, feedWorkerStep_of_item here, State.feedBodyStep]
        cases position : state.feedPcs id with
        | fetch => rfl
        | signal items => cases items <;> rfl
        | _ =>
            rw [position] at holds
            cases holds
    | inr id =>
        have holds : (state.articlePcs id).stage.holds = true := holds
        rw [Worker.thread, step, articleWorkerStep_of_item here, State.articleBodyStep]
        cases position : state.articlePcs id with
        | fetch => rfl
        | signal page =>
            cases page with
            | none => rfl
            | some tokens =>
                simp only [processArticle, Option.isSome_map]
                split <;> rfl
        | _ =>
            rw [position] at holds
            cases holds
  · cases held

/-- In every reachable state the semaphore of a server accounts for the downloads from it, every
task uses the one semaphore of its server, and nobody waits for one that no thread gives back. -/
theorem throttling {state : Referring}
    (reach : (Referring.machine web feeds).Reachable .free state) :
    (∀ server ref, state.semaphores.slots server = some ref →
        ∃ value, state.semaphores.values[ref]? = some value ∧
          value + (holders state.base.held server).card = kMaxConnectionsPerServer) ∧
      (∀ server, (holders state.base.held server).card ≤ kMaxConnectionsPerServer) ∧
      (∀ worker item, state.base.item worker = some item →
        (state.base.place worker).usesSem = true →
          state.semaphores.slots item.server = some (state.sem worker)) ∧
      (∀ later, (Referring.machine web feeds).Leads .free state later →
        ∀ server ref, state.semaphores.slots server = some ref →
          later.semaphores.slots server = some ref) ∧
      ∀ worker item, state.base.item worker = some item →
        state.base.semaphoreCall worker = some .wait →
          state.step web worker.thread = none →
            ∃ other, state.base.held other = some item.server ∧
              (state.step web other.thread).isSome = true := by
  obtain ⟨tied, reached⟩ := Referring.known_of_reachable reach
  have balanced := balanced_of_reachable reached
  have found {server : Text} {ref : ℕ} (slot : state.semaphores.slots server = some ref) :
      ∃ value, state.semaphores.values[ref]? = some value ∧
        state.view.shared.serverLimits server = some value := by
    have here := List.getElem?_eq_getElem (tied.owned.made server ref slot)
    exact ⟨_, here, (Semaphores.limits_of_slot slot).trans here⟩
  refine ⟨?_, ?_, tied.tied, ?_, ?_⟩
  · intro server ref slot
    obtain ⟨value, here, byName⟩ := found slot
    exact ⟨value, here, balanced.total server value byName⟩
  · intro server
    cases byName : state.view.shared.serverLimits server with
    | none =>
        have none : holders state.base.held server = ∅ := balanced.unmade server byName
        rw [none, Finset.card_empty]
        exact Nat.zero_le _
    | some value =>
        have total := balanced.total server value byName
        exact (Nat.le_add_left _ _).trans total.le
  · intro later leads server ref slot
    refine (leads.invariant (fun later => (Referring.machine web feeds).Reachable .free later ∧
      later.semaphores.slots server = some ref) ?_ ⟨reach, slot⟩).2
    intro before thread after known permitted taken
    obtain ⟨earlier, kept⟩ := known
    exact ⟨earlier.next permitted taken,
      (Referring.known_of_reachable earlier).1.slots_of_step taken kept⟩
  · intro worker item here waits blocked
    have slot := tied.tied worker item here (Referring.usesSem_of_call waits nofun)
    obtain ⟨value, here, byName⟩ := found slot
    have moves : worker.thread.worker = some worker := by cases worker <;> rfl
    rw [Referring.step_of_call moves waits, Referring.callStep, Option.map_eq_none_iff,
      Semaphores.wait, here] at blocked
    cases value with
    | succ value => cases blocked
    | zero =>
        obtain ⟨other, holds⟩ := balanced.exists_holder (by decide) byName
        have moves : (step web state.view other.thread).isSome = true := step_of_held holds
        rw [Referring.step_view tied, Option.isSome_map] at moves
        exact ⟨other, holds, moves⟩

/-- Both feed tasks download from one server. -/
def sharedServerRun : List Thread :=
  List.flatten
    [List.replicate 12 .main, List.replicate 16 .feedDispatcher, List.replicate 4 (.feedWorker 0),
      List.replicate 4 (.feedWorker 1)]

theorem sharedServerRun_finishes :
    ((Referring.machine sharedLink twoFeeds).exec .free (Referring.start twoFeeds)
      sharedServerRun).isSome = true := by
  decide +kernel

/-- The aggregator after `sharedServerRun`. -/
def sharedServer : Referring :=
  ((Referring.machine sharedLink twoFeeds).exec .free (Referring.start twoFeeds)
    sharedServerRun).get sharedServerRun_finishes

theorem throttling_sharedServer :
    (∃ value, sharedServer.semaphores.values[0]? = some value ∧
        value + (holders sharedServer.base.held (ascii "h:80")).card = 8) ∧
      sharedServer.semaphores.values = [6] := by
  have reach : (Referring.machine sharedLink twoFeeds).Reachable .free sharedServer :=
    .of_exec rfl sharedServerRun sharedServerRun_finishes
  exact ⟨(throttling reach).1 (ascii "h:80") 0 (by decide +kernel), by decide +kernel⟩

end NewsAggregator
end Syscore
