import Syscore.Proxy.Freshness

/-!
# What gets into the cache

A condition on the responses that `cacheTTL` lets be stored carries over to whole runs: to
everything that is stored, and to everything that is served from the cache.
-/

namespace Syscore
namespace Proxy

/-- The response that a stream of an origin is ingested as. -/
def ingested (incoming : List Chunk) : HTTPResponse :=
  (HTTPResponse.initial.ingestFrom ⟨[], incoming⟩).1

/-- `serviceConnection` stores a response with a positive time to live. -/
def Stored (req : HTTPRequest) (resp : HTTPResponse) : Prop := 0 < cacheTTL req resp

instance (req : HTTPRequest) (resp : HTTPResponse) : Decidable (Stored req resp) :=
  inferInstanceAs (Decidable (0 < cacheTTL req resp))

/-- A response is stored just when the task that received it goes on to `cache.store`. -/
theorem stored_iff_store {state : State} {id : ℕ} (inside : id < state.tasks.length)
    (clientIP : Text) (req : HTTPRequest) (incoming : List Chunk) :
    Stored (req.prepare clientIP) (ingested incoming) ↔
      ∃ ttl, (receiveStep state id clientIP req incoming).tasks[id]? =
        some (.store (cacheKey req) (ingested incoming).serialize ttl) := by
  have here (task : Task) : (state.tasks.set id task)[id]? = some task := by
    rw [List.getElem?_set_self inside]
  unfold Stored ingested
  simp only [receiveStep]
  split
  · rename_i positive
    rw [State.tasks_move, State.record, here]
    exact ⟨fun _ => ⟨_, rfl⟩, fun _ => positive⟩
  · rename_i nonpositive
    rw [State.tasks_move, State.record, here]
    constructor
    · exact fun stored => absurd stored nonpositive
    · rintro ⟨ttl, same⟩
      cases Option.some.inj same

section Runs

variable (good : HTTPRequest → List Chunk → Prop)

/-- The request that a task is about to ingest a response for, as it was forwarded. -/
def State.forwarded (state : State) (id : ℕ) : Option HTTPRequest :=
  match state.tasks[id]? with
  | some (.receive clientIP req) => some (req.prepare clientIP)
  | _ => none

/-- The runs in which what is stored is good. -/
def storesOnly : Discipline State Action
  | state, .receive id incoming =>
      ∀ req ∈ state.forwarded id, Stored req (ingested incoming) → good req incoming
  | _, _ => True

instance [∀ req incoming, Decidable (good req incoming)] (state : State) (action : Action) :
    Decidable (storesOnly good state action) :=
  match action with
  | .accept _ _ => .isTrue trivial
  | .tick _ => .isTrue trivial
  | .run _ => .isTrue trivial
  | .connect _ _ => .isTrue trivial
  | .receive id incoming => inferInstanceAs (Decidable
      (∀ req ∈ state.forwarded id, Stored req (ingested incoming) → good req incoming))

/-- Whatever was ingested and may be stored is good. -/
def IngestedGood (log : List Event) : Prop :=
  ∀ id clientIP req resp, .ingest id clientIP req resp ∈ log → Stored (req.prepare clientIP) resp →
    ∃ incoming, resp = ingested incoming ∧ good (req.prepare clientIP) incoming

variable {good}

/-- A stronger condition leaves fewer runs. -/
theorem storesOnly_mono {better : HTTPRequest → List Chunk → Prop}
    (stronger : ∀ req incoming, better req incoming → good req incoming) (state : State)
    (action : Action) (allowed : storesOnly better state action) :
    storesOnly good state action := by
  cases action with
  | receive id incoming =>
      exact fun req forwarded stored => stronger req incoming (allowed req forwarded stored)
  | _ => trivial

theorem IngestedGood.cons {log : List Event} (before : IngestedGood good log) {event : Event}
    (other : ∀ id clientIP req resp, event ≠ .ingest id clientIP req resp) :
    IngestedGood good (event :: log) := by
  intro id clientIP req resp inside
  rcases List.mem_cons.mp inside with here | earlier
  · exact absurd here.symm (other id clientIP req resp)
  · exact before id clientIP req resp earlier

/-- A step ingests good responses only. -/
theorem IngestedGood.step {blocks : Text → Bool} {state next : State} {action : Action}
    (before : IngestedGood good state.log) (allowed : storesOnly good state action)
    (stepped : Proxy.step blocks state action = some next) : IngestedGood good next.log := by
  cases move_of_step stepped with
  | accept clientIP incoming => exact before
  | tick elapsed => exact before
  | parse at_id =>
      rw [parseStep]
      split
      · exact before
      · split_ifs <;> exact before
  | lookup at_id =>
      simp only [lookupStep]
      split <;> exact before.cons (by simp)
  | store at_id => exact before.cons (by simp)
  | respond at_id => exact before.cons (by simp)
  | connect outcome at_id =>
      cases outcome with
      | unreachable => exact before
      | writeFailed => exact before
      | sent => exact before.cons (by simp)
  | @receive id clientIP req incoming at_id =>
      have forwarded : state.forwarded id = some (req.prepare clientIP) := by
        rw [State.forwarded, at_id]
      have both : IngestedGood good (.ingest id clientIP req (ingested incoming) :: state.log) := by
        intro other clientIP' req' resp inside stored
        rcases List.mem_cons.mp inside with here | earlier
        · obtain ⟨rfl, rfl, rfl, rfl⟩ := Event.ingest.inj here
          exact ⟨incoming, rfl, allowed _ forwarded stored⟩
        · exact before other clientIP' req' resp earlier stored
      simp only [receiveStep]
      split <;> exact both

theorem ingestedGood_of_reachable {blocks : Text → Bool} {state : State}
    (reach : (machine blocks).Reachable (storesOnly good) state) : IngestedGood good state.log := by
  refine reach.invariant (fun state => IngestedGood good state.log) (fun state start => ?_)
    fun _ _ _ before allowed stepped => before.step allowed stepped
  obtain ⟨_, _, noEvent⟩ := start
  rw [noEvent]
  exact fun _ _ _ _ inside => absurd inside List.not_mem_nil

/-- Where a string under a key comes from: a good response that may live for `ttl` seconds. -/
def GoodSource (good : HTTPRequest → List Chunk → Prop) (serialized : Text) (ttl : ℤ) : Prop :=
  ∃ req incoming, good req incoming ∧ (ingested incoming).serialize = serialized ∧
    cacheTTL req (ingested incoming) = ttl ∧ 0 < ttl

/-- Everything stored has a good source. -/
theorem goodSource_of_store {blocks : Text → Bool} {state : State}
    (reach : (machine blocks).Reachable (storesOnly good) state) {id : ℕ} {key serialized : Text}
    {ttl now : ℤ} (stored : .store id key serialized ttl now ∈ state.log) :
    GoodSource good serialized ttl := by
  obtain ⟨later, earlier, shape⟩ := List.append_of_mem stored
  obtain ⟨positive, clientIP, req, _, resp, recorded, _, _, _, ttl_eq, serialized_eq⟩ :=
    (consistent_of_reachable reach.toFree).justified.of_suffix ⟨later, shape.symm⟩
  have inside : .ingest id clientIP req resp ∈ state.log := by
    rw [shape]
    exact List.mem_append_right later (List.mem_cons_of_mem _ recorded)
  have may : Stored (req.prepare clientIP) resp := by
    rw [Stored, ttl_eq]
    exact positive
  obtain ⟨incoming, rfl, fine⟩ := ingestedGood_of_reachable reach id clientIP req resp inside may
  exact ⟨req.prepare clientIP, incoming, fine, serialized_eq, ttl_eq, positive⟩

/-- Everything served from the cache has a good source. -/
theorem goodSource_of_hit {blocks : Text → Bool} {state : State}
    (reach : (machine blocks).Reachable (storesOnly good) state) {id : ℕ} {key cached : Text}
    {now : ℤ} (hit : .lookup id key now (some cached) ∈ state.log) :
    ∃ ttl, GoodSource good cached ttl := by
  obtain ⟨later, earlier, shape⟩ := List.append_of_mem hit
  obtain ⟨storer, ttl, time, _, _, ⟨between, before, _⟩, _⟩ :=
    hits_are_fresh reach.toFree ⟨later, shape.symm⟩
  have stored : .store storer key cached ttl time ∈ state.log := by
    rw [shape, before]
    simp
  exact ⟨ttl, goodSource_of_store reach stored⟩

end Runs

end Proxy
end Syscore
