import Syscore.Proxy.Service

/-!
# Cache hits are justified and fresh

Every hit that the log records is supported by the log before it: the last store under the key, with
its time to live, and the response that the storing task ingested. The invariant ties the cache and
the tasks to the log.
-/

namespace Syscore
namespace Proxy

namespace Event

/-- The task of an event. -/
def task : Event → ℕ
  | lookup id .. => id
  | forward id _ => id
  | ingest id .. => id
  | store id .. => id
  | write id _ => id

/-- What the task has to write to its client after this event, if the event decides it. -/
def answer : Event → Option Text
  | lookup _ _ _ result => result
  | store _ _ serialized _ _ => some serialized
  | _ => none

/-- The event stores under the key. -/
def Stores (key : Text) : Event → Prop
  | store _ key' _ _ _ => key' = key
  | _ => False

end Event

/-- The last store under a key. -/
def LastStore (log : List Event) (key : Text) (id : ℕ) (serialized : Text) (ttl time : ℤ)
    (earlier : List Event) : Prop :=
  ∃ later, log = later ++ .store id key serialized ttl time :: earlier ∧
    ∀ event ∈ later, ¬ event.Stores key

/-- A string comes from a response that the task ingested for a GET request with this key, and that
`cacheTTL` lets live this long. -/
def Provenance (log : List Event) (id : ℕ) (key serialized : Text) (ttl : ℤ) : Prop :=
  0 < ttl ∧ ∃ clientIP req incoming resp, .ingest id clientIP req resp ∈ log ∧
    resp = (HTTPResponse.initial.ingestFrom ⟨[], incoming⟩).1 ∧ req.method = ascii "GET" ∧
      cacheKey req = key ∧ cacheTTL (req.prepare clientIP) resp = ttl ∧ resp.serialize = serialized

/-- What the log before an event says for it. -/
def Supported (before : List Event) : Event → Prop
  | .lookup id key now (some cached) => ∃ storer ttl time earlier,
      storer ≠ id ∧ LastStore before key storer cached ttl time earlier ∧
        now < time + ttl * second
  | .store id key serialized ttl _ => Provenance before id key serialized ttl
  | _ => True

/-- Every event of the log is supported by the log before it. -/
def Justified : List Event → Prop
  | [] => True
  | event :: before => Supported before event ∧ Justified before

theorem Justified.of_suffix {log : List Event} (justified : Justified log) {event : Event}
    {before : List Event} (recorded : event :: before <:+ log) : Supported before event := by
  induction log with
  | nil => simp at recorded
  | cons newest log ih =>
      rcases List.suffix_cons_iff.mp recorded with here | earlier
      · obtain ⟨rfl, rfl⟩ := List.cons.inj here
        exact justified.1
      · exact ih justified.2 earlier

/-- A task has learned what it has to write. -/
def Answered (log : List Event) (id : ℕ) (data : Text) : Prop :=
  ∃ event ∈ log, event.task = id ∧ event.answer = some data

/-- The cache and the tasks agree with the log. -/
structure Consistent (state : State) : Prop where
  justified : Justified state.log
  /-- An entry of the cache is the last store under its key. -/
  cached : ∀ key entry, state.entries[key]? = some entry → ∃ storer ttl time earlier,
    LastStore state.log key storer entry.serialized ttl time earlier ∧
      entry.expires = time + ttl * second
  /-- A task about to store has ingested what it stores. -/
  storing : ∀ id key serialized ttl, state.tasks[id]? = some (.store key serialized ttl) →
    Provenance state.log id key serialized ttl
  /-- A task that knows its answer is about to write it, or has. -/
  answered : ∀ id data, Answered state.log id data →
    state.tasks[id]? = some (.respond data) ∨ .write id data ∈ state.log
  /-- A task writes to its client last. -/
  unwritten : ∀ id task, state.tasks[id]? = some task → task ≠ .closed →
    ∀ data, .write id data ∉ state.log
  /-- A task writes to its client once. -/
  once : ∀ id data data', .write id data ∈ state.log → .write id data' ∈ state.log → data = data'
  /-- Only accepted tasks act. -/
  bounded : ∀ event ∈ state.log, event.task < state.tasks.length

theorem LastStore.cons {log earlier : List Event} {key serialized : Text} {id : ℕ} {ttl time : ℤ}
    (last : LastStore log key id serialized ttl time earlier) {event : Event}
    (other : ¬ event.Stores key) : LastStore (event :: log) key id serialized ttl time earlier := by
  obtain ⟨later, rfl, none⟩ := last
  refine ⟨event :: later, rfl, fun recorded inside => ?_⟩
  rcases List.mem_cons.mp inside with rfl | before
  · exact other
  · exact none recorded before

theorem Provenance.cons {log : List Event} {key serialized : Text} {id : ℕ} {ttl : ℤ}
    (provenance : Provenance log id key serialized ttl) (event : Event) :
    Provenance (event :: log) id key serialized ttl := by
  obtain ⟨positive, clientIP, req, incoming, resp, ingested, facts⟩ := provenance
  exact ⟨positive, clientIP, req, incoming, resp, List.mem_cons_of_mem event ingested, facts⟩

/-- Only GET requests have a time to live. -/
theorem method_of_cacheTTL_pos {req : HTTPRequest} {resp : HTTPResponse}
    (positive : 0 < cacheTTL req resp) : req.method = ascii "GET" := by
  by_contra other
  rw [cacheTTL, if_pos (Or.inl other)] at positive
  exact absurd positive (by decide)

namespace Consistent

/-- A task that has not answered yet has no answer in the log. -/
theorem not_answered {state : State} (consistent : Consistent state) {id : ℕ} {task : Task}
    (at_id : state.tasks[id]? = some task) (unclosed : task ≠ .closed)
    (early : ∀ data, task ≠ .respond data) (data : Text) : ¬ Answered state.log id data := by
  intro answered
  rcases consistent.answered id data answered with pending | written
  · exact early data (Option.some.inj (at_id.symm.trans pending))
  · exact consistent.unwritten id task at_id unclosed data written

/-- The tasks after one of them has moved on. -/
theorem getElem?_set_at {tasks : List Task} {id : ℕ} {old task : Task}
    (at_id : tasks[id]? = some old) (other : ℕ) :
    (tasks.set id task)[other]? = if other = id then some task else tasks[other]? := by
  have inside := (List.getElem?_eq_some_iff.mp at_id).1
  rw [List.getElem?_set]
  by_cases same : other = id
  · subst same
    rw [if_pos rfl, if_pos inside, if_pos rfl]
  · rw [if_neg (Ne.symm same), if_neg same]

/-- A task moves on without a record. -/
theorem move {state : State} (consistent : Consistent state) {id : ℕ} {old task : Task}
    (at_id : state.tasks[id]? = some old) (unclosed : old ≠ .closed)
    (early : ∀ data, old ≠ .respond data)
    (storing : ∀ key serialized ttl, task ≠ .store key serialized ttl) :
    Consistent (state.move id task) := by
  refine
    { justified := consistent.justified
      cached := consistent.cached
      storing := fun other key serialized ttl at_other => ?_
      answered := fun other data answered => ?_
      unwritten := fun other found at_other open_ data => ?_
      once := consistent.once
      bounded := fun event inside => ?_ }
  · rw [State.tasks_move, getElem?_set_at (by exact at_id)] at at_other
    split at at_other
    · exact absurd (Option.some.inj at_other) (storing key serialized ttl)
    · exact consistent.storing other key serialized ttl at_other
  · rw [State.tasks_move, getElem?_set_at (by exact at_id)]
    split
    · rename_i same
      subst same
      exact absurd answered (consistent.not_answered at_id unclosed early data)
    · exact consistent.answered other data answered
  · rw [State.tasks_move, getElem?_set_at (by exact at_id)] at at_other
    split at at_other
    · rename_i same
      subst same
      exact consistent.unwritten other old at_id unclosed data
    · exact consistent.unwritten other found at_other open_ data
  · rw [State.tasks_move, List.length_set]
    exact consistent.bounded event inside

/-- A task moves on with a record, before it writes to its client. -/
theorem record {state : State} (consistent : Consistent state) {id : ℕ} {old task : Task}
    (at_id : state.tasks[id]? = some old) (unclosed : old ≠ .closed)
    (early : ∀ data, old ≠ .respond data) {event : Event} (own : event.task = id)
    (supported : Supported state.log event) (noWrite : ∀ data, event ≠ .write id data)
    (answer : ∀ data, event.answer = some data → task = .respond data)
    (storing : ∀ key serialized ttl, task = .store key serialized ttl →
      Provenance (event :: state.log) id key serialized ttl)
    {entries : HTTPCache}
    (cached : ∀ key entry, entries[key]? = some entry → ∃ storer ttl time earlier,
      LastStore (event :: state.log) key storer entry.serialized ttl time earlier ∧
        entry.expires = time + ttl * second) :
    Consistent (({ state with entries }.record event).move id task) := by
  have written {other : ℕ} {data : Text} (inside : .write other data ∈ event :: state.log) :
      .write other data ∈ state.log := by
    rcases List.mem_cons.mp inside with here | before
    · subst here
      obtain rfl : other = id := own
      exact absurd rfl (noWrite data)
    · exact before
  refine
    { justified := ⟨supported, consistent.justified⟩
      cached := cached
      storing := fun other key serialized ttl at_other => ?_
      answered := fun other data answered => ?_
      unwritten := fun other found at_other open_ data inside => ?_
      once := fun other data data' first second =>
        consistent.once other data data' (written first) (written second)
      bounded := fun recorded inside => ?_ }
  · rw [State.tasks_move, getElem?_set_at (by exact at_id)] at at_other
    split at at_other
    · rename_i same
      subst same
      exact storing key serialized ttl (Option.some.inj at_other)
    · exact (consistent.storing other key serialized ttl at_other).cons event
  · rw [State.tasks_move, getElem?_set_at (by exact at_id)]
    obtain ⟨recorded, inside, same, decided⟩ := answered
    rcases List.mem_cons.mp inside with rfl | before
    · rw [if_pos (same.symm.trans own), answer data decided]
      exact Or.inl rfl
    · split
      · rename_i here
        subst here
        exact absurd ⟨recorded, before, same, decided⟩
          (consistent.not_answered at_id unclosed early data)
      · rcases consistent.answered other data ⟨recorded, before, same, decided⟩ with pending | done
        · exact Or.inl pending
        · exact Or.inr (List.mem_cons_of_mem event done)
  · rw [State.tasks_move, getElem?_set_at (by exact at_id)] at at_other
    split at at_other
    · rename_i same
      subst same
      exact consistent.unwritten other old at_id unclosed data (written inside)
    · exact consistent.unwritten other found at_other open_ data (written inside)
  · rw [State.tasks_move, List.length_set]
    rcases List.mem_cons.mp inside with rfl | before
    · rw [own]
      exact (List.getElem?_eq_some_iff.mp at_id).1
    · exact consistent.bounded recorded before

/-- The cached entries when a record that stores nothing is added. -/
theorem cached_cons {state : State} (consistent : Consistent state) {event : Event}
    (noStore : ∀ key, ¬ event.Stores key) {key : Text} {entry : Entry}
    (found : state.entries[key]? = some entry) : ∃ storer ttl time earlier,
      LastStore (event :: state.log) key storer entry.serialized ttl time earlier ∧
        entry.expires = time + ttl * second := by
  obtain ⟨storer, ttl, time, earlier, last, expires⟩ := consistent.cached key entry found
  exact ⟨storer, ttl, time, earlier, last.cons (noStore key), expires⟩

/-- The last write of a task. -/
theorem respond {state : State} (consistent : Consistent state) {id : ℕ} {data : Text}
    (at_id : state.tasks[id]? = some (.respond data)) :
    Consistent ((state.record (.write id data)).move id .closed) := by
  have noStore (key : Text) : ¬ (Event.write id data).Stores key := not_false
  have noneYet := consistent.unwritten id (.respond data) at_id (by simp)
  have written {other : ℕ} {data' : Text}
      (inside : .write other data' ∈ Event.write id data :: state.log) :
      other = id ∧ data' = data ∨ .write other data' ∈ state.log := by
    rcases List.mem_cons.mp inside with here | before
    · exact Or.inl (Event.write.inj here)
    · exact Or.inr before
  refine
    { justified := ⟨trivial, consistent.justified⟩
      cached := fun key entry found => consistent.cached_cons noStore found
      storing := fun other key serialized ttl at_other => ?_
      answered := fun other data' answered => ?_
      unwritten := fun other found at_other open_ data' inside => ?_
      once := fun other first second inside inside' => ?_
      bounded := fun recorded inside => ?_ }
  · rw [State.tasks_move, getElem?_set_at (by exact at_id)] at at_other
    split at at_other
    · cases at_other
    · exact (consistent.storing other key serialized ttl at_other).cons _
  · rw [State.tasks_move, getElem?_set_at (by exact at_id)]
    obtain ⟨recorded, inside, same, decided⟩ := answered
    rcases List.mem_cons.mp inside with rfl | before
    · cases decided
    · rcases consistent.answered other data' ⟨recorded, before, same, decided⟩ with pending | done
      · split
        · rename_i here
          subst here
          obtain rfl := Task.respond.inj (Option.some.inj (at_id.symm.trans pending))
          exact Or.inr List.mem_cons_self
        · exact Or.inl pending
      · exact Or.inr (List.mem_cons_of_mem _ done)
  · rw [State.tasks_move, getElem?_set_at (by exact at_id)] at at_other
    split at at_other
    · exact open_ (Option.some.inj at_other).symm
    · rename_i apart
      rcases written inside with ⟨same, _⟩ | before
      · exact apart same
      · exact consistent.unwritten other found at_other open_ data' before
  · rcases written inside with ⟨rfl, rfl⟩ | before
    · rcases written inside' with ⟨_, rfl⟩ | before'
      · rfl
      · exact absurd before' (noneYet second)
    · rcases written inside' with ⟨rfl, rfl⟩ | before'
      · exact absurd before (noneYet first)
      · exact consistent.once other first second before before'
  · rw [State.tasks_move, List.length_set]
    rcases List.mem_cons.mp inside with rfl | before
    · exact (List.getElem?_eq_some_iff.mp at_id).1
    · exact consistent.bounded recorded before

/-! ## The steps -/

theorem parseStep {state : State} (consistent : Consistent state) (blocks : Text → Bool) {id : ℕ}
    {clientIP : Text} {incoming : List Chunk}
    (at_id : state.tasks[id]? = some (.accepted clientIP incoming)) :
    Consistent (Proxy.parseStep blocks state id clientIP incoming) := by
  have moved {task : Task} (storing : ∀ key serialized ttl, task ≠ .store key serialized ttl) :
      Consistent (state.move id task) :=
    consistent.move at_id (by simp) (by simp) storing
  rw [Proxy.parseStep]
  split
  · exact moved (by simp)
  · split_ifs <;> exact moved (by simp)

theorem lookupStep {state : State} (consistent : Consistent state) {id : ℕ} {clientIP : Text}
    {req : HTTPRequest} (at_id : state.tasks[id]? = some (.lookup clientIP req)) :
    Consistent (Proxy.lookupStep state id clientIP req) := by
  have noStore (result : Option Text) (key : Text) :
      ¬ (Event.lookup id (cacheKey req) state.now result).Stores key := not_false
  rw [Proxy.lookupStep, HTTPCache.lookup]
  cases found : state.entries[cacheKey req]? with
  | none =>
      simp only
      exact consistent.record at_id (by simp) (by simp) rfl (by exact trivial) (by simp)
        (by simp [Event.answer]) (by simp)
        fun key entry found => consistent.cached_cons (noStore none) found
  | some entry =>
      by_cases expired : entry.expires ≤ state.now
      · simp only [expired, if_true]
        refine consistent.record at_id (by simp) (by simp) rfl (by exact trivial) (by simp)
          (by simp [Event.answer]) (by simp) fun key entry found => ?_
        rw [Std.TreeMap.getElem?_erase] at found
        split at found
        · cases found
        · exact consistent.cached_cons (noStore none) found
      · simp only [expired, if_false]
        refine consistent.record at_id (by simp) (by simp) rfl ?_ (by simp)
          (by simp [Event.answer]) (by simp)
          fun key entry found => consistent.cached_cons (noStore _) found
        obtain ⟨storer, ttl, time, earlier, last, expires⟩ :=
          consistent.cached (cacheKey req) entry found
        refine ⟨storer, ttl, time, earlier, ?_, last, by omega⟩
        rintro rfl
        refine consistent.not_answered at_id (by simp) (by simp) entry.serialized
          ⟨.store storer (cacheKey req) entry.serialized ttl time, ?_, rfl, rfl⟩
        obtain ⟨later, log, _⟩ := last
        rw [log]
        exact List.mem_append_right later List.mem_cons_self

theorem connectStep {state : State} (consistent : Consistent state) {id : ℕ} {clientIP : Text}
    {req : HTTPRequest} (at_id : state.tasks[id]? = some (.connect clientIP req))
    (outcome : Connection) : Consistent (Proxy.connectStep state id clientIP req outcome) := by
  cases outcome with
  | unreachable => exact consistent.move at_id (by simp) (by simp) (by simp)
  | writeFailed => exact consistent.move at_id (by simp) (by simp) (by simp)
  | sent =>
      have noStore (key : Text) :
          ¬ (Event.forward id (req.prepare clientIP).serialize).Stores key := not_false
      exact consistent.record at_id (by simp) (by simp) rfl (by exact trivial) (by simp)
        (by simp [Event.answer]) (by simp) fun key entry found =>
          consistent.cached_cons noStore found

theorem receiveStep {state : State} (consistent : Consistent state) {id : ℕ} {clientIP : Text}
    {req : HTTPRequest} (at_id : state.tasks[id]? = some (.receive clientIP req))
    (incoming : List Chunk) : Consistent (Proxy.receiveStep state id clientIP req incoming) := by
  have noStore (key : Text) : ¬ (Event.ingest id clientIP req
      (HTTPResponse.initial.ingestFrom ⟨[], incoming⟩).1).Stores key := not_false
  have kept (key : Text) (entry : Entry) (found : state.entries[key]? = some entry) :=
    consistent.cached_cons noStore found
  simp only [Proxy.receiveStep]
  split
  · rename_i positive
    refine consistent.record at_id (by simp) (by simp) rfl (by exact trivial) (by simp)
      (by simp [Event.answer]) (fun key serialized ttl here => ?_) kept
    obtain ⟨rfl, rfl, rfl⟩ := Task.store.inj here
    exact ⟨positive, clientIP, req, incoming, _, List.mem_cons_self, rfl,
      method_of_cacheTTL_pos positive, rfl, rfl, rfl⟩
  · exact consistent.record at_id (by simp) (by simp) rfl (by exact trivial) (by simp)
      (by simp [Event.answer]) (by simp) kept

theorem storeStep {state : State} (consistent : Consistent state) {id : ℕ} {key serialized : Text}
    {ttl : ℤ} (at_id : state.tasks[id]? = some (.store key serialized ttl)) :
    Consistent (Proxy.storeStep state id key serialized ttl) := by
  have provenance := consistent.storing id key serialized ttl at_id
  refine consistent.record at_id (by simp) (by simp) rfl (by exact provenance) (by simp)
    (by simp [Event.answer]) (by simp) fun other entry found => ?_
  rw [HTTPCache.store, Std.TreeMap.getElem?_insert] at found
  split at found
  · rename_i same
    obtain rfl := Std.LawfulEqCmp.eq_of_compare same
    obtain rfl := Option.some.inj found
    exact ⟨id, ttl, state.now, state.log, ⟨[], rfl, List.forall_mem_nil _⟩, rfl⟩
  · rename_i apart
    obtain ⟨storer, ttl', time, earlier, last, expires⟩ := consistent.cached other entry found
    refine ⟨storer, ttl', time, earlier, last.cons fun stores => apart ?_, expires⟩
    have stores : key = other := stores
    rw [stores]
    exact Std.ReflCmp.compare_self

theorem accept {state : State} (consistent : Consistent state) (clientIP : Text)
    (incoming : List Chunk) :
    Consistent { state with tasks := state.tasks ++ [.accepted clientIP incoming] } := by
  have old {id : ℕ} {task : Task}
      (at_id : (state.tasks ++ [.accepted clientIP incoming])[id]? = some task) :
      state.tasks[id]? = some task ∨
        id = state.tasks.length ∧ task = .accepted clientIP incoming := by
    rw [List.getElem?_append] at at_id
    split at at_id
    · exact Or.inl at_id
    · obtain ⟨inside, here⟩ := List.getElem?_eq_some_iff.mp at_id
      rw [List.length_singleton] at inside
      refine Or.inr ⟨by omega, ?_⟩
      rw [← here]
      simp
  refine
    { consistent with
      storing := fun id key serialized ttl at_id => ?_
      answered := fun id data answered => ?_
      unwritten := fun id task at_id unclosed data inside => ?_
      bounded := fun event inside => ?_ }
  · rcases old at_id with at_id | ⟨_, fresh⟩
    · exact consistent.storing id key serialized ttl at_id
    · cases fresh
  · rcases consistent.answered id data answered with pending | written
    · exact Or.inl (List.getElem?_append_left (List.getElem?_eq_some_iff.mp pending).1 ▸ pending)
    · exact Or.inr written
  · rcases old at_id with at_id | ⟨rfl, _⟩
    · exact consistent.unwritten id task at_id unclosed data inside
    · exact absurd (consistent.bounded _ inside) (Nat.lt_irrefl _)
  · rw [List.length_append]
    exact Nat.lt_add_right 1 (consistent.bounded event inside)

/-- Every step of the proxy keeps the cache and the tasks consistent with the log. -/
theorem step {blocks : Text → Bool} {state next : State} (consistent : Consistent state)
    {action : Action} (stepped : Proxy.step blocks state action = some next) : Consistent next := by
  cases move_of_step stepped with
  | accept clientIP incoming => exact consistent.accept clientIP incoming
  | tick elapsed => exact { consistent with }
  | parse at_id => exact consistent.parseStep blocks at_id
  | lookup at_id => exact consistent.lookupStep at_id
  | store at_id => exact consistent.storeStep at_id
  | respond at_id => exact consistent.respond at_id
  | connect outcome at_id => exact consistent.connectStep at_id outcome
  | receive incoming at_id => exact consistent.receiveStep at_id incoming

end Consistent

theorem consistent_of_start {blocks : Text → Bool} {state : State}
    (start : (machine blocks).start state) : Consistent state := by
  obtain ⟨entries, tasks, log⟩ := start
  have noEvent (event : Event) : event ∉ state.log := by
    rw [log]
    exact List.not_mem_nil
  have noTask (id : ℕ) (task : Task) : state.tasks[id]? ≠ some task := by
    rw [tasks]
    simp
  refine
    { justified := by rw [log]; trivial
      cached := fun key entry found => ?_
      storing := fun id key serialized ttl at_id => absurd at_id (noTask id _)
      answered := fun id data ⟨event, inside, _⟩ => absurd inside (noEvent event)
      unwritten := fun id task at_id _ _ => absurd at_id (noTask id task)
      once := fun id data data' inside _ => absurd inside (noEvent _)
      bounded := fun event inside => absurd inside (noEvent event) }
  rw [entries, Std.TreeMap.getElem?_emptyc] at found
  cases found

/-- The cache and the tasks agree with the log in every reachable state. -/
theorem consistent_of_reachable {blocks : Text → Bool} {state : State}
    (reach : (machine blocks).Reachable .free state) : Consistent state := by
  refine reach.invariant Consistent (fun state start => consistent_of_start start)
    fun _ _ _ consistent _ stepped => consistent.step stepped

/-- The only bytes that the task hands to `writeAll` for its client, now or later. -/
def WritesOnly (state : State) (id : ℕ) (data : Text) : Prop :=
  (∀ other, .write id other ∈ state.log → other = data) ∧
    (state.tasks[id]? = some (.respond data) ∨ .write id data ∈ state.log)

theorem Consistent.writesOnly {state : State} (consistent : Consistent state) {id : ℕ}
    {data : Text} (answered : Answered state.log id data) : WritesOnly state id data := by
  have pendingOrDone := consistent.answered id data answered
  refine ⟨fun other written => ?_, pendingOrDone⟩
  rcases pendingOrDone with pending | done
  · exact absurd written (consistent.unwritten id _ pending (by simp) other)
  · exact consistent.once id other data written done

/-- A hit is justified and fresh: `before` is the log at the lookup. -/
def FreshHit (state : State) (id : ℕ) (key : Text) (now : ℤ) (cached : Text)
    (before : List Event) : Prop :=
  ∃ storer ttl time earlier, storer ≠ id ∧ LastStore before key storer cached ttl time earlier ∧
    Provenance earlier storer key cached ttl ∧ now < time + ttl * second ∧
      WritesOnly state id cached ∧ WritesOnly state storer cached

/-- Cache hits are justified and fresh. -/
theorem hits_are_fresh {blocks : Text → Bool} {state : State}
    (reach : (machine blocks).Reachable .free state) {id : ℕ} {key : Text} {now : ℤ}
    {cached : Text} {before : List Event}
    (hit : .lookup id key now (some cached) :: before <:+ state.log) :
    FreshHit state id key now cached before := by
  have consistent := consistent_of_reachable reach
  obtain ⟨storer, ttl, time, earlier, other, last, fresh⟩ := consistent.justified.of_suffix hit
  have stored : .store storer key cached ttl time :: earlier <:+ before := by
    obtain ⟨later, log, _⟩ := last
    exact ⟨later, log.symm⟩
  have inside := stored.trans ((List.suffix_cons _ before).trans hit)
  refine ⟨storer, ttl, time, earlier, other, last, consistent.justified.of_suffix inside, fresh,
    consistent.writesOnly ⟨_, hit.subset List.mem_cons_self, rfl, rfl⟩,
    consistent.writesOnly ⟨_, inside.subset List.mem_cons_self, rfl, rfl⟩⟩

/-- A request and a response that may be cached for five seconds. -/
def cacheableGet : List Chunk := [⟨ascii "GET http://h/ HTTP/1.0\r\n\r\n", by decide +kernel⟩]

@[inherit_doc cacheableGet]
def cacheableResponse : List Chunk :=
  [⟨ascii "HTTP/1.0 200 OK\r\nCache-Control: max-age=5\r\n\r\nhi", by decide +kernel⟩]

/-- Two clients ask for one page, the second a second after the first got it. -/
def repeatedGet : List Action :=
  [.accept (ascii "1.2.3.4") cacheableGet, .run 0, .run 0, .connect 0 .sent,
    .receive 0 cacheableResponse, .run 0, .tick (10 ^ 9),
    .accept (ascii "1.2.3.5") cacheableGet, .run 1, .run 1]

/-- The proxy after the second lookup, before either client has its answer. -/
def afterRepeatedGet : State :=
  ((machine fun _ => false).exec .free ⟨0, ∅, [], []⟩ repeatedGet).get (by decide +kernel)

theorem hits_are_fresh_repeatedGet :
    FreshHit afterRepeatedGet 1 (ascii "GET h:80/") (10 ^ 9)
      (ascii "HTTP/1.0 200 OK\r\nCache-Control: max-age=5\r\n\r\nhi")
      afterRepeatedGet.log.tail := by
  have start : (machine fun _ => false).start ⟨0, ∅, [], []⟩ := ⟨rfl, rfl, rfl⟩
  have reach : (machine fun _ => false).Reachable .free afterRepeatedGet :=
    .of_exec start repeatedGet (by decide +kernel)
  apply hits_are_fresh reach
  rw [List.cons_head?_tail (by decide +kernel)]

end Proxy
end Syscore
