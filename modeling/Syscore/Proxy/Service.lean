import Std.Data.TreeMap.Lemmas
import Syscore.Library.Interleaving
import Syscore.Proxy.Http

/-!
# Serving connections

`HTTPCache` and `serviceConnection` as a machine. A task steps from one access to what tasks share
to the next: the lock regions of the cache, its sockets, and the clock that a lock region reads. The
log records, newest first, what the tasks do.
-/

namespace Syscore
namespace Proxy

/-! ## The cache -/

/-- `HTTPCache::Entry`; time points are counted in nanoseconds of the steady clock. -/
structure Entry where
  serialized : Text
  expires : ℤ
  deriving DecidableEq

/-- `entries_`. -/
abbrev HTTPCache := Std.TreeMap Text Entry

/-- One second of the steady clock. -/
def second : ℤ := 10 ^ 9

/-- The lock region of `lookup`: an expired entry is erased. -/
def HTTPCache.lookup (cache : HTTPCache) (key : Text) (now : ℤ) : Option Text × HTTPCache :=
  match cache[key]? with
  | none => (none, cache)
  | some entry =>
      if entry.expires ≤ now then (none, cache.erase key) else (some entry.serialized, cache)

/-- The lock region of `store`. -/
def HTTPCache.store (cache : HTTPCache) (key serialized : Text) (ttlSeconds now : ℤ) : HTTPCache :=
  cache.insert key { serialized, expires := now + ttlSeconds * second }

/-! ## Helpers -/

/-- `cacheKey`. -/
def cacheKey (req : HTTPRequest) : Text :=
  req.method ++ [32] ++ req.target.host ++ ascii ":" ++ decimal req.target.port ++ req.target.path

/-- `cacheTTL`. -/
def cacheTTL (req : HTTPRequest) (resp : HTTPResponse) : ℤ :=
  if req.method ≠ ascii "GET" ∨ resp.code ≠ 200 then
    0
  else
    let cc := resp.headers.get (ascii "Cache-Control")
    if (find (ascii "no-store") cc).isSome ∨ (find (ascii "no-cache") cc).isSome ∨
        (find (ascii "private") cc).isSome then
      0
    else
      match find (ascii "max-age=") cc with
      | none => 0
      | some p =>
          let ttl := atoi (cc.drop (p + 8))
          if 0 < ttl then ttl else 0

/-- What `sendSimple` writes. -/
def sendSimple (code : ℤ) (reason body : Text) : Text :=
  let resp := HTTPResponse.initial.setStatus code reason
  let headers := resp.headers.add (ascii "Content-Type") (ascii "text/plain")
  let headers := headers.add (ascii "Connection") (ascii "close")
  ({ resp with headers }.setBody body).serialize

/-- The request that is forwarded. -/
def HTTPRequest.prepare (req : HTTPRequest) (clientIP : Text) : HTTPRequest :=
  let headers := req.headers.remove (ascii "Connection")
  let headers := headers.remove (ascii "Proxy-Connection")
  let headers := headers.add (ascii "Connection") (ascii "close")
  { req with headers := headers.add (ascii "x-forwarded-for") clientIP }

/-! ## Tasks -/

/-- Where a task of `serviceConnection` stands. -/
inductive Task where
  /-- The connection is accepted, and the client sends these chunks. -/
  | accepted (clientIP : Text) (incoming : List Chunk)
  /-- Before `cache.lookup`. -/
  | lookup (clientIP : Text) (req : HTTPRequest)
  /-- Before `createClientSocket`. -/
  | connect (clientIP : Text) (req : HTTPRequest)
  /-- The request is written to the origin. -/
  | receive (clientIP : Text) (req : HTTPRequest)
  /-- Before `cache.store`. -/
  | store (key serialized : Text) (ttl : ℤ)
  /-- Before the last `writeAll` to the client. -/
  | respond (data : Text)
  | closed
  deriving DecidableEq

/-- What a task does, as the log records it. -/
inductive Event where
  | lookup (task : ℕ) (key : Text) (now : ℤ) (result : Option Text)
  | forward (task : ℕ) (data : Text)
  /-- A response ingested for a request; `clientIP` went into the forwarded header. -/
  | ingest (task : ℕ) (clientIP : Text) (req : HTTPRequest) (resp : HTTPResponse)
  | store (task : ℕ) (key serialized : Text) (ttl now : ℤ)
  /-- The bytes that a task hands to `writeAll` for its client. -/
  | write (task : ℕ) (data : Text)
  deriving DecidableEq

/-- The tasks, the cache they share, the clock and the log. -/
structure State where
  now : ℤ
  entries : HTTPCache
  tasks : List Task
  log : List Event

/-- How the attempt to reach an origin ends. -/
inductive Connection where
  | unreachable
  | writeFailed
  | sent

/-- The steps: the environment accepts connections, lets time pass and answers for the origins. -/
inductive Action where
  | accept (clientIP : Text) (incoming : List Chunk)
  | tick (elapsed : ℕ)
  /-- A task takes a step that depends on nothing outside the proxy. -/
  | run (task : ℕ)
  | connect (task : ℕ) (outcome : Connection)
  /-- The origin delivers these chunks and closes the connection. -/
  | receive (task : ℕ) (incoming : List Chunk)

namespace State

/-- A task moves on. -/
def move (state : State) (id : ℕ) (task : Task) : State :=
  { state with tasks := state.tasks.set id task }

@[simp]
theorem tasks_move (state : State) (id : ℕ) (task : Task) :
    (state.move id task).tasks = state.tasks.set id task := rfl

/-- An event is recorded. -/
def record (state : State) (event : Event) : State := { state with log := event :: state.log }

end State

/-- The answer to a request for a blocked host. -/
def forbidden : Text :=
  sendSimple 403 (ascii "Forbidden") (ascii "Forbidden: host is blocked by the proxy.\n")

/-- The answer where `createClientSocket` fails. -/
def originUnreachable : Text :=
  sendSimple 502 (ascii "Bad Gateway") (ascii "Bad Gateway: could not reach origin.\n")

/-- The answer where `writeAll` to the origin fails. -/
def originWriteFailed : Text :=
  sendSimple 502 (ascii "Bad Gateway") (ascii "Bad Gateway: write to origin failed.\n")

section Steps

-- `blocklist.blocks`, for the patterns that were loaded
variable (blocks : Text → Bool)

/-- From `req.parse` to the cache or the origin. -/
def parseStep (state : State) (id : ℕ) (clientIP : Text) (incoming : List Chunk) : State :=
  match HTTPRequest.parse ⟨[], incoming⟩ with
  | none => state.move id .closed
  | some (req, _) =>
      if req.target.host = [] then
        state.move id .closed
      else if blocks req.target.host then
        state.move id (.respond forbidden)
      else if req.method = ascii "GET" then
        state.move id (.lookup clientIP req)
      else
        state.move id (.connect clientIP req)

/-- `cache.lookup`. -/
def lookupStep (state : State) (id : ℕ) (clientIP : Text) (req : HTTPRequest) : State :=
  let key := cacheKey req
  let (cached, entries) := state.entries.lookup key state.now
  let state := { state with entries }.record (.lookup id key state.now cached)
  match cached with
  | some cached => state.move id (.respond cached)
  | none => state.move id (.connect clientIP req)

/-- `createClientSocket` and `writeAll` to the origin. -/
def connectStep (state : State) (id : ℕ) (clientIP : Text) (req : HTTPRequest) :
    Connection → State
  | .unreachable => state.move id (.respond originUnreachable)
  | .writeFailed => state.move id (.respond originWriteFailed)
  | .sent =>
      (state.record (.forward id (req.prepare clientIP).serialize)).move id (.receive clientIP req)

/-- `ingestFrom` and `cacheTTL`; the key is that of the request before its headers changed. -/
def receiveStep (state : State) (id : ℕ) (clientIP : Text) (req : HTTPRequest)
    (incoming : List Chunk) : State :=
  let (resp, _) := HTTPResponse.initial.ingestFrom ⟨[], incoming⟩
  let state := state.record (.ingest id clientIP req resp)
  let ttl := cacheTTL (req.prepare clientIP) resp
  if 0 < ttl then
    state.move id (.store (cacheKey req) resp.serialize ttl)
  else
    state.move id (.respond resp.serialize)

/-- `cache.store`. -/
def storeStep (state : State) (id : ℕ) (key serialized : Text) (ttl : ℤ) : State :=
  let entries := state.entries.store key serialized ttl state.now
  ({ state with entries }.record (.store id key serialized ttl state.now)).move id
    (.respond serialized)

/-- One step of the proxy. -/
def step (state : State) : Action → Option State
  | .accept clientIP incoming =>
      some { state with tasks := state.tasks ++ [.accepted clientIP incoming] }
  | .tick elapsed => some { state with now := state.now + elapsed }
  | .run id =>
      match state.tasks[id]? with
      | some (.accepted clientIP incoming) => some (parseStep blocks state id clientIP incoming)
      | some (.lookup clientIP req) => some (lookupStep state id clientIP req)
      | some (.store key serialized ttl) => some (storeStep state id key serialized ttl)
      | some (.respond data) => some ((state.record (.write id data)).move id .closed)
      | _ => none
  | .connect id outcome =>
      match state.tasks[id]? with
      | some (.connect clientIP req) => some (connectStep state id clientIP req outcome)
      | _ => none
  | .receive id incoming =>
      match state.tasks[id]? with
      | some (.receive clientIP req) => some (receiveStep state id clientIP req incoming)
      | _ => none

/-- The proxy as a machine: it starts with an empty cache, at any time. -/
def machine : Machine State Action where
  start state := state.entries = ∅ ∧ state.tasks = [] ∧ state.log = []
  step := step blocks

/-- What one step does, for a task by what it is about to do. -/
inductive Move (state : State) : Action → State → Prop
  | accept (clientIP : Text) (incoming : List Chunk) : Move state (.accept clientIP incoming)
      { state with tasks := state.tasks ++ [.accepted clientIP incoming] }
  | tick (elapsed : ℕ) : Move state (.tick elapsed) { state with now := state.now + elapsed }
  | parse {id : ℕ} {clientIP : Text} {incoming : List Chunk}
      (at_id : state.tasks[id]? = some (.accepted clientIP incoming)) :
      Move state (.run id) (parseStep blocks state id clientIP incoming)
  | lookup {id : ℕ} {clientIP : Text} {req : HTTPRequest}
      (at_id : state.tasks[id]? = some (.lookup clientIP req)) :
      Move state (.run id) (lookupStep state id clientIP req)
  | store {id : ℕ} {key serialized : Text} {ttl : ℤ}
      (at_id : state.tasks[id]? = some (.store key serialized ttl)) :
      Move state (.run id) (storeStep state id key serialized ttl)
  | respond {id : ℕ} {data : Text} (at_id : state.tasks[id]? = some (.respond data)) :
      Move state (.run id) ((state.record (.write id data)).move id .closed)
  | connect {id : ℕ} {clientIP : Text} {req : HTTPRequest} (outcome : Connection)
      (at_id : state.tasks[id]? = some (.connect clientIP req)) :
      Move state (.connect id outcome) (connectStep state id clientIP req outcome)
  | receive {id : ℕ} {clientIP : Text} {req : HTTPRequest} (incoming : List Chunk)
      (at_id : state.tasks[id]? = some (.receive clientIP req)) :
      Move state (.receive id incoming) (receiveStep state id clientIP req incoming)

variable {blocks} {state next : State} {action : Action}

theorem move_of_step (stepped : step blocks state action = some next) :
    Move blocks state action next := by
  cases action with
  | accept clientIP incoming =>
      obtain rfl := Option.some.inj stepped
      exact .accept clientIP incoming
  | tick elapsed =>
      obtain rfl := Option.some.inj stepped
      exact .tick elapsed
  | run id =>
      simp only [step] at stepped
      split at stepped
      · rename_i at_id
        obtain rfl := Option.some.inj stepped
        exact .parse at_id
      · rename_i at_id
        obtain rfl := Option.some.inj stepped
        exact .lookup at_id
      · rename_i at_id
        obtain rfl := Option.some.inj stepped
        exact .store at_id
      · rename_i at_id
        obtain rfl := Option.some.inj stepped
        exact .respond at_id
      · cases stepped
  | connect id outcome =>
      simp only [step] at stepped
      split at stepped
      · rename_i at_id
        obtain rfl := Option.some.inj stepped
        exact .connect outcome at_id
      · cases stepped
  | receive id incoming =>
      simp only [step] at stepped
      split at stepped
      · rename_i at_id
        obtain rfl := Option.some.inj stepped
        exact .receive incoming at_id
      · cases stepped

end Steps

end Proxy
end Syscore
