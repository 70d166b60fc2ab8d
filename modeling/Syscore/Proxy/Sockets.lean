import Syscore.Library.Descriptors
import Syscore.Proxy.Service

/-!
# Sockets of the proxy

`serviceConnection` down to the descriptors of its sockets: the table that all tasks share hands the
number of a closed descriptor to the next task that asks, `createClientSocket` tries one address
after the other, `writeAll` writes in pieces, and every call names a descriptor by its number. What
a task does between its calls is as in `Proxy.step`.
-/

namespace Syscore
namespace Proxy

/-- What a descriptor of the proxy refers to: a file that was open before, or a socket of a task. -/
inductive File where
  | other (number : ℕ)
  | client (task : ℕ)
  | origin (task : ℕ)
  deriving DecidableEq

/-- What `serviceConnection` does once it is done with the origin. -/
inductive Reply where
  | store (key serialized : Text) (ttl : ℤ)
  | respond (data : Text)
  deriving DecidableEq

/-- Where a task of `serviceConnection` stands, with the descriptors that its variables hold. -/
inductive Position where
  /-- Before `req.parse`. -/
  | accepted (clientfd : ℕ) (clientIP : Text)
  /-- Before `cache.lookup`. -/
  | lookup (clientfd : ℕ) (clientIP : Text) (req : HTTPRequest)
  /-- Before `getaddrinfo`. -/
  | resolve (clientfd : ℕ) (clientIP : Text) (req : HTTPRequest)
  /-- At the head of the loop over the addresses. -/
  | dial (clientfd : ℕ) (clientIP : Text) (req : HTTPRequest) (left : ℕ)
  /-- Before `connect`. -/
  | connecting (clientfd originfd : ℕ) (clientIP : Text) (req : HTTPRequest) (left : ℕ)
  /-- After a `connect` that failed. -/
  | refused (clientfd originfd : ℕ) (clientIP : Text) (req : HTTPRequest) (left : ℕ)
  /-- In `writeAll` to the origin. -/
  | forward (clientfd originfd : ℕ) (clientIP : Text) (req : HTTPRequest) (sent : ℕ)
  /-- Before `ingestFrom`. -/
  | receive (clientfd originfd : ℕ) (clientIP : Text) (req : HTTPRequest)
  /-- Before `close(originfd)`. -/
  | hangUp (clientfd originfd : ℕ) (reply : Reply)
  /-- Before `cache.store`. -/
  | store (clientfd : ℕ) (key serialized : Text) (ttl : ℤ)
  /-- In `writeAll` to the client. -/
  | respond (clientfd : ℕ) (data : Text) (sent : ℕ)
  /-- Before `close(clientfd)`. -/
  | finish (clientfd : ℕ)
  | closed
  deriving DecidableEq

/-- The descriptors that a task holds, and what they have to refer to. -/
def Position.held (id : ℕ) : Position → List (ℕ × File)
  | .accepted clientfd _ | .lookup clientfd _ _ | .resolve clientfd _ _ | .dial clientfd _ _ _
  | .store clientfd _ _ _ | .respond clientfd _ _ | .finish clientfd => [(clientfd, .client id)]
  | .connecting clientfd originfd _ _ _ | .refused clientfd originfd _ _ _
  | .forward clientfd originfd _ _ _ | .receive clientfd originfd _ _
  | .hangUp clientfd originfd _ => [(clientfd, .client id), (originfd, .origin id)]
  | .closed => []

/-- The tasks with their sockets. -/
structure Sockets where
  now : ℤ
  entries : HTTPCache
  tasks : List Position
  /-- What the client of each task sends. -/
  streams : ℕ → List Chunk
  table : Descriptors File
  /-- The bytes that were written to each file. -/
  written : File → Text
  log : List Event
  /-- The tasks whose response was not written to its end. -/
  cut : List ℕ
  /-- Some call was handed a descriptor that is not open. -/
  badf : Bool
  /-- A write to a socket whose other side is gone raised `SIGPIPE`, which nothing handles. -/
  killed : Bool

/-- How a call of `write` ends. -/
inductive Written where
  | bytes (count : ℕ)
  | failed
  | sigpipe

/-- The steps, with what the environment decides. -/
inductive SocketAction where
  | accept (clientIP : Text) (incoming : List Chunk)
  | tick (elapsed : ℕ)
  /-- A task goes on to its next call. -/
  | run (task : ℕ)
  /-- `getaddrinfo` fails, or finds so many addresses. -/
  | resolve (task : ℕ) (addresses : Option ℕ)
  | socket (task : ℕ) (opened : Bool)
  | connect (task : ℕ) (accepted : Bool)
  | write (task : ℕ) (result : Written)
  /-- The origin delivers these chunks and closes the connection. -/
  | receive (task : ℕ) (incoming : List Chunk)

/-- Where a task goes on with what it replies. -/
def Reply.position (clientfd : ℕ) : Reply → Position
  | .store key serialized ttl => .store clientfd key serialized ttl
  | .respond data => .respond clientfd data 0

namespace Sockets

/-! ## Calls -/

/-- A task moves on. -/
def put (state : Sockets) (id : ℕ) (position : Position) : Sockets :=
  { state with tasks := state.tasks.set id position }

/-- A call is handed a descriptor. -/
def check (state : Sockets) (fd : ℕ) : Sockets :=
  { state with badf := state.badf || (state.table.get fd).isNone }

/-- `close`. -/
def close (state : Sockets) (fd : ℕ) : Sockets :=
  let state := state.check fd
  { state with table := state.table.close fd }

/-- The bytes of a `write` reach the file that the descriptor refers to. -/
def deliver (state : Sockets) (fd : ℕ) (bytes : Text) : Sockets :=
  let state := state.check fd
  match state.table.get fd with
  | none => state
  | some file =>
      { state with written := Function.update state.written file (state.written file ++ bytes) }

/-- What is read through a descriptor before the task writes. -/
def incoming (state : Sockets) (fd : ℕ) : List Chunk :=
  match state.table.get fd with
  | some (.client id) => state.streams id
  | _ => []

/-- An event is recorded. -/
def record (state : Sockets) (event : Event) : Sockets := { state with log := event :: state.log }

section Steps

-- `blocklist.blocks`, for the patterns that were loaded
variable (blocks : Text → Bool)

/-- From `req.parse` to the cache or the origin. -/
def parseStep (state : Sockets) (id clientfd : ℕ) (clientIP : Text) : Sockets :=
  let state := state.check clientfd
  match HTTPRequest.parse ⟨[], state.incoming clientfd⟩ with
  | none => state.put id (.finish clientfd)
  | some (req, _) =>
      if req.target.host = [] then
        state.put id (.finish clientfd)
      else if blocks req.target.host then
        state.put id (.respond clientfd forbidden 0)
      else if req.method = ascii "GET" then
        state.put id (.lookup clientfd clientIP req)
      else
        state.put id (.resolve clientfd clientIP req)

/-- `cache.lookup`. -/
def lookupStep (state : Sockets) (id clientfd : ℕ) (clientIP : Text) (req : HTTPRequest) :
    Sockets :=
  let key := cacheKey req
  let (cached, entries) := state.entries.lookup key state.now
  let state := { state with entries }.record (.lookup id key state.now cached)
  match cached with
  | some cached => state.put id (.respond clientfd cached 0)
  | none => state.put id (.resolve clientfd clientIP req)

/-- `ingestFrom` and `cacheTTL`. -/
def receiveStep (state : Sockets) (id clientfd originfd : ℕ) (clientIP : Text) (req : HTTPRequest)
    (incoming : List Chunk) : Sockets :=
  let state := state.check originfd
  let (resp, _) := HTTPResponse.initial.ingestFrom ⟨[], incoming⟩
  let state := state.record (.ingest id clientIP req resp)
  let ttl := cacheTTL (req.prepare clientIP) resp
  if 0 < ttl then
    state.put id (.hangUp clientfd originfd (.store (cacheKey req) resp.serialize ttl))
  else
    state.put id (.hangUp clientfd originfd (.respond resp.serialize))

/-- `cache.store`. -/
def storeStep (state : Sockets) (id clientfd : ℕ) (key serialized : Text) (ttl : ℤ) : Sockets :=
  let entries := state.entries.store key serialized ttl state.now
  ({ state with entries }.record (.store id key serialized ttl state.now)).put id
    (.respond clientfd serialized 0)

/-- `writeAll` to the client has returned. -/
def answered (state : Sockets) (id clientfd : ℕ) (data : Text) : Sockets :=
  (state.record (.write id data)).put id (.finish clientfd)

/-- The steps of a task that the environment has no part in. -/
def runStep (state : Sockets) (id : ℕ) : Position → Option Sockets
  | .accepted clientfd clientIP => some (state.parseStep blocks id clientfd clientIP)
  | .lookup clientfd clientIP req => some (state.lookupStep id clientfd clientIP req)
  | .dial clientfd _ _ 0 => some (state.put id (.respond clientfd originUnreachable 0))
  | .refused clientfd originfd clientIP req left =>
      some ((state.close originfd).put id (.dial clientfd clientIP req left))
  | .forward clientfd originfd clientIP req sent =>
      if sent < (req.prepare clientIP).serialize.length then
        none
      else
        some ((state.record (.forward id (req.prepare clientIP).serialize)).put id
          (.receive clientfd originfd clientIP req))
  | .hangUp clientfd originfd reply =>
      some ((state.close originfd).put id (reply.position clientfd))
  | .store clientfd key serialized ttl => some (state.storeStep id clientfd key serialized ttl)
  | .respond clientfd data sent =>
      if sent < data.length then none else some (state.answered id clientfd data)
  | .finish clientfd => some ((state.close clientfd).put id .closed)
  | _ => none

/-- One call of `write` in `writeAll`. -/
def writeStep (state : Sockets) (id : ℕ) : Position → Written → Option Sockets
  | .forward clientfd originfd clientIP req sent, result =>
      let data := (req.prepare clientIP).serialize
      if data.length ≤ sent then
        none
      else
        match result with
        | .bytes count =>
            if 0 < count ∧ sent + count ≤ data.length then
              some ((state.deliver originfd ((data.drop sent).take count)).put id
                (.forward clientfd originfd clientIP req (sent + count)))
            else
              none
        | .failed =>
            some ((state.check originfd).put id
              (.hangUp clientfd originfd (.respond originWriteFailed)))
        | .sigpipe => some { state.check originfd with killed := true }
  | .respond clientfd data sent, result =>
      if data.length ≤ sent then
        none
      else
        match result with
        | .bytes count =>
            if 0 < count ∧ sent + count ≤ data.length then
              some ((state.deliver clientfd ((data.drop sent).take count)).put id
                (.respond clientfd data (sent + count)))
            else
              none
        | .failed =>
            let state := state.check clientfd
            some ({ state with cut := id :: state.cut }.answered id clientfd data)
        | .sigpipe => some { state.check clientfd with killed := true }
  | _, _ => none

/-- One step of the proxy. -/
def step (state : Sockets) (action : SocketAction) : Option Sockets :=
  if state.killed then
    none
  else
    match action with
    | .accept clientIP incoming =>
        let id := state.tasks.length
        let (clientfd, table) := state.table.openFile (.client id)
        some { state with
          table, streams := Function.update state.streams id incoming
          tasks := state.tasks ++ [.accepted clientfd clientIP] }
    | .tick elapsed => some { state with now := state.now + elapsed }
    | .run id => state.tasks[id]?.bind fun position => state.runStep blocks id position
    | .resolve id addresses =>
        match state.tasks[id]? with
        | some (.resolve clientfd clientIP req) =>
            match addresses with
            | none => some (state.put id (.respond clientfd originUnreachable 0))
            | some left => some (state.put id (.dial clientfd clientIP req left))
        | _ => none
    | .socket id opened =>
        match state.tasks[id]? with
        | some (.dial clientfd clientIP req (left + 1)) =>
            if opened then
              let (originfd, table) := state.table.openFile (.origin id)
              some ({ state with table }.put id (.connecting clientfd originfd clientIP req left))
            else
              some (state.put id (.dial clientfd clientIP req left))
        | _ => none
    | .connect id accepted =>
        match state.tasks[id]? with
        | some (.connecting clientfd originfd clientIP req left) =>
            let state := state.check originfd
            if accepted then
              some (state.put id (.forward clientfd originfd clientIP req 0))
            else
              some (state.put id (.refused clientfd originfd clientIP req left))
        | _ => none
    | .write id result => state.tasks[id]?.bind fun position => state.writeStep id position result
    | .receive id incoming =>
        match state.tasks[id]? with
        | some (.receive clientfd originfd clientIP req) =>
            some (state.receiveStep id clientfd originfd clientIP req incoming)
        | _ => none

end Steps

/-! ## Moves -/

/-- What one step does, for each call of a task. -/
inductive Move (blocks : Text → Bool) (state : Sockets) : Sockets → Prop
  | accept (clientIP : Text) (incoming : List Chunk) :
      Move blocks state
        { state with
          table := (state.table.openFile (.client state.tasks.length)).2
          streams := Function.update state.streams state.tasks.length incoming
          tasks := state.tasks ++ [.accepted state.table.lowest clientIP] }
  | tick (elapsed : ℕ) : Move blocks state { state with now := state.now + elapsed }
  | parse {id clientfd : ℕ} {clientIP : Text}
      (here : state.tasks[id]? = some (.accepted clientfd clientIP)) :
      Move blocks state (state.parseStep blocks id clientfd clientIP)
  | lookup {id clientfd : ℕ} {clientIP : Text} {req : HTTPRequest}
      (here : state.tasks[id]? = some (.lookup clientfd clientIP req)) :
      Move blocks state (state.lookupStep id clientfd clientIP req)
  | unresolved {id clientfd : ℕ} {clientIP : Text} {req : HTTPRequest}
      (here : state.tasks[id]? = some (.resolve clientfd clientIP req)) :
      Move blocks state (state.put id (.respond clientfd originUnreachable 0))
  | resolved {id clientfd : ℕ} {clientIP : Text} {req : HTTPRequest} (left : ℕ)
      (here : state.tasks[id]? = some (.resolve clientfd clientIP req)) :
      Move blocks state (state.put id (.dial clientfd clientIP req left))
  | exhausted {id clientfd : ℕ} {clientIP : Text} {req : HTTPRequest}
      (here : state.tasks[id]? = some (.dial clientfd clientIP req 0)) :
      Move blocks state (state.put id (.respond clientfd originUnreachable 0))
  | noSocket {id clientfd : ℕ} {clientIP : Text} {req : HTTPRequest} {left : ℕ}
      (here : state.tasks[id]? = some (.dial clientfd clientIP req (left + 1))) :
      Move blocks state (state.put id (.dial clientfd clientIP req left))
  | socket {id clientfd : ℕ} {clientIP : Text} {req : HTTPRequest} {left : ℕ}
      (here : state.tasks[id]? = some (.dial clientfd clientIP req (left + 1))) :
      Move blocks state
        ({ state with table := (state.table.openFile (.origin id)).2 }.put id
          (.connecting clientfd state.table.lowest clientIP req left))
  | connected {id clientfd originfd : ℕ} {clientIP : Text} {req : HTTPRequest} {left : ℕ}
      (here : state.tasks[id]? = some (.connecting clientfd originfd clientIP req left)) :
      Move blocks state
        ((state.check originfd).put id (.forward clientfd originfd clientIP req 0))
  | refused {id clientfd originfd : ℕ} {clientIP : Text} {req : HTTPRequest} {left : ℕ}
      (here : state.tasks[id]? = some (.connecting clientfd originfd clientIP req left)) :
      Move blocks state
        ((state.check originfd).put id (.refused clientfd originfd clientIP req left))
  | redials {id clientfd originfd : ℕ} {clientIP : Text} {req : HTTPRequest} {left : ℕ}
      (here : state.tasks[id]? = some (.refused clientfd originfd clientIP req left)) :
      Move blocks state ((state.close originfd).put id (.dial clientfd clientIP req left))
  | forwards {id clientfd originfd : ℕ} {clientIP : Text} {req : HTTPRequest} {sent count : ℕ}
      (here : state.tasks[id]? = some (.forward clientfd originfd clientIP req sent))
      (fits : sent + count ≤ (req.prepare clientIP).serialize.length) :
      Move blocks state
        ((state.deliver originfd (((req.prepare clientIP).serialize.drop sent).take count)).put id
          (.forward clientfd originfd clientIP req (sent + count)))
  | forwarded {id clientfd originfd : ℕ} {clientIP : Text} {req : HTTPRequest} {sent : ℕ}
      (here : state.tasks[id]? = some (.forward clientfd originfd clientIP req sent))
      (whole : (req.prepare clientIP).serialize.length ≤ sent) :
      Move blocks state
        ((state.record (.forward id (req.prepare clientIP).serialize)).put id
          (.receive clientfd originfd clientIP req))
  | forwardFails {id clientfd originfd : ℕ} {clientIP : Text} {req : HTTPRequest} {sent : ℕ}
      (here : state.tasks[id]? = some (.forward clientfd originfd clientIP req sent)) :
      Move blocks state
        ((state.check originfd).put id (.hangUp clientfd originfd (.respond originWriteFailed)))
  | receive {id clientfd originfd : ℕ} {clientIP : Text} {req : HTTPRequest}
      (incoming : List Chunk)
      (here : state.tasks[id]? = some (.receive clientfd originfd clientIP req)) :
      Move blocks state (state.receiveStep id clientfd originfd clientIP req incoming)
  | hangsUp {id clientfd originfd : ℕ} {reply : Reply}
      (here : state.tasks[id]? = some (.hangUp clientfd originfd reply)) :
      Move blocks state ((state.close originfd).put id (reply.position clientfd))
  | store {id clientfd : ℕ} {key serialized : Text} {ttl : ℤ}
      (here : state.tasks[id]? = some (.store clientfd key serialized ttl)) :
      Move blocks state (state.storeStep id clientfd key serialized ttl)
  | responds {id clientfd : ℕ} {data : Text} {sent count : ℕ}
      (here : state.tasks[id]? = some (.respond clientfd data sent))
      (fits : sent + count ≤ data.length) :
      Move blocks state
        ((state.deliver clientfd ((data.drop sent).take count)).put id
          (.respond clientfd data (sent + count)))
  | responded {id clientfd : ℕ} {data : Text} {sent : ℕ}
      (here : state.tasks[id]? = some (.respond clientfd data sent))
      (whole : data.length ≤ sent) : Move blocks state (state.answered id clientfd data)
  | respondFails {id clientfd : ℕ} {data : Text} {sent : ℕ}
      (here : state.tasks[id]? = some (.respond clientfd data sent)) :
      Move blocks state
        ({ state.check clientfd with cut := id :: state.cut }.answered id clientfd data)
  | killed {id fd : ℕ} {file : File} {position : Position}
      (here : state.tasks[id]? = some position) (held : (fd, file) ∈ position.held id) :
      Move blocks state { state.check fd with killed := true }
  | finish {id clientfd : ℕ} (here : state.tasks[id]? = some (.finish clientfd)) :
      Move blocks state ((state.close clientfd).put id .closed)

variable {blocks : Text → Bool} {state after : Sockets}

theorem move_of_runStep {id : ℕ} {position : Position} (here : state.tasks[id]? = some position)
    (taken : state.runStep blocks id position = some after) : Move blocks state after := by
  unfold runStep at taken
  split at taken
  · obtain rfl := Option.some.inj taken
    exact .parse here
  · obtain rfl := Option.some.inj taken
    exact .lookup here
  · obtain rfl := Option.some.inj taken
    exact .exhausted here
  · obtain rfl := Option.some.inj taken
    exact .redials here
  · split at taken
    · cases taken
    · rename_i whole
      obtain rfl := Option.some.inj taken
      exact .forwarded here (not_lt.mp whole)
  · obtain rfl := Option.some.inj taken
    exact .hangsUp here
  · obtain rfl := Option.some.inj taken
    exact .store here
  · split at taken
    · cases taken
    · rename_i whole
      obtain rfl := Option.some.inj taken
      exact .responded here (not_lt.mp whole)
  · obtain rfl := Option.some.inj taken
    exact .finish here
  · cases taken

theorem move_of_writeStep {id : ℕ} {position : Position} {result : Written}
    (here : state.tasks[id]? = some position)
    (taken : state.writeStep id position result = some after) : Move blocks state after := by
  unfold writeStep at taken
  split at taken
  · rename_i originfd _ _ _
    dsimp only at taken
    split at taken
    · cases taken
    · split at taken
      · split at taken
        · rename_i fits
          obtain rfl := Option.some.inj taken
          exact .forwards here fits.2
        · cases taken
      · obtain rfl := Option.some.inj taken
        exact .forwardFails here
      · obtain rfl := Option.some.inj taken
        exact .killed here (List.mem_cons_of_mem _ List.mem_cons_self)
  · split at taken
    · cases taken
    · split at taken
      · split at taken
        · rename_i fits
          obtain rfl := Option.some.inj taken
          exact .responds here fits.2
        · cases taken
      · obtain rfl := Option.some.inj taken
        exact .respondFails here
      · obtain rfl := Option.some.inj taken
        exact .killed here List.mem_cons_self
  · cases taken

theorem move_of_step {action : SocketAction} (taken : step blocks state action = some after) :
    Move blocks state after := by
  unfold step at taken
  split at taken
  · cases taken
  · cases action with
    | accept clientIP incoming =>
        obtain rfl := Option.some.inj taken
        exact .accept clientIP incoming
    | tick elapsed =>
        obtain rfl := Option.some.inj taken
        exact .tick elapsed
    | run id =>
        obtain ⟨position, here, taken⟩ := Option.bind_eq_some_iff.mp taken
        exact move_of_runStep here taken
    | resolve id addresses =>
        dsimp only at taken
        split at taken
        · rename_i here
          cases addresses with
          | none =>
              obtain rfl := Option.some.inj taken
              exact .unresolved here
          | some left =>
              obtain rfl := Option.some.inj taken
              exact .resolved left here
        · cases taken
    | socket id opened =>
        dsimp only at taken
        split at taken
        · rename_i here
          cases opened with
          | true =>
              obtain rfl := Option.some.inj taken
              exact .socket here
          | false =>
              obtain rfl := Option.some.inj taken
              exact .noSocket here
        · cases taken
    | connect id accepted =>
        dsimp only at taken
        split at taken
        · rename_i here
          cases accepted with
          | true =>
              obtain rfl := Option.some.inj taken
              exact .connected here
          | false =>
              obtain rfl := Option.some.inj taken
              exact .refused here
        · cases taken
    | write id result =>
        obtain ⟨position, here, taken⟩ := Option.bind_eq_some_iff.mp taken
        exact move_of_writeStep here taken
    | receive id incoming =>
        dsimp only at taken
        split at taken
        · rename_i here
          obtain rfl := Option.some.inj taken
          exact .receive incoming here
        · cases taken

end Sockets

/-- The proxy with its sockets: at first the descriptors of the base are open, on other files. -/
def socketMachine (blocks : Text → Bool) (base : Descriptors File) :
    Machine Sockets SocketAction where
  start state := state.entries = ∅ ∧ state.tasks = [] ∧ state.log = [] ∧ state.table = base ∧
    (∀ file, state.written file = []) ∧ state.cut = [] ∧ state.badf = false ∧ state.killed = false
  step := Sockets.step blocks

end Proxy
end Syscore
