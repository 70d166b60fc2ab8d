import Syscore.Library.Inevitable
import Syscore.Proxy.Delivery
import Syscore.ThreadPool.Work

/-!
# The proxy on its pool

`main` of the proxy accepts connections for ever and schedules each on a pool of 16 workers, whose
bodies are the tasks. What the tasks do is a run of the proxy with its sockets. A call that reads,
writes or connects waits until the other side has done its part: when no more connections come and
the other sides do theirs, every connection that was accepted is served and closed, and when they do
not, the workers are held in such calls.
-/

namespace Syscore
namespace Proxy

open ThreadPool (Ticket Call Parked)

/-! ## How far a task is -/

namespace Position

/-- What is ahead of a task, by the call it is at. -/
def phase : Position → ℕ
  | .accepted _ _ => 10
  | .lookup _ _ _ => 9
  | .resolve _ _ _ => 8
  | .dial _ _ _ _ | .connecting _ _ _ _ _ | .refused _ _ _ _ _ => 7
  | .forward _ _ _ _ _ => 6
  | .receive _ _ _ _ => 5
  | .hangUp _ _ _ => 4
  | .store _ _ _ _ => 3
  | .respond _ _ _ => 2
  | .finish _ => 1
  | .closed => 0

/-- How often a task can go round where it is: by address, or by piece of a write. -/
def rounds : Position → ℕ
  | .dial _ _ _ left => 3 * left
  | .refused _ _ _ _ left => 3 * left + 1
  | .connecting _ _ _ _ left => 3 * left + 2
  | .forward _ _ clientIP req sent => (req.prepare clientIP).serialize.length - sent
  | .respond _ data sent => data.length - sent
  | _ => 0

/-- Less is ahead. -/
def Below (next position : Position) : Prop :=
  next.phase < position.phase ∨ next.phase = position.phase ∧ next.rounds < position.rounds

/-- A worker has the task: it has begun and has not returned. -/
def inService : Position → Bool
  | .accepted _ _ | .closed => false
  | _ => true

/-- The call that the task is at waits for its client, the resolver or its origin. The calls of
`read` in one `parse` or `ingestFrom` are taken together. -/
def waits : Position → Bool
  | .accepted _ _ | .resolve _ _ _ | .connecting _ _ _ _ _ | .receive _ _ _ _ => true
  | .forward _ _ clientIP req sent => sent < (req.prepare clientIP).serialize.length
  | .respond _ data sent => sent < data.length
  | _ => false

end Position

/-- The task that an action is of. -/
def SocketAction.task : SocketAction → Option ℕ
  | .accept _ _ | .tick _ => none
  | .run id | .resolve id _ | .socket id _ | .connect id _ | .write id _ | .receive id _ => some id

/-- No write raises `SIGPIPE`. -/
def SocketAction.harmless : SocketAction → Bool
  | .write _ .sigpipe => false
  | _ => true

namespace Sockets

variable {blocks : Text → Bool} {state after : Sockets} {id : ℕ}

/-- A task takes a step: it moves on, or it raises `SIGPIPE`. -/
structure Advances (state : Sockets) (id : ℕ) (position : Position) (after : Sockets) : Prop where
  next : ∃ next : Position, next.Below position ∧ after.tasks = state.tasks.set id next
  killed : after.killed = state.killed

theorem tasks_deliver (state : Sockets) (fd : ℕ) (bytes : Text) :
    (state.deliver fd bytes).tasks = state.tasks ∧
      (state.deliver fd bytes).killed = state.killed := by
  rw [deliver]
  split
  · exact ⟨rfl, rfl⟩
  · exact ⟨rfl, rfl⟩

/-- A task moves on behind a piece of a write. -/
theorem advances_deliver (state : Sockets) (id fd : ℕ) (bytes : Text) {position next : Position}
    (below : next.Below position) :
    state.Advances id position ((state.deliver fd bytes).put id next) := by
  obtain ⟨tasks, killed⟩ := state.tasks_deliver fd bytes
  exact ⟨⟨next, below, by rw [put, tasks]⟩, killed⟩

theorem advances_parse (blocks : Text → Bool) (state : Sockets) (id clientfd : ℕ)
    (clientIP : Text) : state.Advances id (.accepted clientfd clientIP)
      (state.parseStep blocks id clientfd clientIP) := by
  have below {next : Position} (phase : next.phase < 10) :
      state.Advances id (.accepted clientfd clientIP) ((state.check clientfd).put id next) :=
    ⟨⟨next, .inl phase, rfl⟩, rfl⟩
  unfold parseStep
  dsimp only
  split
  · exact below (by simp [Position.phase])
  · split
    · exact below (by simp [Position.phase])
    · split
      · exact below (by simp [Position.phase])
      · split <;> exact below (by simp [Position.phase])

theorem advances_lookup (state : Sockets) (id clientfd : ℕ) (clientIP : Text) (req : HTTPRequest) :
    state.Advances id (.lookup clientfd clientIP req)
      (state.lookupStep id clientfd clientIP req) := by
  unfold lookupStep
  dsimp only
  split
  · exact ⟨⟨_, .inl (by simp [Position.phase]), rfl⟩, rfl⟩
  · exact ⟨⟨_, .inl (by simp [Position.phase]), rfl⟩, rfl⟩

theorem advances_receive (state : Sockets) (id clientfd originfd : ℕ) (clientIP : Text)
    (req : HTTPRequest) (incoming : List Chunk) :
    state.Advances id (.receive clientfd originfd clientIP req)
      (state.receiveStep id clientfd originfd clientIP req incoming) := by
  unfold receiveStep
  dsimp only
  split <;> exact ⟨⟨_, .inl (by simp [Position.phase]), rfl⟩, rfl⟩

theorem advances_run {position : Position} (taken : state.runStep blocks id position = some after) :
    state.Advances id position after := by
  unfold runStep at taken
  split at taken
  · obtain rfl := Option.some.inj taken
    exact advances_parse blocks state id _ _
  · obtain rfl := Option.some.inj taken
    exact advances_lookup state id _ _ _
  · obtain rfl := Option.some.inj taken
    exact ⟨⟨_, .inl (by simp [Position.phase]), rfl⟩, rfl⟩
  · obtain rfl := Option.some.inj taken
    refine ⟨⟨_, .inr ⟨?_, ?_⟩, rfl⟩, rfl⟩
    · rfl
    · exact Nat.lt_succ_self _
  · split at taken
    · cases taken
    · obtain rfl := Option.some.inj taken
      exact ⟨⟨_, .inl (by simp [Position.phase]), rfl⟩, rfl⟩
  · rename_i reply
    obtain rfl := Option.some.inj taken
    refine ⟨⟨_, .inl ?_, rfl⟩, rfl⟩
    cases reply <;> simp [Reply.position, Position.phase]
  · obtain rfl := Option.some.inj taken
    exact ⟨⟨_, .inl (by simp [Position.phase]), rfl⟩, rfl⟩
  · split at taken
    · cases taken
    · obtain rfl := Option.some.inj taken
      exact ⟨⟨_, .inl (by simp [Position.phase]), rfl⟩, rfl⟩
  · obtain rfl := Option.some.inj taken
    exact ⟨⟨_, .inl (by simp [Position.phase]), rfl⟩, rfl⟩
  · cases taken

theorem advances_write {position : Position} {result : Written}
    (taken : state.writeStep id position result = some after) :
    state.Advances id position after ∨
      result = .sigpipe ∧ after.tasks = state.tasks ∧ after.killed = true := by
  unfold writeStep at taken
  split at taken
  case h_3 => cases taken
  -- to the origin and to the client
  all_goals
    dsimp only at taken
    split at taken
    · cases taken
    · rename_i more
      split at taken
      · split at taken
        · rename_i fits
          obtain rfl := Option.some.inj taken
          refine .inl (advances_deliver state id _ _ (.inr ⟨?_, ?_⟩))
          · rfl
          · simp only [Position.rounds]
            omega
        · cases taken
      · obtain rfl := Option.some.inj taken
        exact .inl ⟨⟨_, .inl (by simp [Position.phase]), rfl⟩, rfl⟩
      · obtain rfl := Option.some.inj taken
        exact .inr ⟨rfl, rfl, rfl⟩

/-- A step of a task leaves less ahead of it and moves no other task. -/
theorem advances_of_step {action : SocketAction} (own : action.task = some id)
    (taken : step blocks state action = some after) :
    (∃ position, state.tasks[id]? = some position ∧ state.Advances id position after) ∨
      action.harmless = false ∧ after.tasks = state.tasks ∧ after.killed = true := by
  unfold step at taken
  split at taken
  · cases taken
  · cases action with
    | accept | tick => cases own
    | run other =>
        obtain rfl := Option.some.inj own
        obtain ⟨position, here, taken⟩ := Option.bind_eq_some_iff.mp taken
        exact .inl ⟨position, here, advances_run taken⟩
    | resolve other addresses =>
        obtain rfl := Option.some.inj own
        dsimp only at taken
        split at taken
        · rename_i here
          refine .inl ⟨_, here, ?_⟩
          cases addresses with
          | none | some =>
              obtain rfl := Option.some.inj taken
              exact ⟨⟨_, .inl (by simp [Position.phase]), rfl⟩, rfl⟩
        · cases taken
    | socket other opened =>
        obtain rfl := Option.some.inj own
        dsimp only at taken
        split at taken
        · rename_i here
          refine .inl ⟨_, here, ?_⟩
          cases opened with
          | true | false =>
              obtain rfl := Option.some.inj taken
              refine ⟨⟨_, .inr ⟨?_, ?_⟩, rfl⟩, rfl⟩
              · rfl
              · simp only [Position.rounds]
                omega
        · cases taken
    | connect other accepted =>
        obtain rfl := Option.some.inj own
        dsimp only at taken
        split at taken
        · rename_i here
          refine .inl ⟨_, here, ?_⟩
          cases accepted with
          | true =>
              obtain rfl := Option.some.inj taken
              exact ⟨⟨_, .inl (by simp [Position.phase]), rfl⟩, rfl⟩
          | false =>
              obtain rfl := Option.some.inj taken
              refine ⟨⟨_, .inr ⟨?_, ?_⟩, rfl⟩, rfl⟩
              · rfl
              · exact Nat.lt_succ_self _
        · cases taken
    | write other result =>
        obtain rfl := Option.some.inj own
        obtain ⟨position, here, taken⟩ := Option.bind_eq_some_iff.mp taken
        rcases advances_write taken with advances | ⟨rfl, same⟩
        · exact .inl ⟨position, here, advances⟩
        · exact .inr ⟨rfl, same⟩
    | receive other incoming =>
        obtain rfl := Option.some.inj own
        dsimp only at taken
        split at taken
        · rename_i here
          obtain rfl := Option.some.inj taken
          exact .inl ⟨_, here, advances_receive state _ _ _ _ _ _⟩
        · cases taken

/-- A task that is not over can take a step, with a call that fails where it depends on others. -/
theorem exists_step (blocks : Text → Bool) (alive : state.killed = false) {position : Position}
    (here : state.tasks[id]? = some position) (open' : position ≠ .closed) :
    ∃ action : SocketAction, action.task = some id ∧ action.harmless = true ∧
      (step blocks state action).isSome = true := by
  have running : ¬ state.killed = true := by
    rw [alive]
    exact Bool.false_ne_true
  have runs (moves : (state.runStep blocks id position).isSome = true) :
      (step blocks state (.run id)).isSome = true := by
    rw [step, if_neg running, here]
    exact moves
  have fails (moves : (state.writeStep id position .failed).isSome = true) :
      (step blocks state (.write id .failed)).isSome = true := by
    rw [step, if_neg running, here]
    exact moves
  cases position with
  | closed => exact absurd rfl open'
  | accepted | lookup | refused | hangUp | store | finish =>
      exact ⟨.run id, rfl, rfl, runs rfl⟩
  | resolve clientfd clientIP req =>
      refine ⟨.resolve id none, rfl, rfl, ?_⟩
      rw [step, if_neg running, here]
      rfl
  | dial clientfd clientIP req left =>
      cases left with
      | zero => exact ⟨.run id, rfl, rfl, runs rfl⟩
      | succ left =>
          refine ⟨.socket id false, rfl, rfl, ?_⟩
          rw [step, if_neg running, here]
          rfl
  | connecting clientfd originfd clientIP req left =>
      refine ⟨.connect id false, rfl, rfl, ?_⟩
      rw [step, if_neg running, here]
      rfl
  | forward clientfd originfd clientIP req sent =>
      by_cases more : sent < (req.prepare clientIP).serialize.length
      · refine ⟨.write id .failed, rfl, rfl, fails ?_⟩
        rw [writeStep, if_neg (Nat.not_le_of_lt more)]
        rfl
      · refine ⟨.run id, rfl, rfl, runs ?_⟩
        rw [runStep, if_neg more]
        rfl
  | receive clientfd originfd clientIP req =>
      refine ⟨.receive id [], rfl, rfl, ?_⟩
      rw [step, if_neg running, here]
      rfl
  | respond clientfd data sent =>
      by_cases more : sent < data.length
      · refine ⟨.write id .failed, rfl, rfl, fails ?_⟩
        rw [writeStep, if_neg (Nat.not_le_of_lt more)]
        rfl
      · refine ⟨.run id, rfl, rfl, runs ?_⟩
        rw [runStep, if_neg more]
        rfl

/-- A step of one task leaves the other tasks alone, and does not begin at a task that is over. -/
theorem Advances.others {position : Position} (advances : state.Advances id position after)
    {other : ℕ} (apart : other ≠ id) : after.tasks[other]? = state.tasks[other]? := by
  obtain ⟨next, -, tasks⟩ := advances.next
  rw [tasks, List.getElem?_set_ne apart.symm]

theorem Advances.alive {position : Position} (advances : state.Advances id position after) :
    position ≠ .closed := by
  rintro rfl
  obtain ⟨next, below | ⟨-, below⟩, -⟩ := advances.next
  · cases below
  · cases below

end Sockets

/-! ## The server -/

/-- Positions of the loop in `main`. -/
inductive MainPc
  /-- Before `accept`. -/
  | accept
  /-- Inside `schedule()`. -/
  | schedule
  deriving DecidableEq

/-- `main` and its pool, with what the tasks share. -/
structure Server where
  main : MainPc
  pool : ThreadPool.State 16 Unit
  sockets : Sockets
  /-- For each task, whether the other side has done its part of the call that the task is at. -/
  answered : List Bool

/-- Who moves, with what the environment decides. -/
inductive ServerAction
  /-- `accept` returns, and `main` goes on into `schedule()`. -/
  | accept (clientIP : Text) (incoming : List Chunk)
  | schedule
  | dispatcher
  /-- A worker, which takes this step if it is in the body of a task. -/
  | worker (id : Fin 16) (choice : SocketAction)
  | tick (elapsed : ℕ)
  /-- The client, the resolver or the origin of a task does its part: it sends what is read, takes
  bytes, accepts or refuses, or closes. -/
  | answer (task : ℕ)

namespace Server

/-- The call that a task is at waits, and the other side has not done its part. -/
def held (server : Server) (ticket : ℕ) : Bool :=
  match server.sockets.tasks[ticket]? with
  | some position => position.waits && server.answered[ticket]? = some false
  | none => false

/-- A step of the pool. -/
def poolStep (server : Server) (action : ThreadPool.Action 16 Unit) : Option Server :=
  (ThreadPool.step server.pool action).map fun pool => { server with pool }

-- `blocklist.blocks`, for the patterns that were loaded
variable (blocks : Text → Bool)

/-- A step of a task, or of what the tasks share. -/
def socketStep (server : Server) (action : SocketAction) : Option Server :=
  (Sockets.step blocks server.sockets action).map fun sockets => { server with sockets }

/-- `accept`, up to the call of `schedule`. -/
def acceptStep (server : Server) (clientIP : Text) (incoming : List Chunk) : Option Server :=
  match server.main with
  | .accept =>
      (server.socketStep blocks (.accept clientIP incoming)).bind fun server =>
        (server.poolStep (.clientCalls () .schedule)).map fun server =>
          { server with main := .schedule, answered := server.answered ++ [false] }
  | .schedule => none

/-- The next region of `schedule`, or back to `accept`. -/
def scheduleStep (server : Server) : Option Server :=
  match server.main with
  | .accept => none
  | .schedule =>
      match server.pool.clients () with
      | none => some { server with main := .accept }
      | some _ => server.poolStep (.client ())

/-- The next region of a worker: of the task that it serves, or of the pool. -/
def workerStep (server : Server) (id : Fin 16) (choice : SocketAction) : Option Server :=
  match (server.pool.workers id).pc with
  | .running ticket none =>
      if server.sockets.tasks[ticket]? = some .closed then
        server.poolStep (.worker id)
      else if choice.task = some ticket ∧ server.held ticket = false then
        (server.socketStep blocks choice).map fun server =>
          { server with answered := server.answered.set ticket false }
      else
        none
  | _ => server.poolStep (.worker id)

/-- The other side does its part of a call that waits. -/
def answerStep (server : Server) (ticket : ℕ) : Option Server :=
  if server.held ticket then
    some { server with answered := server.answered.set ticket true }
  else
    none

/-- One step of the server; `SIGPIPE` ends it. -/
def step (server : Server) (action : ServerAction) : Option Server :=
  if server.sockets.killed then
    none
  else
    match action with
    | .accept clientIP incoming => server.acceptStep blocks clientIP incoming
    | .schedule => server.scheduleStep
    | .dispatcher => server.poolStep .dispatcher
    | .worker id choice => server.workerStep blocks id choice
    | .tick elapsed => server.socketStep blocks (.tick elapsed)
    | .answer ticket => server.answerStep ticket

end Server

/-- The server as a machine. -/
def serverMachine (blocks : Text → Bool) (base : Descriptors File) :
    Machine Server ServerAction where
  start server := server.main = .accept ∧ server.pool = ThreadPool.construct 16 Unit ∧
    (socketMachine blocks base).start server.sockets ∧ server.answered = []
  step := Server.step blocks

/-- No more connections come, time stands still, and no write raises `SIGPIPE`. -/
def calm : Discipline Server ServerAction
  | _, .accept _ _ | _, .tick _ => False
  | _, .worker _ choice => choice.harmless = true
  | _, _ => True

/-- And no client, resolver or origin does anything more. -/
def silent : Discipline Server ServerAction
  | _, .answer _ => False
  | server, action => calm server action

/-! ## What holds of the server -/

/-- Where `main` is agrees with its call of `schedule` and with the tickets given out. -/
def MainOk (accepted : ℕ) (pool : ThreadPool.State 16 Unit) : MainPc → Prop
  | .accept => pool.clients () = none ∧ pool.pool.issued = accepted
  | .schedule =>
      pool.clients () = some (.schedule .increment) ∧ pool.pool.issued + 1 = accepted ∨
        (pool.clients () = none ∨
          ∃ pc, pc ≠ .increment ∧ pool.clients () = some (.schedule pc)) ∧
          pool.pool.issued = accepted

theorem MainOk.issued_le {accepted : ℕ} {pool : ThreadPool.State 16 Unit} {main : MainPc}
    (ok : MainOk accepted pool main) : pool.pool.issued ≤ accepted := by
  cases main with
  | accept => exact ok.2.le
  | schedule =>
      rcases ok with ⟨-, given⟩ | ⟨-, given⟩
      · omega
      · exact given.le

/-- Steps of the other threads do not matter to `main`. -/
theorem MainOk.mono {accepted : ℕ} {pool after : ThreadPool.State 16 Unit} {main : MainPc}
    (ok : MainOk accepted pool main)
    (clients : after.clients () = pool.clients () ∨
      after.clients () = (pool.clients ()).map Call.wake)
    (issued : after.pool.issued = pool.pool.issued) : MainOk accepted after main := by
  have quiet (outside : pool.clients () = none) : after.clients () = none := by
    rcases clients with same | woken
    · rw [same, outside]
    · rw [woken, outside]
      rfl
  have scheduling {pc : ThreadPool.SchedulePc} (inside : pool.clients () = some (.schedule pc)) :
      after.clients () = some (.schedule pc) := by
    rcases clients with same | woken
    · rw [same, inside]
    · rw [woken, inside]
      rfl
  cases main with
  | accept => exact ⟨quiet ok.1, issued.trans ok.2⟩
  | schedule =>
      rcases ok with ⟨counting, given⟩ | ⟨returned | ⟨pc, past, inside⟩, given⟩
      · exact .inl ⟨scheduling counting, by rw [issued, given]⟩
      · exact .inr ⟨.inl (quiet returned), issued.trans given⟩
      · exact .inr ⟨.inr ⟨pc, past, scheduling inside⟩, issued.trans given⟩

/-- The pool keeps its invariant, `main` is where the pool says, tasks whose lambdas have returned
are over, and every task that is not over and has begun is on a worker. -/
structure Server.Ok (server : Server) : Prop where
  invariant : ThreadPool.Invariant server.pool
  uncalled : server.pool.Uncalled
  idle : server.pool.destructor = .idle
  main : MainOk server.sockets.tasks.length server.pool server.main
  returned : ∀ ticket ∈ server.pool.pool.completed,
    server.sockets.tasks[ticket]? = some .closed
  serving : ∀ (ticket : ℕ) (position : Position), server.sockets.tasks[ticket]? = some position →
    position.inService = true → ∃ id, server.pool.body id = some ticket

namespace Server

variable {blocks : Text → Bool} {server after : Server}

/-- A thunk in its body is the lambda of a task. -/
theorem Ok.lt_of_body (ok : server.Ok) {id : Fin 16} {ticket : Ticket}
    (running : server.pool.body id = some ticket) : ticket < server.sockets.tasks.length :=
  (ok.invariant.of_body running).1.trans_le ok.main.issued_le

/-- The other sides do not matter. -/
theorem Ok.answers (ok : server.Ok) (answered : List Bool) : Ok { server with answered } :=
  ⟨ok.invariant, ok.uncalled, ok.idle, ok.main, ok.returned, ok.serving⟩

/-- The pool moves, and with it perhaps `main`. -/
theorem Ok.pool (ok : server.Ok) {action : ThreadPool.Action 16 Unit}
    {pool : ThreadPool.State 16 Unit} {main : MainPc}
    (taken : ThreadPool.step server.pool action = some pool) (plain : action.plain = true)
    (known : MainOk server.sockets.tasks.length pool main)
    (completed : pool.pool.completed = server.pool.pool.completed)
    (bodies : ∀ id ticket, server.pool.body id = some ticket → pool.body id = some ticket) :
    Ok ⟨main, pool, server.sockets, server.answered⟩ where
  invariant := ok.invariant.step taken
  uncalled := ok.uncalled.step plain taken
  idle := ThreadPool.idle_of_plain plain ok.idle taken
  main := known
  returned ticket inside := ok.returned ticket (completed ▸ inside)
  serving ticket position here inService := by
    obtain ⟨id, running⟩ := ok.serving ticket position here inService
    exact ⟨id, bodies id ticket running⟩

theorem Ok.accept (ok : server.Ok) {clientIP : Text} {incoming : List Chunk}
    (taken : server.acceptStep blocks clientIP incoming = some after) :
    after.Ok ∧ Sockets.step blocks server.sockets (.accept clientIP incoming) =
      some after.sockets := by
  have main := ok.main
  rw [acceptStep] at taken
  split at taken
  · rename_i position
    rw [position] at main
    obtain ⟨accepted, moved, taken⟩ := Option.bind_eq_some_iff.mp taken
    obtain ⟨sockets, grown, rfl⟩ := Option.map_eq_some_iff.mp moved
    obtain ⟨_, moved, rfl⟩ := Option.map_eq_some_iff.mp taken
    obtain ⟨pool, called, rfl⟩ := Option.map_eq_some_iff.mp moved
    obtain ⟨_, inside, _, samePool, sameWorkers⟩ := ThreadPool.begins_call called
    obtain ⟨position, tasks⟩ : ∃ position : Position, position.inService = false ∧
        sockets.tasks = server.sockets.tasks ++ [position] := by
      rw [Sockets.step] at grown
      split at grown
      · cases grown
      · obtain rfl := Option.some.inj grown
        exact ⟨_, rfl, rfl⟩
    refine ⟨⟨ok.invariant.step called, ok.uncalled.step rfl called,
      ThreadPool.idle_of_plain rfl ok.idle called, .inl ⟨inside, ?_⟩, fun ticket done => ?_,
      fun ticket found here inService => ?_⟩, grown⟩
    · show pool.pool.issued + 1 = sockets.tasks.length
      rw [samePool, main.2, tasks.2, List.length_append, List.length_singleton]
    · have old := ok.returned ticket (samePool ▸ done)
      have inside := (List.getElem?_eq_some_iff.mp old).1
      show sockets.tasks[ticket]? = some .closed
      rw [tasks.2, List.getElem?_append_left inside, old]
    · have here : sockets.tasks[ticket]? = some found := here
      rw [tasks.2, List.getElem?_append] at here
      split at here
      · obtain ⟨id, running⟩ := ok.serving ticket found here inService
        exact ⟨id, (ThreadPool.body_of_workers sameWorkers id).trans running⟩
      · obtain rfl : position = found :=
          List.mem_singleton.mp (List.mem_of_getElem? here) |>.symm
        rw [tasks.1] at inService
        cases inService
  · cases taken

theorem Ok.schedule (ok : server.Ok) (taken : server.scheduleStep = some after) :
    after.Ok ∧ after.sockets = server.sockets := by
  have main := ok.main
  rw [scheduleStep] at taken
  split at taken
  · cases taken
  · rename_i position
    rw [position] at main
    split at taken
    · rename_i outside
      obtain rfl := Option.some.inj taken
      refine ⟨⟨ok.invariant, ok.uncalled, ok.idle, ⟨outside, ?_⟩, ok.returned, ok.serving⟩, rfl⟩
      rcases main with ⟨counting, -⟩ | ⟨-, given⟩
      · rw [outside] at counting
        cases counting
      · exact given
    · rename_i call inside
      obtain ⟨pool, moved, rfl⟩ := Option.map_eq_some_iff.mp taken
      refine ⟨ok.pool moved rfl ?_ (ThreadPool.completed_client moved) fun id ticket running =>
        (ThreadPool.body_client moved id).trans running, rfl⟩
      rw [position]
      rcases main with ⟨counting, given⟩ | ⟨returned | ⟨pc, past, later⟩, given⟩
      · obtain ⟨-, issued, next⟩ := ThreadPool.schedule_region counting moved
        exact .inr ⟨next, by rw [issued, if_pos rfl, given]⟩
      · rw [inside] at returned
        cases returned
      · obtain ⟨-, issued, next⟩ := ThreadPool.schedule_region later moved
        exact .inr ⟨next, by rw [issued, if_neg past, given, Nat.add_zero]⟩

/-- What a worker does next: the lambda of its task returns, its task goes on, or the pool moves. -/
inductive WorkerMove (blocks : Text → Bool) (server : Server) (id : Fin 16)
    (choice : SocketAction) : Server → Prop
  | returns {ticket : Ticket} {pool : ThreadPool.State 16 Unit}
      (running : server.pool.body id = some ticket)
      (closed : server.sockets.tasks[ticket]? = some .closed)
      (moved : ThreadPool.step server.pool (.worker id) = some pool) :
      WorkerMove blocks server id choice { server with pool }
  | task {ticket : Ticket} {sockets : Sockets} (running : server.pool.body id = some ticket)
      (own : choice.task = some ticket)
      (moved : Sockets.step blocks server.sockets choice = some sockets) :
      WorkerMove blocks server id choice
        { server with sockets, answered := server.answered.set ticket false }
  | pool {pool : ThreadPool.State 16 Unit} (idle : server.pool.body id = none)
      (moved : ThreadPool.step server.pool (.worker id) = some pool) :
      WorkerMove blocks server id choice { server with pool }

theorem workerMove_of_step {id : Fin 16} {choice : SocketAction}
    (taken : server.workerStep blocks id choice = some after) :
    WorkerMove blocks server id choice after := by
  rw [workerStep] at taken
  split at taken
  · rename_i ticket pc
    have running := ThreadPool.body_eq_some.mpr pc
    split at taken
    · rename_i closed
      obtain ⟨pool, moved, rfl⟩ := Option.map_eq_some_iff.mp taken
      exact .returns running closed moved
    · split at taken
      · rename_i own
        obtain ⟨_, went, rfl⟩ := Option.map_eq_some_iff.mp taken
        obtain ⟨sockets, moved, rfl⟩ := Option.map_eq_some_iff.mp went
        exact .task running own.1 moved
      · cases taken
  · rename_i busy
    obtain ⟨pool, moved, rfl⟩ := Option.map_eq_some_iff.mp taken
    refine .pool (Option.eq_none_iff_forall_not_mem.mpr fun ticket running => ?_) moved
    exact busy ticket (ThreadPool.body_eq_some.mp running)

/-- A task that is on a worker takes a step. -/
theorem Ok.task (ok : server.Ok) {id : Fin 16} {ticket : Ticket} {choice : SocketAction}
    {sockets : Sockets} (running : server.pool.body id = some ticket)
    (own : choice.task = some ticket)
    (moved : Sockets.step blocks server.sockets choice = some sockets) :
    Ok { server with sockets } := by
  rcases Sockets.advances_of_step own moved with ⟨position, here, advances⟩ | ⟨-, same, -⟩
  · obtain ⟨next, -, tasks⟩ := advances.next
    refine ⟨ok.invariant, ok.uncalled, ok.idle, ?_, fun other done => ?_,
      fun other found at_other inService => ?_⟩
    · show MainOk sockets.tasks.length server.pool server.main
      rw [tasks, List.length_set]
      exact ok.main
    · have closed := ok.returned other done
      have apart : other ≠ ticket := by
        rintro rfl
        rw [here] at closed
        exact advances.alive (Option.some.inj closed)
      exact (advances.others apart).trans closed
    · by_cases same : other = ticket
      · subst same
        exact ⟨id, running⟩
      · exact ok.serving other found ((advances.others same).symm.trans at_other) inService
  · refine ⟨ok.invariant, ok.uncalled, ok.idle, ?_, ?_, ?_⟩
    · show MainOk sockets.tasks.length server.pool server.main
      rw [same]
      exact ok.main
    · show ∀ ticket ∈ server.pool.pool.completed, sockets.tasks[ticket]? = some .closed
      rw [same]
      exact ok.returned
    · show ∀ (ticket : ℕ) (position : Position), sockets.tasks[ticket]? = some position →
        position.inService = true → ∃ id, server.pool.body id = some ticket
      rw [same]
      exact ok.serving

/-- The lambda of a task returns. -/
theorem Ok.returns (ok : server.Ok) {id : Fin 16} {ticket : Ticket}
    {pool : ThreadPool.State 16 Unit} (running : server.pool.body id = some ticket)
    (closed : server.sockets.tasks[ticket]? = some .closed)
    (moved : ThreadPool.step server.pool (.worker id) = some pool) : Ok { server with pool } := by
  obtain ⟨completed, issued, -, clients⟩ := ThreadPool.returns_worker running moved
  refine ⟨ok.invariant.step moved, ok.uncalled.step rfl moved,
    ThreadPool.idle_of_plain rfl ok.idle moved, ok.main.mono (.inl (by rw [clients])) issued,
    fun other done => ?_, fun other position here inService => ?_⟩
  · have done : other ∈ pool.pool.completed := done
    rw [completed] at done
    rcases List.mem_append.mp done with old | new
    · exact ok.returned other old
    · rw [List.mem_singleton.mp new]
      exact closed
  · obtain ⟨worker, serving⟩ := ok.serving other position here inService
    refine ⟨worker, ?_⟩
    by_cases same : worker = id
    · subst same
      obtain rfl := Option.some.inj (running.symm.trans serving)
      obtain rfl := Option.some.inj (closed.symm.trans here)
      cases inService
    · exact (ThreadPool.body_worker same moved).trans serving

theorem Ok.worker (ok : server.Ok) {id : Fin 16} {choice : SocketAction}
    (move : WorkerMove blocks server id choice after) : after.Ok := by
  cases move with
  | returns running closed moved => exact ok.returns running closed moved
  | task running own moved => exact (ok.task running own moved).answers _
  | pool idle moved =>
      obtain ⟨completed, issued⟩ := ThreadPool.history_worker ok.uncalled idle moved
      refine ok.pool moved rfl (ok.main.mono (ThreadPool.clients_worker moved ()) issued)
        completed fun other ticket running => ?_
      by_cases same : other = id
      · subst same
        rw [idle] at running
        cases running
      · exact (ThreadPool.body_worker same moved).trans running

/-- What the tasks share moves on, but no task. -/
theorem Ok.quiet (ok : server.Ok) {sockets : Sockets}
    (same : sockets.tasks = server.sockets.tasks) : Ok { server with sockets } where
  invariant := ok.invariant
  uncalled := ok.uncalled
  idle := ok.idle
  main := by
    show MainOk sockets.tasks.length server.pool server.main
    rw [same]
    exact ok.main
  returned ticket done := (congrArg (·[ticket]?) same).trans (ok.returned ticket done)
  serving ticket position here inService :=
    ok.serving ticket position ((congrArg (·[ticket]?) same).symm.trans here) inService

theorem sockets_worker {id : Fin 16} {choice : SocketAction}
    (move : WorkerMove blocks server id choice after) : after.sockets = server.sockets ∨
      Sockets.step blocks server.sockets choice = some after.sockets := by
  cases move with
  | returns | pool => exact .inl rfl
  | task running own moved => exact .inr moved

/-- Every step keeps what holds of the server, and is one of the proxy with its sockets or none. -/
theorem Ok.step (ok : server.Ok) {action : ServerAction}
    (taken : server.step blocks action = some after) :
    after.Ok ∧ (after.sockets = server.sockets ∨
      ∃ label, Sockets.step blocks server.sockets label = some after.sockets) := by
  unfold Server.step at taken
  split at taken
  · cases taken
  · cases action with
    | accept clientIP incoming =>
        obtain ⟨ok, moved⟩ := ok.accept taken
        exact ⟨ok, .inr ⟨_, moved⟩⟩
    | schedule =>
        obtain ⟨ok, same⟩ := ok.schedule taken
        exact ⟨ok, .inl same⟩
    | dispatcher =>
        obtain ⟨pool, moved, rfl⟩ := Option.map_eq_some_iff.mp taken
        obtain ⟨clients, -⟩ := ThreadPool.frame_dispatcher moved
        obtain ⟨completed, issued⟩ := ThreadPool.history_dispatcher moved
        exact ⟨ok.pool moved rfl (ok.main.mono (.inl (by rw [clients])) issued) completed
          fun id _ running => (ThreadPool.body_dispatcher moved id).trans running, .inl rfl⟩
    | worker id choice =>
        have move := workerMove_of_step taken
        exact ⟨ok.worker move, (sockets_worker move).imp_right fun moved => ⟨choice, moved⟩⟩
    | tick elapsed =>
        obtain ⟨sockets, moved, rfl⟩ := Option.map_eq_some_iff.mp taken
        refine ⟨ok.quiet ?_, .inr ⟨_, moved⟩⟩
        rw [Sockets.step] at moved
        split at moved
        · cases moved
        · rw [← Option.some.inj moved]
    | answer ticket =>
        obtain ⟨-, same⟩ := Option.ite_none_right_eq_some.mp taken
        obtain rfl := Option.some.inj same
        exact ⟨ok.answers _, .inl rfl⟩

end Server

/-! ## What is left to serve -/

def MainPc.left : MainPc → ℕ
  | .accept => 0
  | .schedule => 1

namespace Server

variable {blocks : Text → Bool} {base : Descriptors File} {server after : Server}

/-- The calls that the other side has no part in yet. -/
def unanswered (server : Server) : ℕ := (server.answered.map fun done => (!done).toNat).sum

/-- What is ahead of the tasks, of the other sides where no task moves, and of the pool where they
do not either. -/
def value (server : Server) : ℕ × ℕ × ℕ × ℕ :=
  ((server.sockets.tasks.map Position.phase).sum, (server.sockets.tasks.map Position.rounds).sum,
    server.unanswered, server.main.left + server.pool.work 0 fun _ => 0)

/-- Less is ahead. -/
def Nearer : ℕ × ℕ × ℕ × ℕ → ℕ × ℕ × ℕ × ℕ → Prop :=
  Prod.Lex (· < ·) (Prod.Lex (· < ·) (Prod.Lex (· < ·) (· < ·)))

theorem wellFounded_nearer : WellFounded Nearer :=
  WellFounded.prod_lex Nat.lt_wfRel.wf (WellFounded.prod_lex Nat.lt_wfRel.wf
    (WellFounded.prod_lex Nat.lt_wfRel.wf Nat.lt_wfRel.wf))

/-- `main` or the pool moves. -/
theorem nearer_pool {main : MainPc} {pool : ThreadPool.State 16 Unit}
    (less : main.left + pool.work 0 (fun _ => 0) <
      server.main.left + server.pool.work 0 fun _ => 0) :
    Nearer (value ⟨main, pool, server.sockets, server.answered⟩) server.value :=
  .right _ (.right _ (.right _ less))

/-- The other side of a call does its part. -/
theorem nearer_answer {ticket : ℕ} (waits : server.held ticket = true) :
    Nearer (value { server with answered := server.answered.set ticket true }) server.value := by
  have silent : server.answered[ticket]? = some false := by
    unfold held at waits
    split at waits
    · exact of_decide_eq_true (Bool.and_eq_true_iff.mp waits).2
    · cases waits
  have fewer := sum_map_set (fun done : Bool => (!done).toNat) silent true
  refine .right _ (.right _ (.left _ _ ?_))
  simp only [unanswered]
  simp only [Bool.not_false, Bool.not_true, Bool.toNat_true, Bool.toNat_false] at fewer
  omega

/-- A task moves. -/
theorem nearer_task {ticket : ℕ} {position : Position} {sockets : Sockets}
    {answered : List Bool} (here : server.sockets.tasks[ticket]? = some position)
    (advances : server.sockets.Advances ticket position sockets) :
    Nearer (value { server with sockets, answered }) server.value := by
  obtain ⟨next, below, tasks⟩ := advances.next
  have phases := sum_map_set Position.phase here next
  have rounds := sum_map_set Position.rounds here next
  rw [← tasks] at phases rounds
  rcases below with lower | ⟨same, fewer⟩
  · have less : (sockets.tasks.map Position.phase).sum <
        (server.sockets.tasks.map Position.phase).sum := by omega
    exact .left _ _ less
  · have stays : (sockets.tasks.map Position.phase).sum =
        (server.sockets.tasks.map Position.phase).sum := by omega
    have less : (sockets.tasks.map Position.rounds).sum <
        (server.sockets.tasks.map Position.rounds).sum := by omega
    rw [value, value, stays]
    exact .right _ (.left _ _ less)

/-- Every step but those of the environment leaves less to serve. -/
theorem Ok.falls (ok : server.Ok) {action : ServerAction} (permitted : calm server action)
    (taken : server.step blocks action = some after) :
    Nearer after.value server.value ∧ after.sockets.killed = server.sockets.killed ∧
      after.sockets.tasks.length = server.sockets.tasks.length := by
  unfold Server.step at taken
  split at taken
  · cases taken
  · cases action with
    | accept | tick => exact permitted.elim
    | answer ticket =>
        obtain ⟨waits, same⟩ := Option.ite_none_right_eq_some.mp taken
        obtain rfl := Option.some.inj same
        exact ⟨nearer_answer waits, rfl, rfl⟩
    | schedule =>
        have taken : server.scheduleStep = some after := taken
        rw [scheduleStep] at taken
        split at taken
        · cases taken
        · rename_i position
          split at taken
          · obtain rfl := Option.some.inj taken
            refine ⟨nearer_pool ?_, rfl, rfl⟩
            rw [position]
            exact Nat.add_lt_add_right Nat.one_pos _
          · obtain ⟨pool, moved, rfl⟩ := Option.map_eq_some_iff.mp taken
            exact ⟨nearer_pool (Nat.add_lt_add_left (ThreadPool.work_client 0 _ moved) _), rfl,
              rfl⟩
    | dispatcher =>
        obtain ⟨pool, moved, rfl⟩ := Option.map_eq_some_iff.mp taken
        exact ⟨nearer_pool (Nat.add_lt_add_left (ThreadPool.work_dispatcher 0 _ moved) _), rfl,
          rfl⟩
    | worker id choice =>
        cases workerMove_of_step taken with
        | @returns ticket pool running closed moved =>
            have less : pool.work 0 (fun _ => 0) < server.pool.work 0 fun _ => 0 :=
              ThreadPool.work_returns 0 running (fun _ _ => rfl) moved
            exact ⟨nearer_pool (Nat.add_lt_add_left less _), rfl, rfl⟩
        | pool idle moved =>
            have less := ThreadPool.work_worker 0 (fun _ => 0) ok.uncalled idle le_rfl moved
            exact ⟨nearer_pool (Nat.add_lt_add_left less _), rfl, rfl⟩
        | task running own moved =>
            rcases Sockets.advances_of_step own moved with ⟨position, here, advances⟩ | ⟨raises, -⟩
            · obtain ⟨next, -, tasks⟩ := advances.next
              refine ⟨nearer_task here advances, advances.killed, ?_⟩
              rw [tasks, List.length_set]
            · have harmless : choice.harmless = true := permitted
              rw [harmless] at raises
              cases raises

/-! ## Rest -/

section Still

variable (ok : server.Ok) (alive : server.sockets.killed = false)
  (still : ∀ action, silent server action → server.step blocks action = none)

include ok alive still in
/-- A task that is not over can go on, unless the other side has yet to do its part. -/
theorem held_of_still {id : Fin 16} {ticket : Ticket}
    (running : server.pool.body id = some ticket) : server.held ticket = true := by
  have pc := ThreadPool.body_eq_some.mp running
  obtain ⟨position, here⟩ : ∃ position, server.sockets.tasks[ticket]? = some position :=
    ⟨_, List.getElem?_eq_getElem (ok.lt_of_body running)⟩
  by_cases closed : position = .closed
  · subst closed
    have blocked : server.step blocks (.worker id (.run 0)) = none := still _ rfl
    simp only [Server.step, alive, workerStep, pc, here, if_true, Bool.false_eq_true, if_false,
      poolStep, Option.map_eq_none_iff] at blocked
    rw [ThreadPool.step, ThreadPool.workerStep, pc] at blocked
    cases blocked
  · obtain ⟨choice, own, harmless, moves⟩ := Sockets.exists_step blocks alive here closed
    have blocked : server.step blocks (.worker id choice) = none := still _ harmless
    have apart : ¬ server.sockets.tasks[ticket]? = some .closed := by
      rw [here]
      exact fun same => closed (Option.some.inj same)
    by_contra free
    rw [Bool.not_eq_true] at free
    simp only [Server.step, alive, workerStep, pc, own, free, if_neg apart, and_self, if_true,
      Bool.false_eq_true, if_false, socketStep, Option.map_eq_none_iff] at blocked
    rw [blocked] at moves
    cases moves

include ok alive still in
/-- `main` is at `accept`. -/
theorem main_of_still : server.main = .accept ∧ server.pool.clients () = none := by
  have main := ok.main
  have blocked : server.step blocks .schedule = none := still .schedule trivial
  rw [Server.step, if_neg (by rw [alive]; exact Bool.false_ne_true)] at blocked
  cases position : server.main with
  | accept =>
      rw [position] at main
      exact ⟨rfl, main.1⟩
  | schedule =>
      rw [position] at main
      cases inside : server.pool.clients () with
      | none =>
          simp only [scheduleStep, position, inside] at blocked
          cases blocked
      | some call =>
          simp only [scheduleStep, position, inside, poolStep, Option.map_eq_none_iff] at blocked
          rw [ThreadPool.step, ThreadPool.clientStep, inside] at blocked
          obtain ⟨since, rfl⟩ := ThreadPool.callStep_eq_none (Option.map_eq_none_iff.mp blocked)
          rcases main with ⟨counting, -⟩ | ⟨returned | ⟨pc, -, later⟩, -⟩
          · rw [inside] at counting
            cases counting
          · rw [inside] at returned
            cases returned
          · rw [inside] at later
            cases later

include alive still in
theorem dispatcher_of_still : ThreadPool.step server.pool .dispatcher = none := by
  have blocked : server.step blocks .dispatcher = none := still .dispatcher trivial
  rw [Server.step, if_neg (by rw [alive]; exact Bool.false_ne_true)] at blocked
  exact Option.map_eq_none_iff.mp blocked

include alive still in
/-- A worker outside the tasks is one that the pool has nothing for. -/
theorem worker_of_still {id : Fin 16} (idle : server.pool.body id = none) :
    ThreadPool.step server.pool (.worker id) = none := by
  have blocked : server.step blocks (.worker id (.run 0)) = none := still _ rfl
  rw [Server.step, if_neg (by rw [alive]; exact Bool.false_ne_true)] at blocked
  simp only [workerStep] at blocked
  split at blocked
  · rename_i ticket pc
    rw [ThreadPool.body_eq_some.mpr pc] at idle
    cases idle
  · exact Option.map_eq_none_iff.mp blocked

include ok alive still in
/-- A task that is not over is on a worker, or every worker has one. -/
theorem begun_or_busy_of_still :
    (∀ (ticket : ℕ) (position : Position), server.sockets.tasks[ticket]? = some position →
        position ≠ .closed → ∃ id, server.pool.body id = some ticket) ∨
      ∀ id, (server.pool.body id).isSome = true := by
  obtain ⟨position, outside⟩ := main_of_still ok alive still
  have main := ok.main
  rw [position] at main
  refine (ThreadPool.begun_or_busy_of_still ok.invariant ok.uncalled ok.idle
    (dispatcher_of_still alive still) (fun id idle => worker_of_still alive still idle)
    fun _ => outside).imp_left fun begun ticket position here open' => ?_
  have given : ticket < server.pool.pool.issued :=
    main.2 ▸ (List.getElem?_eq_some_iff.mp here).1
  rcases begun ticket given with returned | inBody
  · have closed := ok.returned ticket returned
    rw [here] at closed
    exact absurd (Option.some.inj closed) open'
  · exact inBody

variable (free : ∀ id, server.pool.body id = none)

include ok alive still free in
/-- Where no worker has a task, the pool is at rest. -/
theorem parked_of_still : Parked server.pool := by
  refine ThreadPool.parked_of_still ok.invariant ok.uncalled ok.idle
    (dispatcher_of_still alive still) (fun id => worker_of_still alive still (free id)) ?_
  intro client
  rw [ThreadPool.step, ThreadPool.clientStep, (main_of_still ok alive still).2]

include ok alive still free in
/-- There every task is over. -/
theorem closed_of_still : ∀ position ∈ server.sockets.tasks, position = .closed := by
  intro position known
  obtain ⟨ticket, inside, here⟩ := List.getElem_of_mem known
  have here : server.sockets.tasks[ticket]? = some position := by
    rw [List.getElem?_eq_getElem inside, here]
  by_contra open'
  rcases begun_or_busy_of_still ok alive still with begun | busy
  · obtain ⟨id, running⟩ := begun ticket position here open'
    rw [free id] at running
    cases running
  · have some_body := busy 0
    rw [free 0] at some_body
    cases some_body

end Still

/-! ## Runs -/

/-- So many connections have been served: each client has its response, or a beginning of it where a
write failed; no descriptor is open but those that were before; and the pool is at rest. -/
structure Served (base : Descriptors File) (count : ℕ) (server : Server) : Prop where
  tasks : server.sockets.tasks = List.replicate count .closed
  accounts : ∀ id < count,
    (server.sockets.account id).Responded ∧ (server.sockets.account id).Forwarded
  table : ∀ fd, server.sockets.table.get fd = base.get fd
  main : server.main = .accept
  parked : Parked server.pool

/-- The workers are held: some task is on a worker, every task on a worker is at a call that waits
for the other side, and a task that is not over waits for a worker only if all of them are held. -/
structure Stalled (server : Server) : Prop where
  main : server.main = .accept
  some_body : ∃ id ticket, server.pool.body id = some ticket
  held : ∀ id ticket, server.pool.body id = some ticket → server.held ticket = true
  begun : (∀ (ticket : ℕ) (position : Position),
      server.sockets.tasks[ticket]? = some position → position ≠ .closed →
        ∃ id, server.pool.body id = some ticket) ∨ ∀ id, (server.pool.body id).isSome = true

theorem ok_of_start (initial : (serverMachine blocks base).start server) : server.Ok := by
  obtain ⟨main, pool, sockets, -⟩ := initial
  have tasks := sockets.2.1
  refine ⟨pool ▸ ThreadPool.invariant_construct, ?_, ?_, ?_, ?_, ?_⟩
  · rw [pool]
    exact fun _ => rfl
  · rw [pool]
    rfl
  · rw [main, pool, tasks]
    exact ⟨rfl, rfl⟩
  · rw [pool]
    rintro ticket ⟨⟩
  · rw [tasks]
    rintro ticket position ⟨⟩

/-- Where the tasks are over, their connections have been served. -/
theorem served_of_closed (other : NoSockets base)
    (reach : (socketMachine blocks base).Reachable .free server.sockets)
    (closed : ∀ position ∈ server.sockets.tasks, position = .closed)
    (main : server.main = .accept) (parked : Parked server.pool) :
    server.Served base server.sockets.tasks.length := by
  obtain ⟨-, known⟩ := known_of_reachable other reach
  have tasks : server.sockets.tasks = List.replicate server.sockets.tasks.length .closed :=
    List.eq_replicate_iff.mpr ⟨rfl, closed⟩
  refine ⟨tasks, fun id inside => ?_, fun fd => Option.ext fun file => ?_, main, parked⟩
  · have here : server.sockets.tasks[id]? = some .closed := by
      rw [List.getElem?_eq_getElem inside, closed _ (List.getElem_mem inside)]
    exact known.traffic.agrees id .closed here
  · refine (known.accounts fd file).trans (or_iff_left ?_)
    rintro ⟨id, position, here, held⟩
    rw [closed position (List.mem_of_getElem? here)] at held
    cases held

end Server

/-- What holds of every state of a run: the sockets are in a state that the proxy comes to. -/
structure Server.Sound (blocks : Text → Bool) (base : Descriptors File) (server : Server) :
    Prop where
  ok : server.Ok
  reach : (socketMachine blocks base).Reachable .free server.sockets

section Runs

variable {blocks : Text → Bool} {base : Descriptors File} {server after : Server}

theorem Server.Sound.step (sound : server.Sound blocks base) {action : ServerAction}
    (taken : server.step blocks action = some after) : after.Sound blocks base := by
  obtain ⟨ok, same | ⟨label, moved⟩⟩ := sound.ok.step taken
  · exact ⟨ok, same ▸ sound.reach⟩
  · exact ⟨ok, sound.reach.next trivial moved⟩

theorem sound_of_reachable (reach : (serverMachine blocks base).Reachable .free server) :
    server.Sound blocks base := by
  refine reach.invariant (Server.Sound blocks base) ?_ ?_
  · intro server initial
    exact ⟨Server.ok_of_start initial, .of_start initial.2.2.1⟩
  · intro _ _ _ sound _ taken
    exact sound.step taken

/-- The rule for the ways to go on: a server that cannot move is at the goal. -/
theorem Server.Sound.inevitable (sound : server.Sound blocks base)
    (alive : server.sockets.killed = false) {allowed : Discipline Server ServerAction}
    (calmly : ∀ state action, allowed state action → calm state action) {goal : Server → Prop}
    (ends : ∀ state : Server, state.Sound blocks base → state.sockets.killed = false →
      state.sockets.tasks.length = server.sockets.tasks.length →
        (∀ action, allowed state action → state.step blocks action = none) → goal state) :
    (serverMachine blocks base).Inevitable allowed goal server := by
  refine Machine.inevitable_of_wellFounded Server.wellFounded_nearer Server.value
    (fun state (known : state.Sound blocks base ∧ state.sockets.killed = false ∧
      state.sockets.tasks.length = server.sockets.tasks.length) => ?_)
    (fun before after known => ?_) ⟨sound, alive, rfl⟩
  · obtain ⟨sound, alive, count⟩ := known
    by_cases moves : ∃ next, (serverMachine blocks base).Step allowed state next
    · exact .inr moves
    · refine .inl (ends state sound alive count fun action permitted => ?_)
      by_contra some
      obtain ⟨next, taken⟩ := Option.ne_none_iff_exists'.mp some
      exact moves ⟨next, action, permitted, taken⟩
  · obtain ⟨sound, alive, count⟩ := known
    rintro ⟨action, permitted, taken⟩
    obtain ⟨nearer, killed, length⟩ := sound.ok.falls (calmly _ _ permitted) taken
    exact ⟨⟨sound.step taken, killed.trans alive, length.trans count⟩, nearer⟩

theorem calm_of_silent (state : Server) (action : ServerAction)
    (permitted : silent state action) : calm state action := by
  cases action with
  | answer => trivial
  | _ => exact permitted

/-- The server does with its pool what the proxy does with its sockets, and a task that has begun
and is not over is on a worker of its own. Unless a write has raised `SIGPIPE`, every connection
that was accepted is served once the clients, the resolver and the origins do their part; until they
do, the server comes to serve them all or to workers that are held in calls. -/
theorem server_serves (other : NoSockets base)
    (reach : (serverMachine blocks base).Reachable .free server) :
    (socketMachine blocks base).Reachable .free server.sockets ∧
      (∀ (ticket : ℕ) (position : Position), server.sockets.tasks[ticket]? = some position →
        position.inService = true → ∃ id, server.pool.body id = some ticket) ∧
      (server.sockets.killed = false →
        (serverMachine blocks base).Inevitable calm
            (Server.Served base server.sockets.tasks.length) server ∧
          (serverMachine blocks base).Inevitable silent
            (fun state => state.Served base server.sockets.tasks.length ∨ state.Stalled)
            server) := by
  have sound := sound_of_reachable reach
  have served {state : Server} (known : state.Sound blocks base)
      (alive : state.sockets.killed = false)
      (count : state.sockets.tasks.length = server.sockets.tasks.length)
      (still : ∀ action, silent state action → state.step blocks action = none)
      (free : ∀ id, state.pool.body id = none) :
      state.Served base server.sockets.tasks.length := by
    rw [← count]
    exact Server.served_of_closed other known.reach
      (Server.closed_of_still known.ok alive still free)
      (Server.main_of_still known.ok alive still).1
      (Server.parked_of_still known.ok alive still free)
  refine ⟨sound.reach, sound.ok.serving, fun alive =>
    ⟨sound.inevitable alive (fun _ _ => id) ?_, sound.inevitable alive calm_of_silent ?_⟩⟩
  · intro state known alive count still
    have quiet (action : ServerAction) (permitted : silent state action) :
        state.step blocks action = none := still action (calm_of_silent state action permitted)
    refine served known alive count quiet fun id => ?_
    refine Option.eq_none_iff_forall_not_mem.mpr fun ticket running => ?_
    have blocked : state.step blocks (.answer ticket) = none := still (.answer ticket) trivial
    rw [Server.step, if_neg (by rw [alive]; exact Bool.false_ne_true)] at blocked
    simp only [Server.answerStep, Server.held_of_still known.ok alive quiet running,
      if_true] at blocked
    cases blocked
  · intro state known alive count still
    by_cases free : ∀ id, state.pool.body id = none
    · exact .inl (served known alive count still free)
    · push Not at free
      obtain ⟨id, busy⟩ := free
      obtain ⟨ticket, running⟩ := Option.ne_none_iff_exists'.mp busy
      exact .inr ⟨(Server.main_of_still known.ok alive still).1, ⟨id, ticket, running⟩,
        fun _ _ => Server.held_of_still known.ok alive still,
        Server.begun_or_busy_of_still known.ok alive still⟩

end Runs

/-- The server before its first connection. -/
def Server.listening : Server := ⟨.accept, ThreadPool.construct 16 Unit, Proxy.listening, []⟩

/-- A connection goes to the first worker, which looks it up in the cache while another client
connects. -/
def servingRun : List ServerAction :=
  .accept (ascii "1.2.3.4") cacheableGet :: .answer 0 :: List.replicate 4 .schedule ++
    List.replicate 8 .dispatcher ++ List.replicate 4 (.worker 0 (.run 0)) ++
      [.accept (ascii "1.2.3.5") []]

theorem servingRun_finishes :
    ((serverMachine (fun _ => false) standardTable).exec .free Server.listening
      servingRun).isSome = true := by
  decide +kernel

/-- The server after `servingRun`. -/
def servingEnd : Server :=
  ((serverMachine (fun _ => false) standardTable).exec .free Server.listening servingRun).get
    servingRun_finishes

theorem server_serves_two : servingEnd.sockets.tasks.map Position.inService = [true, false] ∧
    ∃ last, (serverMachine (fun _ => false) standardTable).Leads calm servingEnd last ∧
      last.Served standardTable 2 := by
  have start : (serverMachine (fun _ => false) standardTable).start Server.listening :=
    ⟨rfl, rfl, ⟨rfl, rfl, rfl, rfl, fun _ => rfl, rfl, rfl, rfl⟩, rfl⟩
  have reach : (serverMachine (fun _ => false) standardTable).Reachable .free servingEnd :=
    .of_exec start servingRun servingRun_finishes
  have alive : servingEnd.sockets.killed = false := by decide +kernel
  have two : servingEnd.sockets.tasks.length = 2 := by decide +kernel
  obtain ⟨last, leads, served⟩ :=
    ((server_serves noSockets_standardTable reach).2.2 alive).1.exists_leads
  exact ⟨by decide +kernel, last, leads, two ▸ served⟩

end Proxy
end Syscore
