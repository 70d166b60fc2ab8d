import Syscore.Proxy.Service

/-!
# Requests of a run

In a run whose clients come from given addresses and send given streams, every task and every event
of the log carries a request that `parse` yields for one of these streams.
-/

namespace Syscore
namespace Proxy

section Clients

variable (addresses : Text → Prop) (streams : List Chunk → Prop)

/-- The runs in which clients connect from these addresses and send these streams. -/
def clients : Discipline State Action
  | _, .accept clientIP incoming => addresses clientIP ∧ streams incoming
  | _, _ => True

/-- A request with a host, parsed from one of the streams. -/
def RequestOf (req : HTTPRequest) : Prop :=
  req.target.host ≠ [] ∧
    ∃ incoming rest, streams incoming ∧ HTTPRequest.parse ⟨[], incoming⟩ = some (req, rest)

/-- The task serves one of the clients. -/
def Task.Served : Task → Prop
  | .accepted clientIP incoming => addresses clientIP ∧ streams incoming
  | .lookup clientIP req => addresses clientIP ∧ RequestOf streams req
  | .connect clientIP req => addresses clientIP ∧ RequestOf streams req
  | .receive clientIP req => addresses clientIP ∧ RequestOf streams req
  | .store .. => True
  | .respond _ => True
  | .closed => True

/-- The event belongs to one of the clients. -/
def Event.Served : Event → Prop
  | .lookup _ key _ _ =>
      ∃ req, RequestOf streams req ∧ req.method = ascii "GET" ∧ cacheKey req = key
  | .forward _ data => ∃ clientIP req, addresses clientIP ∧ RequestOf streams req ∧
      data = (req.prepare clientIP).serialize
  | .ingest _ clientIP req _ => addresses clientIP ∧ RequestOf streams req
  | .store .. => True
  | .write .. => True

/-- Tasks and events belong to the clients; only a GET is looked up. -/
structure Served (state : State) : Prop where
  tasks : ∀ task ∈ state.tasks, task.Served addresses streams
  lookups : ∀ clientIP req, .lookup clientIP req ∈ state.tasks → req.method = ascii "GET"
  log : ∀ event ∈ state.log, event.Served addresses streams

end Clients

variable {addresses : Text → Prop} {streams : List Chunk → Prop} {state : State}

namespace Served

/-- A task moves on, without or after an event. -/
theorem move (served : Served addresses streams state) {log : List Event}
    (logged : ∀ event ∈ log, event.Served addresses streams) {task : Task}
    (own : task.Served addresses streams)
    (get : ∀ clientIP req, task = .lookup clientIP req → req.method = ascii "GET") (id : ℕ)
    (now : ℤ) (entries : HTTPCache) :
    Served addresses streams
      (State.move { now, entries, tasks := state.tasks, log } id task) := by
  refine ⟨fun other inside => ?_, fun clientIP req inside => ?_, logged⟩
  · rcases List.mem_or_eq_of_mem_set inside with before | rfl
    · exact served.tasks other before
    · exact own
  · rcases List.mem_or_eq_of_mem_set inside with before | here
    · exact served.lookups clientIP req before
    · exact get clientIP req here.symm

theorem log_cons (served : Served addresses streams state) (event : Event)
    (own : event.Served addresses streams) :
    ∀ event' ∈ event :: state.log, event'.Served addresses streams :=
  List.forall_mem_cons.mpr ⟨own, served.log⟩

theorem parseStep (served : Served addresses streams state) (blocks : Text → Bool) {id : ℕ}
    {clientIP : Text} {incoming : List Chunk}
    (accepted : .accepted clientIP incoming ∈ state.tasks) :
    Served addresses streams (Proxy.parseStep blocks state id clientIP incoming) := by
  obtain ⟨address, stream⟩ := served.tasks _ accepted
  have answer {task : Task} (own : task.Served addresses streams)
      (get : ∀ clientIP req, task = .lookup clientIP req → req.method = ascii "GET") :=
    served.move served.log own get id state.now state.entries
  rw [Proxy.parseStep]
  split
  · exact answer trivial (by simp)
  · rename_i req rest parsed
    by_cases noHost : req.target.host = []
    · rw [if_pos noHost]
      exact answer trivial (by simp)
    · have own : RequestOf streams req := ⟨noHost, incoming, rest, stream, parsed⟩
      rw [if_neg noHost]
      split
      · exact answer trivial (by simp)
      · split
        · rename_i get
          refine answer ⟨address, own⟩ fun _ _ same => ?_
          obtain ⟨_, rfl⟩ := Task.lookup.inj same
          exact get
        · exact answer ⟨address, own⟩ (by simp)

theorem lookupStep (served : Served addresses streams state) {id : ℕ} {clientIP : Text}
    {req : HTTPRequest} (looking : .lookup clientIP req ∈ state.tasks) :
    Served addresses streams (Proxy.lookupStep state id clientIP req) := by
  have own := served.tasks _ looking
  have logged (result : Option Text) :=
    served.log_cons (.lookup id (cacheKey req) state.now result)
      ⟨req, own.2, served.lookups clientIP req looking, rfl⟩
  simp only [Proxy.lookupStep]
  split
  · exact served.move (logged _) (by exact trivial) (by simp) id _ _
  · have connecting : Task.Served addresses streams (.connect clientIP req) := own
    exact served.move (logged _) connecting (by simp) id _ _

theorem connectStep (served : Served addresses streams state) {id : ℕ} {clientIP : Text}
    {req : HTTPRequest} (connecting : .connect clientIP req ∈ state.tasks)
    (outcome : Connection) :
    Served addresses streams (Proxy.connectStep state id clientIP req outcome) := by
  have own := served.tasks _ connecting
  cases outcome with
  | unreachable => exact served.move served.log (by exact trivial) (by simp) id _ _
  | writeFailed => exact served.move served.log (by exact trivial) (by simp) id _ _
  | sent =>
      have receiving : Task.Served addresses streams (.receive clientIP req) := own
      have logged := served.log_cons (.forward id (req.prepare clientIP).serialize)
        ⟨clientIP, req, own.1, own.2, rfl⟩
      exact served.move logged receiving (by simp) id _ _

theorem receiveStep (served : Served addresses streams state) {id : ℕ} {clientIP : Text}
    {req : HTTPRequest} (receiving : .receive clientIP req ∈ state.tasks)
    (incoming : List Chunk) :
    Served addresses streams (Proxy.receiveStep state id clientIP req incoming) := by
  have own := served.tasks _ receiving
  have logged (resp : HTTPResponse) :=
    served.log_cons (.ingest id clientIP req resp) own
  simp only [Proxy.receiveStep]
  split
  · exact served.move (logged _) (by exact trivial) (by simp) id _ _
  · exact served.move (logged _) (by exact trivial) (by simp) id _ _

theorem accept (served : Served addresses streams state) {clientIP : Text}
    {incoming : List Chunk} (address : addresses clientIP) (stream : streams incoming) :
    Served addresses streams
      { state with tasks := state.tasks ++ [.accepted clientIP incoming] } := by
  refine ⟨fun task inside => ?_, fun clientIP req inside => ?_, served.log⟩
  · rcases List.mem_append.mp inside with before | here
    · exact served.tasks task before
    · rw [List.mem_singleton.mp here]
      exact ⟨address, stream⟩
  · rcases List.mem_append.mp inside with before | here
    · exact served.lookups clientIP req before
    · cases List.mem_singleton.mp here

/-- Every step serves the clients. -/
theorem step {blocks : Text → Bool} (served : Served addresses streams state) {action : Action}
    (allowed : clients addresses streams state action) {next : State}
    (stepped : Proxy.step blocks state action = some next) : Served addresses streams next := by
  cases move_of_step stepped with
  | accept clientIP incoming => exact served.accept allowed.1 allowed.2
  | tick elapsed => exact { served with }
  | parse at_id => exact served.parseStep blocks (List.mem_of_getElem? at_id)
  | lookup at_id => exact served.lookupStep (List.mem_of_getElem? at_id)
  | store _ | respond _ =>
      exact served.move (served.log_cons _ (by exact trivial)) (by exact trivial) (by simp) _ _ _
  | connect outcome at_id => exact served.connectStep (List.mem_of_getElem? at_id) outcome
  | receive incoming at_id => exact served.receiveStep (List.mem_of_getElem? at_id) incoming

end Served

theorem served_of_reachable {blocks : Text → Bool}
    (reach : (machine blocks).Reachable (clients addresses streams) state) :
    Served addresses streams state := by
  refine reach.invariant (Served addresses streams) (fun state start => ?_)
    fun _ _ _ served allowed stepped => served.step allowed stepped
  obtain ⟨_, noTask, noEvent⟩ := start
  refine ⟨?_, ?_, ?_⟩
  · rw [noTask]
    exact List.forall_mem_nil _
  · rw [noTask]
    exact fun _ _ inside => absurd inside List.not_mem_nil
  · rw [noEvent]
    exact List.forall_mem_nil _

end Proxy
end Syscore
