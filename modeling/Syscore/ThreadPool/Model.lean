import Mathlib.Data.List.FinRange
import Syscore.Library.Interleaving

/-!
# The thread pool

`schedule()`, `dispatcher()`, `worker(id)`, `wait()` and `~ThreadPool()` as interleaved threads.
One step is one lock-protected region, one semaphore operation or one read of `done`. The condition
variable `allDone` is explicit: a waiter that finds `outstanding` nonzero sleeps until it is
notified or wakes spuriously, and then tests the predicate again. Every call of `schedule()` gets a
ticket when it increments `outstanding`; tickets stand for the thunks, and the history of a run
records what happened to them.
-/

namespace Syscore
namespace ThreadPool

/-- The serial number of a `schedule()` call, given out at its increment of `outstanding`. -/
abbrev Ticket := ℕ

/-- Positions in `schedule(thunk)`, named by the next atomic region. -/
inductive SchedulePc
  /-- Before the `outstandingLock` region. -/
  | increment
  /-- Before the `queueLock` region. -/
  | push (thunk : Ticket)
  /-- Before `queued.signal()`. -/
  | signal (thunk : Ticket)
  deriving DecidableEq

/-- Positions in `wait()`. -/
inductive WaitPc
  /-- About to test `outstanding == 0` under `outstandingLock`. -/
  | check
  /-- Blocked on `allDone`. -/
  | asleep
  deriving DecidableEq

/-- A pool call in progress on a client thread or inside a running thunk. -/
inductive Call
  | schedule (pc : SchedulePc)
  /-- History: `since` tickets had been given out when this `wait()` began. -/
  | wait (pc : WaitPc) (since : ℕ)
  deriving DecidableEq

/-- The two entry points of the pool. -/
inductive Entry
  | schedule
  | wait
  deriving DecidableEq

/-- The members of `ThreadPool` that its threads share, and the history of the run. -/
structure Pool where
  /-- Scheduled, not yet dispatched. -/
  tasks : List Ticket
  /-- Semaphore counting entries of `tasks`. -/
  queued : ℕ
  /-- Semaphore counting idle workers. -/
  availableWorkers : ℕ
  /-- Scheduled but not yet completed. -/
  outstanding : ℕ
  done : Bool
  /-- History: for every ticket, the thunk whose body made the call, if any. -/
  scheduledBy : List (Option Ticket)
  /-- History: thunks in the order they entered `tasks`. -/
  pushed : List Ticket
  /-- History: thunks in the order they left `tasks`. -/
  popped : List Ticket
  /-- History: thunks whose call returned. -/
  completed : List Ticket
  /-- History: thunks whose worker has decremented `outstanding`. -/
  retired : List Ticket
  deriving DecidableEq

/-- The number of tickets given out. -/
def Pool.issued (pool : Pool) : ℕ := pool.scheduledBy.length

/-- One atomic region of `schedule(thunk)`, with the next position or `none` on return. -/
def scheduleStep (caller : Option Ticket) (pool : Pool) : SchedulePc → Pool × Option SchedulePc
  | .increment =>
      ({ pool with
          outstanding := pool.outstanding + 1
          scheduledBy := pool.scheduledBy ++ [caller] },
        some (.push pool.issued))
  | .push thunk =>
      ({ pool with tasks := pool.tasks ++ [thunk], pushed := pool.pushed ++ [thunk] },
        some (.signal thunk))
  | .signal _ => ({ pool with queued := pool.queued + 1 }, none)

/-- One atomic region of `wait()`: a sleeper has no step of its own. -/
def waitStep (pool : Pool) : WaitPc → Option (Option WaitPc)
  | .check => if pool.outstanding = 0 then some none else some (some .asleep)
  | .asleep => none

/-- Begin a call. -/
def Entry.begin (entry : Entry) (pool : Pool) : Call :=
  match entry with
  | .schedule => .schedule .increment
  | .wait => .wait .check pool.issued

/-- One atomic region of a call in progress. -/
def callStep (caller : Option Ticket) (pool : Pool) : Call → Option (Pool × Option Call)
  | .schedule pc =>
      let moved := scheduleStep caller pool pc
      some (moved.1, moved.2.map .schedule)
  | .wait pc since => (waitStep pool pc).map fun next => (pool, next.map (.wait · since))

/-- Positions in `worker(id)`. -/
inductive WorkerPc
  /-- At `wts[id]->ready.wait()`. -/
  | ready
  /-- Past the semaphore, before `if (done) break`. -/
  | checkDone
  /-- Inside `wts[id]->thunk()`, possibly within a pool call that the thunk makes. -/
  | running (thunk : Ticket) (call : Option Call)
  /-- Before the `availLock` region. -/
  | publish (thunk : Ticket)
  /-- Before `availableWorkers.signal()`. -/
  | signalAvailable (thunk : Ticket)
  /-- Before the `outstandingLock` region. -/
  | decrement (thunk : Ticket)
  | exited
  deriving DecidableEq

/-- `worker_t`, with the position of its thread. -/
structure Worker where
  ready : ℕ
  thunk : Option Ticket
  available : Bool
  pc : WorkerPc
  /-- History: `thunk` was written and the call of it has not returned. -/
  assigned : Bool
  deriving DecidableEq

/-- Positions in `dispatcher()`. -/
inductive DispatcherPc (numThreads : ℕ)
  | waitQueued
  /-- Past `queued.wait()`, before the first `if (done) break`. -/
  | checkQueued
  | waitAvailable
  /-- Past `availableWorkers.wait()`, before the second `if (done) break`. -/
  | checkAvailable
  | scan
  | pop (id : Fin numThreads)
  /-- The local `thunk` holds a popped task. -/
  | assign (id : Fin numThreads) (thunk : Ticket)
  | signalReady (id : Fin numThreads)
  | exited
  deriving DecidableEq

/-- Positions in `~ThreadPool()`. -/
inductive DestructorPc (numThreads : ℕ)
  /-- The destructor has not been called. -/
  | idle
  | wait (pc : WaitPc) (since : ℕ)
  | setDone
  | signalQueued
  | signalAvailable
  | joinDispatcher
  /-- Head of the loop over `wts`. -/
  | reap (index : ℕ)
  | joinWorker (id : Fin numThreads)
  | returned
  deriving DecidableEq

/-- A pool with its dispatcher, its workers, its clients and its destructor. -/
structure State (numThreads : ℕ) (Client : Type) where
  pool : Pool
  workers : Fin numThreads → Worker
  dispatcher : DispatcherPc numThreads
  /-- The call that each client thread is in, if any. -/
  clients : Client → Option Call
  destructor : DestructorPc numThreads

/-- A thread that can be inside `wait()`. -/
inductive Waiter (numThreads : ℕ) (Client : Type)
  | client (client : Client)
  | worker (id : Fin numThreads)
  | destructor

/-- Who moves, and what the callers decide. -/
inductive Action (numThreads : ℕ) (Client : Type)
  /-- The next region of the dispatcher. -/
  | dispatcher
  /-- The next region of a worker: of the call its thunk is in, or the thunk's return. -/
  | worker (id : Fin numThreads)
  /-- The next region of the call a client is in. -/
  | client (client : Client)
  /-- The next region of the destructor. -/
  | destructor
  /-- The thunk on a worker calls the pool. -/
  | thunkCalls (id : Fin numThreads) (entry : Entry)
  /-- A client calls the pool. -/
  | clientCalls (client : Client) (entry : Entry)
  /-- The owner calls `~ThreadPool()`. -/
  | destroy
  /-- A sleeper on `allDone` wakes without a notification. -/
  | spuriousWake (waiter : Waiter numThreads Client)

/-- A thread moves by itself, without a new call and without a spurious wakeup. -/
def Action.internal {numThreads : ℕ} {Client : Type} : Action numThreads Client → Bool
  | .dispatcher | .worker _ | .client _ | .destructor => true
  | .thunkCalls _ _ | .clientCalls _ _ | .destroy | .spuriousWake _ => false

/-- A call after `allDone` is notified. -/
def Call.wake : Call → Call
  | .wait .asleep since => .wait .check since
  | call => call

/-- A worker after `allDone` is notified. -/
def Worker.wake (worker : Worker) : Worker :=
  match worker.pc with
  | .running thunk call => { worker with pc := .running thunk (call.map Call.wake) }
  | _ => worker

namespace DestructorPc

/-- The destructor after `allDone` is notified. -/
def wake {numThreads : ℕ} : DestructorPc numThreads → DestructorPc numThreads
  | .wait _ since => .wait .check since
  | pc => pc

end DestructorPc

section Steps

variable {numThreads : ℕ} {Client : Type}

namespace State

/-- Replace one worker. -/
def setWorker (state : State numThreads Client) (id : Fin numThreads) (worker : Worker) :
    State numThreads Client :=
  { state with workers := Function.update state.workers id worker }

/-- `allDone.notify_all()`. -/
def notifyAll (state : State numThreads Client) : State numThreads Client :=
  { state with
    workers := fun id => (state.workers id).wake
    clients := fun client => (state.clients client).map Call.wake
    destructor := state.destructor.wake }

/-- The ticket count at which a waiter began its `wait()`, if it is inside one. -/
def waiting (state : State numThreads Client) : Waiter numThreads Client → Option ℕ
  | .client client =>
      match state.clients client with
      | some (.wait _ since) => some since
      | _ => none
  | .worker id =>
      match (state.workers id).pc with
      | .running _ (some (.wait _ since)) => some since
      | _ => none
  | .destructor =>
      match state.destructor with
      | .wait _ since => some since
      | _ => none

end State

/-- The scan of `wts` under `availLock`. -/
def firstAvailable (workers : Fin numThreads → Worker) : Option (Fin numThreads) :=
  (List.finRange numThreads).find? fun id => (workers id).available

/-- The next region of `dispatcher()`. -/
def dispatcherStep [NeZero numThreads] (state : State numThreads Client) :
    Option (State numThreads Client) :=
  match state.dispatcher with
  | .waitQueued =>
      if 0 < state.pool.queued then
        some
          { state with
            pool := { state.pool with queued := state.pool.queued - 1 }
            dispatcher := .checkQueued }
      else
        none
  | .checkQueued =>
      some { state with dispatcher := if state.pool.done then .exited else .waitAvailable }
  | .waitAvailable =>
      if 0 < state.pool.availableWorkers then
        some
          { state with
            pool := { state.pool with availableWorkers := state.pool.availableWorkers - 1 }
            dispatcher := .checkAvailable }
      else
        none
  | .checkAvailable =>
      some { state with dispatcher := if state.pool.done then .exited else .scan }
  | .scan =>
      match firstAvailable state.workers with
      | some id =>
          some
            { state.setWorker id { state.workers id with available := false } with
              dispatcher := .pop id }
      -- the scan found nobody and `size_t id = 0` stands
      | none => some { state with dispatcher := .pop 0 }
  | .pop id =>
      match state.pool.tasks with
      -- `front()` of an empty queue is undefined
      | [] => none
      | thunk :: rest =>
          some
            { state with
              pool := { state.pool with tasks := rest, popped := state.pool.popped ++ [thunk] }
              dispatcher := .assign id thunk }
  | .assign id thunk =>
      some
        { state.setWorker id { state.workers id with thunk := some thunk, assigned := true } with
          dispatcher := .signalReady id }
  | .signalReady id =>
      some
        { state.setWorker id
            { state.workers id with ready := (state.workers id).ready + 1 } with
          dispatcher := .waitQueued }
  | .exited => none

/-- The next region of `worker(id)`. -/
def workerStep (state : State numThreads Client) (id : Fin numThreads) :
    Option (State numThreads Client) :=
  let worker := state.workers id
  match worker.pc with
  | .ready =>
      if 0 < worker.ready then
        some (state.setWorker id { worker with ready := worker.ready - 1, pc := .checkDone })
      else
        none
  | .checkDone =>
      if state.pool.done then
        some (state.setWorker id { worker with pc := .exited })
      else
        match worker.thunk with
        | some thunk => some (state.setWorker id { worker with pc := .running thunk none })
        -- an empty `std::function` throws
        | none => none
  | .running thunk none =>
      some
        { state.setWorker id { worker with pc := .publish thunk, assigned := false } with
          pool := { state.pool with completed := state.pool.completed ++ [thunk] } }
  | .running thunk (some call) =>
      (callStep (some thunk) state.pool call).map fun (pool, next) =>
        { state.setWorker id { worker with pc := .running thunk next } with pool }
  | .publish thunk =>
      some (state.setWorker id { worker with available := true, pc := .signalAvailable thunk })
  | .signalAvailable thunk =>
      some
        { state.setWorker id { worker with pc := .decrement thunk } with
          pool := { state.pool with availableWorkers := state.pool.availableWorkers + 1 } }
  | .decrement thunk =>
      let decremented : State numThreads Client :=
        { state.setWorker id { worker with pc := .ready } with
          pool :=
            { state.pool with
              outstanding := state.pool.outstanding - 1
              retired := state.pool.retired ++ [thunk] } }
      some (if state.pool.outstanding - 1 = 0 then decremented.notifyAll else decremented)
  | .exited => none

/-- The next region of the call that a client is in. -/
def clientStep [DecidableEq Client] (state : State numThreads Client) (client : Client) :
    Option (State numThreads Client) :=
  match state.clients client with
  | some call =>
      (callStep none state.pool call).map fun (pool, next) =>
        { state with pool, clients := Function.update state.clients client next }
  | none => none

/-- The next region of `~ThreadPool()`. -/
def destructorStep (state : State numThreads Client) : Option (State numThreads Client) :=
  match state.destructor with
  | .idle => none
  | .wait pc since =>
      (waitStep state.pool pc).map fun
        | some next => { state with destructor := .wait next since }
        | none => { state with destructor := .setDone }
  | .setDone =>
      some { state with pool := { state.pool with done := true }, destructor := .signalQueued }
  | .signalQueued =>
      some
        { state with
          pool := { state.pool with queued := state.pool.queued + 1 }
          destructor := .signalAvailable }
  | .signalAvailable =>
      some
        { state with
          pool := { state.pool with availableWorkers := state.pool.availableWorkers + 1 }
          destructor := .joinDispatcher }
  | .joinDispatcher =>
      if state.dispatcher = .exited then some { state with destructor := .reap 0 } else none
  | .reap index =>
      if bound : index < numThreads then
        some
          { state.setWorker ⟨index, bound⟩
              { state.workers ⟨index, bound⟩ with
                ready := (state.workers ⟨index, bound⟩).ready + 1 } with
            destructor := .joinWorker ⟨index, bound⟩ }
      else
        some { state with destructor := .returned }
  | .joinWorker id =>
      if (state.workers id).pc = .exited then
        some { state with destructor := .reap (id + 1) }
      else
        none
  | .returned => none

/-- A spurious wakeup of one sleeper. -/
def wakeStep [DecidableEq Client] (state : State numThreads Client) :
    Waiter numThreads Client → Option (State numThreads Client)
  | .client client =>
      some
        { state with
          clients :=
            Function.update state.clients client ((state.clients client).map Call.wake) }
  | .worker id => some (state.setWorker id (state.workers id).wake)
  | .destructor => some { state with destructor := state.destructor.wake }

/-- One step of the pool. -/
def step [NeZero numThreads] [DecidableEq Client] (state : State numThreads Client) :
    Action numThreads Client → Option (State numThreads Client)
  | .dispatcher => dispatcherStep state
  | .worker id => workerStep state id
  | .client client => clientStep state client
  | .destructor => destructorStep state
  | .thunkCalls id entry =>
      match (state.workers id).pc with
      | .running thunk none =>
          some
            (state.setWorker id
              { state.workers id with pc := .running thunk (some (entry.begin state.pool)) })
      | _ => none
  | .clientCalls client entry =>
      match state.clients client with
      | none =>
          some
            { state with
              clients :=
                Function.update state.clients client (some (entry.begin state.pool)) }
      | some _ => none
  | .destroy =>
      match state.destructor with
      | .idle => some { state with destructor := .wait .check state.pool.issued }
      | _ => none
  | .spuriousWake waiter => wakeStep state waiter

end Steps

/-- The pool that `ThreadPool(numThreads)` leaves: one `availableWorkers.signal()` per worker. -/
def construct (numThreads : ℕ) (Client : Type) : State numThreads Client where
  pool :=
    { tasks := []
      queued := 0
      availableWorkers := (List.range numThreads).foldl (fun value _ => value + 1) 0
      outstanding := 0
      done := false
      scheduledBy := []
      pushed := []
      popped := []
      completed := []
      retired := [] }
  workers _ := { ready := 0, thunk := none, available := true, pc := .ready, assigned := false }
  dispatcher := .waitQueued
  clients _ := none
  destructor := .idle

/-- The pool as a machine. -/
def machine (numThreads : ℕ) (Client : Type) [NeZero numThreads] [DecidableEq Client] :
    Machine (State numThreads Client) (Action numThreads Client) where
  start state := state = construct numThreads Client
  step := step

end ThreadPool
end Syscore
