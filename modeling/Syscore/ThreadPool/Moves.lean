import Syscore.ThreadPool.Model

/-!
# The moves of the threads

What a region of the dispatcher, of a worker and of the destructor can do, said once.
-/

namespace Syscore
namespace ThreadPool

variable {numThreads : ℕ} {Client : Type} {state after : State numThreads Client}

/-- The moves of the dispatcher. -/
inductive DispatcherMove [NeZero numThreads] (state : State numThreads Client) :
    State numThreads Client → Prop
  | takeQueued (pc : state.dispatcher = .waitQueued) (token : 0 < state.pool.queued) :
      DispatcherMove state
        { state with
          pool := { state.pool with queued := state.pool.queued - 1 }
          dispatcher := .checkQueued }
  | quitQueued (pc : state.dispatcher = .checkQueued) (done : state.pool.done = true) :
      DispatcherMove state { state with dispatcher := .exited }
  | continueQueued (pc : state.dispatcher = .checkQueued) (running : state.pool.done = false) :
      DispatcherMove state { state with dispatcher := .waitAvailable }
  | takeAvailable (pc : state.dispatcher = .waitAvailable)
      (token : 0 < state.pool.availableWorkers) :
      DispatcherMove state
        { state with
          pool := { state.pool with availableWorkers := state.pool.availableWorkers - 1 }
          dispatcher := .checkAvailable }
  | quitAvailable (pc : state.dispatcher = .checkAvailable) (done : state.pool.done = true) :
      DispatcherMove state { state with dispatcher := .exited }
  | continueAvailable (pc : state.dispatcher = .checkAvailable)
      (running : state.pool.done = false) :
      DispatcherMove state { state with dispatcher := .scan }
  | claim {id : Fin numThreads} (pc : state.dispatcher = .scan)
      (found : firstAvailable state.workers = some id) :
      DispatcherMove state
        { state.setWorker id { state.workers id with available := false } with
          dispatcher := .pop id }
  | claimNobody (pc : state.dispatcher = .scan) (nobody : firstAvailable state.workers = none) :
      DispatcherMove state { state with dispatcher := .pop 0 }
  | pop {id : Fin numThreads} {thunk : Ticket} {rest : List Ticket}
      (pc : state.dispatcher = .pop id) (front : state.pool.tasks = thunk :: rest) :
      DispatcherMove state
        { state with
          pool := { state.pool with tasks := rest, popped := state.pool.popped ++ [thunk] }
          dispatcher := .assign id thunk }
  | assign {id : Fin numThreads} {thunk : Ticket} (pc : state.dispatcher = .assign id thunk) :
      DispatcherMove state
        { state.setWorker id { state.workers id with thunk := some thunk, assigned := true } with
          dispatcher := .signalReady id }
  | signalReady {id : Fin numThreads} (pc : state.dispatcher = .signalReady id) :
      DispatcherMove state
        { state.setWorker id { state.workers id with ready := (state.workers id).ready + 1 } with
          dispatcher := .waitQueued }

/-- The moves of a worker; the last decrement notifies the sleepers. -/
inductive WorkerMove (state : State numThreads Client) (id : Fin numThreads) :
    State numThreads Client → Prop
  | takeReady (pc : (state.workers id).pc = .ready) (token : 0 < (state.workers id).ready) :
      WorkerMove state id
        (state.setWorker id
          { state.workers id with ready := (state.workers id).ready - 1, pc := .checkDone })
  | quit (pc : (state.workers id).pc = .checkDone) (done : state.pool.done = true) :
      WorkerMove state id (state.setWorker id { state.workers id with pc := .exited })
  | start {thunk : Ticket} (pc : (state.workers id).pc = .checkDone)
      (running : state.pool.done = false) (slot : (state.workers id).thunk = some thunk) :
      WorkerMove state id
        (state.setWorker id { state.workers id with pc := .running thunk none })
  | complete {thunk : Ticket} (pc : (state.workers id).pc = .running thunk none) :
      WorkerMove state id
        { state.setWorker id { state.workers id with pc := .publish thunk, assigned := false } with
          pool := { state.pool with completed := state.pool.completed ++ [thunk] } }
  | call {thunk : Ticket} {call : Call} {pool : Pool} {next : Option Call}
      (pc : (state.workers id).pc = .running thunk (some call))
      (moved : callStep (some thunk) state.pool call = some (pool, next)) :
      WorkerMove state id
        { state.setWorker id { state.workers id with pc := .running thunk next } with pool }
  | publish {thunk : Ticket} (pc : (state.workers id).pc = .publish thunk) :
      WorkerMove state id
        (state.setWorker id
          { state.workers id with available := true, pc := .signalAvailable thunk })
  | signalAvailable {thunk : Ticket} (pc : (state.workers id).pc = .signalAvailable thunk) :
      WorkerMove state id
        { state.setWorker id { state.workers id with pc := .decrement thunk } with
          pool := { state.pool with availableWorkers := state.pool.availableWorkers + 1 } }
  | decrement {thunk : Ticket} {decremented : State numThreads Client}
      (pc : (state.workers id).pc = .decrement thunk)
      (shape : decremented =
        { state.setWorker id { state.workers id with pc := .ready } with
          pool :=
            { state.pool with
              outstanding := state.pool.outstanding - 1
              retired := state.pool.retired ++ [thunk] } }) :
      WorkerMove state id
        (if state.pool.outstanding - 1 = 0 then decremented.notifyAll else decremented)

/-- The moves of the destructor. -/
inductive DestructorMove (state : State numThreads Client) : State numThreads Client → Prop
  | sleep {since : ℕ} (pc : state.destructor = .wait .check since)
      (pending : state.pool.outstanding ≠ 0) :
      DestructorMove state { state with destructor := .wait .asleep since }
  | drained {since : ℕ} (pc : state.destructor = .wait .check since)
      (zero : state.pool.outstanding = 0) :
      DestructorMove state { state with destructor := .setDone }
  | setDone (pc : state.destructor = .setDone) :
      DestructorMove state
        { state with pool := { state.pool with done := true }, destructor := .signalQueued }
  | signalQueued (pc : state.destructor = .signalQueued) :
      DestructorMove state
        { state with
          pool := { state.pool with queued := state.pool.queued + 1 }
          destructor := .signalAvailable }
  | signalAvailable (pc : state.destructor = .signalAvailable) :
      DestructorMove state
        { state with
          pool := { state.pool with availableWorkers := state.pool.availableWorkers + 1 }
          destructor := .joinDispatcher }
  | joinDispatcher (pc : state.destructor = .joinDispatcher)
      (exited : state.dispatcher = .exited) :
      DestructorMove state { state with destructor := .reap 0 }
  | reap {index : ℕ} (pc : state.destructor = .reap index) (bound : index < numThreads) :
      DestructorMove state
        { state.setWorker ⟨index, bound⟩
            { state.workers ⟨index, bound⟩ with
              ready := (state.workers ⟨index, bound⟩).ready + 1 } with
          destructor := .joinWorker ⟨index, bound⟩ }
  | reaped {index : ℕ} (pc : state.destructor = .reap index) (outside : ¬ index < numThreads) :
      DestructorMove state { state with destructor := .returned }
  | joinWorker {id : Fin numThreads} (pc : state.destructor = .joinWorker id)
      (exited : (state.workers id).pc = .exited) :
      DestructorMove state { state with destructor := .reap (id + 1) }

theorem dispatcherMove_of_step [NeZero numThreads] (taken : dispatcherStep state = some after) :
    DispatcherMove state after := by
  rw [dispatcherStep] at taken
  cases pc : state.dispatcher with
  | waitQueued =>
      simp only [pc] at taken
      split at taken
      · rename_i token
        obtain rfl := Option.some.inj taken
        exact .takeQueued pc token
      · cases taken
  | checkQueued =>
      simp only [pc] at taken
      obtain rfl := Option.some.inj taken
      cases done : state.pool.done with
      | true => exact .quitQueued pc done
      | false => exact .continueQueued pc done
  | waitAvailable =>
      simp only [pc] at taken
      split at taken
      · rename_i token
        obtain rfl := Option.some.inj taken
        exact .takeAvailable pc token
      · cases taken
  | checkAvailable =>
      simp only [pc] at taken
      obtain rfl := Option.some.inj taken
      cases done : state.pool.done with
      | true => exact .quitAvailable pc done
      | false => exact .continueAvailable pc done
  | scan =>
      simp only [pc] at taken
      split at taken
      · rename_i found
        obtain rfl := Option.some.inj taken
        exact .claim pc found
      · rename_i nobody
        obtain rfl := Option.some.inj taken
        exact .claimNobody pc nobody
  | pop id =>
      simp only [pc] at taken
      split at taken
      · cases taken
      · rename_i front
        obtain rfl := Option.some.inj taken
        exact .pop pc front
  | assign id thunk =>
      simp only [pc] at taken
      obtain rfl := Option.some.inj taken
      exact .assign pc
  | signalReady id =>
      simp only [pc] at taken
      obtain rfl := Option.some.inj taken
      exact .signalReady pc
  | exited =>
      simp only [pc] at taken
      cases taken

theorem workerMove_of_step {id : Fin numThreads} (taken : workerStep state id = some after) :
    WorkerMove state id after := by
  rw [workerStep] at taken
  cases pc : (state.workers id).pc with
  | ready =>
      simp only [pc] at taken
      split at taken
      · rename_i token
        obtain rfl := Option.some.inj taken
        exact .takeReady pc token
      · cases taken
  | checkDone =>
      simp only [pc] at taken
      split at taken
      · rename_i done
        obtain rfl := Option.some.inj taken
        exact .quit pc done
      · rename_i running
        split at taken
        · rename_i slot
          obtain rfl := Option.some.inj taken
          exact .start pc (Bool.eq_false_iff.mpr running) slot
        · cases taken
  | running thunk call =>
      cases call with
      | none =>
          simp only [pc] at taken
          obtain rfl := Option.some.inj taken
          exact .complete pc
      | some call =>
          simp only [pc] at taken
          obtain ⟨⟨pool, next⟩, moved, rfl⟩ := Option.map_eq_some_iff.mp taken
          exact .call pc moved
  | publish thunk =>
      simp only [pc] at taken
      obtain rfl := Option.some.inj taken
      exact .publish pc
  | signalAvailable thunk =>
      simp only [pc] at taken
      obtain rfl := Option.some.inj taken
      exact .signalAvailable pc
  | decrement thunk =>
      simp only [pc] at taken
      obtain rfl := Option.some.inj taken
      exact .decrement pc rfl
  | exited =>
      simp only [pc] at taken
      cases taken

theorem destructorMove_of_step (taken : destructorStep state = some after) :
    DestructorMove state after := by
  rw [destructorStep] at taken
  cases pc : state.destructor with
  | idle =>
      simp only [pc] at taken
      cases taken
  | wait position since =>
      simp only [pc] at taken
      obtain ⟨next, waited, rfl⟩ := Option.map_eq_some_iff.mp taken
      cases position with
      | check =>
          rw [waitStep] at waited
          split at waited
          · rename_i zero
            obtain rfl := Option.some.inj waited
            exact .drained pc zero
          · rename_i pending
            obtain rfl := Option.some.inj waited
            exact .sleep pc pending
      | asleep => cases waited
  | setDone =>
      simp only [pc] at taken
      obtain rfl := Option.some.inj taken
      exact .setDone pc
  | signalQueued =>
      simp only [pc] at taken
      obtain rfl := Option.some.inj taken
      exact .signalQueued pc
  | signalAvailable =>
      simp only [pc] at taken
      obtain rfl := Option.some.inj taken
      exact .signalAvailable pc
  | joinDispatcher =>
      simp only [pc] at taken
      split at taken
      · rename_i exited
        obtain rfl := Option.some.inj taken
        exact .joinDispatcher pc exited
      · cases taken
  | reap index =>
      simp only [pc] at taken
      split at taken
      · rename_i bound
        obtain rfl := Option.some.inj taken
        exact .reap pc bound
      · rename_i outside
        obtain rfl := Option.some.inj taken
        exact .reaped pc outside
  | joinWorker id =>
      simp only [pc] at taken
      split at taken
      · rename_i exited
        obtain rfl := Option.some.inj taken
        exact .joinWorker pc exited
      · cases taken
  | returned =>
      simp only [pc] at taken
      cases taken

/-! ## Calls that begin -/

section Calls

variable [NeZero numThreads] [DecidableEq Client]

/-- A call of the pool by a thunk is one of a running thunk that is in no other call. -/
theorem thunkCalls_spec {id : Fin numThreads} {entry : Entry}
    (taken : step state (.thunkCalls id entry) = some after) :
    ∃ thunk, (state.workers id).pc = .running thunk none ∧
      after = state.setWorker id
        { state.workers id with pc := .running thunk (some (entry.begin state.pool)) } := by
  simp only [step] at taken
  split at taken
  · rename_i thunk pc
    exact ⟨thunk, pc, (Option.some.inj taken).symm⟩
  · cases taken

theorem clientCalls_spec {client : Client} {entry : Entry}
    (taken : step state (.clientCalls client entry) = some after) :
    state.clients client = none ∧
      after =
        { state with
          clients := Function.update state.clients client (some (entry.begin state.pool)) } := by
  simp only [step] at taken
  split at taken
  · rename_i outside
    exact ⟨outside, (Option.some.inj taken).symm⟩
  · cases taken

theorem destroy_spec (taken : step state .destroy = some after) :
    state.destructor = .idle ∧
      after = { state with destructor := .wait .check state.pool.issued } := by
  simp only [step] at taken
  split at taken
  · rename_i idle
    exact ⟨idle, (Option.some.inj taken).symm⟩
  · cases taken

end Calls

end ThreadPool
end Syscore
