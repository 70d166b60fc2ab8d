import Syscore.Library.Counting
import Syscore.ThreadPool.Frames

/-!
# The semaphores of the pool

What the threads of the pool do to `queued`, to `availableWorkers` and to the `ready` of a worker is
a run of the counting semaphore that `semaphore.h` refines.
-/

namespace Syscore
namespace ThreadPool

open Counting (Request Turn)

/-- The semaphores of a pool. -/
inductive Sem (numThreads : ℕ)
  | queued
  | availableWorkers
  | ready (id : Fin numThreads)

/-- The threads that call them. -/
inductive Caller (numThreads : ℕ) (Client : Type)
  | dispatcher
  | worker (id : Fin numThreads)
  | client (client : Client)
  | destructor

variable {numThreads : ℕ} {Client : Type}

namespace DispatcherPc

/-- The call of a semaphore that the dispatcher is in. -/
def request : DispatcherPc numThreads → Sem numThreads → Option Request
  | .waitQueued, .queued => some .wait
  | .waitAvailable, .availableWorkers => some .wait
  | .signalReady id, .ready other => if other = id then some .signal else none
  | _, _ => none

end DispatcherPc

/-- The call of a semaphore that a call of the pool is in. -/
def Call.request : Call → Sem numThreads → Option Request
  | .schedule (.signal _), .queued => some .signal
  | _, _ => none

/-- The call of a semaphore that a worker is in. -/
def WorkerPc.request (id : Fin numThreads) : WorkerPc → Sem numThreads → Option Request
  | .ready, .ready other => if other = id then some .wait else none
  | .running _ (some call), sem => call.request sem
  | .signalAvailable _, .availableWorkers => some .signal
  | _, _ => none

namespace DestructorPc

/-- The call of a semaphore that the destructor is in. -/
def request : DestructorPc numThreads → Sem numThreads → Option Request
  | .signalQueued, .queued => some .signal
  | .signalAvailable, .availableWorkers => some .signal
  | .reap index, .ready id => if id = index then some .signal else none
  | _, _ => none

end DestructorPc

namespace State

/-- The value of a semaphore. -/
def value (state : State numThreads Client) : Sem numThreads → ℕ
  | .queued => state.pool.queued
  | .availableWorkers => state.pool.availableWorkers
  | .ready id => (state.workers id).ready

/-- The call of a semaphore that a thread is in. -/
def request (state : State numThreads Client) (sem : Sem numThreads) :
    Caller numThreads Client → Option Request
  | .dispatcher => state.dispatcher.request sem
  | .worker id => (state.workers id).pc.request id sem
  | .client client => (state.clients client).bind fun call => call.request sem
  | .destructor => state.destructor.request sem

/-- A semaphore of the pool, with the calls that are made of it. -/
def counter (state : State numThreads Client) (sem : Sem numThreads) :
    Counting.State (Caller numThreads Client) where
  value := state.value sem
  calls := state.request sem

end State

section Notified

variable (sem : Sem numThreads)

theorem request_callWake (call : Call) : call.wake.request sem = call.request sem := by
  rcases call with pc | ⟨_ | _, _⟩ <;> rfl

theorem request_wake (id : Fin numThreads) (worker : Worker) :
    worker.wake.pc.request id sem = worker.pc.request id sem := by
  unfold Worker.wake
  cases pc : worker.pc with
  | running thunk call =>
      cases call with
      | none => rfl
      | some call => exact request_callWake sem call
  | _ => simp only [pc]

theorem request_running (id : Fin numThreads) (thunk : Ticket) (call : Option Call) :
    (WorkerPc.running thunk call).request id sem = call.bind fun call => call.request sem := by
  cases call with
  | none => cases sem <;> rfl
  | some call => rfl

theorem request_clientWake (call : Option Call) :
    ((call.map Call.wake).bind fun call => call.request sem) =
      call.bind fun call => call.request sem := by
  cases call with
  | none => rfl
  | some call => exact request_callWake sem call

theorem request_destructorWake (pc : DestructorPc numThreads) :
    pc.wake.request sem = pc.request sem := by
  cases pc <;> rfl

theorem ready_wake (worker : Worker) : worker.wake.ready = worker.ready := by
  unfold Worker.wake
  split <;> rfl

/-- A notification changes no value. -/
theorem value_notifyAll (state : State numThreads Client) :
    state.notifyAll.value sem = state.value sem := by
  cases sem with
  | ready id => exact ready_wake (state.workers id)
  | _ => rfl

theorem request_begin (entry : Entry) (pool : Pool) :
    (entry.begin pool).request sem = none := by
  cases entry <;> rfl

end Notified

/-- A region of a call of the pool, on a semaphore. -/
theorem turn_callStep {caller : Option Ticket} {state after : State numThreads Client} {call : Call}
    {next : Option Call} (sem : Sem numThreads)
    (moved : callStep caller state.pool call = some (after.pool, next))
    (ready : ∀ id, (after.workers id).ready = (state.workers id).ready) :
    Turn (state.value sem) (call.request sem) (after.value sem)
      (next.bind fun call => call.request sem) := by
  obtain ⟨pool, workers, dispatcher, clients, destructor⟩ := after
  rcases call with ⟨_ | thunk | thunk⟩ | ⟨pc, since⟩
  · obtain ⟨rfl, rfl⟩ := Prod.mk.inj (Option.some.inj moved)
    cases sem with
    | ready id => exact .of_eq (ready id) rfl
    | _ => exact .rests
  · obtain ⟨rfl, rfl⟩ := Prod.mk.inj (Option.some.inj moved)
    cases sem with
    | queued => exact .calls
    | availableWorkers => exact .rests
    | ready id => exact .of_eq (ready id) rfl
  · obtain ⟨rfl, rfl⟩ := Prod.mk.inj (Option.some.inj moved)
    cases sem with
    | queued => exact .gives
    | availableWorkers => exact .rests
    | ready id => exact .of_eq (ready id) rfl
  · obtain ⟨rfl, rfl | ⟨rfl, _⟩⟩ := callStep_of_wait moved
    all_goals
      cases sem with
      | ready id => exact .of_eq (ready id) rfl
      | _ => exact .rests

section Turns

variable {state after : State numThreads Client}

theorem ready_setWorker {id : Fin numThreads} {worker : Worker}
    (same : worker.ready = (state.workers id).ready) (other : Fin numThreads) :
    ((state.setWorker id worker).workers other).ready = (state.workers other).ready := by
  by_cases here : other = id
  · subst here
    simpa [State.setWorker] using same
  · rw [setWorker_of_ne here]

/-- A worker changes, and its semaphore does not. -/
theorem turn_setWorker {id other : Fin numThreads} {worker : Worker}
    {request next : Option Request} (same : worker.ready = (state.workers id).ready)
    (turn : ∀ value, Turn value request value next) :
    Turn (state.workers other).ready request ((state.setWorker id worker).workers other).ready
      next := by
  rw [ready_setWorker same]
  exact turn _

/-- `ready.signal()` by a thread that calls nothing next. -/
theorem turn_signalReady {id other : Fin numThreads} {worker : Worker}
    (more : worker.ready = (state.workers id).ready + 1) :
    Turn (state.workers other).ready (if other = id then some .signal else none)
      ((state.setWorker id worker).workers other).ready none := by
  by_cases here : other = id
  · subst here
    simp only [if_true, State.setWorker, Function.update_self, more]
    exact .gives
  · rw [if_neg here, setWorker_of_ne here]
    exact .rests

theorem turn_dispatcher [NeZero numThreads] (sem : Sem numThreads)
    (move : DispatcherMove state after) :
    Turn (state.value sem) (state.dispatcher.request sem) (after.value sem)
      (after.dispatcher.request sem) := by
  cases move with
  | takeQueued pc token =>
      rw [pc]
      cases sem with
      | queued => exact .takes token
      | _ => exact .rests
  | takeAvailable pc token =>
      rw [pc]
      cases sem with
      | availableWorkers => exact .takes token
      | _ => exact .rests
  | quitQueued pc | quitAvailable pc | continueAvailable pc | claimNobody pc | pop pc =>
      rw [pc]
      cases sem <;> exact .rests
  | continueQueued pc =>
      rw [pc]
      cases sem with
      | availableWorkers => exact .calls
      | _ => exact .rests
  | @claim id pc found =>
      rw [pc]
      cases sem with
      | ready other => exact turn_setWorker rfl fun _ => .rests
      | _ => exact .rests
  | @assign id thunk pc =>
      rw [pc]
      cases sem with
      | ready other =>
          refine turn_setWorker rfl fun _ => ?_
          simp only [DispatcherPc.request]
          split
          · exact .calls
          · exact .rests
      | _ => exact .rests
  | signalReady pc =>
      rw [pc]
      cases sem with
      | queued => exact .calls
      | availableWorkers => exact .rests
      | ready other => exact turn_signalReady rfl

theorem turn_destructor (sem : Sem numThreads) (move : DestructorMove state after) :
    Turn (state.value sem) (state.destructor.request sem) (after.value sem)
      (after.destructor.request sem) := by
  cases move with
  | sleep pc | drained pc =>
      rw [pc]
      cases sem <;> exact .rests
  | setDone pc =>
      rw [pc]
      cases sem with
      | queued => exact .calls
      | _ => exact .rests
  | signalQueued pc =>
      rw [pc]
      cases sem with
      | queued => exact .gives
      | availableWorkers => exact .calls
      | ready other => exact .rests
  | signalAvailable pc =>
      rw [pc]
      cases sem with
      | availableWorkers => exact .gives
      | _ => exact .rests
  | joinDispatcher pc | joinWorker pc =>
      rw [pc]
      cases sem with
      | ready other =>
          simp only [DestructorPc.request]
          split
          · exact .calls
          · exact .rests
      | _ => exact .rests
  | @reap index pc bound =>
      rw [pc]
      cases sem with
      | ready other =>
          have same : (other : ℕ) = index ↔ other = ⟨index, bound⟩ := by rw [Fin.ext_iff]
          simp only [DestructorPc.request, same]
          exact turn_signalReady rfl
      | _ => exact .rests
  | @reaped index pc outside =>
      rw [pc]
      cases sem with
      | ready other =>
          have apart : (other : ℕ) ≠ index := fun same => outside (same ▸ other.isLt)
          simp only [DestructorPc.request, if_neg apart]
          exact .rests
      | _ => exact .rests

theorem turn_worker (sem : Sem numThreads) {id : Fin numThreads}
    (move : WorkerMove state id after) :
    Turn (state.value sem) ((state.workers id).pc.request id sem) (after.value sem)
      ((after.workers id).pc.request id sem) := by
  -- where the worker itself is afterwards
  have here (worker : Worker) : (state.setWorker id worker).workers id = worker :=
    Function.update_self ..
  cases move with
  | takeReady pc token =>
      rw [pc, here]
      cases sem with
      | ready other =>
          by_cases same : other = id
          · subst same
            simp only [WorkerPc.request, if_true, State.value, here]
            exact .takes token
          · simp only [WorkerPc.request, if_neg same, State.value, setWorker_of_ne same]
            exact .rests
      | _ => exact .rests
  | quit pc | start pc | complete pc =>
      rw [pc]
      simp only [here]
      cases sem with
      | ready other => exact turn_setWorker rfl fun _ => .rests
      | _ => exact .rests
  | @call thunk call pool next pc moved =>
      rw [pc]
      simp only [here]
      rw [request_running sem id thunk next]
      refine turn_callStep sem moved fun other => ?_
      by_cases same : other = id
      · rw [same, here]
      · exact congrArg Worker.ready (setWorker_of_ne same _)
  | publish pc =>
      rw [pc]
      simp only [here]
      cases sem with
      | queued => exact .rests
      | availableWorkers => exact .calls
      | ready other => exact turn_setWorker rfl fun _ => .rests
  | signalAvailable pc =>
      rw [pc]
      simp only [here]
      cases sem with
      | queued => exact .rests
      | availableWorkers => exact .gives
      | ready other => exact turn_setWorker rfl fun _ => .rests
  | @decrement thunk decremented pc shape =>
      have turn : Turn (state.value sem) ((state.workers id).pc.request id sem)
          (decremented.value sem) ((decremented.workers id).pc.request id sem) := by
        subst shape
        rw [pc]
        simp only [here]
        cases sem with
        | ready other =>
            refine turn_setWorker rfl fun _ => ?_
            simp only [WorkerPc.request]
            split
            · exact .calls
            · exact .rests
        | _ => exact .rests
      split
      · rw [value_notifyAll]
        exact (request_wake sem id (decremented.workers id)).symm ▸ turn
      · exact turn

end Turns

section Steps

variable [NeZero numThreads] [DecidableEq Client] {state after : State numThreads Client}
  {action : Action numThreads Client}

/-- The thread that an action moves through its call of a semaphore. -/
def Action.caller : Action numThreads Client → Option (Caller numThreads Client)
  | .dispatcher => some .dispatcher
  | .worker id => some (.worker id)
  | .client thread => some (.client thread)
  | .destructor => some .destructor
  | .thunkCalls _ _ | .clientCalls _ _ | .destroy | .spuriousWake _ => none

theorem dispatcher_of_step (taken : step state action = some after) :
    action = .dispatcher ∨ after.dispatcher = state.dispatcher := by
  cases action with
  | dispatcher => exact .inl rfl
  | worker id =>
      refine .inr ?_
      cases workerMove_of_step taken with
      | decrement pc shape =>
          subst shape
          split <;> rfl
      | _ => rfl
  | client client =>
      simp only [step, clientStep] at taken
      split at taken
      · obtain ⟨_, _, rfl⟩ := Option.map_eq_some_iff.mp taken
        exact .inr rfl
      · cases taken
  | destructor => cases destructorMove_of_step taken <;> exact .inr rfl
  | thunkCalls id entry =>
      obtain ⟨_, _, rfl⟩ := thunkCalls_spec taken
      exact .inr rfl
  | clientCalls client entry =>
      obtain ⟨_, rfl⟩ := clientCalls_spec taken
      exact .inr rfl
  | destroy =>
      obtain ⟨_, rfl⟩ := destroy_spec taken
      exact .inr rfl
  | spuriousWake waiter =>
      cases waiter <;>
      · obtain rfl := Option.some.inj taken
        exact .inr rfl

/-- Nobody else's call moves. -/
theorem request_of_step (sem : Sem numThreads) (taken : step state action = some after)
    {caller : Caller numThreads Client} (other : action.caller ≠ some caller) :
    after.request sem caller = state.request sem caller := by
  cases caller with
  | dispatcher =>
      rcases dispatcher_of_step taken with rfl | same
      · exact (other rfl).elim
      · rw [State.request, State.request, same]
  | worker id =>
      rw [State.request, State.request]
      rcases workers_of_step taken id with same | woken | ⟨rfl, _⟩ | ⟨entry, thunk, _, pc, next⟩
      · rw [same]
      · rw [woken, request_wake]
      · exact (other rfl).elim
      · rw [pc, next, request_running, request_running]
        exact request_begin sem entry state.pool
  | client client =>
      rw [State.request, State.request]
      rcases clients_of_step taken client with same | woken | ⟨_, rfl, _⟩ | ⟨entry, _, pc, next⟩
      · rw [same]
      · rw [woken, request_clientWake]
      · exact (other rfl).elim
      · rw [pc, next]
        exact request_begin sem entry state.pool
  | destructor =>
      rw [State.request, State.request]
      rcases destructor_of_step taken with same | woken | ⟨rfl, _⟩ | ⟨_, idle, next⟩
      · rw [same]
      · rw [woken, request_destructorWake]
      · exact (other rfl).elim
      · rw [idle, next]
        cases sem <;> rfl

/-- A call of the pool begins, or a sleeper wakes, and no value changes. -/
theorem value_of_step (sem : Sem numThreads) (taken : step state action = some after)
    (nobody : action.caller = none) : after.value sem = state.value sem := by
  cases action with
  | thunkCalls id entry =>
      obtain ⟨_, _, rfl⟩ := thunkCalls_spec taken
      cases sem with
      | ready other =>
          refine ready_setWorker ?_ other
          rfl
      | _ => rfl
  | clientCalls client entry =>
      obtain ⟨_, rfl⟩ := clientCalls_spec taken
      cases sem <;> rfl
  | destroy =>
      obtain ⟨_, rfl⟩ := destroy_spec taken
      cases sem <;> rfl
  | spuriousWake waiter =>
      cases waiter <;> obtain rfl := Option.some.inj taken
      case worker id =>
        cases sem with
        | ready other => exact ready_setWorker (ready_wake (state.workers id)) other
        | _ => rfl
      all_goals cases sem <;> rfl
  | _ => cases nobody

/-- Who moves has its turn. -/
theorem turn_of_step (sem : Sem numThreads) (taken : step state action = some after) :
    ∃ caller, (∀ other, action.caller = some other → other = caller) ∧
      Turn (state.value sem) (state.request sem caller) (after.value sem)
        (after.request sem caller) := by
  cases action with
  | dispatcher =>
      refine ⟨.dispatcher, fun _ same => (Option.some.inj same).symm, ?_⟩
      exact turn_dispatcher sem (dispatcherMove_of_step taken)
  | worker id =>
      refine ⟨.worker id, fun _ same => (Option.some.inj same).symm, ?_⟩
      exact turn_worker sem (workerMove_of_step taken)
  | client client =>
      refine ⟨.client client, fun _ same => (Option.some.inj same).symm, ?_⟩
      obtain ⟨_, workers, _, call, inside, moved⟩ := frame_client taken
      simp only [State.request, inside]
      exact turn_callStep sem moved fun id => by rw [workers]
  | destructor =>
      refine ⟨.destructor, fun _ same => (Option.some.inj same).symm, ?_⟩
      exact turn_destructor sem (destructorMove_of_step taken)
  | _ =>
      exact ⟨.dispatcher, nofun,
        .of_eq (value_of_step sem taken rfl) (request_of_step sem taken nofun)⟩

/-- Every step of the pool is one turn of each of its semaphores. -/
theorem counter_step (sem : Sem numThreads) (taken : step state action = some after) :
    Counting.Step (state.counter sem) (after.counter sem) := by
  obtain ⟨caller, only, turn⟩ := turn_of_step sem taken
  exact ⟨caller, turn, fun other apart =>
    request_of_step sem taken fun moves => apart (only other moves)⟩

/-- The tokens that a semaphore is made with, or that the constructor signals. -/
def Sem.initial : Sem numThreads → ℕ
  | .availableWorkers => numThreads
  | .queued | .ready _ => 0

omit [NeZero numThreads] [DecidableEq Client] in
theorem counter_construct (sem : Sem numThreads) :
    Counting.Run sem.initial ((construct numThreads Client).counter sem) := by
  cases sem with
  | queued =>
      refine .of_call .dispatcher rfl fun other apart => ?_
      cases other with
      | dispatcher => exact absurd rfl apart
      | _ => rfl
  | availableWorkers =>
      refine .of_call .dispatcher ?_ fun other _ => ?_
      · simp [State.counter, State.value, construct, Sem.initial]
      · cases other <;> rfl
  | ready id =>
      refine .of_call (.worker id) rfl fun other apart => ?_
      cases other with
      | worker other =>
          have distinct : id ≠ other := fun same => apart (congrArg Caller.worker same.symm)
          exact if_neg distinct
      | _ => rfl

/-- Each semaphore of the pool, as its threads use it, is a counting semaphore. -/
theorem counting_of_reachable (sem : Sem numThreads)
    (reach : (machine numThreads Client).Reachable .free state) :
    Counting.Run sem.initial (state.counter sem) := by
  refine Counting.Run.of_reachable (fun state => state.counter sem) (fun _ => True)
    (fun _ _ => trivial) ?_ ?_ reach
  · rintro _ rfl
    exact counter_construct sem
  · intro _ _ _ _ _ taken
    exact counter_step sem taken

end Steps

end ThreadPool
end Syscore
