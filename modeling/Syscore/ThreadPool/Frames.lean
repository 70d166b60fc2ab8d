import Syscore.ThreadPool.Moves

/-!
# Effects and frames

What one step does to the counters of the pool, and which threads it moves.
-/

namespace Syscore
namespace ThreadPool

variable {numThreads : ℕ} {Client : Type}

/-! ## What one step does to the counters -/

/-- The effect of one step on `outstanding` and on the history. -/
inductive Effect (state after : State numThreads Client) : Prop
  /-- No ticket is given out. -/
  | none (outstanding : after.pool.outstanding ≤ state.pool.outstanding)
      (scheduledBy : after.pool.scheduledBy = state.pool.scheduledBy)
      (completed : ∀ thunk ∈ state.pool.completed, thunk ∈ after.pool.completed)
  /-- A client gives out a ticket. -/
  | client (client : Client)
      (inside : state.clients client = some (.schedule .increment))
      (scheduledBy : after.pool.scheduledBy = state.pool.scheduledBy ++ [.none])
      (completed : after.pool.completed = state.pool.completed)
  /-- A running thunk gives out a ticket. -/
  | thunk (id : Fin numThreads) (thunk : Ticket)
      (inside : (state.workers id).pc = .running thunk (some (.schedule .increment)))
      (scheduledBy : after.pool.scheduledBy = state.pool.scheduledBy ++ [some thunk])
      (completed : after.pool.completed = state.pool.completed)

theorem Effect.of_pool {state after : State numThreads Client} (same : after.pool = state.pool) :
    Effect state after :=
  .none (by rw [same]) (by rw [same]) (by simp [same])

theorem callStep_done {caller : Option Ticket} {pool after : Pool} {call : Call}
    {next : Option Call} (step : callStep caller pool call = some (after, next)) :
    after.done = pool.done ∧ after.completed = pool.completed := by
  rcases call with ⟨_ | thunk | thunk⟩ | ⟨pc, since⟩
  case wait =>
    obtain ⟨_, _, same⟩ := Option.map_eq_some_iff.mp step
    obtain ⟨rfl, _⟩ := Prod.mk.inj same
    exact ⟨rfl, rfl⟩
  all_goals
    obtain ⟨rfl, _⟩ := Prod.mk.inj (Option.some.inj step)
    exact ⟨rfl, rfl⟩

theorem callStep_cases {caller : Option Ticket} {pool after : Pool} {call : Call}
    {next : Option Call} (step : callStep caller pool call = some (after, next)) :
    (call = .schedule .increment ∧ after.scheduledBy = pool.scheduledBy ++ [caller]) ∨
      (after.outstanding = pool.outstanding ∧ after.scheduledBy = pool.scheduledBy) := by
  rcases call with ⟨_ | thunk | thunk⟩ | ⟨pc, since⟩
  · obtain ⟨rfl, _⟩ := Prod.mk.inj (Option.some.inj step)
    exact .inl ⟨rfl, rfl⟩
  · obtain ⟨rfl, _⟩ := Prod.mk.inj (Option.some.inj step)
    exact .inr ⟨rfl, rfl⟩
  · obtain ⟨rfl, _⟩ := Prod.mk.inj (Option.some.inj step)
    exact .inr ⟨rfl, rfl⟩
  · obtain ⟨_, _, same⟩ := Option.map_eq_some_iff.mp step
    obtain ⟨rfl, _⟩ := Prod.mk.inj same
    exact .inr ⟨rfl, rfl⟩

theorem effect_dispatcher [NeZero numThreads] {state after : State numThreads Client}
    (step : dispatcherStep state = some after) : Effect state after := by
  cases dispatcherMove_of_step step <;> exact .none le_rfl rfl fun _ old => old

theorem effect_worker {state after : State numThreads Client} {id : Fin numThreads}
    (step : workerStep state id = some after) : Effect state after := by
  cases workerMove_of_step step with
  | complete pc => exact .none le_rfl rfl fun _ old => List.mem_append_left _ old
  | @call thunk _ _ _ pc moved =>
      have completed := (callStep_done moved).2
      rcases callStep_cases moved with ⟨rfl, grown⟩ | ⟨outstanding, same⟩
      · exact .thunk id thunk pc grown completed
      · exact .none outstanding.le same (by simp [completed])
  | decrement pc shape =>
      subst shape
      split <;> exact .none (Nat.sub_le _ _) rfl fun _ old => old
  | _ => exact .none le_rfl rfl fun _ old => old

theorem effect_client [DecidableEq Client] {state after : State numThreads Client} {client : Client}
    (step : clientStep state client = some after) : Effect state after := by
  unfold clientStep at step
  split at step
  · rename_i call inside
    obtain ⟨⟨pool, next⟩, moved, rfl⟩ := Option.map_eq_some_iff.mp step
    have completed := (callStep_done moved).2
    rcases callStep_cases moved with ⟨rfl, grown⟩ | ⟨outstanding, same⟩
    · exact .client client inside grown completed
    · exact .none outstanding.le same (by simp [completed])
  · cases step

theorem effect_destructor {state after : State numThreads Client}
    (step : destructorStep state = some after) : Effect state after := by
  cases destructorMove_of_step step <;> exact .none le_rfl rfl fun _ old => old

/-- Every step has one of these effects. -/
theorem effect_of_step [NeZero numThreads] [DecidableEq Client]
    {state after : State numThreads Client} {action : Action numThreads Client}
    (taken : step state action = some after) : Effect state after := by
  cases action with
  | dispatcher => exact effect_dispatcher taken
  | worker id => exact effect_worker taken
  | client client => exact effect_client taken
  | destructor => exact effect_destructor taken
  | thunkCalls id entry =>
      obtain ⟨_, _, rfl⟩ := thunkCalls_spec taken
      exact .of_pool rfl
  | clientCalls client entry =>
      obtain ⟨_, rfl⟩ := clientCalls_spec taken
      exact .of_pool rfl
  | destroy =>
      obtain ⟨_, rfl⟩ := destroy_spec taken
      exact .of_pool rfl
  | spuriousWake waiter =>
      cases waiter <;> obtain rfl := Option.some.inj taken <;> exact .of_pool rfl

/-- A pool call never turns into a `wait()`. -/
theorem callStep_wait {caller : Option Ticket} {pool after : Pool} {call : Call} {pc : WaitPc}
    {since : ℕ} (step : callStep caller pool call = some (after, some (.wait pc since))) :
    call = .wait .check since ∧ pool.outstanding ≠ 0 := by
  rcases call with ⟨_ | _ | _⟩ | ⟨_ | _, began⟩
  case wait.check =>
    obtain ⟨next, waited, same⟩ := Option.map_eq_some_iff.mp step
    obtain ⟨_, same⟩ := Prod.mk.inj same
    rw [waitStep] at waited
    split at waited
    · obtain rfl := Option.some.inj waited
      simp at same
    · rename_i pending
      obtain rfl := Option.some.inj waited
      obtain ⟨_, rfl⟩ := Call.wait.inj (Option.some.inj same)
      exact ⟨rfl, pending⟩
  case wait.asleep => simp [callStep, waitStep] at step
  all_goals
    obtain ⟨_, same⟩ := Prod.mk.inj (Option.some.inj step)
    simp [scheduleStep] at same

/-- A region of `wait()` blocks, or returns because nothing is outstanding. -/
theorem callStep_of_wait {caller : Option Ticket} {pool after : Pool} {pc : WaitPc} {since : ℕ}
    {next : Option Call} (step : callStep caller pool (.wait pc since) = some (after, next)) :
    after = pool ∧
      (next = some (.wait .asleep since) ∨ (next = none ∧ pool.outstanding = 0)) := by
  obtain ⟨position, waited, same⟩ := Option.map_eq_some_iff.mp step
  obtain ⟨rfl, rfl⟩ := Prod.mk.inj same
  refine ⟨rfl, ?_⟩
  cases pc with
  | check =>
      rw [waitStep] at waited
      split at waited
      · rename_i zero
        obtain rfl := Option.some.inj waited
        exact .inr ⟨rfl, zero⟩
      · obtain rfl := Option.some.inj waited
        exact .inl rfl
  | asleep => cases waited

/-- The pool call that the thunk on a worker is in. -/
def WorkerPc.call : WorkerPc → Option Call
  | .running _ call => call
  | _ => none

theorem call_wake (worker : Worker) : worker.wake.pc.call = worker.pc.call.map Call.wake := by
  unfold Worker.wake
  cases pc : worker.pc <;> simp [pc, WorkerPc.call]

theorem wake_eq_wait {call : Option Call} {pc : WaitPc} {since : ℕ}
    (woken : call.map Call.wake = some (.wait pc since)) : ∃ pc, call = some (.wait pc since) := by
  rcases call with _ | pc | ⟨_ | _, began⟩
  · simp at woken
  · simp [Call.wake] at woken
  · obtain ⟨_, rfl⟩ : WaitPc.check = pc ∧ began = since := by simpa [Call.wake] using woken
    exact ⟨.check, rfl⟩
  · obtain ⟨_, rfl⟩ : WaitPc.check = pc ∧ began = since := by simpa [Call.wake] using woken
    exact ⟨.asleep, rfl⟩

/-- A worker is inside a pool call only by a region of that call. -/
theorem call_of_workerStep {state after : State numThreads Client} {id : Fin numThreads}
    (taken : workerStep state id = some after) :
    ((state.workers id).pc.call = none ∧ (after.workers id).pc.call = none) ∨
      ∃ thunk call, (state.workers id).pc = .running thunk (some call) ∧
        callStep (some thunk) state.pool call =
          some (after.pool, (after.workers id).pc.call) := by
  cases workerMove_of_step taken with
  | @call thunk call _ _ pc moved =>
      exact .inr ⟨thunk, call, pc, by simpa [State.setWorker, WorkerPc.call] using moved⟩
  | decrement pc shape =>
      subst shape
      rw [pc]
      refine .inl ⟨rfl, ?_⟩
      split <;> simp [State.notifyAll, State.setWorker, Worker.wake, WorkerPc.call]
  | _ pc =>
      rw [pc]
      exact .inl ⟨rfl, by simp [State.setWorker, WorkerPc.call]⟩

/-! ## Whom a step moves -/

section Frames

variable [NeZero numThreads] [DecidableEq Client] {state after : State numThreads Client}
  {action : Action numThreads Client}

omit [NeZero numThreads] [DecidableEq Client] in
theorem setWorker_pc {id : Fin numThreads} {worker : Worker}
    (same : worker.pc = (state.workers id).pc) (other : Fin numThreads) :
    ((state.setWorker id worker).workers other).pc = (state.workers other).pc := by
  by_cases here : other = id
  · subst here
    simpa [State.setWorker] using same
  · simp [State.setWorker, here]

omit [NeZero numThreads] [DecidableEq Client] in
theorem setWorker_of_ne {id other : Fin numThreads} (distinct : other ≠ id) (worker : Worker) :
    (state.setWorker id worker).workers other = state.workers other := by
  simp [State.setWorker, distinct]

omit [DecidableEq Client] in
/-- The dispatcher moves no client, no worker and not the destructor. -/
theorem frame_dispatcher (taken : dispatcherStep state = some after) :
    after.clients = state.clients ∧ after.destructor = state.destructor ∧
      ∀ id, (after.workers id).pc = (state.workers id).pc := by
  cases dispatcherMove_of_step taken with
  | claim | assign | signalReady => exact ⟨rfl, rfl, setWorker_pc rfl⟩
  | _ => exact ⟨rfl, rfl, fun _ => rfl⟩

omit [NeZero numThreads] [DecidableEq Client] in
/-- A worker moves itself, and with its decrement it may notify the sleepers. -/
theorem frame_worker {id : Fin numThreads} (taken : workerStep state id = some after) :
    (after.clients = state.clients ∧ after.destructor = state.destructor ∧
        ∀ other, other ≠ id → after.workers other = state.workers other) ∨
      ((∀ client, after.clients client = (state.clients client).map Call.wake) ∧
        after.destructor = state.destructor.wake ∧
        (∀ other, other ≠ id → after.workers other = (state.workers other).wake) ∧
        (after.workers id).pc = .ready) := by
  cases workerMove_of_step taken with
  | decrement pc shape =>
      subst shape
      split
      · refine .inr ⟨fun _ => rfl, rfl, fun other distinct => ?_, ?_⟩
        · exact congrArg Worker.wake (setWorker_of_ne distinct _)
        · simp [State.notifyAll, State.setWorker, Worker.wake]
      · exact .inl ⟨rfl, rfl, fun _ distinct => setWorker_of_ne distinct _⟩
  | _ => exact .inl ⟨rfl, rfl, fun _ distinct => setWorker_of_ne distinct _⟩

omit [NeZero numThreads] [DecidableEq Client] in
/-- The destructor moves no client, and of the workers only semaphores. -/
theorem frame_destructor (taken : destructorStep state = some after) :
    after.clients = state.clients ∧ ∀ id, (after.workers id).pc = (state.workers id).pc := by
  cases destructorMove_of_step taken with
  | reap => exact ⟨rfl, setWorker_pc rfl⟩
  | _ => exact ⟨rfl, fun _ => rfl⟩

omit [NeZero numThreads] in
/-- A client moves nobody else. -/
theorem frame_client {client : Client} (taken : clientStep state client = some after) :
    after.destructor = state.destructor ∧ after.workers = state.workers ∧
      (∀ other, other ≠ client → after.clients other = state.clients other) ∧
      ∃ call, state.clients client = some call ∧
        callStep none state.pool call = some (after.pool, after.clients client) := by
  unfold clientStep at taken
  split at taken
  · rename_i call inside
    obtain ⟨⟨pool, next⟩, moved, rfl⟩ := Option.map_eq_some_iff.mp taken
    refine ⟨rfl, rfl, fun other distinct => by simp [distinct], call, inside, ?_⟩
    simpa using moved
  · cases taken

/-- A client is moved by its own steps and calls, and by notifications. -/
theorem clients_of_step (taken : step state action = some after) (client : Client) :
    after.clients client = state.clients client ∨
      after.clients client = (state.clients client).map Call.wake ∨
      (∃ call, action = .client client ∧ state.clients client = some call ∧
        callStep none state.pool call = some (after.pool, after.clients client)) ∨
      ∃ entry, action = .clientCalls client entry ∧ state.clients client = none ∧
        after.clients client = some (entry.begin state.pool) := by
  cases action with
  | dispatcher => exact .inl (by rw [(frame_dispatcher taken).1])
  | worker id =>
      rcases frame_worker taken with ⟨same, _⟩ | ⟨woken, _⟩
      · exact .inl (by rw [same])
      · exact .inr (.inl (woken client))
  | client other =>
      obtain ⟨_, _, others, call, inside, moved⟩ := frame_client taken
      by_cases same : client = other
      · subst same
        exact .inr (.inr (.inl ⟨call, rfl, inside, moved⟩))
      · exact .inl (others client same)
  | destructor => exact .inl (by rw [(frame_destructor taken).1])
  | clientCalls other entry =>
      obtain ⟨outside, rfl⟩ := clientCalls_spec taken
      by_cases same : client = other
      · subst same
        exact .inr (.inr (.inr ⟨entry, rfl, outside, by simp⟩))
      · exact .inl (by simp [same])
  | spuriousWake waiter =>
      cases waiter with
      | client other =>
          obtain rfl := Option.some.inj taken
          by_cases same : client = other
          · subst same
            exact .inr (.inl (by simp))
          · exact .inl (by simp [same])
      | worker id => exact .inl (by obtain rfl := Option.some.inj taken; rfl)
      | destructor => exact .inl (by obtain rfl := Option.some.inj taken; rfl)
  | thunkCalls id entry =>
      obtain ⟨_, _, rfl⟩ := thunkCalls_spec taken
      exact .inl rfl
  | destroy =>
      obtain ⟨_, rfl⟩ := destroy_spec taken
      exact .inl rfl

/-- A worker is moved by its own steps and its thunk's calls, and by notifications. -/
theorem workers_of_step (taken : step state action = some after) (id : Fin numThreads) :
    (after.workers id).pc = (state.workers id).pc ∨
      (after.workers id).pc = (state.workers id).wake.pc ∨
      (action = .worker id ∧ workerStep state id = some after) ∨
      ∃ entry thunk, action = .thunkCalls id entry ∧
        (state.workers id).pc = .running thunk none ∧
        (after.workers id).pc = .running thunk (some (entry.begin state.pool)) := by
  cases action with
  | dispatcher => exact .inl ((frame_dispatcher taken).2.2 id)
  | worker other =>
      by_cases same : id = other
      · subst same
        exact .inr (.inr (.inl ⟨rfl, taken⟩))
      · rcases frame_worker taken with ⟨_, _, others⟩ | ⟨_, _, others, _⟩
        · exact .inl (by rw [others id same])
        · exact .inr (.inl (by rw [others id same]))
  | client other => exact .inl (by rw [(frame_client taken).2.1])
  | destructor => exact .inl ((frame_destructor taken).2 id)
  | thunkCalls other entry =>
      obtain ⟨thunk, pc, rfl⟩ := thunkCalls_spec taken
      by_cases same : id = other
      · subst same
        exact .inr (.inr (.inr ⟨entry, thunk, rfl, pc, by simp [State.setWorker]⟩))
      · exact .inl (by rw [setWorker_of_ne same])
  | spuriousWake waiter =>
      cases waiter with
      | worker other =>
          obtain rfl := Option.some.inj taken
          by_cases same : id = other
          · subst same
            exact .inr (.inl (by simp [State.setWorker]))
          · exact .inl (by rw [setWorker_of_ne same])
      | client client => exact .inl (by obtain rfl := Option.some.inj taken; rfl)
      | destructor => exact .inl (by obtain rfl := Option.some.inj taken; rfl)
  | clientCalls client entry =>
      obtain ⟨_, rfl⟩ := clientCalls_spec taken
      exact .inl rfl
  | destroy =>
      obtain ⟨_, rfl⟩ := destroy_spec taken
      exact .inl rfl

/-- The destructor is moved by its own steps and its call, and by notifications. -/
theorem destructor_of_step (taken : step state action = some after) :
    after.destructor = state.destructor ∨ after.destructor = state.destructor.wake ∨
      (action = .destructor ∧ destructorStep state = some after) ∨
      (action = .destroy ∧ state.destructor = .idle ∧
        after.destructor = .wait .check state.pool.issued) := by
  cases action with
  | dispatcher => exact .inl (frame_dispatcher taken).2.1
  | worker id =>
      rcases frame_worker taken with ⟨_, same, _⟩ | ⟨_, woken, _⟩
      · exact .inl same
      · exact .inr (.inl woken)
  | client client => exact .inl (frame_client taken).1
  | destructor => exact .inr (.inr (.inl ⟨rfl, taken⟩))
  | destroy =>
      obtain ⟨idle, rfl⟩ := destroy_spec taken
      exact .inr (.inr (.inr ⟨rfl, idle, rfl⟩))
  | spuriousWake waiter =>
      cases waiter with
      | destructor => exact .inr (.inl (by obtain rfl := Option.some.inj taken; rfl))
      | client client => exact .inl (by obtain rfl := Option.some.inj taken; rfl)
      | worker id => exact .inl (by obtain rfl := Option.some.inj taken; rfl)
  | thunkCalls id entry =>
      obtain ⟨_, _, rfl⟩ := thunkCalls_spec taken
      exact .inl rfl
  | clientCalls client entry =>
      obtain ⟨_, rfl⟩ := clientCalls_spec taken
      exact .inl rfl

end Frames

end ThreadPool
end Syscore
