import Syscore.ThreadPool.Steps

/-!
# What a program sees of its pool

A program whose thunks do not call their own pool sees tickets given out to its clients, bodies that
begin and return, and a `wait()` that returns when every thunk has run.
-/

namespace Syscore
namespace ThreadPool

variable {numThreads : ℕ} {Client : Type}

namespace State

/-- The thunk whose body a worker is in. -/
def body (state : State numThreads Client) (id : Fin numThreads) : Option Ticket :=
  match (state.workers id).pc with
  | .running thunk none => some thunk
  | _ => none

/-- No thunk is inside a call of its own pool. -/
def Uncalled (state : State numThreads Client) : Prop :=
  ∀ id, (state.workers id).pc.call = none

/-- Every thunk has run. -/
def Drained (state : State numThreads Client) : Prop :=
  ∀ thunk < state.pool.issued, thunk ∈ state.pool.completed

end State

theorem body_eq_some {state : State numThreads Client} {id : Fin numThreads} {thunk : Ticket} :
    state.body id = some thunk ↔ (state.workers id).pc = .running thunk none := by
  unfold State.body
  cases pc : (state.workers id).pc with
  | running other call => cases call <;> simp
  | _ => simp

/-- An action of the pool's own threads, of a client, or a spurious wakeup of a client. -/
def Action.plain : Action numThreads Client → Bool
  | .dispatcher | .worker _ | .client _ | .clientCalls _ _ | .spuriousWake (.client _) => true
  | _ => false

section Steps

variable [NeZero numThreads] [DecidableEq Client] {state after : State numThreads Client}

omit [NeZero numThreads] [DecidableEq Client] in
theorem body_of_pc {id : Fin numThreads} (same : (after.workers id).pc = (state.workers id).pc) :
    after.body id = state.body id := by
  unfold State.body
  rw [same]

omit [NeZero numThreads] [DecidableEq Client] in
theorem body_of_workers (same : after.workers = state.workers) (id : Fin numThreads) :
    after.body id = state.body id :=
  body_of_pc (by rw [same])

omit [NeZero numThreads] [DecidableEq Client] in
theorem body_of_wake {id : Fin numThreads} (woken : after.workers id = (state.workers id).wake) :
    after.body id = state.body id := by
  unfold State.body Worker.wake at *
  rw [woken]
  cases pc : (state.workers id).pc with
  | running thunk call => cases call <;> simp
  | _ => simp [pc]

theorem State.Uncalled.step {action : Action numThreads Client} (uncalled : state.Uncalled)
    (plain : action.plain = true) (taken : step state action = some after) : after.Uncalled := by
  intro id
  rcases workers_of_step taken id with same | woken | ⟨_, moved⟩ | ⟨_, _, rfl, _⟩
  · rw [same]
    exact uncalled id
  · rw [woken, call_wake, uncalled id]
    rfl
  · rcases call_of_workerStep moved with ⟨_, outside⟩ | ⟨_, _, inside, _⟩
    · exact outside
    · have outside := uncalled id
      rw [inside] at outside
      cases outside
  · cases plain

/-- The dispatcher gives out no ticket and returns no body. -/
theorem history_dispatcher (taken : step state .dispatcher = some after) :
    after.pool.completed = state.pool.completed ∧ after.pool.issued = state.pool.issued := by
  cases dispatcherMove_of_step taken <;> exact ⟨rfl, rfl⟩

theorem body_dispatcher (taken : step state .dispatcher = some after) (id : Fin numThreads) :
    after.body id = state.body id :=
  body_of_pc ((frame_dispatcher taken).2.2 id)

/-- A worker outside a body gives out no ticket and returns no body. -/
theorem history_worker {id : Fin numThreads} (uncalled : state.Uncalled)
    (idle : state.body id = none) (taken : step state (.worker id) = some after) :
    after.pool.completed = state.pool.completed ∧ after.pool.issued = state.pool.issued := by
  have outside := uncalled id
  rw [State.body] at idle
  cases workerMove_of_step taken with
  | complete pc =>
      rw [pc] at idle
      cases idle
  | call pc moved =>
      rw [pc] at outside
      cases outside
  | decrement pc shape =>
      subst shape
      split <;> exact ⟨rfl, rfl⟩
  | _ => exact ⟨rfl, rfl⟩

theorem body_worker {id other : Fin numThreads} (distinct : other ≠ id)
    (taken : step state (.worker id) = some after) : after.body other = state.body other := by
  rcases frame_worker taken with ⟨_, _, others⟩ | ⟨_, _, others, _⟩
  · exact body_of_pc (by rw [others other distinct])
  · exact body_of_wake (others other distinct)

/-- A body returns. -/
theorem returns_worker {id : Fin numThreads} {thunk : Ticket} (running : state.body id = some thunk)
    (taken : step state (.worker id) = some after) :
    after.pool.completed = state.pool.completed ++ [thunk] ∧
      after.pool.issued = state.pool.issued ∧ after.body id = none ∧
      after.clients = state.clients := by
  have taken : workerStep state id = some after := taken
  rw [workerStep, body_eq_some.mp running] at taken
  obtain rfl := Option.some.inj taken
  exact ⟨rfl, rfl, by simp [State.body, State.setWorker], rfl⟩

/-- Clients of a pool are left alone by the steps of its own threads, notifications aside. -/
theorem clients_worker {id : Fin numThreads} (taken : step state (.worker id) = some after)
    (client : Client) :
    after.clients client = state.clients client ∨
      after.clients client = (state.clients client).map Call.wake := by
  rcases frame_worker taken with ⟨same, _⟩ | ⟨woken, _⟩
  · exact .inl (by rw [same])
  · exact .inr (woken client)

/-- A client begins a call. -/
theorem begins_call {client : Client} {entry : Entry}
    (taken : step state (.clientCalls client entry) = some after) :
    state.clients client = none ∧ after.clients client = some (entry.begin state.pool) ∧
      (∀ other, other ≠ client → after.clients other = state.clients other) ∧
      after.pool = state.pool ∧ after.workers = state.workers := by
  obtain ⟨outside, rfl⟩ := clientCalls_spec taken
  exact ⟨outside, by simp, fun other distinct => by simp [distinct], rfl, rfl⟩

/-- One region of `schedule`: the count gives out a ticket. -/
theorem schedule_region {client : Client} {pc : SchedulePc}
    (inside : state.clients client = some (.schedule pc))
    (taken : step state (.client client) = some after) :
    after.pool.completed = state.pool.completed ∧
      after.pool.issued = state.pool.issued + (if pc = .increment then 1 else 0) ∧
      (after.clients client = none ∨
        ∃ pc, pc ≠ .increment ∧ after.clients client = some (.schedule pc)) := by
  obtain ⟨_, _, _, call, inside', moved⟩ := frame_client taken
  obtain rfl := Option.some.inj (inside.symm.trans inside')
  obtain ⟨changed, next⟩ := Prod.mk.inj (Option.some.inj moved)
  rw [← changed, ← next]
  cases pc with
  | increment => exact ⟨rfl, by simp [scheduleStep, Pool.issued], .inr ⟨_, by simp, rfl⟩⟩
  | push thunk => exact ⟨rfl, rfl, .inr ⟨_, by simp, rfl⟩⟩
  | signal thunk => exact ⟨rfl, rfl, .inl rfl⟩

/-- One region of `wait()`: it returns when every thunk has run. -/
theorem wait_region [Fintype Client] (invariant : Invariant state) {client : Client} {pc : WaitPc}
    {since : ℕ} (inside : state.clients client = some (.wait pc since))
    (taken : step state (.client client) = some after) :
    after.pool = state.pool ∧
      ((∃ pc, after.clients client = some (.wait pc since)) ∨
        after.clients client = none ∧ after.Drained) := by
  obtain ⟨_, _, _, call, inside', moved⟩ := frame_client taken
  obtain rfl := Option.some.inj (inside.symm.trans inside')
  obtain ⟨same, asleep | ⟨returned, zero⟩⟩ := callStep_of_wait moved
  · exact ⟨same, .inl ⟨.asleep, asleep⟩⟩
  · refine ⟨same, .inr ⟨returned, fun thunk known => ?_⟩⟩
    rw [same] at known ⊢
    exact List.count_pos_iff.mp
      (by rw [invariant.all_completed zero thunk known]; exact Nat.one_pos)

theorem completed_client {client : Client} (taken : step state (.client client) = some after) :
    after.pool.completed = state.pool.completed := by
  obtain ⟨_, _, _, _, _, moved⟩ := frame_client taken
  exact (callStep_done moved).2

theorem clients_of_ne {client other : Client} (distinct : other ≠ client)
    (taken : step state (.client client) = some after) :
    after.clients other = state.clients other :=
  (frame_client taken).2.2.1 other distinct

theorem body_client {client : Client} (taken : step state (.client client) = some after)
    (id : Fin numThreads) : after.body id = state.body id :=
  body_of_pc (by rw [(frame_client taken).2.1])

omit [NeZero numThreads] [DecidableEq Client] in
/-- A thunk in its body is given out and has not returned. -/
theorem Invariant.of_body [Fintype Client] (invariant : Invariant state) {id : Fin numThreads}
    {thunk : Ticket} (running : state.body id = some thunk) :
    thunk < state.pool.issued ∧ thunk ∉ state.pool.completed := by
  obtain ⟨assigned, slot⟩ := (invariant.workers id).running _ _ (body_eq_some.mp running)
  have place := invariant.ledger.places thunk
  have below := weight_le_total state id (.holding thunk)
  rw [weight_of_slot _ rfl, Worker.slotWeight, unit_eq_one_iff.mpr ⟨assigned, slot⟩] at below
  have pushing := total_nonneg state (.pushingTicket thunk)
  have carried := (state.dispatcher.carries_le thunk).1
  have once := unit_le_one (thunk < state.pool.issued)
  constructor
  · refine unit_eq_one_iff.mp ?_
    omega
  · intro returned
    have counted := List.count_pos_iff.mpr returned
    omega

omit [NeZero numThreads] [DecidableEq Client] in
/-- A thunk that has returned was given out. -/
theorem Invariant.of_completed [Fintype Client] (invariant : Invariant state) {thunk : Ticket}
    (returned : thunk ∈ state.pool.completed) : thunk < state.pool.issued := by
  have place := invariant.ledger.places thunk
  have counted := List.count_pos_iff.mpr returned
  have pushing := total_nonneg state (.pushingTicket thunk)
  have holding := total_nonneg state (.holding thunk)
  have carried := (state.dispatcher.carries_le thunk).1
  have once := unit_le_one (thunk < state.pool.issued)
  refine unit_eq_one_iff.mp ?_
  omega

end Steps

end ThreadPool
end Syscore
