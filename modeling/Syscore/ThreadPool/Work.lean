import Syscore.ThreadPool.Callers
import Syscore.ThreadPool.Progress

/-!
# The work that a pool has left

How many regions a pool will still execute before it is at rest, when its bodies need a bounded
number of steps each. Every step of a thread of the pool is one less; a call that a client begins is
paid for by the client. A pool that is not destroyed is at rest when none of its threads can move.
-/

namespace Syscore
namespace ThreadPool

variable {numThreads : ℕ} {Client : Type}

/-! ## Work -/

/-- The regions ahead of a worker up to its semaphore, where `left` steps of its body are ahead and
its decrement may wake so many sleepers. -/
def WorkerPc.work (sleepers cost left : ℕ) : WorkerPc → ℕ
  | .ready | .exited => 0
  | .checkDone => sleepers + cost + 5
  | .running _ _ => sleepers + left + 4
  | .publish _ => sleepers + 3
  | .signalAvailable _ => sleepers + 2
  | .decrement _ => sleepers + 1

/-- The work behind a token of `ready`. -/
def readyWork (sleepers cost : ℕ) : ℕ := sleepers + cost + 6

def Worker.work (sleepers cost left : ℕ) (worker : Worker) : ℕ :=
  worker.ready * readyWork sleepers cost + worker.pc.work sleepers cost left

/-- The regions ahead of the dispatcher up to `queued`, and what it starts. -/
def DispatcherPc.work (ready : ℕ) : DispatcherPc numThreads → ℕ
  | .waitQueued | .exited => 0
  | .checkQueued => ready + 7
  | .waitAvailable => ready + 6
  | .checkAvailable => ready + 5
  | .scan => ready + 4
  | .pop _ => ready + 3
  | .assign _ _ => ready + 2
  | .signalReady _ => ready + 1

/-- The work behind a token of `queued`. -/
def queuedWork (sleepers cost : ℕ) : ℕ := readyWork sleepers cost + 8

/-- The regions ahead of the destructor, and what it starts. -/
def DestructorPc.work (ready queued : ℕ) : DestructorPc numThreads → ℕ
  | .idle | .returned => 0
  | .wait .check _ => numThreads * (ready + 2) + queued + 7
  | .wait .asleep _ => numThreads * (ready + 2) + queued + 6
  | .setDone => numThreads * (ready + 2) + queued + 5
  | .signalQueued => numThreads * (ready + 2) + queued + 4
  | .signalAvailable => numThreads * (ready + 2) + 3
  | .joinDispatcher => numThreads * (ready + 2) + 2
  | .reap index => (numThreads - index) * (ready + 2) + 1
  | .joinWorker id => (numThreads - (id + 1)) * (ready + 2) + 2

/-- The work of a destructor that begins. -/
def destroyWork (numThreads ready queued : ℕ) : ℕ := numThreads * (ready + 2) + queued + 7

/-- The regions of a call, and what it starts. -/
def Call.work (queued : ℕ) : Call → ℕ
  | .schedule .increment => queued + 3
  | .schedule (.push _) => queued + 2
  | .schedule (.signal _) => queued + 1
  | .wait .check _ => 1
  | .wait .asleep _ => 0

/-- The work of a call that begins. -/
def Entry.work (queued : ℕ) : Entry → ℕ
  | .schedule => queued + 3
  | .wait => 1

def callWork (queued : ℕ) : Option Call → ℕ
  | none => 0
  | some call => call.work queued

section Work

variable [Fintype Client]

/-- Those who can sleep on `allDone`: the clients and the destructor. -/
abbrev waiters (Client : Type) [Fintype Client] : ℕ := Fintype.card Client + 1

/-- The work of a pool whose bodies cost so much at most, and have so much left. -/
def State.work (cost : ℕ) (left : Fin numThreads → ℕ) (state : State numThreads Client) : ℕ :=
  (∑ client, callWork (queuedWork (waiters Client) cost) (state.clients client)) +
    state.dispatcher.work (readyWork (waiters Client) cost) +
    state.destructor.work (readyWork (waiters Client) cost) (queuedWork (waiters Client) cost) +
    state.pool.queued * queuedWork (waiters Client) cost +
    ∑ id, (state.workers id).work (waiters Client) cost (left id)

end Work

/-- Two sums that differ at one index. -/
theorem sum_of_agree {ι : Type*} [Fintype ι] {f g : ι → ℕ} (index : ι)
    (same : ∀ other, other ≠ index → f other = g other) :
    (∑ other, f other) + g index = (∑ other, g other) + f index := by
  classical
  have rest : ∑ other ∈ Finset.univ.erase index, f other =
      ∑ other ∈ Finset.univ.erase index, g other :=
    Finset.sum_congr rfl fun other inside => same other (Finset.ne_of_mem_erase inside)
  have first := Finset.add_sum_erase Finset.univ f (Finset.mem_univ index)
  have second := Finset.add_sum_erase Finset.univ g (Finset.mem_univ index)
  omega

section Steps

variable [NeZero numThreads] [DecidableEq Client] [Fintype Client] {cost : ℕ}
  {left left' : Fin numThreads → ℕ} {state after : State numThreads Client}

omit [NeZero numThreads] [DecidableEq Client] [Fintype Client] in
/-- One worker changes. -/
theorem sum_setWorker (sleepers cost : ℕ) (left : Fin numThreads → ℕ)
    (state : State numThreads Client) (id : Fin numThreads) (worker : Worker) :
    (∑ other, ((state.setWorker id worker).workers other).work sleepers cost (left other)) +
        (state.workers id).work sleepers cost (left id) =
      (∑ other, (state.workers other).work sleepers cost (left other)) +
        worker.work sleepers cost (left id) := by
  have agree := sum_of_agree id
    (f := fun other => ((state.setWorker id worker).workers other).work sleepers cost (left other))
    (g := fun other => (state.workers other).work sleepers cost (left other))
    fun other apart => by rw [setWorker_of_ne apart worker]
  have here : (state.setWorker id worker).workers id = worker := Function.update_self ..
  rw [here] at agree
  exact agree

omit [NeZero numThreads] [Fintype Client] in
/-- One client changes. -/
theorem sum_setClient [Fintype Client] (queued : ℕ) (clients : Client → Option Call)
    (client : Client) (call : Option Call) :
    (∑ other, callWork queued (Function.update clients client call other)) +
        callWork queued (clients client) =
      (∑ other, callWork queued (clients other)) + callWork queued call := by
  have agree := sum_of_agree client
    (f := fun other => callWork queued (Function.update clients client call other))
    (g := fun other => callWork queued (clients other))
    fun other apart => by rw [Function.update_of_ne apart]
  rw [Function.update_self] at agree
  exact agree

/-- A step of the dispatcher is one less. -/
theorem work_dispatcher (cost : ℕ) (left : Fin numThreads → ℕ)
    (taken : step state .dispatcher = some after) :
    after.work cost left < state.work cost left := by
  cases dispatcherMove_of_step taken with
  | takeQueued pc token =>
      obtain ⟨rest, more⟩ := Nat.exists_eq_succ_of_ne_zero token.ne'
      simp only [State.work, pc, more, DispatcherPc.work, queuedWork, Nat.succ_sub_one,
        Nat.succ_mul]
      omega
  | quitQueued pc | continueQueued pc | quitAvailable pc | continueAvailable pc | claimNobody pc
  | pop pc | takeAvailable pc =>
      simp only [State.work, pc, DispatcherPc.work]
      omega
  | @claim id pc found =>
      have agree := sum_setWorker (waiters Client) cost left state id
        { state.workers id with available := false }
      simp only [State.work, State.setWorker, pc, DispatcherPc.work, Worker.work] at agree ⊢
      omega
  | @assign id thunk pc =>
      have agree := sum_setWorker (waiters Client) cost left state id
        { state.workers id with thunk := some thunk, assigned := true }
      simp only [State.work, State.setWorker, pc, DispatcherPc.work, Worker.work] at agree ⊢
      omega
  | @signalReady id pc =>
      have agree := sum_setWorker (waiters Client) cost left state id
        { state.workers id with ready := (state.workers id).ready + 1 }
      simp only [State.work, State.setWorker, pc, DispatcherPc.work, Worker.work, Nat.succ_mul]
        at agree ⊢
      omega

omit [NeZero numThreads] [DecidableEq Client] [Fintype Client] in
theorem work_wake (sleepers cost left : ℕ) (worker : Worker) :
    worker.wake.work sleepers cost left = worker.work sleepers cost left := by
  unfold Worker.wake
  cases pc : worker.pc with
  | running thunk call => rw [Worker.work, Worker.work, pc, WorkerPc.work, WorkerPc.work]
  | _ => rfl

omit [NeZero numThreads] [DecidableEq Client] [Fintype Client] in
/-- A sleeper that wakes tests once more. -/
theorem callWork_wake (queued : ℕ) (call : Option Call) :
    callWork queued (call.map Call.wake) ≤ callWork queued call + 1 := by
  rcases call with _ | pc | ⟨_ | _, since⟩
  · exact Nat.le_succ _
  · exact Nat.le_succ _
  · exact Nat.le_succ _
  · exact le_rfl

omit [NeZero numThreads] [DecidableEq Client] in
/-- A notification costs one test for each client at most. -/
theorem work_notifyAll (cost : ℕ) (left : Fin numThreads → ℕ) (state : State numThreads Client) :
    state.notifyAll.work cost left ≤ state.work cost left + waiters Client := by
  have workers : ∑ id, (state.workers id).wake.work (waiters Client) cost (left id) =
      ∑ id, (state.workers id).work (waiters Client) cost (left id) :=
    Finset.sum_congr rfl fun id _ => work_wake _ _ _ _
  have destructor (ready queued : ℕ) :
      state.destructor.wake.work ready queued ≤ state.destructor.work ready queued + 1 := by
    rcases state.destructor with _ | ⟨_ | _, since⟩ | _ | _ | _ | _ | _ | _ | _
    all_goals first | exact Nat.le_succ _ | exact le_rfl
  have clients : ∑ client, callWork (queuedWork (waiters Client) cost)
        ((state.clients client).map Call.wake) ≤
      (∑ client, callWork (queuedWork (waiters Client) cost) (state.clients client)) +
        Fintype.card Client := by
    refine (Finset.sum_le_sum fun client _ => callWork_wake _ (state.clients client)).trans ?_
    rw [Finset.sum_add_distrib, Finset.sum_const, Finset.card_univ, smul_eq_mul, mul_one]
  have woken := destructor (readyWork (waiters Client) cost) (queuedWork (waiters Client) cost)
  have size : waiters Client = Fintype.card Client + 1 := rfl
  simp only [State.work, State.notifyAll, workers]
  omega

/-- A step of a worker outside the bodies is one less. -/
theorem work_worker (cost : ℕ) (left : Fin numThreads → ℕ) {id : Fin numThreads}
    (uncalled : state.Uncalled) (idle : state.body id = none) (bounded : left id ≤ cost)
    (taken : step state (.worker id) = some after) :
    after.work cost left < state.work cost left := by
  have agree := sum_setWorker (waiters Client) cost left state id
  cases workerMove_of_step taken with
  | takeReady pc token =>
      obtain ⟨rest, more⟩ := Nat.exists_eq_succ_of_ne_zero token.ne'
      have agree := agree
        { state.workers id with ready := (state.workers id).ready - 1, pc := .checkDone }
      simp only [State.work, State.setWorker, pc, more, Worker.work, WorkerPc.work, readyWork,
        Nat.succ_sub_one, Nat.succ_mul] at agree ⊢
      omega
  | quit pc =>
      have agree := agree { state.workers id with pc := .exited }
      simp only [State.work, State.setWorker, pc, Worker.work, WorkerPc.work] at agree ⊢
      omega
  | @start thunk pc =>
      have agree := agree { state.workers id with pc := .running thunk none }
      simp only [State.work, State.setWorker, pc, Worker.work, WorkerPc.work] at agree ⊢
      omega
  | complete pc =>
      rw [body_eq_some.mpr pc] at idle
      cases idle
  | call pc =>
      have outside := uncalled id
      rw [pc] at outside
      cases outside
  | @publish thunk pc =>
      have agree := agree { state.workers id with available := true, pc := .signalAvailable thunk }
      simp only [State.work, State.setWorker, pc, Worker.work, WorkerPc.work] at agree ⊢
      omega
  | @signalAvailable thunk pc =>
      have agree := agree { state.workers id with pc := .decrement thunk }
      simp only [State.work, State.setWorker, pc, Worker.work, WorkerPc.work] at agree ⊢
      omega
  | @decrement thunk decremented pc shape =>
      have agree := agree { state.workers id with pc := .ready }
      have notified := work_notifyAll cost left decremented
      have less : decremented.work cost left + waiters Client < state.work cost left := by
        rw [shape]
        simp only [State.work, State.setWorker, pc, Worker.work, WorkerPc.work] at agree ⊢
        omega
      split
      · exact notified.trans_lt less
      · omega

/-- A body that returns owes nothing more. -/
theorem work_returns (cost : ℕ) {id : Fin numThreads} {thunk : Ticket}
    (running : state.body id = some thunk)
    (others : ∀ other, other ≠ id → left' other = left other)
    (taken : step state (.worker id) = some after) :
    after.work cost left' < state.work cost left := by
  have taken : workerStep state id = some after := taken
  have pc := body_eq_some.mp running
  rw [workerStep, pc] at taken
  obtain rfl := Option.some.inj taken
  have agree := sum_of_agree id
    (f := fun other => (Function.update state.workers id { state.workers id with
      pc := .publish thunk, assigned := false } other).work (waiters Client) cost
        (left' other))
    (g := fun other => (state.workers other).work (waiters Client) cost (left other))
    fun other apart => by rw [Function.update_of_ne apart, others other apart]
  simp only [Function.update_self, State.work, State.setWorker, pc, Worker.work, WorkerPc.work]
    at agree ⊢
  omega

omit [NeZero numThreads] [DecidableEq Client] in
/-- A body takes some of its steps. -/
theorem work_body (cost : ℕ) {id : Fin numThreads} {thunk : Ticket}
    (running : state.body id = some thunk)
    (others : ∀ other, other ≠ id → left' other = left other) :
    state.work cost left' + left id = state.work cost left + left' id := by
  have pc := body_eq_some.mp running
  have agree := sum_of_agree id
    (f := fun other => (state.workers other).work (waiters Client) cost (left' other))
    (g := fun other => (state.workers other).work (waiters Client) cost (left other))
    fun other apart => by rw [others other apart]
  simp only [State.work, pc, Worker.work, WorkerPc.work] at agree ⊢
  omega

/-- A step of a client in a call is one less. -/
theorem work_client (cost : ℕ) (left : Fin numThreads → ℕ) {client : Client}
    (taken : step state (.client client) = some after) :
    after.work cost left < state.work cost left := by
  have taken : clientStep state client = some after := taken
  rw [clientStep] at taken
  split at taken
  · rename_i call inside
    obtain ⟨⟨pool, next⟩, moved, rfl⟩ := Option.map_eq_some_iff.mp taken
    have agree := sum_setClient (queuedWork (waiters Client) cost) state.clients client next
    rw [inside] at agree
    rcases call with (_ | thunk | thunk) | ⟨_ | _, since⟩
    · obtain ⟨rfl, rfl⟩ := Prod.mk.inj (Option.some.inj moved)
      simp only [State.work, callWork, Call.work, scheduleStep, Option.map_some] at agree ⊢
      omega
    · obtain ⟨rfl, rfl⟩ := Prod.mk.inj (Option.some.inj moved)
      simp only [State.work, callWork, Call.work, scheduleStep, Option.map_some] at agree ⊢
      omega
    · obtain ⟨rfl, rfl⟩ := Prod.mk.inj (Option.some.inj moved)
      simp only [State.work, callWork, Call.work, scheduleStep, Option.map_none, Nat.succ_mul]
        at agree ⊢
      omega
    · obtain ⟨rfl, asleep | ⟨returned, -⟩⟩ := callStep_of_wait moved
      all_goals
        subst next
        simp only [State.work, callWork, Call.work] at agree ⊢
        omega
    · cases moved
  · cases taken

/-- A client pays for the call that it begins. -/
theorem work_clientCalls (cost : ℕ) (left : Fin numThreads → ℕ) {client : Client} {entry : Entry}
    (taken : step state (.clientCalls client entry) = some after) :
    after.work cost left =
      state.work cost left + entry.work (queuedWork (waiters Client) cost) := by
  obtain ⟨outside, rfl⟩ := clientCalls_spec taken
  have agree := sum_setClient (queuedWork (waiters Client) cost) state.clients client
    (some (entry.begin state.pool))
  rw [outside] at agree
  cases entry <;>
  · simp only [State.work, callWork, Call.work, Entry.begin, Entry.work] at agree ⊢
    omega

/-- A step of the destructor is one less. -/
theorem work_destructor (cost : ℕ) (left : Fin numThreads → ℕ)
    (taken : step state .destructor = some after) :
    after.work cost left < state.work cost left := by
  cases destructorMove_of_step taken with
  | sleep pc | drained pc | setDone pc | signalAvailable pc | reaped pc =>
      simp only [State.work, pc, DestructorPc.work]
      omega
  | signalQueued pc =>
      simp only [State.work, pc, DestructorPc.work, Nat.succ_mul]
      omega
  | joinDispatcher pc =>
      simp only [State.work, pc, DestructorPc.work, Nat.sub_zero]
      omega
  | @reap index pc bound =>
      have agree := sum_setWorker (waiters Client) cost left state ⟨index, bound⟩
        { state.workers ⟨index, bound⟩ with
          ready := (state.workers ⟨index, bound⟩).ready + 1 }
      have one : numThreads - index = numThreads - (index + 1) + 1 := by omega
      simp only [State.work, State.setWorker, pc, DestructorPc.work, Worker.work, one,
        Nat.succ_mul] at agree ⊢
      omega
  | joinWorker pc =>
      simp only [State.work, pc, DestructorPc.work]
      omega

/-- Whoever begins the destructor pays for it. -/
theorem work_destroy (cost : ℕ) (left : Fin numThreads → ℕ)
    (taken : step state .destroy = some after) :
    after.work cost left = state.work cost left + destroyWork numThreads
      (readyWork (waiters Client) cost) (queuedWork (waiters Client) cost) := by
  obtain ⟨idle, rfl⟩ := destroy_spec taken
  simp only [State.work, idle, DestructorPc.work, destroyWork]
  omega

/-! ## Rest -/

omit [Fintype Client] in
/-- The destructor has not begun, and no step of a program begins it. -/
theorem idle_of_plain {action : Action numThreads Client} (plain : action.plain = true)
    (idle : state.destructor = .idle) (taken : step state action = some after) :
    after.destructor = .idle := by
  rcases destructor_of_step taken with same | woken | ⟨rfl, _⟩ | ⟨rfl, _⟩
  · rw [same, idle]
  · rw [woken, idle]
    rfl
  · cases plain
  · cases plain

/-- A pool without a destructor is at rest when neither its threads nor its clients can move. -/
theorem parked_of_still (invariant : Invariant state) (uncalled : state.Uncalled)
    (idle : state.destructor = .idle) (dispatcher : step state .dispatcher = none)
    (workers : ∀ id, step state (.worker id) = none)
    (clients : ∀ client, step state (.client client) = none) : Parked state := by
  have stuck : ¬ Enabled state := by
    rintro ⟨action, internal, moves⟩
    cases action with
    | dispatcher =>
        rw [dispatcher] at moves
        cases moves
    | worker id =>
        rw [workers id] at moves
        cases moves
    | client client =>
        rw [clients client] at moves
        cases moves
    | destructor =>
        rw [step, destructorStep, idle] at moves
        cases moves
    | thunkCalls | clientCalls | destroy | spuriousWake => cases internal
  refine parked_of_stuck stuck invariant (fun id pc since inside => ?_) (by rw [idle]; rfl)
  rw [uncalled id] at inside
  cases inside

/-- Nobody is in a call of the pool, its destructor has not been called, and every worker is parked
or in a body. -/
structure Resting (state : State numThreads Client) : Prop where
  invariant : Invariant state
  idle : state.destructor = .idle
  clients : ∀ client, state.clients client = none
  parked : ∀ id, state.body id = none →
    (state.workers id).pc = .ready ∧ (state.workers id).ready = 0

namespace Resting

omit [NeZero numThreads] [DecidableEq Client]

theorem pastDone (resting : Resting state) : state.destructor.pastDone = false := by
  rw [resting.idle]
  rfl

/-- No thread is on its way to a region. -/
theorem total_eq_zero (resting : Resting state) (account : Account)
    (position : account.slot = false) : state.total account = 0 := by
  refine total_of_weightless position (fun client => ?_) fun id => ?_
  · rw [resting.clients client]
    rfl
  · cases body : state.body id with
    | none =>
        rw [(resting.parked id body).1, weight_parked.1]
        rfl
    | some thunk =>
        rw [body_eq_some.mp body, weight_running]
        rfl

/-- A worker whose slot is assigned is in a body, since no signal is on the way to it. -/
theorem body_of_assigned (resting : Resting state) {id : Fin numThreads}
    (signals : state.dispatcher.signalsReady id = 0)
    (assigned : (state.workers id).assigned = true) : ∃ thunk, state.body id = some thunk := by
  cases body : state.body id with
  | some thunk => exact ⟨thunk, rfl⟩
  | none =>
      obtain ⟨pc, empty⟩ := resting.parked id body
      have tokens := (resting.invariant.workers id).tokens
      rw [pc, empty, signals, unit_eq_one_iff.mpr assigned,
        DestructorPc.extraReady_eq_zero resting.pastDone] at tokens
      cases tokens

/-- While the dispatcher waits for a thunk, every thunk has begun. -/
theorem begun (resting : Resting state) (pc : state.dispatcher = .waitQueued)
    (empty : state.pool.queued = 0) {thunk : Ticket} (given : thunk < state.pool.issued) :
    thunk ∈ state.pool.completed ∨ ∃ id, state.body id = some thunk := by
  have queued := resting.invariant.ledger.queuedTokens
  have place := resting.invariant.ledger.places thunk
  rw [pc, empty, resting.total_eq_zero .signalling rfl,
    DestructorPc.extraQueued_eq_zero resting.pastDone] at queued
  have nothing : state.pool.tasks = [] := by
    refine List.eq_nil_of_length_eq_zero ?_
    simp only [DispatcherPc.heldQueued] at queued
    omega
  rw [pc, nothing, resting.total_eq_zero (.pushingTicket thunk) rfl,
    unit_eq_one_iff.mpr given] at place
  by_cases returned : thunk ∈ state.pool.completed
  · exact .inl returned
  · refine .inr ?_
    rw [List.count_eq_zero.mpr returned] at place
    have held : 0 < tally (fun worker => Worker.weight worker (.holding thunk))
        state.workers := by
      have clients : tally (fun call => callWeight call (.holding thunk)) state.clients = 0 :=
        tally_eq_zero fun client => callWeight_of_slot (state.clients client) rfl
      unfold State.total at place
      rw [Pi.add_apply, tally_apply, tally_apply, clients] at place
      simp only [DispatcherPc.carries, List.count_nil] at place
      omega
    obtain ⟨id, heavy⟩ := exists_of_tally_pos held
    rw [weight_of_slot _ rfl, Worker.slotWeight] at heavy
    have own : (state.workers id).assigned = true ∧ (state.workers id).thunk = some thunk := by
      by_contra other
      rw [unit, if_neg other] at heavy
      exact absurd heavy (lt_irrefl 0)
    obtain ⟨found, body⟩ := resting.body_of_assigned (by rw [pc]; rfl) own.1
    have same := ((resting.invariant.workers id).running found none (body_eq_some.mp body)).2
    exact ⟨id, body.trans (same.symm.trans own.2)⟩

/-- While the dispatcher waits for a worker, every worker is in a body. -/
theorem busy (resting : Resting state) (pc : state.dispatcher = .waitAvailable)
    (empty : state.pool.availableWorkers = 0) (id : Fin numThreads) :
    (state.body id).isSome = true := by
  have tokens := resting.invariant.ledger.availableTokens (by simp [pc])
  rw [pc, empty, resting.total_eq_zero .signallingAvailable rfl,
    DestructorPc.extraAvailable_eq_zero resting.pastDone] at tokens
  have taken : (state.workers id).available = false := by
    by_contra free
    have below := weight_le_total state id .available
    rw [weight_of_slot _ rfl, Worker.slotWeight,
      unit_eq_one_iff.mpr (Bool.eq_true_of_not_eq_false free)] at below
    simp only [DispatcherPc.heldAvailable] at tokens
    omega
  cases body : state.body id with
  | some thunk => rfl
  | none =>
      have claimed := (resting.invariant.workers id).claimed
      rw [pc, (resting.parked id body).1, unit_eq_one_iff.mpr taken] at claimed
      have assigned : (state.workers id).assigned = true := by
        refine unit_eq_one_iff.mp ?_
        simp only [DispatcherPc.claims, WorkerPc.publishing] at claimed
        omega
      obtain ⟨thunk, inside⟩ := resting.body_of_assigned (by rw [pc]; rfl) assigned
      rw [body] at inside
      cases inside

end Resting

omit [DecidableEq Client] in
/-- In a pool without a destructor where nothing can move but bodies, each thunk that has not
returned is in a body, or each worker is in one. -/
theorem begun_or_busy_of_still (invariant : Invariant state) (uncalled : state.Uncalled)
    (idle : state.destructor = .idle) (dispatcher : dispatcherStep state = none)
    (workers : ∀ id, state.body id = none → workerStep state id = none)
    (clients : ∀ client, state.clients client = none) :
    (∀ thunk < state.pool.issued,
        thunk ∈ state.pool.completed ∨ ∃ id, state.body id = some thunk) ∨
      ∀ id, (state.body id).isSome = true := by
  have running : state.pool.done = false := invariant.ledger.doneSet.trans (by rw [idle]; rfl)
  have unwaiting : Unwaiting state := by
    intro id pc since inside
    rw [uncalled id] at inside
    cases inside
  have parked (id : Fin numThreads) (outside : state.body id = none) :
      (state.workers id).pc = .ready ∧ (state.workers id).ready = 0 := by
    rcases worker_of_still invariant unwaiting (workers id outside) with parked | exited
    · exact parked
    · have done := (invariant.workers id).exited exited
      rw [running] at done
      cases done
  have resting : Resting state := ⟨invariant, idle, clients, parked⟩
  rcases dispatcher_of_still invariant dispatcher with ⟨pc, empty⟩ | ⟨pc, empty⟩ | exited
  · exact .inl fun thunk given => resting.begun pc empty given
  · exact .inr (resting.busy pc empty)
  · have done := invariant.ledger.dispatcherExited exited
    rw [running] at done
    cases done

end Steps

end ThreadPool
end Syscore
