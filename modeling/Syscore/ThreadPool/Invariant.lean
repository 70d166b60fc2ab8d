import Syscore.ThreadPool.Ledger

/-!
# The pool invariant

The pool invariant is the ledger of the totals together with one small ledger per worker. It holds
of the constructed pool.
-/

namespace Syscore
namespace ThreadPool

variable {numThreads : ℕ}

/-! ## Weights as charges -/

theorem weight_push (thunk : Ticket) :
    (Call.schedule (.push thunk)).weight = charge .pushing + charge (.pushingTicket thunk) := by
  funext account
  cases account <;> simp [Call.weight, charge]

theorem weight_signal (thunk : Ticket) :
    (Call.schedule (.signal thunk)).weight = charge .signalling := by
  funext account
  cases account <;> simp [Call.weight, charge]

theorem weight_increment : (Call.schedule .increment).weight = 0 := by
  funext account
  cases account <;> rfl

theorem weight_check (since : ℕ) : (Call.wait .check since).weight = 0 := by
  funext account
  cases account <;> rfl

theorem weight_asleep (since : ℕ) : (Call.wait .asleep since).weight = charge .sleeping := by
  funext account
  cases account <;> simp [Call.weight, charge]

theorem weight_begin (entry : Entry) (pool : Pool) : (entry.begin pool).weight = 0 := by
  cases entry with
  | schedule => exact weight_increment
  | wait => exact weight_check _

theorem weight_publish (thunk : Ticket) :
    (WorkerPc.publish thunk).weight = charge .posted + charge (.postedTicket thunk) := by
  funext account
  cases account <;> simp [WorkerPc.weight, charge]

theorem weight_signalAvailable (thunk : Ticket) :
    (WorkerPc.signalAvailable thunk).weight =
      charge .signallingAvailable + charge .posted + charge (.postedTicket thunk) := by
  funext account
  cases account <;> simp [WorkerPc.weight, charge]

theorem weight_decrement (thunk : Ticket) :
    (WorkerPc.decrement thunk).weight = charge .posted + charge (.postedTicket thunk) := by
  funext account
  cases account <;> simp [WorkerPc.weight, charge]

theorem weight_running (thunk : Ticket) (call : Option Call) :
    (WorkerPc.running thunk call).weight = callWeight call := by
  funext account
  cases account <;> rfl

theorem weight_parked : WorkerPc.ready.weight = 0 ∧ WorkerPc.checkDone.weight = 0 ∧
    WorkerPc.exited.weight = 0 := by
  refine ⟨?_, ?_, ?_⟩ <;> funext account <;> cases account <;> rfl

theorem slotWeight_claim {worker : Worker} (free : worker.available = true) (pc : WorkerPc)
    (ready : ℕ) :
    Worker.slotWeight { worker with available := false, pc, ready } =
      worker.slotWeight - charge .available := by
  funext account
  cases account <;> simp [Worker.slotWeight, charge, free]

theorem slotWeight_publish {worker : Worker} (busy : worker.available = false) (pc : WorkerPc)
    (ready : ℕ) :
    Worker.slotWeight { worker with available := true, pc, ready } =
      worker.slotWeight + charge .available := by
  funext account
  cases account <;> simp [Worker.slotWeight, charge, busy]

theorem slotWeight_assign {worker : Worker} (unassigned : worker.assigned = false)
    (thunk : Ticket) :
    Worker.slotWeight { worker with thunk := some thunk, assigned := true } =
      worker.slotWeight + charge .assigned + charge (.holding thunk) := by
  funext account
  cases account <;> simp [Worker.slotWeight, charge, unassigned]

theorem slotWeight_complete {worker : Worker} {thunk : Ticket} (assigned : worker.assigned = true)
    (slot : worker.thunk = some thunk) (pc : WorkerPc) :
    Worker.slotWeight { worker with pc, assigned := false } =
      worker.slotWeight - charge .assigned - charge (.holding thunk) := by
  funext account
  cases account <;> simp [Worker.slotWeight, charge, assigned, slot]

theorem weight_setPc (worker : Worker) (pc : WorkerPc) (ready : ℕ) :
    Worker.weight { worker with pc, ready } = worker.weight - worker.pc.weight + pc.weight := by
  have slot : Worker.slotWeight { worker with pc, ready } = worker.slotWeight := by
    funext account
    cases account <;> rfl
  unfold Worker.weight
  rw [slot]
  abel

/-- The accounts that weigh flags and slots rather than positions. -/
def Account.slot : Account → Bool
  | .available | .assigned | .holding _ => true
  | _ => false

theorem callWeight_of_slot (call : Option Call) {account : Account} (slot : account.slot = true) :
    callWeight call account = 0 := by
  rcases call with _ | ⟨_ | _ | _⟩ | ⟨_ | _⟩ <;> cases account <;> first | rfl | cases slot

theorem weight_of_slot (worker : Worker) {account : Account} (slot : account.slot = true) :
    worker.weight account = worker.slotWeight account := by
  have position : worker.pc.weight account = 0 := by
    cases worker.pc with
    | running _ call => exact callWeight_of_slot call slot
    | _ => cases account <;> first | rfl | cases slot
  rw [Worker.weight, Pi.add_apply, position, zero_add]

/-! ## One worker -/

/-- The worker holds a token of its `ready` semaphore; `exited` keeps its last token. -/
def WorkerPc.holdsToken : WorkerPc → ℤ
  | .checkDone | .running _ _ | .exited => 1
  | .ready | .publish _ | .signalAvailable _ | .decrement _ => 0

/-- The thunk has returned and `available` is not set yet. -/
def WorkerPc.publishing : WorkerPc → ℤ
  | .publish _ => 1
  | _ => 0

/-- The equations between one worker's semaphore, flag, slot and position. -/
structure WorkerLedger (pool : Pool) (dispatcher : DispatcherPc numThreads)
    (destructor : DestructorPc numThreads) (id : Fin numThreads) (worker : Worker) : Prop where
  tokens :
    (worker.ready : ℤ) + worker.pc.holdsToken + dispatcher.signalsReady id =
      unit (worker.assigned = true) + destructor.extraReady id
  claimed :
    unit (worker.assigned = true) + dispatcher.claims id + worker.pc.publishing =
      unit (worker.available = false)
  running : ∀ thunk call, worker.pc = .running thunk call →
    worker.assigned = true ∧ worker.thunk = some thunk
  filled : worker.assigned = true → worker.thunk ≠ none
  stale : worker.assigned = false → ∀ thunk, worker.thunk = some thunk → thunk ∈ pool.completed
  exited : worker.pc = .exited → pool.done = true
  joined : id < destructor.joined → worker.pc = .exited

namespace WorkerLedger

variable {pool after : Pool} {dispatcher next : DispatcherPc numThreads}
  {destructor later : DestructorPc numThreads} {id : Fin numThreads} {worker : Worker}

/-- A worker's ledger sees little of what the other threads do. -/
theorem mono (ledger : WorkerLedger pool dispatcher destructor id worker)
    (done : pool.done = true → after.done = true)
    (completed : ∀ thunk ∈ pool.completed, thunk ∈ after.completed)
    (signals : next.signalsReady id = dispatcher.signalsReady id)
    (claims : next.claims id = dispatcher.claims id)
    (extra : later.extraReady id = destructor.extraReady id)
    (joined : id < later.joined → worker.pc = .exited) :
    WorkerLedger after next later id worker where
  tokens := by rw [signals, extra]; exact ledger.tokens
  claimed := by rw [claims]; exact ledger.claimed
  running := ledger.running
  filled := ledger.filled
  stale := fun unassigned thunk slot => completed thunk (ledger.stale unassigned thunk slot)
  exited := fun exit => done (ledger.exited exit)
  joined := joined

/-- A claimed worker has an unassigned slot. -/
theorem unassigned (ledger : WorkerLedger pool dispatcher destructor id worker)
    (claim : dispatcher.claims id = 1) : worker.assigned = false := by
  have claimed := ledger.claimed
  have bound := unit_le_one (worker.available = false)
  have publishing : 0 ≤ worker.pc.publishing := by
    unfold WorkerPc.publishing
    split <;> decide
  by_contra assigned
  rw [unit_eq_one_iff.mpr (Bool.eq_true_of_not_eq_false assigned), claim] at claimed
  omega

/-- A worker past its semaphore while `done` is false has an assigned slot. -/
theorem assigned (ledger : WorkerLedger pool dispatcher destructor id worker)
    (pc : worker.pc = .checkDone) (before : destructor.pastDone = false) :
    worker.assigned = true := by
  have tokens := ledger.tokens
  have signals : 0 ≤ dispatcher.signalsReady id := by
    unfold DispatcherPc.signalsReady
    split <;> first | exact unit_nonneg _ | decide
  rw [DestructorPc.extraReady_eq_zero before, pc, WorkerPc.holdsToken] at tokens
  by_contra unassigned
  simp only [unit, unassigned, if_false] at tokens
  omega

theorem claim (ledger : WorkerLedger pool .scan destructor id worker)
    (free : worker.available = true) :
    WorkerLedger pool (.pop id) destructor id { worker with available := false } :=
  { ledger with
    claimed := by
      have claimed := ledger.claimed
      simp [DispatcherPc.claims, free] at claimed ⊢
      omega }

theorem assign {thunk : Ticket}
    (ledger : WorkerLedger pool (.assign id thunk) destructor id worker) :
    WorkerLedger pool (.signalReady id) destructor id
      { worker with thunk := some thunk, assigned := true } := by
  have unassigned : worker.assigned = false := ledger.unassigned (by simp [DispatcherPc.claims])
  refine ⟨?_, ?_, ?_, by simp, by simp, ledger.exited, ledger.joined⟩
  · have tokens := ledger.tokens
    simp [DispatcherPc.signalsReady, unassigned] at tokens ⊢
    omega
  · have claimed := ledger.claimed
    simp [DispatcherPc.claims, unassigned] at claimed ⊢
    omega
  · intro other call pc
    have assigned := (ledger.running other call pc).1
    rw [unassigned] at assigned
    contradiction

theorem signalReady (ledger : WorkerLedger pool (.signalReady id) destructor id worker) :
    WorkerLedger pool .waitQueued destructor id { worker with ready := worker.ready + 1 } :=
  { ledger with
    tokens := by
      have tokens := ledger.tokens
      simp [DispatcherPc.signalsReady] at tokens ⊢
      omega }

/-- A worker moves between two positions that take or keep the same tokens. -/
theorem setPc (ledger : WorkerLedger pool dispatcher destructor id worker) {ready : ℕ}
    {pc : WorkerPc} (tokens : (ready : ℤ) + pc.holdsToken = worker.ready + worker.pc.holdsToken)
    (publishing : pc.publishing = worker.pc.publishing)
    (running : ∀ thunk call, pc = .running thunk call →
      worker.assigned = true ∧ worker.thunk = some thunk)
    (exited : pc = .exited → pool.done = true)
    (alive : worker.pc ≠ .exited) :
    WorkerLedger pool dispatcher destructor id { worker with pc, ready } :=
  { ledger with
    tokens := by
      have before := ledger.tokens
      simp only at before ⊢
      omega
    claimed := by
      have before := ledger.claimed
      simp only [publishing] at before ⊢
      exact before
    running := running
    exited := exited
    joined := fun joined => absurd (ledger.joined joined) alive }

theorem complete {thunk : Ticket} {call : Option Call}
    (ledger : WorkerLedger pool dispatcher destructor id worker)
    (pc : worker.pc = .running thunk call) :
    WorkerLedger { pool with completed := pool.completed ++ [thunk] } dispatcher destructor id
      { worker with pc := .publish thunk, assigned := false } := by
  obtain ⟨assigned, slot⟩ := ledger.running thunk call pc
  refine ⟨?_, ?_, by simp, by simp, ?_, by simp, ?_⟩
  · have tokens := ledger.tokens
    simp [pc, assigned, WorkerPc.holdsToken] at tokens ⊢
    omega
  · have claimed := ledger.claimed
    simp [pc, assigned, WorkerPc.publishing] at claimed ⊢
    omega
  · intro _ other held
    have same : other = thunk := Option.some.inj (held.symm.trans slot)
    simp [same]
  · intro joined
    have exit := ledger.joined joined
    rw [pc] at exit
    contradiction

theorem publish {thunk : Ticket} (ledger : WorkerLedger pool dispatcher destructor id worker)
    (pc : worker.pc = .publish thunk) :
    worker.available = false ∧
      WorkerLedger pool dispatcher destructor id
        { worker with available := true, pc := .signalAvailable thunk } := by
  have claimed := ledger.claimed
  have bound := unit_le_one (worker.available = false)
  have assigned := unit_nonneg (worker.assigned = true)
  have claims : 0 ≤ dispatcher.claims id := by
    unfold DispatcherPc.claims
    split <;> first | exact unit_nonneg _ | decide
  simp only [pc, WorkerPc.publishing] at claimed
  have busy : worker.available = false := unit_eq_one_iff.mp (by omega)
  refine ⟨busy, ?_⟩
  exact
    { ledger with
      tokens := by
        have tokens := ledger.tokens
        simp [pc, WorkerPc.holdsToken] at tokens ⊢
        omega
      claimed := by
        simp [busy, WorkerPc.publishing] at claimed ⊢
        omega
      running := by simp
      exited := by simp
      joined := fun joined => by
        have exit := ledger.joined joined
        rw [pc] at exit
        contradiction }

theorem wake (ledger : WorkerLedger pool dispatcher destructor id worker) :
    WorkerLedger pool dispatcher destructor id worker.wake := by
  unfold Worker.wake
  split
  · rename_i thunk call pc
    have held := ledger.running thunk call pc
    refine ledger.setPc ?_ ?_ ?_ (by simp) (by simp [pc])
    · simp [pc, WorkerPc.holdsToken]
    · simp [pc, WorkerPc.publishing]
    · intro other _ same
      obtain ⟨rfl, _⟩ := WorkerPc.running.inj same
      exact held
  · exact ledger

/-- The destructor signals this worker. -/
theorem reap {bound : ℕ} (ledger : WorkerLedger pool dispatcher (.reap bound) id worker)
    (same : bound = id) :
    WorkerLedger pool dispatcher (.joinWorker id) id
      { worker with ready := worker.ready + 1 } :=
  { ledger with
    tokens := by
      have tokens := ledger.tokens
      simp [DestructorPc.extraReady, same] at tokens ⊢
      omega
    joined := by simp [DestructorPc.joined] }

end WorkerLedger

/-! ## The whole pool -/

variable {Client : Type} [Fintype Client]

/-- The pool invariant. -/
structure Invariant (state : State numThreads Client) : Prop where
  ledger : Ledger state.pool state.dispatcher state.destructor state.total
  workers : ∀ id,
    WorkerLedger state.pool state.dispatcher state.destructor id (state.workers id)

theorem total_construct (account : Account) :
    (construct numThreads Client).total account =
      if account = .available then numThreads else 0 := by
  unfold State.total
  rw [Pi.add_apply, tally_apply, tally_apply]
  cases account <;> simp [construct, tally, callWeight, Worker.weight, WorkerPc.weight,
    Worker.slotWeight, unit]

theorem invariant_construct : Invariant (construct numThreads Client) where
  ledger := by
    refine ⟨?_, ?_, ?_, rfl, ?_, ?_, rfl, by simp [construct, DispatcherPc.willPop],
      by simp [construct], rfl, by simp [construct], by simp [construct, DestructorPc.pastJoin], ?_⟩
    · rw [total_construct]
      simp [construct, DispatcherPc.heldQueued, DestructorPc.extraQueued]
    · intro _
      rw [total_construct, total_construct]
      simp [construct, List.foldl_const, DispatcherPc.heldAvailable, DestructorPc.extraAvailable]
    · simp only [total_construct]
      simp [construct, DispatcherPc.carrying]
    · intro thunk
      simp only [total_construct]
      simp [construct, DispatcherPc.carries, Pool.issued]
    · intro thunk
      rw [total_construct]
      simp [construct]
    · intro _
      rw [total_construct]
      simp [construct, DestructorPc.sleeping]
  workers id :=
    { tokens := rfl
      claimed := rfl
      running := by simp [construct]
      filled := by simp [construct]
      stale := by simp [construct]
      exited := by simp [construct]
      joined := by simp [construct, DestructorPc.joined] }

namespace Invariant

variable {state after : State numThreads Client}

/-- Reassemble the invariant after one worker, the pool and the two controllers have moved. -/
theorem setWorker (pool : Pool) (dispatcher : DispatcherPc numThreads)
    (destructor : DestructorPc numThreads) {id : Fin numThreads} {worker : Worker}
    (ledger : Ledger pool dispatcher destructor
      (state.total - (state.workers id).weight + worker.weight))
    (own : WorkerLedger pool dispatcher destructor id worker)
    (others : ∀ other, other ≠ id →
      WorkerLedger pool dispatcher destructor other (state.workers other)) :
    Invariant { state.setWorker id worker with pool, dispatcher, destructor } where
  ledger := by
    rw [← total_setWorker] at ledger
    exact ledger
  workers other := by
    by_cases same : other = id
    · subst same
      simpa [State.setWorker] using own
    · simpa [State.setWorker, same] using others other same

/-- The dispatcher moves without touching a worker. -/
theorem setDispatcher (invariant : Invariant state) {pool : Pool}
    {dispatcher : DispatcherPc numThreads}
    (ledger : Ledger pool dispatcher state.destructor state.total)
    (done : pool.done = state.pool.done) (completed : pool.completed = state.pool.completed)
    (signals : ∀ id, dispatcher.signalsReady id = state.dispatcher.signalsReady id)
    (claims : ∀ id, dispatcher.claims id = state.dispatcher.claims id) :
    Invariant { state with pool, dispatcher } where
  ledger := ledger
  workers id :=
    (invariant.workers id).mono (by simp [done]) (by simp [completed]) (signals id) (claims id) rfl
      (invariant.workers id).joined

end Invariant

/-! ## The scan -/

/-- The scan returns an available worker. -/
theorem available_of_firstAvailable {workers : Fin numThreads → Worker} {id : Fin numThreads}
    (found : firstAvailable workers = some id) : (workers id).available = true := by
  unfold firstAvailable at found
  simpa using List.find?_some found

/-- The scan succeeds while the account of available workers is positive. -/
theorem exists_firstAvailable {state : State numThreads Client}
    (positive : 0 < state.total .available) :
    ∃ id, firstAvailable state.workers = some id := by
  unfold State.total at positive
  rw [Pi.add_apply, tally_apply, tally_apply] at positive
  have idle : tally (fun call => callWeight call .available) state.clients = 0 := by
    have weightless (call : Option Call) : callWeight call .available = 0 :=
      callWeight_of_slot call rfl
    simp [tally, weightless]
  rw [idle, zero_add] at positive
  obtain ⟨id, heavy⟩ := exists_of_tally_pos positive
  rw [weight_of_slot _ rfl, Worker.slotWeight] at heavy
  have free : (state.workers id).available = true := by
    by_contra busy
    simp [unit, busy] at heavy
  cases found : firstAvailable state.workers with
  | some other => exact ⟨other, rfl⟩
  | none =>
      unfold firstAvailable at found
      have none := List.find?_eq_none.mp found id (List.mem_finRange id)
      exact absurd free none

/-! ## An empty ledger -/

theorem callWeight_ticket_le (call : Option Call) (thunk : Ticket) :
    callWeight call (.pushingTicket thunk) ≤ callWeight call .pushing := by
  rcases call with _ | ⟨_ | other | _⟩ | ⟨_ | _⟩
  all_goals first | exact le_refl 0 | exact unit_le_one (other = thunk)

/-- The account of one ticket is at most the account of all. -/
theorem total_ticket_le (state : State numThreads Client) (thunk : Ticket) :
    state.total (.pushingTicket thunk) ≤ state.total .pushing ∧
      state.total (.holding thunk) ≤ state.total .assigned := by
  unfold State.total
  simp only [Pi.add_apply, tally_apply]
  constructor
  · refine add_le_add (tally_mono (fun call => callWeight_ticket_le call thunk) _)
      (tally_mono (fun worker => ?_) _)
    refine add_le_add ?_ le_rfl
    cases worker.pc with
    | running _ call => exact callWeight_ticket_le call thunk
    | _ => exact le_refl 0
  · refine add_le_add (tally_mono (fun call => ?_) _) (tally_mono (fun worker => ?_) _)
    · rw [callWeight_of_slot call rfl, callWeight_of_slot call rfl]
    · rw [weight_of_slot worker rfl, weight_of_slot worker rfl]
      simp only [Worker.slotWeight, unit]
      split_ifs with held assigned <;> first | exact absurd held.1 assigned | decide

namespace Invariant

variable {state : State numThreads Client}

/-- An unfinished slot is counted in `outstanding`. -/
theorem outstanding_pos (invariant : Invariant state) {id : Fin numThreads}
    (assigned : (state.workers id).assigned = true) : 0 < state.pool.outstanding := by
  have sum := invariant.ledger.outstandingSum
  have below := weight_le_total state id .assigned
  rw [weight_of_slot _ rfl, Worker.slotWeight, unit_eq_one_iff.mpr assigned] at below
  have pushing := total_nonneg state .pushing
  have posted := total_nonneg state .posted
  have carrying := state.dispatcher.carrying_nonneg
  omega

/-- When nothing is outstanding every thunk has run. -/
theorem all_completed (invariant : Invariant state) (zero : state.pool.outstanding = 0) :
    ∀ thunk < state.pool.issued, state.pool.completed.count thunk = 1 := by
  intro thunk known
  have sum := invariant.ledger.outstandingSum
  have place := invariant.ledger.places thunk
  have nonneg := total_nonneg state
  have carrying := state.dispatcher.carrying_nonneg
  obtain ⟨pushing, holding⟩ := total_ticket_le state thunk
  have carries := state.dispatcher.carries_le thunk
  have count := state.pool.tasks.count_le_length (a := thunk)
  rw [unit_eq_one_iff.mpr known] at place
  have counts := nonneg .pushing
  have slots := nonneg .assigned
  have posted := nonneg .posted
  have ticket := nonneg (.pushingTicket thunk)
  have slot := nonneg (.holding thunk)
  obtain ⟨carried, _⟩ := carries
  omega

end Invariant

end ThreadPool
end Syscore
