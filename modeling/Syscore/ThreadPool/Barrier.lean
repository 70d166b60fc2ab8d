import Syscore.ThreadPool.Steps

/-!
# `wait()` is a barrier

`outstanding` counts the thunks past their increment and before their decrement. When `wait()`
returns, every thunk counted before that call has run, and so has everything these thunks scheduled,
directly or through the thunks that they scheduled.
-/

namespace Syscore
namespace ThreadPool

variable {numThreads : ℕ} {Client : Type}

/-- `child` was scheduled by the body of `parent`. -/
def Pool.Spawned (pool : Pool) (parent child : Ticket) : Prop :=
  pool.scheduledBy[child]? = some (some parent)

/-- `thunk` was scheduled by the body of `root`, or by the body of such a thunk. -/
def Pool.Descends (pool : Pool) : Ticket → Ticket → Prop := Relation.ReflTransGen pool.Spawned

/-- What `wait()` promises about the thunks counted before it. -/
def Settled (since : ℕ) (pool : Pool) : Prop :=
  ∀ root < since, ∀ thunk, pool.Descends root thunk → thunk ∈ pool.completed

/-! ## Who is inside `wait()` -/

section Waiting

variable {state after : State numThreads Client}

theorem waiting_client {client : Client} {since : ℕ} :
    state.waiting (.client client) = some since ↔
      ∃ pc, state.clients client = some (.wait pc since) := by
  rcases inside : state.clients client with _ | pc | ⟨pc, began⟩ <;> simp [State.waiting, inside]

theorem waiting_worker {id : Fin numThreads} {since : ℕ} :
    state.waiting (.worker id) = some since ↔
      ∃ pc, (state.workers id).pc.call = some (.wait pc since) := by
  cases position : (state.workers id).pc with
  | running thunk call =>
      rcases call with _ | pc | ⟨pc, began⟩ <;> simp [State.waiting, WorkerPc.call, position]
  | _ => simp [State.waiting, WorkerPc.call, position]

theorem waiting_destructor {since : ℕ} :
    state.waiting .destructor = some since ↔ ∃ pc, state.destructor = .wait pc since := by
  cases position : state.destructor <;> simp [State.waiting, position]

variable [NeZero numThreads] [DecidableEq Client] {action : Action numThreads Client}

theorem wake_wait (pc : WaitPc) (since : ℕ) :
    Call.wake (.wait pc since) = .wait .check since := by
  cases pc <;> rfl

/-- A waiter stays inside `wait()` until a test of the predicate succeeds. -/
theorem waiting_of_step (taken : step state action = some after)
    {waiter : Waiter numThreads Client} {since : ℕ} (waiting : state.waiting waiter = some since) :
    after.waiting waiter = some since ∨
      (state.pool.outstanding = 0 ∧ after.pool = state.pool) := by
  cases waiter with
  | client client =>
      obtain ⟨pc, inside⟩ := waiting_client.mp waiting
      rcases clients_of_step taken client with same | woken | ⟨call, _, began, moved⟩ |
        ⟨_, _, outside, _⟩
      · exact .inl (waiting_client.mpr ⟨pc, same.trans inside⟩)
      · rw [inside, Option.map_some, wake_wait] at woken
        exact .inl (waiting_client.mpr ⟨.check, woken⟩)
      · obtain rfl := Option.some.inj (began.symm.trans inside)
        obtain ⟨pool, asleep | ⟨_, zero⟩⟩ := callStep_of_wait moved
        · exact .inl (waiting_client.mpr ⟨.asleep, asleep⟩)
        · exact .inr ⟨zero, pool⟩
      · rw [outside] at inside
        cases inside
  | worker id =>
      obtain ⟨pc, inside⟩ := waiting_worker.mp waiting
      rcases workers_of_step taken id with same | woken | ⟨_, moved⟩ | ⟨_, thunk, _, outside, _⟩
      · exact .inl (waiting_worker.mpr ⟨pc, by rw [same, inside]⟩)
      · refine .inl (waiting_worker.mpr ⟨.check, ?_⟩)
        rw [woken, call_wake, inside, Option.map_some, wake_wait]
      · rcases call_of_workerStep moved with ⟨outside, _⟩ | ⟨thunk, call, began, moved⟩
        · rw [outside] at inside
          cases inside
        · rw [began] at inside
          obtain rfl := Option.some.inj inside
          obtain ⟨pool, asleep | ⟨_, zero⟩⟩ := callStep_of_wait moved
          · exact .inl (waiting_worker.mpr ⟨.asleep, asleep⟩)
          · exact .inr ⟨zero, pool⟩
      · rw [outside] at inside
        cases inside
  | destructor =>
      obtain ⟨pc, inside⟩ := waiting_destructor.mp waiting
      rcases destructor_of_step taken with same | woken | ⟨_, moved⟩ | ⟨_, idle, _⟩
      · exact .inl (waiting_destructor.mpr ⟨pc, same.trans inside⟩)
      · rw [inside] at woken
        exact .inl (waiting_destructor.mpr ⟨.check, woken⟩)
      · cases destructorMove_of_step moved with
        | sleep position pending =>
            obtain ⟨rfl, rfl⟩ := DestructorPc.wait.inj (position.symm.trans inside)
            exact .inl (waiting_destructor.mpr ⟨.asleep, rfl⟩)
        | drained position zero => exact .inr ⟨zero, rfl⟩
        | _ position => cases position.symm.trans inside
      · rw [idle] at inside
        cases inside

/-- A waiter was waiting before the step, or its `wait()` begins with it. -/
theorem began_of_step (taken : step state action = some after)
    {waiter : Waiter numThreads Client} {since : ℕ} (waiting : after.waiting waiter = some since) :
    state.waiting waiter = some since ∨ since = state.pool.issued := by
  cases waiter with
  | client client =>
      obtain ⟨pc, inside⟩ := waiting_client.mp waiting
      rcases clients_of_step taken client with same | woken | ⟨call, _, began, moved⟩ |
        ⟨entry, _, _, new⟩
      · exact .inl (waiting_client.mpr ⟨pc, same.symm.trans inside⟩)
      · obtain ⟨earlier, inside⟩ := wake_eq_wait (woken.symm.trans inside)
        exact .inl (waiting_client.mpr ⟨earlier, inside⟩)
      · rw [inside] at moved
        obtain ⟨rfl, _⟩ := callStep_wait moved
        exact .inl (waiting_client.mpr ⟨.check, began⟩)
      · rw [new] at inside
        cases entry with
        | schedule => simp [Entry.begin] at inside
        | wait => exact .inr (Call.wait.inj (Option.some.inj inside)).2.symm
  | worker id =>
      obtain ⟨pc, inside⟩ := waiting_worker.mp waiting
      rcases workers_of_step taken id with same | woken | ⟨_, moved⟩ | ⟨entry, thunk, _, _, new⟩
      · exact .inl (waiting_worker.mpr ⟨pc, by rw [← same, inside]⟩)
      · rw [woken, call_wake] at inside
        obtain ⟨earlier, inside⟩ := wake_eq_wait inside
        exact .inl (waiting_worker.mpr ⟨earlier, inside⟩)
      · rcases call_of_workerStep moved with ⟨_, outside⟩ | ⟨thunk, call, began, moved⟩
        · rw [outside] at inside
          cases inside
        · rw [inside] at moved
          obtain ⟨rfl, _⟩ := callStep_wait moved
          exact .inl (waiting_worker.mpr ⟨.check, by rw [began]; rfl⟩)
      · rw [new] at inside
        cases entry with
        | schedule => simp [WorkerPc.call, Entry.begin] at inside
        | wait => exact .inr (Call.wait.inj (Option.some.inj inside)).2.symm
  | destructor =>
      obtain ⟨pc, inside⟩ := waiting_destructor.mp waiting
      rcases destructor_of_step taken with same | woken | ⟨_, moved⟩ | ⟨_, _, new⟩
      · exact .inl (waiting_destructor.mpr ⟨pc, same.symm.trans inside⟩)
      · refine .inl (waiting_destructor.mpr ?_)
        cases before : state.destructor <;> simp [before, woken, DestructorPc.wake] at inside
        exact ⟨_, by rw [inside.2]⟩
      · cases destructorMove_of_step moved with
        | sleep before pending =>
            obtain ⟨_, rfl⟩ := DestructorPc.wait.inj inside
            exact .inl (waiting_destructor.mpr ⟨_, before⟩)
        | _ => cases inside
      · rw [new] at inside
        exact .inr (DestructorPc.wait.inj inside).2.symm

/-- No `wait()` counts tickets that are not given out. -/
theorem since_le_issued {waiter : Waiter numThreads Client} {since : ℕ}
    (reach : (machine numThreads Client).Reachable .free state)
    (waiting : state.waiting waiter = some since) : since ≤ state.pool.issued := by
  have bound : ∀ waiter since, state.waiting waiter = some since → since ≤ state.pool.issued := by
    refine reach.invariant
      (fun state => ∀ waiter since, state.waiting waiter = some since → since ≤ state.pool.issued)
      ?_ ?_
    · rintro _ rfl waiter since waiting
      cases waiter <;> simp [State.waiting, construct] at waiting
    · intro before _ after ih _ taken waiter since waiting
      have grows : before.pool.issued ≤ after.pool.issued := by
        unfold Pool.issued
        cases effect_of_step taken with
        | none _ same => rw [same]
        | client _ _ grown => simp [grown]
        | thunk _ _ _ grown => simp [grown]
      rcases began_of_step taken waiting with earlier | rfl
      · exact (ih waiter since earlier).trans grows
      · exact grows
  exact bound waiter since waiting

end Waiting

/-! ## Descendants -/

/-- The first `bound` tickets have run and have no descendants beyond them. -/
structure Closed (bound : ℕ) (pool : Pool) : Prop where
  issued : bound ≤ pool.issued
  completed : ∀ thunk < bound, thunk ∈ pool.completed
  spawned : ∀ parent child, pool.Spawned parent child → parent < bound → child < bound

namespace Closed

variable {bound : ℕ} {pool : Pool}

theorem settled (closed : Closed bound pool) {since : ℕ} (early : since ≤ bound) :
    Settled since pool := by
  intro root known thunk descends
  have below : thunk < bound := by
    induction descends with
    | refl => exact known.trans_le early
    | tail _ spawned ih => exact closed.spawned _ _ spawned ih
  exact closed.completed thunk below

theorem of_zero [Fintype Client] {state : State numThreads Client} (invariant : Invariant state)
    (zero : state.pool.outstanding = 0) : Closed state.pool.issued state.pool where
  issued := le_rfl
  completed thunk known :=
    List.count_pos_iff.mp (by rw [invariant.all_completed zero thunk known]; exact Nat.one_pos)
  spawned parent child spawned _ := by
    obtain ⟨known, _⟩ := List.getElem?_eq_some_iff.mp spawned
    exact known

variable [NeZero numThreads] [DecidableEq Client] [Fintype Client]
  {state after : State numThreads Client} {action : Action numThreads Client}

/-- A thunk that has returned schedules nothing more. -/
theorem step (closed : Closed bound state.pool) (invariant : Invariant state)
    (taken : step state action = some after) : Closed bound after.pool := by
  have grown (caller : Option Ticket)
      (scheduledBy : after.pool.scheduledBy = state.pool.scheduledBy ++ [caller])
      (completed : after.pool.completed = state.pool.completed)
      (fresh : ∀ parent, caller = some parent → bound ≤ parent) : Closed bound after.pool := by
    refine ⟨?_, ?_, ?_⟩
    · exact closed.issued.trans (by simp [Pool.issued, scheduledBy])
    · exact fun thunk known => completed ▸ closed.completed thunk known
    · intro parent child spawned known
      unfold Pool.Spawned at spawned
      rw [scheduledBy, List.getElem?_append] at spawned
      split at spawned
      · exact closed.spawned parent child spawned known
      · have last : caller = some parent := by
          rw [List.getElem?_singleton] at spawned
          split at spawned
          · exact Option.some.inj spawned
          · cases spawned
        exact absurd known (not_lt.mpr (fresh parent last))
  cases effect_of_step taken with
  | none _ same completed =>
      refine ⟨?_, fun thunk known => completed _ (closed.completed thunk known), ?_⟩
      · rw [Pool.issued, same]
        exact closed.issued
      · intro parent child spawned
        rw [Pool.Spawned, same] at spawned
        exact closed.spawned parent child spawned
  | client _ _ scheduledBy completed => exact grown .none scheduledBy completed (by simp)
  | thunk id thunk inside scheduledBy completed =>
      refine grown (some thunk) scheduledBy completed ?_
      intro parent same
      obtain rfl := Option.some.inj same
      by_contra known
      obtain ⟨assigned, slot⟩ := (invariant.workers id).running _ _ inside
      have done := closed.completed thunk (not_le.mp known)
      have place := invariant.ledger.places thunk
      have below := weight_le_total state id (.holding thunk)
      rw [weight_of_slot _ rfl, Worker.slotWeight, unit_eq_one_iff.mpr ⟨assigned, slot⟩] at below
      have counted := List.count_pos_iff.mpr done
      have pushing := total_nonneg state (.pushingTicket thunk)
      have carried := (state.dispatcher.carries_le thunk).1
      have once := unit_le_one (thunk < state.pool.issued)
      omega

end Closed

/-! ## The barrier -/

/-- `outstanding` is the number of tickets given out and not retired. -/
structure Counted (state : State numThreads Client) : Prop where
  outstanding : state.pool.outstanding + state.pool.retired.length = state.pool.issued
  retired : state.pool.retired.Nodup ∧ ∀ thunk ∈ state.pool.retired, thunk < state.pool.issued
  /-- The decrement of a `size_t` never underflows. -/
  positive : ∀ id thunk, (state.workers id).pc = .decrement thunk → 0 < state.pool.outstanding

theorem Invariant.counted [Fintype Client] {state : State numThreads Client}
    (invariant : Invariant state) : Counted state := by
  have nonneg := total_nonneg state
  have bound (thunk : Ticket) :
      (state.pool.retired.count thunk : ℤ) ≤ unit (thunk < state.pool.issued) := by
    have place := invariant.ledger.places thunk
    have posted := invariant.ledger.postedSum thunk
    have pushing := nonneg (.pushingTicket thunk)
    have holding := nonneg (.holding thunk)
    have bookkeeping := nonneg (.postedTicket thunk)
    have carried := (state.dispatcher.carries_le thunk).1
    omega
  refine ⟨invariant.ledger.retiredSum, ⟨?_, ?_⟩, ?_⟩
  · refine List.nodup_iff_count_le_one.mpr fun thunk => ?_
    have once := unit_le_one (thunk < state.pool.issued)
    have counted := bound thunk
    omega
  · intro thunk retired
    have counted := bound thunk
    have present := List.count_pos_iff.mpr retired
    by_contra unknown
    simp only [unit, unknown, if_false] at counted
    omega
  · intro id thunk pc
    have posted := Invariant.posted_pos pc
    have sum := invariant.ledger.outstandingSum
    have pushing := nonneg .pushing
    have assigned := nonneg .assigned
    have carrying := state.dispatcher.carrying_nonneg
    omega

/-- `outstanding` is exact, and a `wait()` that returns has waited for everything before it. -/
theorem wait_is_barrier (numThreads : ℕ) [NeZero numThreads] (Client : Type) [Fintype Client]
    [DecidableEq Client] :
    (∀ state, (machine numThreads Client).Reachable .free state → Counted state) ∧
    ∀ state action after waiter since, (machine numThreads Client).Reachable .free state →
      step state action = some after → state.waiting waiter = some since →
      after.waiting waiter = none →
      ∀ later, (machine numThreads Client).Leads .free after later → Settled since later.pool := by
  refine ⟨fun state reach => (invariant_of_reachable reach).counted, ?_⟩
  intro state action after waiter since reach taken waiting returned later leads
  have invariant := invariant_of_reachable reach
  obtain ⟨zero, same⟩ : state.pool.outstanding = 0 ∧ after.pool = state.pool := by
    rcases waiting_of_step taken waiting with still | quiet
    · rw [returned] at still
      cases still
    · exact quiet
  have reached : (machine numThreads Client).Reachable .free after := reach.next trivial taken
  have closed : Closed state.pool.issued later.pool ∧ Invariant later := by
    refine leads.invariant (fun later => Closed _ later.pool ∧ Invariant later) ?_ ?_
    · rintro _ _ _ ⟨closed, invariant⟩ _ taken
      exact ⟨closed.step invariant taken, invariant.step taken⟩
    · exact ⟨by rw [same]; exact .of_zero invariant zero, invariant_of_reachable reached⟩
  exact closed.1.settled (since_le_issued reach waiting)

/-- One client schedules a thunk that schedules another, while a second client waits. -/
def waitRun : List (Action 1 Bool) :=
  List.flatten
    [[.clientCalls false .schedule, .client false, .client false, .client false,
        .clientCalls true .wait, .client true],
      List.replicate 8 .dispatcher,
      [.worker 0, .worker 0, .thunkCalls 0 .schedule, .worker 0, .worker 0, .worker 0],
      List.replicate 4 (.worker 0),
      List.replicate 8 .dispatcher,
      List.replicate 6 (.worker 0)]

theorem waitRun_finishes :
    ((machine 1 Bool).exec .free (construct 1 Bool) waitRun).isSome = true := by
  decide +kernel

/-- The pool just before the second client returns. -/
def waitEnd : State 1 Bool :=
  ((machine 1 Bool).exec .free (construct 1 Bool) waitRun).get waitRun_finishes

theorem waitEnd_moves : (step waitEnd (.client true)).isSome = true := by decide +kernel

theorem wait_is_barrier_nested :
    waitEnd.pool.outstanding = 0 ∧ waitEnd.pool.issued = 2 ∧
      Settled 1 ((step waitEnd (.client true)).get waitEnd_moves).pool ∧
      1 ∈ ((step waitEnd (.client true)).get waitEnd_moves).pool.completed := by
  have reach : (machine 1 Bool).Reachable .free waitEnd := .of_exec rfl waitRun waitRun_finishes
  have waiting : waitEnd.waiting (.client true) = some 1 := by decide +kernel
  have returned :
      ((step waitEnd (.client true)).get waitEnd_moves).waiting (.client true) = none := by
    decide +kernel
  have child :
      ((step waitEnd (.client true)).get waitEnd_moves).pool.scheduledBy[1]? = some (some 0) := by
    decide +kernel
  have settled := (wait_is_barrier 1 Bool).2 waitEnd (.client true) _ (.client true) 1 reach
    (Option.some_get waitEnd_moves).symm waiting returned _ .refl
  exact ⟨by decide +kernel, by decide +kernel, settled, settled 0 Nat.one_pos 1 (.single child)⟩

end ThreadPool
end Syscore
