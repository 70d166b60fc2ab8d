import Syscore.ThreadPool.Execution

/-!
# The pool cannot get stuck

When thunks do not wait for their own pool and no client begins a call after the destructor, some
thread can move in every reachable state, unless the pool is parked with nothing left to do or has
been destroyed.
-/

namespace Syscore
namespace ThreadPool

variable {numThreads : ℕ} {Client : Type}

/-- No thunk calls `wait()`, and no client begins a call once the destructor has begun. -/
def noOwnWait : Discipline (State numThreads Client) (Action numThreads Client)
  | _, .thunkCalls _ .wait => False
  | state, .clientCalls _ _ => state.destructor = .idle
  | _, _ => True

instance (state : State numThreads Client) (action : Action numThreads Client) :
    Decidable (noOwnWait state action) :=
  match action with
  | .thunkCalls _ .wait => .isFalse id
  | .clientCalls _ _ => inferInstanceAs (Decidable (state.destructor = .idle))
  | .thunkCalls _ .schedule | .dispatcher | .worker _ | .client _ | .destructor | .destroy
  | .spuriousWake _ => .isTrue trivial

/-- Some thread has an enabled step. -/
def Enabled [NeZero numThreads] [DecidableEq Client] (state : State numThreads Client) : Prop :=
  ∃ action : Action numThreads Client, action.internal = true ∧ (step state action).isSome = true

/-- Nothing is left to do and no destructor call is pending. -/
structure Parked (state : State numThreads Client) : Prop where
  completed : ∀ thunk < state.pool.issued, state.pool.completed.count thunk = 1
  clients : ∀ client, state.clients client = none
  dispatcher : state.dispatcher = .waitQueued ∧ state.pool.queued = 0
  workers : ∀ id, (state.workers id).pc = .ready ∧ (state.workers id).ready = 0
  destructor : state.destructor = .idle

/-- The destructor has returned and every thread of the pool has exited. -/
structure Finished (state : State numThreads Client) : Prop where
  destructor : state.destructor = .returned
  dispatcher : state.dispatcher = .exited
  workers : ∀ id, (state.workers id).pc = .exited

/-- No thunk is inside `wait()`. -/
def Unwaiting (state : State numThreads Client) : Prop :=
  ∀ id pc since, (state.workers id).pc.call ≠ some (.wait pc since)

theorem Unwaiting.step [NeZero numThreads] [DecidableEq Client]
    {state after : State numThreads Client} {action : Action numThreads Client}
    (unwaiting : Unwaiting state) (permitted : noOwnWait state action)
    (taken : step state action = some after) : Unwaiting after := by
  intro id pc since inside
  rcases workers_of_step taken id with same | woken | ⟨_, moved⟩ | ⟨entry, thunk, called, _, new⟩
  · exact unwaiting id pc since (same ▸ inside)
  · rw [woken, call_wake] at inside
    obtain ⟨earlier, inside⟩ := wake_eq_wait inside
    exact unwaiting id earlier since inside
  · rcases call_of_workerStep moved with ⟨_, outside⟩ | ⟨thunk, call, before, moved⟩
    · rw [outside] at inside
      cases inside
    · rw [inside] at moved
      obtain ⟨rfl, _⟩ := callStep_wait moved
      exact unwaiting id .check since (by rw [before]; rfl)
  · rw [new] at inside
    subst called
    cases entry with
    | schedule => simp [WorkerPc.call, Entry.begin] at inside
    | wait => exact permitted

section Stuck

variable [NeZero numThreads] [DecidableEq Client] {state : State numThreads Client}

theorem unwaiting_of_reachable (reach : (machine numThreads Client).Reachable noOwnWait state) :
    Unwaiting state := by
  refine reach.invariant Unwaiting ?_ ?_
  · rintro _ rfl id pc since inside
    simp [construct, WorkerPc.call] at inside
  · intro _ _ _ unwaiting permitted taken
    exact unwaiting.step permitted taken

theorem step_eq_none (stuck : ¬ Enabled state) (action : Action numThreads Client)
    (internal : action.internal = true) : step state action = none := by
  by_contra moves
  exact stuck ⟨action, internal, Option.isSome_iff_ne_none.mpr moves⟩

theorem callStep_eq_none {caller : Option Ticket} {pool : Pool} {call : Call}
    (blocked : callStep caller pool call = none) : ∃ since, call = .wait .asleep since := by
  rcases call with pc | ⟨_ | _, since⟩
  · cases blocked
  · simp only [callStep, waitStep] at blocked
    split at blocked <;> cases blocked
  · exact ⟨since, rfl⟩

/-- A stuck client is outside the pool or asleep. -/
theorem client_of_stuck (stuck : ¬ Enabled state) (client : Client) :
    state.clients client = none ∨ ∃ since, state.clients client = some (.wait .asleep since) := by
  have blocked : clientStep state client = none :=
    step_eq_none stuck (.client client) rfl
  unfold clientStep at blocked
  cases inside : state.clients client with
  | none => exact .inl rfl
  | some call =>
      simp only [inside] at blocked
      obtain ⟨since, rfl⟩ := callStep_eq_none (Option.map_eq_none_iff.mp blocked)
      exact .inr ⟨since, rfl⟩

variable [Fintype Client]

omit [NeZero numThreads] [DecidableEq Client] in
/-- A worker that cannot move is parked on its semaphore or has exited. -/
theorem worker_of_still (invariant : Invariant state) (unwaiting : Unwaiting state)
    {id : Fin numThreads} (blocked : workerStep state id = none) :
    ((state.workers id).pc = .ready ∧ (state.workers id).ready = 0) ∨
      (state.workers id).pc = .exited := by
  have own := invariant.workers id
  unfold workerStep at blocked
  cases pc : (state.workers id).pc with
  | ready =>
      simp only [pc] at blocked
      split at blocked
      · cases blocked
      · rename_i empty
        exact .inl ⟨rfl, by omega⟩
  | checkDone =>
      simp only [pc] at blocked
      split at blocked
      · cases blocked
      · rename_i running
        have before : state.destructor.pastDone = false :=
          invariant.ledger.doneSet.symm.trans (Bool.eq_false_iff.mpr running)
        split at blocked
        · cases blocked
        · rename_i empty
          exact absurd empty (own.filled (own.assigned pc before))
  | running thunk call =>
      cases call with
      | none => simp [pc] at blocked
      | some call =>
          simp only [pc] at blocked
          obtain ⟨since, rfl⟩ := callStep_eq_none (Option.map_eq_none_iff.mp blocked)
          exact absurd (by rw [pc]; rfl) (unwaiting id .asleep since)
  | exited => exact .inr rfl
  | _ => simp [pc] at blocked

/-- A stuck worker is parked on its semaphore or has exited. -/
theorem worker_of_stuck (stuck : ¬ Enabled state) (invariant : Invariant state)
    (unwaiting : Unwaiting state) (id : Fin numThreads) :
    ((state.workers id).pc = .ready ∧ (state.workers id).ready = 0) ∨
      (state.workers id).pc = .exited :=
  worker_of_still invariant unwaiting (step_eq_none stuck (.worker id) rfl)

omit [DecidableEq Client] in
/-- A dispatcher that cannot move waits for a semaphore or has exited. -/
theorem dispatcher_of_still (invariant : Invariant state)
    (blocked : dispatcherStep state = none) :
    (state.dispatcher = .waitQueued ∧ state.pool.queued = 0) ∨
      (state.dispatcher = .waitAvailable ∧ state.pool.availableWorkers = 0) ∨
      state.dispatcher = .exited := by
  unfold dispatcherStep at blocked
  cases pc : state.dispatcher with
  | waitQueued =>
      simp only [pc] at blocked
      split at blocked
      · cases blocked
      · rename_i empty
        exact .inl ⟨rfl, by omega⟩
  | waitAvailable =>
      simp only [pc] at blocked
      split at blocked
      · cases blocked
      · rename_i empty
        exact .inr (.inl ⟨rfl, by omega⟩)
  | scan =>
      simp only [pc] at blocked
      split at blocked <;> cases blocked
  | pop id =>
      simp only [pc] at blocked
      split at blocked
      · rename_i empty
        exact absurd empty (invariant.ledger.willPop (by rw [pc]; rfl))
      · cases blocked
  | exited => exact .inr (.inr rfl)
  | _ => simp [pc] at blocked

/-- A stuck dispatcher waits for a semaphore or has exited. -/
theorem dispatcher_of_stuck (stuck : ¬ Enabled state) (invariant : Invariant state) :
    (state.dispatcher = .waitQueued ∧ state.pool.queued = 0) ∨
      (state.dispatcher = .waitAvailable ∧ state.pool.availableWorkers = 0) ∨
      state.dispatcher = .exited :=
  dispatcher_of_still invariant (step_eq_none stuck .dispatcher rfl)

omit [Fintype Client] in
/-- A stuck destructor has not begun, sleeps, joins or has returned. -/
theorem destructor_of_stuck (stuck : ¬ Enabled state) :
    state.destructor = .idle ∨ (∃ since, state.destructor = .wait .asleep since) ∨
      (state.destructor = .joinDispatcher ∧ state.dispatcher ≠ .exited) ∨
      (∃ id, state.destructor = .joinWorker id ∧ (state.workers id).pc ≠ .exited) ∨
      state.destructor = .returned := by
  have blocked : destructorStep state = none := step_eq_none stuck .destructor rfl
  unfold destructorStep at blocked
  cases pc : state.destructor with
  | idle => exact .inl rfl
  | wait position since =>
      cases position with
      | check =>
          simp only [pc, waitStep] at blocked
          split at blocked <;> cases blocked
      | asleep => exact .inr (.inl ⟨since, rfl⟩)
  | joinDispatcher =>
      simp only [pc] at blocked
      split at blocked
      · cases blocked
      · rename_i alive
        exact .inr (.inr (.inl ⟨rfl, alive⟩))
  | reap index =>
      simp only [pc] at blocked
      split at blocked <;> cases blocked
  | joinWorker id =>
      simp only [pc] at blocked
      split at blocked
      · cases blocked
      · rename_i alive
        exact .inr (.inr (.inr (.inl ⟨id, rfl, alive⟩)))
  | returned => exact .inr (.inr (.inr (.inr rfl)))
  | _ => simp [pc] at blocked

omit [NeZero numThreads] [DecidableEq Client] in
/-- Where no position has a weight, an account that no slot is part of is empty. -/
theorem total_of_weightless {account : Account} (position : account.slot = false)
    (clients : ∀ client, callWeight (state.clients client) account = 0)
    (workers : ∀ id, (state.workers id).pc.weight account = 0) : state.total account = 0 := by
  have slots : tally (fun worker => Worker.weight worker account) state.workers = 0 := by
    refine tally_eq_zero fun id => ?_
    have slot : (state.workers id).slotWeight account = 0 := by
      cases account <;> first | rfl | cases position
    rw [Worker.weight, Pi.add_apply, workers id, slot, add_zero]
  have calls : tally (fun call => callWeight call account) state.clients = 0 :=
    tally_eq_zero clients
  unfold State.total
  rw [Pi.add_apply, tally_apply, tally_apply, calls, slots, add_zero]

/-- Stuck threads owe no signal and carry no thunk. -/
theorem total_of_stuck (stuck : ¬ Enabled state) (invariant : Invariant state)
    (unwaiting : Unwaiting state) (account : Account) (position : account.slot = false)
    (awake : account ≠ .sleeping) : state.total account = 0 := by
  refine total_of_weightless position (fun client => ?_) fun id => ?_
  · rcases client_of_stuck stuck client with outside | ⟨since, asleep⟩
    · rw [outside]
      rfl
    · rw [asleep, callWeight, weight_asleep]
      simp [charge, unit, awake.symm]
  · rcases worker_of_stuck stuck invariant unwaiting id with ⟨pc, _⟩ | pc
    · rw [pc, weight_parked.1]
      rfl
    · rw [pc, weight_parked.2.2]
      rfl

/-- Nobody starves on `availableWorkers`: a stuck dispatcher waits for tasks or has exited. -/
theorem queued_of_stuck (stuck : ¬ Enabled state) (invariant : Invariant state)
    (unwaiting : Unwaiting state) :
    (state.dispatcher = .waitQueued ∧ state.pool.queued = 0) ∨ state.dispatcher = .exited := by
  rcases dispatcher_of_stuck stuck invariant with parked | ⟨pc, empty⟩ | exited
  · exact .inl parked
  · exfalso
    have tokens := invariant.ledger.availableTokens (by simp [pc])
    have owed := total_of_stuck stuck invariant unwaiting .signallingAvailable rfl (by simp)
    have available := total_nonneg state .available
    have extra := state.destructor.extraAvailable_nonneg
    simp only [owed, pc, empty, DispatcherPc.heldAvailable] at tokens
    -- no worker is available, so every slot is assigned
    have own := invariant.workers 0
    have busy : unit ((state.workers 0).available = false) = 1 := by
      have below := weight_le_total state 0 .available
      rw [weight_of_slot _ rfl, Worker.slotWeight] at below
      cases free : (state.workers 0).available with
      | false => rfl
      | true =>
          rw [free, unit_eq_one_iff.mpr rfl] at below
          omega
    have claimed := own.claimed
    have counted := own.tokens
    have reaped := state.destructor.extraReady_nonneg 0
    simp only [busy, pc, DispatcherPc.claims] at claimed
    simp only [pc, DispatcherPc.signalsReady] at counted
    rcases worker_of_stuck stuck invariant unwaiting 0 with ⟨ready, empty⟩ | exited
    · simp only [ready, WorkerPc.publishing] at claimed
      simp only [ready, empty, WorkerPc.holdsToken] at counted
      omega
    · have done := invariant.ledger.doneSet.symm.trans (own.exited exited)
      rcases destructor_of_stuck stuck with idle | ⟨since, asleep⟩ | ⟨join, _⟩ | ⟨id, join, _⟩ |
        returned
      · rw [idle] at done
        cases done
      · rw [asleep] at done
        cases done
      · simp only [join, DestructorPc.extraAvailable] at tokens
        omega
      · simp only [join, DestructorPc.extraAvailable] at tokens
        omega
      · simp only [returned, DestructorPc.extraAvailable] at tokens
        omega
  · exact .inr exited

/-- A stuck pool before `done` is parked. -/
theorem parked_of_stuck (stuck : ¬ Enabled state) (invariant : Invariant state)
    (unwaiting : Unwaiting state) (before : state.destructor.pastDone = false) : Parked state := by
  have running : state.pool.done = false := invariant.ledger.doneSet.trans before
  have dispatcher : state.dispatcher = .waitQueued ∧ state.pool.queued = 0 := by
    rcases queued_of_stuck stuck invariant unwaiting with parked | exited
    · exact parked
    · have done := invariant.ledger.dispatcherExited exited
      rw [running] at done
      cases done
  have workers : ∀ id, (state.workers id).pc = .ready ∧ (state.workers id).ready = 0 := by
    intro id
    rcases worker_of_stuck stuck invariant unwaiting id with parked | exited
    · exact parked
    · have done := (invariant.workers id).exited exited
      rw [running] at done
      cases done
  have zero : state.pool.outstanding = 0 := by
    have weightless := total_of_stuck stuck invariant unwaiting
    have tokens := invariant.ledger.queuedTokens
    have sum := invariant.ledger.outstandingSum
    have slots : state.total .assigned = 0 := by
      have unassigned (id : Fin numThreads) : (state.workers id).assigned = false := by
        have counted := (invariant.workers id).tokens
        obtain ⟨pc, empty⟩ := workers id
        simp only [pc, empty, dispatcher.1, WorkerPc.holdsToken, DispatcherPc.signalsReady,
          DestructorPc.extraReady_eq_zero before] at counted
        by_contra assigned
        rw [unit_eq_one_iff.mpr (Bool.eq_true_of_not_eq_false assigned)] at counted
        omega
      unfold State.total
      rw [Pi.add_apply, tally_apply, tally_apply,
        tally_eq_zero fun client => callWeight_of_slot (state.clients client) rfl,
        tally_eq_zero fun id => ?_, add_zero]
      rw [weight_of_slot _ rfl, Worker.slotWeight, unassigned id]
      rfl
    simp only [dispatcher.1, dispatcher.2, weightless .signalling rfl (by simp),
      DestructorPc.extraQueued_eq_zero before, DispatcherPc.heldQueued] at tokens
    simp only [dispatcher.1, weightless .pushing rfl (by simp), weightless .posted rfl (by simp),
      slots, DispatcherPc.carrying] at sum
    omega
  have awake := invariant.ledger.sleepers zero
  have sleeping := total_nonneg state .sleeping
  have asleep := state.destructor.sleeping_nonneg
  refine ⟨invariant.all_completed zero, ?_, dispatcher, workers, ?_⟩
  · intro client
    rcases client_of_stuck stuck client with outside | ⟨since, inside⟩
    · exact outside
    · have below := callWeight_le_total state client .sleeping
      rw [inside, callWeight, weight_asleep, charge_apply, unit_eq_one_iff.mpr rfl] at below
      omega
  · rcases destructor_of_stuck stuck with idle | ⟨since, inside⟩ | ⟨join, _⟩ | ⟨id, join, _⟩ |
      returned
    · exact idle
    · simp only [inside, DestructorPc.sleeping] at awake
      omega
    · rw [join] at before
      cases before
    · rw [join] at before
      cases before
    · rw [returned] at before
      cases before

/-- A stuck pool is parked or destroyed. -/
theorem parked_or_finished_of_stuck (stuck : ¬ Enabled state) (invariant : Invariant state)
    (unwaiting : Unwaiting state) : Parked state ∨ Finished state := by
  rcases destructor_of_stuck stuck with idle | ⟨since, inside⟩ | ⟨join, alive⟩ | ⟨id, join, alive⟩ |
    returned
  · exact .inl (parked_of_stuck stuck invariant unwaiting (by rw [idle]; rfl))
  · exact .inl (parked_of_stuck stuck invariant unwaiting (by rw [inside]; rfl))
  · exfalso
    rcases queued_of_stuck stuck invariant unwaiting with ⟨pc, empty⟩ | exited
    · have tokens := invariant.ledger.queuedTokens
      simp only [pc, empty, total_of_stuck stuck invariant unwaiting .signalling rfl (by simp),
        join,
        DispatcherPc.heldQueued, DestructorPc.extraQueued] at tokens
      omega
    · exact alive exited
  · exfalso
    have exited := invariant.ledger.dispatcherJoined (by rw [join]; rfl)
    have tokens := (invariant.workers id).tokens
    have assigned := unit_nonneg ((state.workers id).assigned = true)
    rcases worker_of_stuck stuck invariant unwaiting id with ⟨pc, empty⟩ | dead
    · simp only [pc, empty, exited, join, WorkerPc.holdsToken, DispatcherPc.signalsReady,
        DestructorPc.extraReady, unit_eq_one_iff.mpr le_rfl] at tokens
      omega
    · exact alive dead
  · refine .inr ⟨returned, invariant.ledger.dispatcherJoined (by rw [returned]; rfl), fun id => ?_⟩
    exact (invariant.workers id).joined (by rw [returned]; exact id.isLt)

end Stuck

/-- The pool never gets stuck, and leaves no task behind. -/
theorem never_stuck (numThreads : ℕ) [NeZero numThreads] (Client : Type) [Fintype Client]
    [DecidableEq Client] :
    (∀ state, (machine numThreads Client).Reachable noOwnWait state →
      Enabled state ∨ Parked state ∨ Finished state) ∧
    (∀ state, (machine numThreads Client).Reachable noOwnWait state → state.pool.done = true →
      (state.dispatcher ≠ .exited ∨ ∃ id, (state.workers id).pc ≠ .exited) → Enabled state) ∧
    ∀ state, (machine numThreads Client).Reachable noLateSchedule state →
      state.pool.done = true → state.pool.tasks = [] := by
  have progress : ∀ state, (machine numThreads Client).Reachable noOwnWait state →
      Enabled state ∨ Parked state ∨ Finished state := by
    intro state reach
    by_cases stuck : Enabled state
    · exact .inl stuck
    · exact .inr (parked_or_finished_of_stuck stuck (invariant_of_reachable reach.toFree)
        (unwaiting_of_reachable reach))
  refine ⟨progress, ?_, ?_⟩
  · intro state reach done alive
    have invariant := invariant_of_reachable reach.toFree
    rcases progress state reach with enabled | parked | finished
    · exact enabled
    · have before := invariant.ledger.doneSet
      rw [parked.destructor, done] at before
      cases before
    · rcases alive with alive | ⟨id, alive⟩
      · exact absurd finished.dispatcher alive
      · exact absurd (finished.workers id) alive
  · intro state reach done
    have invariant := invariant_of_reachable reach.toFree
    have past : state.destructor.pastWait = true := by
      have past := invariant.ledger.doneSet.symm.trans done
      cases pc : state.destructor <;>
        simp [pc, DestructorPc.pastDone, DestructorPc.pastWait] at past ⊢
    have drained := (closing_of_reachable reach).drained past
    have sum := invariant.ledger.outstandingSum
    have pushing := total_nonneg state .pushing
    have assigned := total_nonneg state .assigned
    have posted := total_nonneg state .posted
    have carrying := state.dispatcher.carrying_nonneg
    exact List.eq_nil_of_length_eq_zero (by omega)

/-- Both disciplines at once. -/
def noOverlap : Discipline (State numThreads Client) (Action numThreads Client) :=
  fun state action => noOwnWait state action ∧ noLateSchedule state action

instance [Fintype Client] (state : State numThreads Client) (action : Action numThreads Client) :
    Decidable (noOverlap state action) :=
  inferInstanceAs (Decidable (noOwnWait state action ∧ noLateSchedule state action))

/-- The run above up to the destructor's join of the dispatcher. -/
def joiningRun : List (Action 1 Unit) := nestedRun.take 43

theorem joiningRun_finishes :
    ((machine 1 Unit).exec noOverlap (construct 1 Unit) joiningRun).isSome = true := by
  decide +kernel

/-- The pool while the destructor joins the dispatcher. -/
def joiningEnd : State 1 Unit :=
  ((machine 1 Unit).exec noOverlap (construct 1 Unit) joiningRun).get joiningRun_finishes

theorem never_stuck_joining :
    joiningEnd.destructor = .joinDispatcher ∧ joiningEnd.dispatcher ≠ .exited ∧
      Enabled joiningEnd ∧ joiningEnd.pool.tasks = [] ∧
      (Enabled joiningEnd ∨ Parked joiningEnd ∨ Finished joiningEnd) := by
  have joining : joiningEnd.destructor = .joinDispatcher := by decide +kernel
  have alive : joiningEnd.dispatcher ≠ .exited := by decide +kernel
  have done : joiningEnd.pool.done = true := by decide +kernel
  have reach : (machine 1 Unit).Reachable noOverlap joiningEnd :=
    .of_exec rfl joiningRun joiningRun_finishes
  have unwaiting : (machine 1 Unit).Reachable noOwnWait joiningEnd :=
    reach.mono fun _ _ permitted => permitted.1
  have punctual : (machine 1 Unit).Reachable noLateSchedule joiningEnd :=
    reach.mono fun _ _ permitted => permitted.2
  obtain ⟨progress, joins, empty⟩ := never_stuck 1 Unit
  exact ⟨joining, alive, joins joiningEnd unwaiting done (.inl alive),
    empty joiningEnd punctual done, progress joiningEnd unwaiting⟩

end ThreadPool
end Syscore
