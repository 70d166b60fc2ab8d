import Mathlib.Algebra.BigOperators.Ring.Finset
import Mathlib.Data.Fintype.Card
import Syscore.ThreadPool.Steps

/-!
# Every thunk runs exactly once

A scheduled thunk is always in exactly one place, the dispatcher never pops an empty queue and never
falls through its scan, and a slot is rewritten only after its last thunk has returned. When no
`schedule()` call begins its work after the destructor, every thunk has run when the destructor
returns.
-/

namespace Syscore
namespace ThreadPool

variable {numThreads : ℕ} {Client : Type}

/-! ## Places of a thunk -/

namespace State

section Places

variable [Fintype Client]

/-- Calls of `schedule(thunk)` that are counted in `outstanding` and not pushed yet. -/
def pushing (state : State numThreads Client) (thunk : Ticket) : ℕ :=
  (Finset.univ.filter fun client =>
      state.clients client = some (.schedule (.push thunk))).card +
    (Finset.univ.filter fun id =>
      (state.workers id).pc.call = some (.schedule (.push thunk))).card

/-- One when the dispatcher's local `thunk` holds this thunk. -/
def carried (state : State numThreads Client) (thunk : Ticket) : ℕ :=
  match state.dispatcher with
  | .assign _ other => if other = thunk then 1 else 0
  | _ => 0

/-- Workers whose slot holds this thunk and that have not finished it. -/
def held (state : State numThreads Client) (thunk : Ticket) : ℕ :=
  (Finset.univ.filter fun id =>
    (state.workers id).assigned = true ∧ (state.workers id).thunk = some thunk).card

/-- How many times a thunk is in some place of the pool. -/
def places (state : State numThreads Client) (thunk : Ticket) : ℕ :=
  state.pushing thunk + state.pool.tasks.count thunk + state.carried thunk + state.held thunk +
    state.pool.completed.count thunk

end Places

end State

theorem card_filter_eq_tally {ι β : Type*} [Fintype ι] (family : ι → β) (holds : β → Prop)
    [DecidablePred holds] :
    ((Finset.univ.filter fun index => holds (family index)).card : ℤ) =
      tally (fun value => unit (holds value)) family := by
  simp only [tally, unit]
  exact Finset.natCast_card_filter _ _

section Totals

variable [Fintype Client] (state : State numThreads Client)

theorem callWeight_pushingTicket (call : Option Call) (thunk : Ticket) :
    callWeight call (.pushingTicket thunk) = unit (call = some (.schedule (.push thunk))) := by
  rcases call with _ | ⟨_ | other | _⟩ | ⟨_ | _⟩ <;> simp [callWeight, Call.weight, unit]

theorem weight_pushingTicket (worker : Worker) (thunk : Ticket) :
    worker.weight (.pushingTicket thunk) =
      unit (worker.pc.call = some (.schedule (.push thunk))) := by
  have position : worker.pc.weight (.pushingTicket thunk) =
      callWeight worker.pc.call (.pushingTicket thunk) := by
    cases worker.pc <;> rfl
  rw [Worker.weight, Pi.add_apply, position, callWeight_pushingTicket]
  exact add_zero _

theorem total_pushingTicket (thunk : Ticket) :
    state.total (.pushingTicket thunk) = state.pushing thunk := by
  unfold State.total State.pushing
  rw [Pi.add_apply, tally_apply, tally_apply, Nat.cast_add,
    card_filter_eq_tally state.clients fun call => call = some (.schedule (.push thunk)),
    card_filter_eq_tally state.workers fun worker =>
      worker.pc.call = some (.schedule (.push thunk))]
  simp only [callWeight_pushingTicket, weight_pushingTicket]

theorem total_holding (thunk : Ticket) :
    state.total (.holding thunk) = state.held thunk := by
  unfold State.total State.held
  rw [Pi.add_apply, tally_apply, tally_apply,
    card_filter_eq_tally state.workers fun worker =>
      worker.assigned = true ∧ worker.thunk = some thunk]
  have weightless (call : Option Call) : callWeight call (.holding thunk) = 0 :=
    callWeight_of_slot call rfl
  have slots (worker : Worker) : worker.weight (.holding thunk) =
      unit (worker.assigned = true ∧ worker.thunk = some thunk) :=
    weight_of_slot worker rfl
  simp [tally, weightless, slots]

omit [Fintype Client] in
theorem carries_eq_carried (thunk : Ticket) :
    state.dispatcher.carries thunk = state.carried thunk := by
  unfold State.carried
  cases state.dispatcher <;> simp [DispatcherPc.carries, unit]

end Totals

/-! ## Order in every reachable state -/

/-- Each thunk is in one place and the dispatcher's moves are well defined. -/
structure Orderly [Fintype Client] (state : State numThreads Client) : Prop where
  /-- Every scheduled thunk is in exactly one place. -/
  places : ∀ thunk < state.pool.issued, state.places thunk = 1
  /-- The scan of `wts` finds a worker. -/
  scanFinds : state.dispatcher = .scan →
    ∃ id, firstAvailable state.workers = some id ∧ (state.workers id).available = true
  /-- There is a task to pop. -/
  popFinds : ∀ id, state.dispatcher = .pop id → state.pool.tasks ≠ []
  /-- The slot about to be written holds no unfinished thunk. -/
  slotFinished : ∀ id next, state.dispatcher = .assign id next →
    ∀ thunk, (state.workers id).thunk = some thunk → thunk ∈ state.pool.completed
  /-- Thunks leave `tasks` in the order in which they entered. -/
  fifo : state.pool.popped ++ state.pool.tasks = state.pool.pushed

theorem Invariant.orderly [Fintype Client] {state : State numThreads Client}
    (invariant : Invariant state) : Orderly state where
  places thunk known := by
    have place := invariant.ledger.places thunk
    rw [total_pushingTicket, total_holding, carries_eq_carried, unit_eq_one_iff.mpr known] at place
    unfold State.places
    omega
  scanFinds scan := by
    obtain ⟨id, found⟩ := exists_firstAvailable (invariant.ledger.scanFinds scan)
    exact ⟨id, found, available_of_firstAvailable found⟩
  popFinds id pop := invariant.ledger.willPop (by rw [pop]; rfl)
  slotFinished id next assign thunk slot := by
    have own := invariant.workers id
    rw [assign] at own
    exact own.stale (own.unassigned (by simp [DispatcherPc.claims])) thunk slot
  fifo := invariant.ledger.fifo

/-! ## Destruction -/

/-- No `schedule()` call of a client begins its work after the destructor. -/
def noLateSchedule : Discipline (State numThreads Client) (Action numThreads Client)
  | state, .destroy => ∀ client, state.clients client ≠ some (.schedule .increment)
  | state, .clientCalls _ .schedule => state.destructor = .idle
  | _, _ => True

instance [Fintype Client] (state : State numThreads Client) (action : Action numThreads Client) :
    Decidable (noLateSchedule state action) :=
  match action with
  | .destroy =>
      inferInstanceAs (Decidable (∀ client, state.clients client ≠ some (.schedule .increment)))
  | .clientCalls _ .schedule => inferInstanceAs (Decidable (state.destructor = .idle))
  | .clientCalls _ .wait | .thunkCalls _ _ | .dispatcher | .worker _ | .client _ | .destructor
  | .spuriousWake _ => .isTrue trivial

/-- What the discipline secures once the destructor is called. -/
structure Closing (state : State numThreads Client) : Prop where
  /-- No client is about to increment `outstanding`. -/
  counted : state.destructor ≠ .idle →
    ∀ client, state.clients client ≠ some (.schedule .increment)
  /-- After the destructor's own `wait()` nothing is outstanding. -/
  drained : state.destructor.pastWait = true → state.pool.outstanding = 0

section Destruction

variable [Fintype Client] [DecidableEq Client] [NeZero numThreads]
  {state after : State numThreads Client} {action : Action numThreads Client}

omit [Fintype Client] [DecidableEq Client] [NeZero numThreads] in
theorem callStep_ne_increment {caller : Option Ticket} {pool changed : Pool} {call : Call}
    {next : Option Call} (moved : callStep caller pool call = some (changed, next)) :
    next ≠ some (.schedule .increment) := by
  rcases call with ⟨_ | _ | _⟩ | ⟨pc, since⟩
  · obtain ⟨_, rfl⟩ := Prod.mk.inj (Option.some.inj moved)
    simp [scheduleStep]
  · obtain ⟨_, rfl⟩ := Prod.mk.inj (Option.some.inj moved)
    simp [scheduleStep]
  · obtain ⟨_, rfl⟩ := Prod.mk.inj (Option.some.inj moved)
    simp [scheduleStep]
  · obtain ⟨position, _, same⟩ := Option.map_eq_some_iff.mp moved
    obtain ⟨_, rfl⟩ := Prod.mk.inj same
    cases position <;> simp

omit [Fintype Client] [DecidableEq Client] [NeZero numThreads] in
theorem wake_eq_increment {call : Option Call}
    (woken : call.map Call.wake = some (.schedule .increment)) :
    call = some (.schedule .increment) := by
  rcases call with _ | pc | ⟨_ | _, since⟩
  · simp at woken
  · simpa [Call.wake] using woken
  · simp [Call.wake] at woken
  · simp [Call.wake] at woken

omit [Fintype Client] in
/-- Under the discipline a closing pool keeps closing. -/
theorem Closing.step [Fintype Client] (closing : Closing state) (invariant : Invariant state)
    (permitted : noLateSchedule state action) (taken : step state action = some after) :
    Closing after where
  counted := by
    intro begun client inside
    have before : state.destructor ≠ .idle ∨ action = .destroy := by
      rcases destructor_of_step taken with same | woken | ⟨_, moved⟩ | ⟨called, _⟩
      · exact .inl (same ▸ begun)
      · refine .inl fun idle => begun ?_
        rw [woken, idle]
        rfl
      · refine .inl fun idle => ?_
        simp [destructorStep, idle] at moved
      · exact .inr called
    have earlier : state.clients client ≠ some (.schedule .increment) := by
      rcases before with before | called
      · exact closing.counted before client
      · subst called
        exact permitted client
    rcases clients_of_step taken client with
      same | woken | ⟨_, _, _, moved⟩ | ⟨entry, called, _, new⟩
    · exact earlier (same ▸ inside)
    · exact earlier (wake_eq_increment (woken ▸ inside))
    · exact callStep_ne_increment moved inside
    · subst called
      cases entry with
      | schedule =>
          rcases before with before | called
          · exact before permitted
          · cases called
      | wait =>
          rw [new] at inside
          simp [Entry.begin] at inside
  drained := by
    intro past
    have before : state.pool.outstanding = 0 ∧
        (state.destructor.pastWait = true ∨ after.pool = state.pool) := by
      rcases destructor_of_step taken with same | woken | ⟨_, moved⟩ | ⟨_, _, new⟩
      · rw [same] at past
        exact ⟨closing.drained past, .inl past⟩
      · rw [woken] at past
        have past : state.destructor.pastWait = true := by
          cases pc : state.destructor <;>
            simp [pc, DestructorPc.wake, DestructorPc.pastWait] at past ⊢
        exact ⟨closing.drained past, .inl past⟩
      · cases destructorMove_of_step moved with
        | sleep pc pending => simp [DestructorPc.pastWait] at past
        | drained pc zero => exact ⟨zero, .inr rfl⟩
        | _ pc => exact ⟨closing.drained (by rw [pc]; rfl), .inl (by rw [pc]; rfl)⟩
      · rw [new] at past
        simp [DestructorPc.pastWait] at past
    obtain ⟨zero, before⟩ := before
    rcases before with before | same
    · cases effect_of_step taken with
      | none outstanding => omega
      | client client inside =>
          refine absurd inside (closing.counted ?_ client)
          intro idle
          rw [idle] at before
          simp [DestructorPc.pastWait] at before
      | thunk id thunk inside =>
          have assigned := ((invariant.workers id).running _ _ inside).1
          have positive := invariant.outstanding_pos assigned
          omega
    · rw [same]
      exact zero

theorem closing_of_reachable
    (reach : (machine numThreads Client).Reachable noLateSchedule state) : Closing state := by
  refine reach.invariant_with Closing (fun _ reach => invariant_of_reachable reach.toFree) ?_ ?_
  · rintro _ rfl
    exact ⟨fun begun => absurd rfl begun, fun past => by cases past⟩
  · intro _ _ _ invariant _ closing permitted taken
    exact closing.step invariant permitted taken

end Destruction

/-- Every thunk has one place at a time, and has run once when the destructor returns. -/
theorem runs_every_thunk_once (numThreads : ℕ) [NeZero numThreads] (Client : Type)
    [Fintype Client] [DecidableEq Client] :
    (∀ state, (machine numThreads Client).Reachable .free state → Orderly state) ∧
      ∀ state, (machine numThreads Client).Reachable noLateSchedule state →
        state.destructor = .returned →
          ∀ thunk < state.pool.issued, state.pool.completed.count thunk = 1 := by
  refine ⟨fun state reach => (invariant_of_reachable reach).orderly, ?_⟩
  intro state reach returned
  have drained := (closing_of_reachable reach).drained (by rw [returned]; rfl)
  exact (invariant_of_reachable reach.toFree).all_completed drained

/-- One client schedules a thunk that schedules another, and the pool is destroyed. -/
def nestedRun : List (Action 1 Unit) :=
  List.flatten
    [[.clientCalls () .schedule, .client (), .client (), .client ()],
      List.replicate 8 .dispatcher,
      [.worker 0, .worker 0, .thunkCalls 0 .schedule, .worker 0, .worker 0, .worker 0],
      List.replicate 4 (.worker 0),
      List.replicate 8 .dispatcher,
      [.worker 0, .worker 0, .worker 0, .worker 0, .worker 0, .destroy, .destructor, .worker 0,
        .spuriousWake .destructor, .destructor, .destructor, .destructor, .destructor],
      [.dispatcher, .dispatcher, .destructor, .destructor, .worker 0, .worker 0, .destructor,
        .destructor]]

theorem nestedRun_finishes :
    ((machine 1 Unit).exec noLateSchedule (construct 1 Unit) nestedRun).isSome = true := by
  decide +kernel

/-- The pool at the end of that run. -/
def nestedEnd : State 1 Unit :=
  ((machine 1 Unit).exec noLateSchedule (construct 1 Unit) nestedRun).get nestedRun_finishes

theorem runs_every_thunk_once_nested :
    (machine 1 Unit).Reachable noLateSchedule nestedEnd ∧ nestedEnd.destructor = .returned ∧
      nestedEnd.pool.issued = 2 ∧ Orderly nestedEnd ∧
      nestedEnd.pool.completed.count 0 = 1 ∧ nestedEnd.pool.completed.count 1 = 1 := by
  have returned : nestedEnd.destructor = .returned := by decide +kernel
  have issued : nestedEnd.pool.issued = 2 := by decide +kernel
  have reach : (machine 1 Unit).Reachable noLateSchedule nestedEnd :=
    .of_exec rfl nestedRun nestedRun_finishes
  obtain ⟨orderly, once⟩ := runs_every_thunk_once 1 Unit
  refine ⟨reach, returned, issued, orderly nestedEnd reach.toFree, ?_, ?_⟩
  · exact once nestedEnd reach returned 0 (by rw [issued]; decide)
  · exact once nestedEnd reach returned 1 (by rw [issued]; decide)

end ThreadPool
end Syscore
