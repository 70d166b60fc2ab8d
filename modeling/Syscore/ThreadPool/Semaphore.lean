import Mathlib.Data.Fintype.Basic
import Syscore.Library.Counting
import Syscore.Library.Inevitable

/-!
# The semaphore

`semaphore.h`: a counter under a mutex, with a condition variable for the threads that find it zero.
What a thread does while it has the mutex is one step, since nobody else gets to the counter or the
sleepers meanwhile. A sleeper may also wake by itself, and any thread at the mutex may get it next.
`int value` is taken without overflow. To its callers this is a counter whose calls take effect in
one step, as the pools use it.
-/

namespace Syscore
namespace Semaphore

/-- Where a thread is in `wait()` or `signal()`. -/
inductive Pc
  | outside
  /-- In `wait()`, at the mutex. -/
  | arriving
  /-- In `wait()` with the mutex, before the test of `value > 0`. -/
  | testing
  /-- In `wait()`, blocked on `cv`. -/
  | asleep
  /-- In `wait()`, back from `cv` and at the mutex again. -/
  | woken
  /-- In `signal()`, at the mutex. -/
  | posting
  /-- In `signal()` with the mutex, before `value++`. -/
  | raising
  deriving DecidableEq

/-- In `wait()`, and not blocked on `cv`. -/
def Pc.awake : Pc → Bool
  | .arriving | .testing | .woken => true
  | .outside | .asleep | .posting | .raising => false

/-- With the mutex. -/
def Pc.locked : Pc → Bool
  | .testing | .raising => true
  | .outside | .arriving | .asleep | .woken | .posting => false

/-- A semaphore and the threads that use it. -/
structure State (ι : Type*) where
  value : ℤ
  /-- The thread that has `m`. -/
  owner : Option ι
  pcs : ι → Pc
  /-- History: completed calls of `signal()`. -/
  signals : ℕ
  /-- History: completed calls of `wait()`. -/
  waits : ℕ

/-- What a thread does next. -/
inductive Label (ι : Type*)
  | callWait (id : ι)
  | callSignal (id : ι)
  | lock (id : ι)
  /-- `wait()` with the mutex: it takes a token, or gives the mutex up and sleeps. -/
  | test (id : ι)
  /-- `signal()` with the mutex: `value++` and `cv.notify_one()`. -/
  | raise (id : ι) (notified : Option ι)
  /-- A sleeper wakes without a notification. -/
  | wake (id : ι)

variable {ι : Type*} [Fintype ι] [DecidableEq ι]

/-- `cv.notify_one()`: one of the sleepers wakes, if there is any. -/
def notifyOne (pcs : ι → Pc) : Option ι → Option (ι → Pc)
  | some sleeper =>
      if pcs sleeper = .asleep then some (Function.update pcs sleeper .woken) else none
  | none => if ∀ id, pcs id ≠ .asleep then some pcs else none

/-- A thread gets the mutex. -/
def lock (state : State ι) (id : ι) : Option (State ι) :=
  if state.owner = none then
    match state.pcs id with
    | .arriving | .woken =>
        some { state with owner := some id, pcs := Function.update state.pcs id .testing }
    | .posting =>
        some { state with owner := some id, pcs := Function.update state.pcs id .raising }
    | .outside | .testing | .asleep | .raising => none
  else
    none

/-- One step. -/
def step (state : State ι) : Label ι → Option (State ι)
  | .callWait id =>
      if state.pcs id = .outside then
        some { state with pcs := Function.update state.pcs id .arriving }
      else
        none
  | .callSignal id =>
      if state.pcs id = .outside then
        some { state with pcs := Function.update state.pcs id .posting }
      else
        none
  | .lock id => lock state id
  | .test id =>
      if state.pcs id = .testing then
        if 0 < state.value then
          some
            { state with
              value := state.value - 1
              owner := none
              pcs := Function.update state.pcs id .outside
              waits := state.waits + 1 }
        else
          some { state with owner := none, pcs := Function.update state.pcs id .asleep }
      else
        none
  | .raise id notified =>
      if state.pcs id = .raising then
        (notifyOne state.pcs notified).map fun pcs =>
          { state with
            value := state.value + 1
            owner := none
            pcs := Function.update pcs id .outside
            signals := state.signals + 1 }
      else
        none
  | .wake id =>
      if state.pcs id = .asleep then
        some { state with pcs := Function.update state.pcs id .woken }
      else
        none

/-- `semaphore(initial)` before its first use. -/
def construct (ι : Type*) (initial : ℕ) : State ι where
  value := initial
  owner := none
  pcs _ := .outside
  signals := 0
  waits := 0

/-- The semaphore as a machine. -/
def machine (ι : Type*) [Fintype ι] [DecidableEq ι] (initial : ℕ) :
    Machine (State ι) (Label ι) where
  start state := state = construct ι initial
  step := step

/-! ## What one step does -/

/-- The moves of the threads. -/
inductive Move (state : State ι) : State ι → Prop
  | calls {id pc} (outside : state.pcs id = .outside) (into : pc = .arriving ∨ pc = .posting) :
      Move state { state with pcs := Function.update state.pcs id pc }
  | locks {id} (free : state.owner = none)
      (waiting : state.pcs id = .arriving ∨ state.pcs id = .woken) :
      Move state { state with owner := some id, pcs := Function.update state.pcs id .testing }
  | locksToSignal {id} (free : state.owner = none) (waiting : state.pcs id = .posting) :
      Move state { state with owner := some id, pcs := Function.update state.pcs id .raising }
  | takes {id} (testing : state.pcs id = .testing) (token : 0 < state.value) :
      Move state
        { state with
          value := state.value - 1
          owner := none
          pcs := Function.update state.pcs id .outside
          waits := state.waits + 1 }
  | sleeps {id} (testing : state.pcs id = .testing) (empty : ¬ 0 < state.value) :
      Move state { state with owner := none, pcs := Function.update state.pcs id .asleep }
  | raises {id} (raising : state.pcs id = .raising) (nobody : ∀ other, state.pcs other ≠ .asleep) :
      Move state
        { state with
          value := state.value + 1
          owner := none
          pcs := Function.update state.pcs id .outside
          signals := state.signals + 1 }
  | notifies {id sleeper} (raising : state.pcs id = .raising)
      (asleep : state.pcs sleeper = .asleep) :
      Move state
        { state with
          value := state.value + 1
          owner := none
          pcs := Function.update (Function.update state.pcs sleeper .woken) id .outside
          signals := state.signals + 1 }
  | wakes {id} (asleep : state.pcs id = .asleep) :
      Move state { state with pcs := Function.update state.pcs id .woken }

variable {state after : State ι}

/-- Every step is one of the moves. -/
theorem move_of_step {label : Label ι} (taken : step state label = some after) :
    Move state after := by
  cases label with
  | callWait id =>
      obtain ⟨outside, same⟩ := Option.ite_none_right_eq_some.mp taken
      obtain rfl := Option.some.inj same
      exact .calls outside (.inl rfl)
  | callSignal id =>
      obtain ⟨outside, same⟩ := Option.ite_none_right_eq_some.mp taken
      obtain rfl := Option.some.inj same
      exact .calls outside (.inr rfl)
  | lock id =>
      obtain ⟨free, taken⟩ := Option.ite_none_right_eq_some.mp taken
      split at taken
      · rename_i waiting
        obtain rfl := Option.some.inj taken
        exact .locks free (.inl waiting)
      · rename_i waiting
        obtain rfl := Option.some.inj taken
        exact .locks free (.inr waiting)
      · rename_i waiting
        obtain rfl := Option.some.inj taken
        exact .locksToSignal free waiting
      all_goals cases taken
  | test id =>
      obtain ⟨testing, taken⟩ := Option.ite_none_right_eq_some.mp taken
      split at taken
      · rename_i token
        obtain rfl := Option.some.inj taken
        exact .takes testing token
      · rename_i empty
        obtain rfl := Option.some.inj taken
        exact .sleeps testing empty
  | raise id notified =>
      obtain ⟨raising, taken⟩ := Option.ite_none_right_eq_some.mp taken
      obtain ⟨pcs, notify, rfl⟩ := Option.map_eq_some_iff.mp taken
      cases notified with
      | some sleeper =>
          obtain ⟨asleep, same⟩ := Option.ite_none_right_eq_some.mp notify
          obtain rfl := Option.some.inj same
          exact .notifies raising asleep
      | none =>
          obtain ⟨nobody, same⟩ := Option.ite_none_right_eq_some.mp notify
          obtain rfl := Option.some.inj same
          exact .raises raising nobody
  | wake id =>
      obtain ⟨asleep, same⟩ := Option.ite_none_right_eq_some.mp taken
      obtain rfl := Option.some.inj same
      exact .wakes asleep

/-! ## The invariant -/

/-- One for a thread in `wait()` that is not blocked. -/
def awakeWeight (pc : Pc) : ℤ := if pc.awake then 1 else 0

theorem awakeWeight_nonneg (pc : Pc) : 0 ≤ awakeWeight pc := by
  rw [awakeWeight]
  split <;> decide

/-- The mutex, the account of the tokens, and who is there to take them. -/
structure Invariant (initial : ℕ) (state : State ι) : Prop where
  nonneg : 0 ≤ state.value
  account : state.value = initial + state.signals - state.waits
  mutex : ∀ id, (state.pcs id).locked = true ↔ state.owner = some id
  /-- While somebody sleeps, every token has a thread that is awake. -/
  covered : ∀ id, state.pcs id = .asleep → state.value ≤ tally awakeWeight state.pcs

omit [DecidableEq ι] in
theorem invariant_construct (initial : ℕ) : Invariant initial (construct ι initial) where
  nonneg := Int.natCast_nonneg initial
  account := by
    show (initial : ℤ) = initial + (0 : ℕ) - (0 : ℕ)
    omega
  mutex _ := ⟨nofun, nofun⟩
  covered := nofun

omit [Fintype ι] in
/-- One thread moves, and the mutex with it. -/
theorem mutex_update {owner owner' : Option ι} {pcs : ι → Pc} {id : ι} {pc : Pc}
    (mutex : ∀ other, (pcs other).locked = true ↔ owner = some other)
    (here : pc.locked = true ↔ owner' = some id)
    (others : ∀ other, other ≠ id → (owner' = some other ↔ owner = some other)) (other : ι) :
    (Function.update pcs id pc other).locked = true ↔ owner' = some other := by
  by_cases same : other = id
  · rw [same, Function.update_self]
    exact here
  · rw [Function.update_of_ne same, others other same]
    exact mutex other

omit [Fintype ι] in
/-- Nobody falls asleep by waking up. -/
theorem asleep_of_update {pcs : ι → Pc} {id other : ι} {pc : Pc} (up : pc ≠ .asleep)
    (asleep : Function.update pcs id pc other = .asleep) : pcs other = .asleep := by
  by_cases same : other = id
  · rw [same, Function.update_self] at asleep
    exact absurd asleep up
  · rw [Function.update_of_ne same] at asleep
    exact asleep

variable {initial : ℕ}

omit [Fintype ι] in
/-- The counter sees the two calls as if each were one step. -/
theorem counts_of_move (move : Move state after) :
    (after.value = state.value ∧ after.signals = state.signals ∧ after.waits = state.waits) ∨
      (0 < state.value ∧ after.value = state.value - 1 ∧ after.signals = state.signals ∧
        after.waits = state.waits + 1) ∨
      (after.value = state.value + 1 ∧ after.signals = state.signals + 1 ∧
        after.waits = state.waits) := by
  cases move with
  | calls | locks | locksToSignal | sleeps | wakes => exact .inl ⟨rfl, rfl, rfl⟩
  | takes testing token => exact .inr (.inl ⟨token, rfl, rfl, rfl⟩)
  | raises | notifies => exact .inr (.inr ⟨rfl, rfl, rfl⟩)

namespace Invariant

variable (invariant : Invariant initial state)

include invariant in
/-- At most one thread has the mutex. -/
theorem move_mutex (move : Move state after) (other : ι) :
    (after.pcs other).locked = true ↔ after.owner = some other := by
  have free {id : ι} (here : (state.pcs id).locked = false) : ¬ state.owner = some id := by
    rw [← invariant.mutex id, here]
    exact Bool.false_ne_true
  have releases {id : ι} {pc : Pc} (here : (state.pcs id).locked = true)
      (off : pc.locked = false) (other : ι) :
      (Function.update state.pcs id pc other).locked = true ↔ none = some other := by
    refine mutex_update invariant.mutex ?_ (fun other apart => ?_) other
    · rw [off]
      exact iff_of_false Bool.false_ne_true nofun
    · rw [(invariant.mutex id).mp here, Option.some.injEq]
      exact iff_of_false nofun (Ne.symm apart)
  have gets {id : ι} (nobody : state.owner = none) (other : ι) (apart : other ≠ id) :
      some id = some other ↔ state.owner = some other := by
    rw [nobody, Option.some.injEq]
    exact iff_of_false (Ne.symm apart) nofun
  cases move with
  | @calls id pc outside into =>
      refine mutex_update invariant.mutex ?_ (fun _ _ => Iff.rfl) other
      refine iff_of_false ?_ (free (by rw [outside]; rfl))
      rcases into with rfl | rfl <;> exact Bool.false_ne_true
  | @wakes id asleep =>
      refine mutex_update invariant.mutex ?_ (fun _ _ => Iff.rfl) other
      exact iff_of_false Bool.false_ne_true (free (by rw [asleep]; rfl))
  | locks nobody waiting | locksToSignal nobody waiting =>
      exact mutex_update invariant.mutex (iff_of_true rfl rfl) (gets nobody) other
  | takes testing token => exact releases (by rw [testing]; rfl) rfl other
  | sleeps testing empty => exact releases (by rw [testing]; rfl) rfl other
  | raises raising nobody => exact releases (by rw [raising]; rfl) rfl other
  | @notifies id sleeper raising asleep =>
      have apart : sleeper ≠ id := by
        rintro rfl
        cases asleep.symm.trans raising
      rw [Function.update_comm apart]
      refine mutex_update (releases (by rw [raising]; rfl) rfl) ?_ (fun _ _ => Iff.rfl) other
      exact iff_of_false Bool.false_ne_true nofun

include invariant in
/-- No step leaves a token to sleepers alone. -/
theorem move_covered (move : Move state after) (other : ι) (sleeping : after.pcs other = .asleep) :
    after.value ≤ tally awakeWeight after.pcs := by
  have kept (id : ι) (pc : Pc) (up : pc ≠ .asleep)
      (sleeping : Function.update state.pcs id pc other = .asleep) :
      state.value ≤ tally awakeWeight state.pcs :=
    invariant.covered other (asleep_of_update up sleeping)
  cases move with
  | @calls id pc outside into =>
      have covered := kept id pc (by rcases into with rfl | rfl <;> nofun) sleeping
      have weight := awakeWeight_nonneg pc
      rw [tally_update, outside]
      exact covered.trans (le_add_of_le_of_nonneg (sub_zero _).ge weight)
  | @locks id nobody waiting =>
      have covered := kept id .testing nofun sleeping
      have weight : awakeWeight (state.pcs id) = 1 := by
        rcases waiting with here | here <;> rw [here] <;> rfl
      rw [tally_update, weight, show awakeWeight .testing = 1 from rfl, sub_add_cancel]
      exact covered
  | @locksToSignal id nobody waiting =>
      have covered := kept id .raising nofun sleeping
      rw [tally_update, waiting, show awakeWeight .posting = awakeWeight .raising from rfl,
        sub_add_cancel]
      exact covered
  | @takes id testing token =>
      have covered := kept id .outside nofun sleeping
      rw [tally_update, testing, show awakeWeight .testing = 1 from rfl,
        show awakeWeight .outside = 0 from rfl, add_zero]
      exact sub_le_sub_right covered 1
  | @sleeps id testing empty => exact (not_lt.mp empty).trans (tally_nonneg awakeWeight_nonneg _)
  | @raises id raising nobody =>
      have up : Pc.outside ≠ .asleep := nofun
      exact absurd (asleep_of_update up sleeping) (nobody other)
  | @notifies id sleeper raising asleep =>
      have covered := invariant.covered sleeper asleep
      have apart : id ≠ sleeper := by
        rintro rfl
        cases asleep.symm.trans raising
      rw [tally_update, tally_update, Function.update_of_ne apart, raising, asleep,
        show awakeWeight .asleep = 0 from rfl, show awakeWeight .woken = 1 from rfl,
        show awakeWeight .raising = awakeWeight .outside from rfl, sub_add_cancel, sub_zero]
      exact add_le_add_left covered 1
  | @wakes id asleep =>
      have covered := kept id .woken nofun sleeping
      rw [tally_update, asleep]
      exact covered.trans (le_add_of_le_of_nonneg (sub_zero _).ge (awakeWeight_nonneg .woken))

include invariant in
theorem move (move : Move state after) : Invariant initial after where
  nonneg := by
    have nonneg := invariant.nonneg
    rcases counts_of_move move with ⟨value, _⟩ | ⟨token, value, _⟩ | ⟨value, _⟩ <;> omega
  account := by
    have account := invariant.account
    rcases counts_of_move move with
      ⟨value, signals, waits⟩ | ⟨_, value, signals, waits⟩ | ⟨value, signals, waits⟩ <;>
    · rw [value, signals, waits]
      omega
  mutex := invariant.move_mutex move
  covered := invariant.move_covered move

end Invariant

theorem invariant_of_reachable (reach : (machine ι initial).Reachable .free state) :
    Invariant initial state := by
  refine reach.invariant (Invariant initial) ?_ ?_
  · rintro _ rfl
    exact invariant_construct initial
  · intro _ _ _ invariant _ taken
    exact invariant.move (move_of_step taken)

/-! ## The counter that the callers see -/

/-- The call that a thread is in. -/
def Pc.request : Pc → Option Counting.Request
  | .outside => none
  | .arriving | .testing | .asleep | .woken => some .wait
  | .posting | .raising => some .signal

/-- The counter and the calls, without the mutex and without the sleepers. -/
def State.seen (state : State ι) : Counting.State ι where
  value := state.value.toNat
  calls id := (state.pcs id).request

omit [Fintype ι] in
theorem request_update {pcs : ι → Pc} {id : ι} {pc : Pc} (same : pc.request = (pcs id).request)
    (other : ι) : (Function.update pcs id pc other).request = (pcs other).request := by
  by_cases here : other = id
  · rw [here, Function.update_self, same]
  · rw [Function.update_of_ne here]

omit [Fintype ι] in
/-- One thread has its turn. -/
theorem seen_update {id : ι} {pc : Pc} {pcs : ι → Pc}
    (others : ∀ other, other ≠ id → (pcs other).request = (state.pcs other).request)
    (moved : after.pcs = Function.update pcs id pc)
    (turn : Counting.Turn state.value.toNat (state.pcs id).request after.value.toNat pc.request) :
    Counting.Step state.seen after.seen := by
  refine ⟨id, ?_, fun other apart => ?_⟩
  · simp only [State.seen, moved, Function.update_self]
    exact turn
  · simp only [State.seen, moved, Function.update_of_ne apart]
    exact others other apart

omit [Fintype ι] in
/-- A thread goes on in its call. -/
theorem seen_rests {id : ι} {pc : Pc} (same : pc.request = (state.pcs id).request)
    (moved : after.pcs = Function.update state.pcs id pc) (value : after.value = state.value) :
    Counting.Step state.seen after.seen := by
  refine seen_update (fun _ _ => rfl) moved ?_
  rw [value, same]
  exact .rests

/-- The mutex and the sleepers do not show: every step is one turn. -/
theorem Invariant.seen_step {initial : ℕ} (invariant : Invariant initial state)
    (move : Move state after) : Counting.Step state.seen after.seen := by
  have gives (value : ℤ) (nonneg : 0 ≤ value) (id : ι) (raising : state.pcs id = .raising) :
      Counting.Turn value.toNat (state.pcs id).request (value + 1).toNat Pc.outside.request := by
    rw [raising, Int.toNat_add nonneg one_pos.le]
    exact .gives
  cases move with
  | @calls id pc outside into =>
      refine seen_update (fun _ _ => rfl) rfl ?_
      rw [outside]
      rcases into with rfl | rfl <;> exact .calls
  | @locks id free waiting =>
      refine seen_rests ?_ rfl rfl
      rcases waiting with here | here <;> rw [here] <;> rfl
  | @locksToSignal id free waiting =>
      exact seen_rests (by rw [waiting]; rfl) rfl rfl
  | @takes id testing token =>
      refine seen_update (fun _ _ => rfl) rfl ?_
      have value : (state.value - 1).toNat = state.value.toNat - 1 := by omega
      rw [testing, value]
      exact .takes (by omega)
  | @sleeps id testing empty => exact seen_rests (by rw [testing]; rfl) rfl rfl
  | @raises id raising nobody =>
      exact seen_update (fun _ _ => rfl) rfl (gives state.value invariant.nonneg id raising)
  | @notifies id sleeper raising asleep =>
      refine seen_update (fun other _ => ?_) rfl (gives state.value invariant.nonneg id raising)
      exact request_update (by rw [asleep]; rfl) other
  | @wakes id asleep => exact seen_rests (by rw [asleep]; rfl) rfl rfl

/-- The threads go on in their calls: nobody calls, and nobody wakes without a notification. -/
def returning : Discipline (State ι) (Label ι)
  | _, .lock _ | _, .test _ | _, .raise _ _ => True
  | _, .callWait _ | _, .callSignal _ | _, .wake _ => False

/-- What is ahead of a thread in its call; a notification puts a sleeper back. -/
def Pc.ahead : Pc → ℤ
  | .outside | .asleep => 0
  | .testing => 1
  | .arriving | .woken => 2
  | .raising => 3
  | .posting => 4

theorem Pc.ahead_nonneg (pc : Pc) : 0 ≤ pc.ahead := by
  cases pc <;> decide

/-- A step within a call. -/
theorem ahead_falls {label : Label ι} (permitted : returning state label)
    (taken : step state label = some after) :
    tally Pc.ahead after.pcs < tally Pc.ahead state.pcs := by
  have falls {pcs : ι → Pc} {id : ι} {pc : Pc} (lower : pc.ahead < (pcs id).ahead) :
      tally Pc.ahead (Function.update pcs id pc) < tally Pc.ahead pcs := by
    rw [tally_update]
    omega
  cases label with
  | callWait | callSignal | wake => exact permitted.elim
  | lock id =>
      obtain ⟨free, taken⟩ := Option.ite_none_right_eq_some.mp taken
      cases here : state.pcs id with
      | arriving | woken | posting =>
          rw [here] at taken
          obtain rfl := Option.some.inj taken
          exact falls (by rw [here]; decide)
      | outside | testing | asleep | raising =>
          rw [here] at taken
          cases taken
  | test id =>
      obtain ⟨testing, taken⟩ := Option.ite_none_right_eq_some.mp taken
      split at taken
      all_goals
        obtain rfl := Option.some.inj taken
        exact falls (by rw [testing]; decide)
  | raise id notified =>
      obtain ⟨raising, taken⟩ := Option.ite_none_right_eq_some.mp taken
      obtain ⟨pcs, notify, rfl⟩ := Option.map_eq_some_iff.mp taken
      cases notified with
      | none =>
          obtain ⟨nobody, same⟩ := Option.ite_none_right_eq_some.mp notify
          obtain rfl := Option.some.inj same
          exact falls (by rw [raising]; decide)
      | some sleeper =>
          obtain ⟨asleep, same⟩ := Option.ite_none_right_eq_some.mp notify
          obtain rfl := Option.some.inj same
          have apart : id ≠ sleeper := by
            rintro rfl
            cases asleep.symm.trans raising
          show tally Pc.ahead (Function.update (Function.update state.pcs sleeper .woken) id _) < _
          rw [tally_update, tally_update, Function.update_of_ne apart, raising, asleep]
          simp only [Pc.ahead]
          omega

/-- Where no thread can go on in its call, no call of the counter can return. -/
theorem Invariant.still {initial : ℕ} (invariant : Invariant initial state)
    (still : ∀ label, returning state label → step state label = none) :
    Counting.Still state.seen := by
  have free : state.owner = none := by
    refine Option.eq_none_iff_forall_not_mem.mpr fun id owned => ?_
    have locked := (invariant.mutex id).mpr owned
    cases here : state.pcs id with
    | testing =>
        have stuck := still (.test id) trivial
        rw [step, if_pos here] at stuck
        split at stuck <;> cases stuck
    | raising =>
        by_cases nobody : ∀ other, state.pcs other ≠ .asleep
        · have stuck := still (.raise id none) trivial
          rw [step, if_pos here, notifyOne, if_pos nobody] at stuck
          cases stuck
        · push Not at nobody
          obtain ⟨sleeper, asleep⟩ := nobody
          have stuck := still (.raise id (some sleeper)) trivial
          rw [step, if_pos here, notifyOne, if_pos asleep] at stuck
          cases stuck
    | _ =>
        rw [here] at locked
        cases locked
  -- with the mutex free, who could lock it would
  have parked (id : ι) : state.pcs id = .outside ∨ state.pcs id = .asleep := by
    have stuck := still (.lock id) trivial
    have unlocked := invariant.mutex id
    rw [free] at unlocked
    rw [step, lock, if_pos free] at stuck
    cases here : state.pcs id with
    | outside => exact .inl rfl
    | asleep => exact .inr rfl
    | testing | raising =>
        rw [here] at unlocked
        cases unlocked.mp rfl
    | _ =>
        rw [here] at stuck
        cases stuck
  intro id request called
  have asleep : state.pcs id = .asleep := by
    refine (parked id).resolve_left fun outside => ?_
    simp only [State.seen, outside, Pc.request] at called
    cases called
  have nobody : tally awakeWeight state.pcs = 0 := by
    refine tally_eq_zero fun other => ?_
    rcases parked other with here | here <;> rw [here] <;> rfl
  have empty := invariant.covered id asleep
  refine ⟨?_, Int.toNat_eq_zero.mpr (nobody ▸ empty)⟩
  simp only [State.seen, asleep, Pc.request] at called
  exact (Option.some.inj called).symm

/-- To its callers a semaphore is a counter whose calls take effect in one step, and it is as live:
left to themselves, its threads come to where no call of the counter can return. -/
theorem counting_of_reachable {initial : ℕ} (reach : (machine ι initial).Reachable .free state) :
    Counting.Run initial state.seen ∧
      (machine ι initial).Inevitable returning (fun later => Counting.Still later.seen) state := by
  constructor
  · refine Counting.Run.of_reachable State.seen (Invariant initial)
      (fun _ => invariant_of_reachable) ?_ ?_ reach
    · rintro _ rfl
      exact .refl
    · intro _ _ _ invariant _ taken
      exact invariant.seen_step (move_of_step taken)
  · refine Machine.inevitable_of_measure (fun state => (tally Pc.ahead state.pcs).toNat)
      (fun state invariant => ?_) (fun before after invariant => ?_) (invariant_of_reachable reach)
    · by_cases moves : ∃ next, (machine ι initial).Step returning state next
      · exact .inr moves
      · refine .inl (Invariant.still invariant fun label permitted => ?_)
        by_contra some
        obtain ⟨next, taken⟩ := Option.ne_none_iff_exists'.mp some
        exact moves ⟨next, label, permitted, taken⟩
    · rintro ⟨label, permitted, taken⟩
      have falls := ahead_falls permitted taken
      have nonneg := tally_nonneg Pc.ahead_nonneg after.pcs
      exact ⟨invariant.move (move_of_step taken), by omega⟩

/-! ## No lost wakeup -/

/-- Some run of the semaphore takes a token next. -/
def Takes (initial : ℕ) (state : State ι) : Prop :=
  ∃ later, (machine ι initial).Leads .free state later ∧ later.waits = state.waits + 1

/-- A thread that tests the predicate while there is a token takes it. -/
theorem takes_of_testing {id : ι} (testing : state.pcs id = .testing) (token : 0 < state.value) :
    Takes initial state := by
  obtain ⟨later, taken, waits⟩ :
      ∃ later, step state (.test id) = some later ∧ later.waits = state.waits + 1 := by
    rw [step, if_pos testing, if_pos token]
    exact ⟨_, rfl, rfl⟩
  exact ⟨later, .single ⟨.test id, trivial, taken⟩, waits⟩

/-- While nobody has the mutex, a thread that is awake can go and take a token. -/
theorem takes_of_free {id : ι} (free : state.owner = none) (token : 0 < state.value)
    (waiting : state.pcs id = .arriving ∨ state.pcs id = .woken) : Takes initial state := by
  obtain ⟨after, taken, testing, value, waits⟩ :
      ∃ after, step state (.lock id) = some after ∧ after.pcs id = .testing ∧
        after.value = state.value ∧ after.waits = state.waits := by
    rw [step, lock, if_pos free]
    rcases waiting with here | here <;> rw [here] <;>
      exact ⟨_, rfl, Function.update_self .., rfl, rfl⟩
  obtain ⟨later, leads, taken'⟩ : Takes initial after := takes_of_testing testing (value ▸ token)
  exact ⟨later, .head ⟨.lock id, trivial, taken⟩ leads, waits ▸ taken'⟩

/-- `signal()` with the mutex can be finished; who is awake stays awake. -/
theorem exists_raise {id other : ι} (raising : state.pcs id = .raising)
    (awake : (state.pcs other).awake = true) :
    ∃ label after, step state label = some after ∧ after.owner = none ∧
      after.value = state.value + 1 ∧ after.waits = state.waits ∧
      after.pcs other = state.pcs other := by
  have apart : other ≠ id := by
    rintro rfl
    rw [raising] at awake
    cases awake
  by_cases nobody : ∀ sleeper, state.pcs sleeper ≠ .asleep
  · refine ⟨.raise id none, ?_⟩
    rw [step, if_pos raising, notifyOne, if_pos nobody]
    exact ⟨_, rfl, rfl, rfl, rfl, Function.update_of_ne apart ..⟩
  · push Not at nobody
    obtain ⟨sleeper, asleep⟩ := nobody
    have distinct : other ≠ sleeper := by
      rintro rfl
      rw [asleep] at awake
      cases awake
    refine ⟨.raise id (some sleeper), ?_⟩
    rw [step, if_pos raising, notifyOne, if_pos asleep]
    exact ⟨_, rfl, rfl, rfl, rfl,
      (Function.update_of_ne apart ..).trans (Function.update_of_ne distinct ..)⟩

omit [DecidableEq ι] in
/-- While nobody has the mutex, who is awake is at it. -/
theorem Invariant.waiting (invariant : Invariant initial state) (free : state.owner = none) {id : ι}
    (awake : (state.pcs id).awake = true) : state.pcs id = .arriving ∨ state.pcs id = .woken := by
  cases here : state.pcs id with
  | arriving => exact .inl rfl
  | woken => exact .inr rfl
  | testing =>
      have owned := (invariant.mutex id).mp (by rw [here]; rfl)
      cases free.symm.trans owned
  | _ =>
      rw [here] at awake
      cases awake

/-- A token that somebody is awake for can be taken, whoever has the mutex. -/
theorem Invariant.takes (invariant : Invariant initial state) (token : 0 < state.value) {id : ι}
    (awake : (state.pcs id).awake = true) : Takes initial state := by
  cases owner : state.owner with
  | none => exact takes_of_free owner token (invariant.waiting owner awake)
  | some other =>
      have locked := (invariant.mutex other).mpr owner
      cases here : state.pcs other with
      | testing => exact takes_of_testing here token
      | raising =>
          obtain ⟨label, after, taken, free, value, waits, same⟩ := exists_raise here awake
          have waiting := (invariant.move (move_of_step taken)).waiting free (same ▸ awake)
          obtain ⟨later, leads, taken'⟩ : Takes initial after :=
            takes_of_free free (by omega) waiting
          exact ⟨later, .head ⟨label, trivial, taken⟩ leads, waits ▸ taken'⟩
      | _ =>
          rw [here] at locked
          cases locked

/-- In every reachable state the counter is not negative and accounts for the completed calls, and
while it is positive no sleeper is alone: somebody in `wait()` is awake and can take a token. -/
theorem no_lost_wakeup (reach : (machine ι initial).Reachable .free state) :
    0 ≤ state.value ∧ state.value = initial + state.signals - state.waits ∧
      ∀ sleeper, state.pcs sleeper = .asleep → 0 < state.value →
        ∃ other, (state.pcs other).awake = true ∧ Takes initial state := by
  have invariant := invariant_of_reachable reach
  refine ⟨invariant.nonneg, invariant.account, fun sleeper asleep token => ?_⟩
  have positive := token.trans_le (invariant.covered sleeper asleep)
  obtain ⟨other, weight⟩ := exists_of_tally_pos positive
  have awake : (state.pcs other).awake = true := by
    rw [awakeWeight] at weight
    split at weight
    · assumption
    · exact absurd weight (lt_irrefl 0)
  exact ⟨other, awake, invariant.takes token awake⟩

/-- Two threads sleep, and a third one brings a token for one of them. -/
def twoSleepers : List (Label (Fin 3)) :=
  [.callWait 0, .lock 0, .test 0, .callWait 1, .lock 1, .test 1, .callSignal 2, .lock 2,
    .raise 2 (some 1)]

theorem twoSleepers_finish :
    ((machine (Fin 3) 0).exec .free (construct (Fin 3) 0) twoSleepers).isSome = true := by
  decide +kernel

/-- The semaphore after `twoSleepers`. -/
def oneWoken : State (Fin 3) :=
  ((machine (Fin 3) 0).exec .free (construct (Fin 3) 0) twoSleepers).get twoSleepers_finish

theorem no_lost_wakeup_woken :
    oneWoken.value = 1 ∧ oneWoken.pcs 0 = .asleep ∧
      ∃ other, (oneWoken.pcs other).awake = true ∧ Takes 0 oneWoken := by
  have value : oneWoken.value = 1 := by decide +kernel
  have asleep : oneWoken.pcs 0 = .asleep := by decide +kernel
  have reach : (machine (Fin 3) 0).Reachable .free oneWoken :=
    .of_exec rfl twoSleepers twoSleepers_finish
  refine ⟨value, asleep, (no_lost_wakeup reach).2.2 0 asleep ?_⟩
  rw [value]
  decide

end Semaphore
end Syscore
