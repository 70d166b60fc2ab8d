import Syscore.Library.Interleaving

/-!
# Counting semaphores

A counter and the calls that its users are in, each of which takes effect in one step and returns
with it. What is made of smaller steps, and what a program does besides, is seen through a view of
the counter and of the calls: it is such a semaphore when every step shows the turn of one user.
-/

namespace Syscore
namespace Counting

/-- A call of a semaphore. -/
inductive Request
  | wait
  | signal
  deriving DecidableEq

/-- A counter, and the call that each user is in. -/
structure State (User : Type*) where
  value : ℕ
  calls : User → Option Request

variable {User : Type*} {before after state : State User} {user : User} {initial : ℕ}

/-- What a user does to the counter and to its own call. -/
inductive Turn : ℕ → Option Request → ℕ → Option Request → Prop
  | rests {value call} : Turn value call value call
  | calls {value request} : Turn value none value (some request)
  | takes {value} (token : 0 < value) : Turn value (some .wait) (value - 1) none
  | gives {value} : Turn value (some .signal) (value + 1) none

theorem Turn.of_eq {value value' : ℕ} {call call' : Option Request} (sameValue : value' = value)
    (sameCall : call' = call) : Turn value call value' call' := by
  subst sameValue sameCall
  exact .rests

/-- One user has its turn. -/
def Step (before after : State User) : Prop :=
  ∃ user, Turn before.value (before.calls user) after.value (after.calls user) ∧
    ∀ other, other ≠ user → after.calls other = before.calls other

/-- The semaphore before its first use. -/
def start (User : Type*) (initial : ℕ) : State User where
  value := initial
  calls _ := none

/-- What the semaphore comes to. -/
def Run (initial : ℕ) : State User → Prop := Relation.ReflTransGen Step (start User initial)

/-- No call can return. -/
def Still (state : State User) : Prop :=
  ∀ user request, state.calls user = some request → request = .wait ∧ state.value = 0

theorem Run.next (run : Run initial before) (step : Step before after) : Run initial after :=
  Relation.ReflTransGen.tail run step

/-- One user calls at first. -/
theorem Run.of_call (user : User) (value : state.value = initial)
    (others : ∀ other, other ≠ user → state.calls other = none) : Run initial state := by
  refine .single ⟨user, ?_, others⟩
  cases state.calls user with
  | none => exact .of_eq value rfl
  | some request =>
      rw [value]
      exact .calls

/-- The refinement rule: a view that begins as the semaphore does, and that every step of the
machine moves by one step. -/
theorem Run.of_reachable {State Label : Type*} {machine : Machine State Label}
    {allowed : Discipline State Label} {state : State} (view : State → Counting.State User)
    (known : State → Prop) (given : ∀ state, machine.Reachable allowed state → known state)
    (initially : ∀ state, machine.start state → Run initial (view state))
    (steps : ∀ before label after, known before → known after →
      machine.step before label = some after → Step (view before) (view after))
    (reach : machine.Reachable allowed state) : Run initial (view state) := by
  refine reach.invariant_with (fun state => Run initial (view state)) given initially ?_
  intro before label after knownBefore knownAfter run _ taken
  exact run.next (steps before label after knownBefore knownAfter taken)

end Counting
end Syscore
