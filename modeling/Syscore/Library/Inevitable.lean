import Syscore.Library.Interleaving

/-!
# Inevitable states

A state with a property is inevitable when every run comes to one, however the labels are played: no
run is stuck short of it, and none goes on without it for ever.
-/

namespace Syscore
namespace Machine

variable {State Label : Type*}

/-- Every run from this state comes to the goal. -/
inductive Inevitable (machine : Machine State Label) (allowed : Discipline State Label)
    (goal : State → Prop) : State → Prop
  | here {state} (reached : goal state) : Inevitable machine allowed goal state
  | later {state} (moves : ∃ next, machine.Step allowed state next)
      (next : ∀ next, machine.Step allowed state next → Inevitable machine allowed goal next) :
      Inevitable machine allowed goal state

variable {machine : Machine State Label} {allowed : Discipline State Label} {goal : State → Prop}

/-- Some run comes to an inevitable goal. -/
theorem Inevitable.exists_leads {state : State}
    (inevitable : machine.Inevitable allowed goal state) :
    ∃ last, machine.Leads allowed state last ∧ goal last := by
  induction inevitable with
  | here reached => exact ⟨_, .refl, reached⟩
  | later moves next ih =>
      obtain ⟨after, step⟩ := moves
      obtain ⟨last, leads, reached⟩ := ih after step
      exact ⟨last, .head step leads, reached⟩

/-- The variant rule: an invariant whose states are at the goal or can go on, and a well-founded
value that every step lowers. -/
theorem inevitable_of_wellFounded {Value : Type*} {lower : Value → Value → Prop}
    (wellFounded : WellFounded lower) {holds : State → Prop} (value : State → Value)
    (goes : ∀ state, holds state → goal state ∨ ∃ next, machine.Step allowed state next)
    (falls : ∀ before after, holds before → machine.Step allowed before after →
      holds after ∧ lower (value after) (value before))
    {state : State} (initially : holds state) : machine.Inevitable allowed goal state := by
  induction bound : value state using wellFounded.induction generalizing state with
  | _ size ih =>
      rcases goes state initially with reached | moves
      · exact .here reached
      · refine .later moves fun next step => ?_
        obtain ⟨holds, lower⟩ := falls state next initially step
        exact ih (value next) (bound ▸ lower) holds rfl

/-- The rule for a measure. -/
theorem inevitable_of_measure {holds : State → Prop} (measure : State → ℕ)
    (goes : ∀ state, holds state → goal state ∨ ∃ next, machine.Step allowed state next)
    (falls : ∀ before after, holds before → machine.Step allowed before after →
      holds after ∧ measure after < measure before)
    {state : State} (initially : holds state) : machine.Inevitable allowed goal state :=
  inevitable_of_wellFounded Nat.lt_wfRel.wf measure goes falls initially

end Machine
end Syscore
