import Mathlib.Algebra.BigOperators.Group.Finset.Basic
import Mathlib.Algebra.BigOperators.Group.Finset.Piecewise
import Mathlib.Algebra.BigOperators.Pi
import Mathlib.Algebra.Order.BigOperators.Group.Finset
import Mathlib.Logic.Relation
import Mathlib.Tactic.Abel

/-!
# Interleaved machines

A machine steps by labels: a label names the thread that moves and resolves every choice left open
by the scheduler or the environment, so `step` itself is a partial function. A discipline restricts
the labels that an environment may play. The second half counts threads: `tally` is the total weight
of a finite family of thread states, and one thread moving changes it by the difference of two
weights.
-/

namespace Syscore

/-- The proofs that the literal numbers of one and of two threads cite. -/
instance neZero_one : NeZero 1 := ⟨Nat.one_ne_zero⟩

instance neZero_two : NeZero 2 := ⟨Nat.succ_ne_zero 1⟩

/-- A machine whose nondeterminism is carried by the label of each step. -/
structure Machine (State Label : Type*) where
  /-- Initial configurations. -/
  start : State → Prop
  /-- Execute one labelled step, failing when the label is not enabled. -/
  step : State → Label → Option State

/-- A discipline says which labels may be played from which states. -/
abbrev Discipline (State Label : Type*) := State → Label → Prop

/-- The discipline that allows every label. -/
def Discipline.free {State Label : Type*} : Discipline State Label := fun _ _ => True

instance {State Label : Type*} (state : State) (label : Label) :
    Decidable (Discipline.free state label) :=
  inferInstanceAs (Decidable True)

namespace Machine

variable {State Label : Type*}

/-- One allowed step. -/
def Step (machine : Machine State Label) (allowed : Discipline State Label)
    (before after : State) : Prop :=
  ∃ label, allowed before label ∧ machine.step before label = some after

/-- Finitely many allowed steps. -/
def Leads (machine : Machine State Label) (allowed : Discipline State Label) :
    State → State → Prop :=
  Relation.ReflTransGen (machine.Step allowed)

/-- States reached from an initial configuration by allowed steps. -/
def Reachable (machine : Machine State Label) (allowed : Discipline State Label)
    (state : State) : Prop :=
  ∃ initial, machine.start initial ∧ machine.Leads allowed initial state

variable {machine : Machine State Label} {allowed : Discipline State Label}

theorem Reachable.of_start {state : State} (initial : machine.start state) :
    machine.Reachable allowed state :=
  ⟨state, initial, .refl⟩

theorem Reachable.trans {before after : State} (reach : machine.Reachable allowed before)
    (leads : machine.Leads allowed before after) : machine.Reachable allowed after := by
  obtain ⟨initial, start, earlier⟩ := reach
  exact ⟨initial, start, earlier.trans leads⟩

theorem Reachable.next {before after : State} {label : Label}
    (reach : machine.Reachable allowed before) (permitted : allowed before label)
    (step : machine.step before label = some after) : machine.Reachable allowed after :=
  reach.trans (.single ⟨label, permitted, step⟩)

theorem Leads.mono {wider : Discipline State Label} {before after : State}
    (embed : ∀ state label, allowed state label → wider state label)
    (leads : machine.Leads allowed before after) : machine.Leads wider before after := by
  induction leads with
  | refl => exact .refl
  | tail _ step ih =>
      obtain ⟨label, permitted, step⟩ := step
      exact ih.tail ⟨label, embed _ _ permitted, step⟩

theorem Reachable.mono {wider : Discipline State Label} {state : State}
    (embed : ∀ state label, allowed state label → wider state label)
    (reach : machine.Reachable allowed state) : machine.Reachable wider state := by
  obtain ⟨initial, start, leads⟩ := reach
  exact ⟨initial, start, leads.mono embed⟩

/-- A disciplined execution is an execution. -/
theorem Reachable.toFree {state : State} (reach : machine.Reachable allowed state) :
    machine.Reachable .free state :=
  reach.mono fun _ _ _ => trivial

/-- A property kept by every allowed step is kept by every allowed run. -/
theorem Leads.invariant (holds : State → Prop) {before after : State}
    (preserved : ∀ before label after, holds before → allowed before label →
      machine.step before label = some after → holds after)
    (leads : machine.Leads allowed before after) (initially : holds before) : holds after := by
  induction leads with
  | refl => exact initially
  | tail _ step ih =>
      obtain ⟨label, permitted, step⟩ := step
      exact preserved _ label _ ih permitted step

/-- The invariant rule: true initially and kept by every allowed step. -/
theorem Reachable.invariant (holds : State → Prop) {state : State}
    (initially : ∀ state, machine.start state → holds state)
    (preserved : ∀ before label after, holds before → allowed before label →
      machine.step before label = some after → holds after)
    (reach : machine.Reachable allowed state) : holds state := by
  obtain ⟨initial, start, leads⟩ := reach
  exact leads.invariant holds preserved (initially initial start)

/-- The invariant rule relative to facts already known of every reachable state. -/
theorem Reachable.invariant_with {known : State → Prop} (holds : State → Prop) {state : State}
    (given : ∀ state, machine.Reachable allowed state → known state)
    (initially : ∀ state, machine.start state → holds state)
    (preserved : ∀ before label after, known before → known after → holds before →
      allowed before label → machine.step before label = some after → holds after)
    (reach : machine.Reachable allowed state) : holds state := by
  have both : machine.Reachable allowed state ∧ holds state := by
    obtain ⟨initial, start, leads⟩ := reach
    induction leads with
    | refl => exact ⟨.of_start start, initially initial start⟩
    | tail _ step ih =>
        obtain ⟨label, permitted, step⟩ := step
        obtain ⟨reached, held⟩ := ih
        have later := reached.next permitted step
        exact ⟨later, preserved _ label _ (given _ reached) (given _ later) held permitted step⟩
  exact both.2

/-- Play a list of labels, checking the discipline at every step. -/
def exec (machine : Machine State Label) (allowed : Discipline State Label)
    [∀ state label, Decidable (allowed state label)] : State → List Label → Option State
  | state, [] => some state
  | state, label :: labels =>
      if allowed state label then
        (machine.step state label).bind fun next => machine.exec allowed next labels
      else
        none

/-- A successful play is a run. -/
theorem Leads.of_exec [∀ state label, Decidable (allowed state label)] {before after : State}
    {labels : List Label} (played : machine.exec allowed before labels = some after) :
    machine.Leads allowed before after := by
  induction labels generalizing before with
  | nil =>
      obtain rfl : before = after := by simpa [exec] using played
      exact .refl
  | cons label labels ih =>
      rw [exec] at played
      split at played
      · rename_i permitted
        obtain ⟨next, step, rest⟩ := Option.bind_eq_some_iff.mp played
        exact Relation.ReflTransGen.head ⟨label, permitted, step⟩ (ih rest)
      · simp at played

/-- The end of a play that no step fails is reachable. -/
theorem Reachable.of_exec [∀ state label, Decidable (allowed state label)]
    {initial : State} (start : machine.start initial) (labels : List Label)
    (finishes : (machine.exec allowed initial labels).isSome = true) :
    machine.Reachable allowed ((machine.exec allowed initial labels).get finishes) :=
  ⟨initial, start, .of_exec (Option.some_get finishes).symm⟩

end Machine

/-! ## Weights of thread families -/

section Tally

variable {ι β γ Group : Type*} [Fintype ι] [AddCommGroup Group]

/-- Total weight of a finite family of thread states. -/
def tally (weight : β → Group) (family : ι → β) : Group := ∑ index, weight (family index)

/-- Moving one thread trades its old weight for its new one. -/
@[simp]
theorem tally_update [DecidableEq ι] (weight : β → Group) (family : ι → β) (index : ι) (value : β) :
    tally weight (Function.update family index value) =
      tally weight family - weight (family index) + weight value := by
  have updated : (fun other => weight (Function.update family index value other)) =
      Function.update (fun other => weight (family other)) index (weight value) := by
    funext other
    by_cases same : other = index
    · subst same
      simp
    · simp [same]
  have split := Finset.sum_sdiff (f := fun other => weight (family other))
    (Finset.subset_univ ({index} : Finset ι))
  rw [Finset.sum_singleton] at split
  unfold tally
  rw [updated, Finset.sum_update_of_mem (Finset.mem_univ index), ← split]
  abel

/-- A relabelling that no weight sees does not change the total. -/
theorem tally_comp (weight : γ → Group) (weight' : β → Group) (relabel : β → γ)
    (same : ∀ value, weight (relabel value) = weight' value) (family : ι → β) :
    tally weight (fun index => relabel (family index)) = tally weight' family := by
  simp [tally, same]

/-- A vector of weights is tallied coordinate by coordinate. -/
theorem tally_apply {κ : Type*} (weight : β → κ → Group) (family : ι → β) (coordinate : κ) :
    tally weight family coordinate = tally (fun value => weight value coordinate) family := by
  simp [tally, Finset.sum_apply]

theorem tally_nonneg {weight : β → ℤ} (nonneg : ∀ value, 0 ≤ weight value) (family : ι → β) :
    0 ≤ tally weight family :=
  Finset.sum_nonneg fun index _ => nonneg (family index)

theorem tally_eq_zero {weight : β → Group} {family : ι → β}
    (weightless : ∀ index, weight (family index) = 0) : tally weight family = 0 :=
  Finset.sum_eq_zero fun index _ => weightless index

theorem tally_mono {lighter heavier : β → ℤ} (le : ∀ value, lighter value ≤ heavier value)
    (family : ι → β) : tally lighter family ≤ tally heavier family :=
  Finset.sum_le_sum fun index _ => le (family index)

theorem weight_le_tally {weight : β → ℤ} (nonneg : ∀ value, 0 ≤ weight value) (family : ι → β)
    (index : ι) : weight (family index) ≤ tally weight family :=
  Finset.single_le_sum (f := fun other => weight (family other))
    (fun other _ => nonneg (family other)) (Finset.mem_univ index)

theorem exists_of_tally_pos {weight : β → ℤ} {family : ι → β} (positive : 0 < tally weight family) :
    ∃ index, 0 < weight (family index) := by
  by_contra none
  have bound : tally weight family ≤ 0 :=
    Finset.sum_nonpos fun index _ => not_lt.mp fun found => none ⟨index, found⟩
  omega

end Tally

/-- The sum of weights over a list in which one item changes. -/
theorem sum_map_set {α : Type*} (weight : α → ℕ) {items : List α} {index : ℕ} {item : α}
    (here : items[index]? = some item) (next : α) :
    ((items.set index next).map weight).sum + weight item =
      (items.map weight).sum + weight next := by
  induction items generalizing index with
  | nil => cases here
  | cons first items ih =>
      cases index with
      | zero =>
          obtain rfl := Option.some.inj here
          simp only [List.set_cons_zero, List.map_cons, List.sum_cons]
          omega
      | succ index =>
          have here : items[index]? = some item := here
          have rest := ih here
          simp only [List.set_cons_succ, List.map_cons, List.sum_cons] at rest ⊢
          omega

end Syscore
