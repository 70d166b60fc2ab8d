import Mathlib.Data.Fintype.Basic
import Mathlib.Data.Finset.Card

/-!
# Permits

A family of counting semaphores, each made on first use with the same number of permits, and the
threads that hold one. What is left of a semaphore and what is held of it make up its capacity.
-/

namespace Syscore

variable {Key Thread : Type*} [DecidableEq Key] [DecidableEq Thread]

/-- What a step does to the values of the semaphores and to who holds a permit. -/
inductive PermitStep (capacity : ℕ) (values : Key → Option ℕ) (held : Thread → Option Key) :
    (Key → Option ℕ) → (Thread → Option Key) → Prop
  | quiet : PermitStep capacity values held values held
  | makes {key} (fresh : values key = none) :
      PermitStep capacity values held (Function.update values key (some capacity)) held
  | takes {thread key value} (outside : held thread = none)
      (left : values key = some (value + 1)) :
      PermitStep capacity values held (Function.update values key (some value))
        (Function.update held thread (some key))
  | gives {thread key} (inside : held thread = some key) :
      PermitStep capacity values held (Function.update values key ((values key).map (· + 1)))
        (Function.update held thread none)

variable {capacity : ℕ} {values values' : Key → Option ℕ} {held held' : Thread → Option Key}

omit [DecidableEq Thread] in
theorem isSome_update {key other : Key} {value : Option ℕ} (made : (values other).isSome = true)
    (kept : other = key → value.isSome = true) :
    (Function.update values key value other).isSome = true := by
  by_cases same : other = key
  · rw [same, Function.update_self]
    exact kept same
  · rw [Function.update_of_ne same]
    exact made

/-- A semaphore that has been made stays. -/
theorem PermitStep.isSome (step : PermitStep capacity values held values' held') {key : Key}
    (made : (values key).isSome = true) : (values' key).isSome = true := by
  cases step with
  | quiet => exact made
  | makes fresh => exact isSome_update made fun _ => rfl
  | takes outside left => exact isSome_update made fun _ => rfl
  | gives inside =>
      refine isSome_update made fun same => ?_
      rw [Option.isSome_map, ← same]
      exact made

variable [Fintype Thread]

/-- The threads that hold a permit of a semaphore. -/
def holders (held : Thread → Option Key) (key : Key) : Finset Thread :=
  Finset.univ.filter fun thread => held thread = some key

omit [DecidableEq Thread] in
theorem mem_holders {thread : Thread} {key : Key} :
    thread ∈ holders held key ↔ held thread = some key := by
  rw [holders, Finset.mem_filter, and_iff_right (Finset.mem_univ thread)]

/-- A thread takes a permit. -/
theorem holders_take (thread : Thread) (key : Key) :
    holders (Function.update held thread (some key)) key = insert thread (holders held key) := by
  ext index
  rw [mem_holders, Finset.mem_insert, mem_holders]
  by_cases here : index = thread
  · rw [here, Function.update_self]
    exact iff_of_true rfl (Or.inl rfl)
  · rw [Function.update_of_ne here, or_iff_right here]

/-- A thread gives its permit back. -/
theorem holders_give (thread : Thread) (key : Key) :
    holders (Function.update held thread none) key = (holders held key).erase thread := by
  ext index
  rw [mem_holders, Finset.mem_erase, mem_holders]
  by_cases here : index = thread
  · rw [here, Function.update_self]
    exact iff_of_false (Option.some_ne_none key ∘ Eq.symm) fun both => both.1 rfl
  · rw [Function.update_of_ne here, and_iff_right here]

/-- The holders of the other semaphores stay. -/
theorem holders_of_ne {thread : Thread} {value : Option Key} {other : Key}
    (before : held thread ≠ some other) (after : value ≠ some other) :
    holders (Function.update held thread value) other = holders held other := by
  ext index
  rw [mem_holders, mem_holders]
  by_cases here : index = thread
  · rw [here, Function.update_self]
    exact iff_of_false after before
  · rw [Function.update_of_ne here]

/-- Every semaphore accounts for its permits, and nobody holds one of a semaphore not made. -/
structure Balanced (capacity : ℕ) (values : Key → Option ℕ) (held : Thread → Option Key) :
    Prop where
  total : ∀ key value, values key = some value → value + (holders held key).card = capacity
  unmade : ∀ key, values key = none → holders held key = ∅

namespace Balanced

variable (balanced : Balanced capacity values held)

omit [DecidableEq Thread] in
include balanced in
/-- One semaphore changes, and its account still agrees. -/
theorem update {key : Key} {value : Option ℕ}
    (others : ∀ other, other ≠ key → holders held' other = holders held other)
    (total : ∀ left, value = some left → left + (holders held' key).card = capacity)
    (unmade : value = none → holders held' key = ∅) :
    Balanced capacity (Function.update values key value) held' := by
  constructor
  · intro other left found
    by_cases same : other = key
    · rw [same, Function.update_self] at found
      rw [same]
      exact total left found
    · rw [Function.update_of_ne same] at found
      rw [others other same]
      exact balanced.total other left found
  · intro other absent
    by_cases same : other = key
    · rw [same, Function.update_self] at absent
      rw [same]
      exact unmade absent
    · rw [Function.update_of_ne same] at absent
      rw [others other same]
      exact balanced.unmade other absent

include balanced in
/-- No step loses a permit or makes one up. -/
theorem step (step : PermitStep capacity values held values' held') :
    Balanced capacity values' held' := by
  cases step with
  | quiet => exact balanced
  | @makes key fresh =>
      refine balanced.update (fun _ _ => rfl) (fun left made => ?_) nofun
      rw [balanced.unmade key fresh, Finset.card_empty, ← Option.some.inj made, Nat.add_zero]
  | @takes thread key value outside available =>
      have fresh : thread ∉ holders held key := by
        rw [mem_holders, outside]
        exact Option.some_ne_none key ∘ Eq.symm
      refine balanced.update (fun other apart => ?_) (fun left taken => ?_) nofun
      · refine holders_of_ne ?_ fun same => apart (Option.some.inj same).symm
        rw [outside]
        exact Option.some_ne_none other ∘ Eq.symm
      · obtain rfl := Option.some.inj taken
        have before := balanced.total key (value + 1) available
        rw [holders_take, Finset.card_insert_of_notMem fresh]
        omega
  | @gives thread key inside =>
      have here : thread ∈ holders held key := mem_holders.mpr inside
      refine balanced.update (fun other apart => ?_) (fun left given => ?_) fun absent => ?_
      · refine holders_of_ne ?_ nofun
        rw [inside]
        exact fun same => apart (Option.some.inj same).symm
      · obtain ⟨earlier, before, rfl⟩ := Option.map_eq_some_iff.mp given
        have total := balanced.total key earlier before
        have positive := Finset.card_pos.mpr ⟨thread, here⟩
        rw [holders_give, Finset.card_erase_of_mem here]
        omega
      · rw [balanced.unmade key (Option.map_eq_none_iff.mp absent)] at here
        exact absurd here (Finset.notMem_empty thread)

omit [DecidableEq Thread] in
include balanced in
/-- Somebody holds a permit of a semaphore that has none left. -/
theorem exists_holder (positive : 0 < capacity) {key : Key} (empty : values key = some 0) :
    ∃ thread, held thread = some key := by
  have total := balanced.total key 0 empty
  rw [Nat.zero_add] at total
  obtain ⟨thread, holds⟩ := Finset.card_pos.mp (total ▸ positive)
  exact ⟨thread, mem_holders.mp holds⟩

end Balanced

end Syscore
