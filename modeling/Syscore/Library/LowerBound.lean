import Mathlib.Data.List.Basic
import Mathlib.Data.Nat.Basic
import Mathlib.Order.Basic

/-!
# Lower bound by halving

The search of a standard library's `lower_bound`: an interval is given by its first index and its
length, and a comparison that may fail says whether an index lies before the wanted point.
-/

namespace Syscore

/-- The first index of an interval that is not before the wanted point. -/
def lowerBound (before : ℕ → Option Bool) (first len : ℕ) : Option ℕ :=
  if len = 0 then
    some first
  else
    let half := len / 2
    match before (first + half) with
    | none => none
    | some true => lowerBound before (first + half + 1) (len - half - 1)
    | some false => lowerBound before first half
termination_by len

/-- On a partitioned interval the search returns the partition point. -/
theorem lowerBound_eq {before : ℕ → Option Bool} {point first len : ℕ}
    (above : first ≤ point) (below : point ≤ first + len)
    (partition : ∀ index, first ≤ index → index < first + len →
      before index = some (decide (index < point))) :
    lowerBound before first len = some point := by
  induction len using Nat.strong_induction_on generalizing first with
  | h len ih =>
      rw [lowerBound]
      by_cases empty : len = 0
      · rw [if_pos empty]
        exact congrArg some (by omega)
      · have half : len / 2 < len := Nat.div_lt_self (Nat.pos_of_ne_zero empty) (by decide)
        have tested := partition (first + len / 2) (by omega) (by omega)
        rw [if_neg empty]
        simp only [tested]
        by_cases early : first + len / 2 < point
        · simp only [early, decide_true]
          refine ih _ (by omega) (by omega) (by omega) fun index lower upper => ?_
          exact partition index (by omega) (by omega)
        · simp only [early, decide_false]
          refine ih _ half above (by omega) fun index lower upper => ?_
          exact partition index lower (by omega)

section SortedTable

variable {α : Type*} [Ord α] [Std.TransOrd α]

/-- The partition point of a sorted table with respect to a key. -/
def partitionPoint (keys : List α) (key : α) : ℕ :=
  keys.findIdx fun other => compare other key != .lt

/-- A sorted table is partitioned at its partition point. -/
theorem compare_getElem_partitionPoint {keys : List α} {key : α}
    (sorted : keys.Pairwise fun left right => compare left right = .lt) {index : ℕ}
    (inside : index < keys.length) :
    (compare keys[index] key == .lt) = decide (index < partitionPoint keys key) := by
  rcases Nat.lt_or_ge index (partitionPoint keys key) with early | late
  · have before := List.not_of_lt_findIdx early
    rw [decide_eq_true early]
    simpa using before
  · have point := Nat.lt_of_le_of_lt late inside
    have found : (compare keys[partitionPoint keys key] key != .lt) = true :=
      List.findIdx_getElem (p := fun other => compare other key != .lt)
    rw [decide_eq_false (Nat.not_lt.mpr late)]
    rcases Nat.eq_or_lt_of_le late with same | beyond
    · subst same
      simpa using found
    · have order := List.pairwise_iff_getElem.mp sorted _ _ point inside beyond
      simp only [bne_iff_ne, ne_eq] at found
      simp only [beq_eq_false_iff_ne, ne_eq]
      exact fun less => found (Std.TransCmp.lt_trans order less)

/-- A key is in a sorted table only at the partition point. -/
theorem partitionPoint_eq_of_getElem? {keys : List α} {key : α}
    (sorted : keys.Pairwise fun left right => compare left right = .lt) {index : ℕ}
    (at_index : keys[index]? = some key) : partitionPoint keys key = index := by
  obtain ⟨inside, rfl⟩ := List.getElem?_eq_some_iff.mp at_index
  have here : (compare keys[index] keys[index] == .lt) = _ :=
    compare_getElem_partitionPoint sorted inside
  have equal : compare keys[index] keys[index] = .eq := Std.ReflCmp.compare_self
  rw [equal, eq_comm, show (Ordering.eq == Ordering.lt) = false from rfl, decide_eq_false_iff_not]
    at here
  refine Nat.le_antisymm (Nat.not_lt.mp here) (Nat.not_lt.mp fun early => ?_)
  have point := Nat.lt_trans early inside
  have order := List.pairwise_iff_getElem.mp sorted _ _ point inside early
  have there : (compare keys[partitionPoint keys keys[index]] keys[index] == .lt) = _ :=
    compare_getElem_partitionPoint sorted point
  rw [order] at there
  simp at there

end SortedTable

end Syscore
