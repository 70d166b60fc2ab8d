import Mathlib.Data.List.Sort

/-!
# Rankings cut off at a length

Sorting by a strict weak order leaves the order of equivalent items open. The first items of a
ranking are nevertheless determined where none of them is disputed.
-/

namespace Syscore

variable {α : Type*}

/-- A strict weak order: what a comparison handed to `std::sort` has to be. -/
structure StrictWeakOrder (less : α → α → Bool) : Prop where
  asymm : ∀ a b, less a b = true → less b a = false
  cotrans : ∀ a b c, less a c = true → less a b = true ∨ less b c = true

/-- `std::sort`: it permutes its range into an order that the comparison does not contradict. -/
structure StdSort (α : Type*) where
  sort : (α → α → Bool) → List α → List α
  perm : ∀ less items, (sort less items).Perm items
  sorted : ∀ less, StrictWeakOrder less → ∀ items,
    (sort less items).Pairwise fun first second => less second first = false

/-- Insertion sort is such a sort, and a stable one. -/
def insertionSort (α : Type*) : StdSort α where
  sort less items := items.insertionSort fun first second => less second first = false
  perm less items := List.perm_insertionSort _ items
  sorted less order items := by
    have : Std.Total fun first second => less second first = false := ⟨fun a b => by
      cases backward : less b a with
      | false => exact Or.inl rfl
      | true => exact Or.inr (order.asymm b a backward)⟩
    have : IsTrans α fun first second => less second first = false := ⟨fun a b c first second => by
      by_contra later
      rcases order.cotrans c b a (by simpa using later) with wrong | wrong
      · exact absurd (wrong.symm.trans second) (by decide)
      · exact absurd (wrong.symm.trans first) (by decide)⟩
    exact List.pairwise_insertionSort _ items

/-- The first items of a list are those of any part of it that holds them. -/
theorem take_eq_take_filter {keep : α → Bool} {items : List α} {n : ℕ}
    (kept : ∀ item ∈ items.take n, keep item = true) :
    items.take n = (items.filter keep).take n := by
  have parts : items.filter keep = items.take n ++ (items.drop n).filter keep := by
    conv_lhs => rw [← List.take_append_drop n items]
    rw [List.filter_append, List.filter_eq_self.mpr kept]
  by_cases few : items.length ≤ n
  · rw [parts, List.drop_of_length_le few, List.filter_nil, List.append_nil, List.take_take,
      min_self]
  · have full : (items.take n).length = n := List.length_take_of_le (le_of_not_ge few)
    rw [parts, List.take_append_of_le_length full.ge, List.take_take, min_self]

variable {less : α → α → Bool}

theorem StrictWeakOrder.irrefl (order : StrictWeakOrder less) (item : α) :
    less item item = false := by
  cases own : less item item with
  | false => rfl
  | true => exact own.symm.trans (order.asymm item item own)

/-! ## Comparisons -/

/-- The comparison with its arguments swapped. -/
theorem StrictWeakOrder.swap (order : StrictWeakOrder less) :
    StrictWeakOrder fun a b => less b a where
  asymm a b := order.asymm b a
  cotrans a b c before := (order.cotrans c b a before).symm

/-- The comparison of what a function makes of the items. -/
theorem StrictWeakOrder.comap {β : Type*} (order : StrictWeakOrder less) (key : β → α) :
    StrictWeakOrder fun a b => less (key a) (key b) where
  asymm a b := order.asymm (key a) (key b)
  cotrans a b c := order.cotrans (key a) (key b) (key c)

/-- The comparison of a first key, and another one where the keys are equal. -/
theorem StrictWeakOrder.lex {κ : Type*} [LinearOrder κ] (order : StrictWeakOrder less)
    (key : α → κ) :
    StrictWeakOrder fun a b => if key a ≠ key b then decide (key a < key b) else less a b where
  asymm a b before := by
    by_cases same : key a = key b
    · rw [if_neg (not_not.mpr same)] at before
      rw [if_neg (not_not.mpr same.symm)]
      exact order.asymm a b before
    · rw [if_pos same, decide_eq_true_iff] at before
      rw [if_pos (Ne.symm same), decide_eq_false_iff_not]
      exact before.asymm
  cotrans a b c before := by
    by_cases first : key a = key b
    · by_cases second : key b = key c
      · rw [if_neg (not_not.mpr (first.trans second))] at before
        rw [if_neg (not_not.mpr first), if_neg (not_not.mpr second)]
        exact order.cotrans a b c before
      · have apart : key a ≠ key c := first ▸ second
        rw [if_pos apart, decide_eq_true_iff] at before
        rw [if_pos second, decide_eq_true_iff, ← first]
        exact Or.inr before
    · rw [if_pos first, decide_eq_true_iff]
      rcases lt_or_gt_of_ne first with below | above
      · exact Or.inl below
      · refine Or.inr ?_
        by_cases last : key a = key c
        · rw [if_pos fun same => first (last.trans same.symm), decide_eq_true_iff, ← last]
          exact above
        · rw [if_pos last, decide_eq_true_iff] at before
          have later := above.trans before
          rw [if_pos later.ne, decide_eq_true_iff]
          exact later

theorem strictWeakOrder_lt (κ : Type*) [LinearOrder κ] :
    StrictWeakOrder fun a b : κ => decide (a < b) where
  asymm a b before := decide_eq_false (of_decide_eq_true before).asymm
  cotrans a b c before := by
    rcases lt_or_ge a b with below | above
    · exact Or.inl (decide_eq_true below)
    · exact Or.inr (decide_eq_true (above.trans_lt (of_decide_eq_true before)))

theorem strictWeakOrder_compare (κ : Type*) [Ord κ] [Std.TransOrd κ] :
    StrictWeakOrder fun a b : κ => decide (compare a b = .lt) where
  asymm a b before := by
    have swapped : compare b a = (compare a b).swap := Std.OrientedCmp.eq_swap
    rw [decide_eq_false_iff_not, swapped, of_decide_eq_true before]
    exact Ordering.noConfusion
  cotrans a b c before := by
    by_cases below : compare a b = .lt
    · exact Or.inl (decide_eq_true below)
    · have above : (compare b a).isLE = true := by
        rw [← Std.OrientedCmp.isGE_iff_isLE, ← Ordering.ne_lt_iff_isGE]
        exact below
      exact Or.inr (decide_eq_true
        (Std.TransCmp.lt_of_isLE_of_lt above (of_decide_eq_true before)))

/-! ## What a cut ranking shows -/

/-- What beats an item of a ranking stands before it. -/
theorem length_le_of_beaten (order : StrictWeakOrder less) {items : List α}
    (sorted : items.Pairwise fun first second => less second first = false) {position : ℕ}
    {item : α}
    (here : items[position]? = some item) {better : List α} (distinct : better.Nodup)
    (listed : ∀ other ∈ better, other ∈ items) (beats : ∀ other ∈ better, less other item = true) :
    better.length ≤ position := by
  obtain ⟨inside, at_position⟩ := List.getElem?_eq_some_iff.mp here
  have before : better ⊆ items.take position := by
    intro other beating
    obtain ⟨index, bound, rfl⟩ := List.getElem_of_mem (listed other beating)
    rw [List.mem_take_iff_getElem]
    by_contra late
    have after : position ≤ index := by
      by_contra early
      exact late ⟨index, by omega, rfl⟩
    have loses := beats _ beating
    rcases after.eq_or_lt with rfl | later
    · rw [at_position, order.irrefl] at loses
      cases loses
    · have kept := List.pairwise_iff_getElem.mp sorted position index inside bound later
      rw [at_position, loses] at kept
      cases kept
  calc better.length ≤ (items.take position).length := distinct.length_le_of_subset before
    _ ≤ position := List.length_take_le _ _

/-- Two rankings begin alike when their first items belong to a part that they share and that leaves
no two items equivalent. -/
theorem take_eq_of_settled {left right : List α}
    (leftSorted : left.Pairwise fun first second => less second first = false)
    (rightSorted : right.Pairwise fun first second => less second first = false)
    {settled : α → Bool} {n : ℕ} (leftTop : ∀ item ∈ left.take n, settled item = true)
    (rightTop : ∀ item ∈ right.take n, settled item = true)
    (same : (left.filter settled).Perm (right.filter settled))
    (total : ∀ a ∈ left.filter settled, ∀ b ∈ left.filter settled, less a b = false →
      less b a = false → a = b) :
    left.take n = right.take n := by
  rw [take_eq_take_filter leftTop, take_eq_take_filter rightTop]
  congr 1
  refine List.Perm.eq_of_pairwise (fun a b inLeft inRight forward backward => ?_)
    (leftSorted.filter _) (rightSorted.filter _) same
  exact total a inLeft b (same.symm.subset inRight) backward forward

end Syscore
