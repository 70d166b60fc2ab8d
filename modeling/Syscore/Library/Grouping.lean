import Mathlib.Data.List.Dedup
import Mathlib.Data.List.Nodup
import Mathlib.Data.List.Perm.Basic

/-!
# Grouping equal items

Dividing a list into classes, and counting the runs of equal items of a sorted list in one pass.
-/

namespace Syscore

variable {α : Type*}

/-- The items of the first classes together. -/
theorem classes_below_perm (kind : α → ℕ) (items : List α) (n : ℕ) :
    ((List.range n).flatMap fun r => items.filter fun item => kind item = r).Perm
      (items.filter fun item => kind item < n) := by
  induction n with
  | zero =>
      rw [List.range_zero, List.flatMap_nil, List.filter_eq_nil_iff.mpr]
      simp
  | succ n ih =>
      have earlier :
          (items.filter fun item => kind item < n + 1).filter (fun item => kind item < n) =
          items.filter fun item => kind item < n := by
        rw [List.filter_filter]
        refine List.filter_congr fun item _ => ?_
        rw [← Bool.decide_and, decide_eq_decide]
        omega
      have last : (items.filter fun item => kind item < n + 1).filter
          (fun item => !decide (kind item < n)) = items.filter fun item => kind item = n := by
        rw [List.filter_filter]
        refine List.filter_congr fun item _ => ?_
        rw [← decide_not, ← Bool.decide_and, decide_eq_decide]
        omega
      have split := List.filter_append_perm (fun item => decide (kind item < n))
        (items.filter fun item => kind item < n + 1)
      rw [earlier, last] at split
      rw [List.range_succ, List.flatMap_append, List.flatMap_singleton]
      exact (ih.append_right _).trans split

/-- The classes of a list together are the list. -/
theorem classes_perm (kind : α → ℕ) {items : List α} {n : ℕ}
    (bounded : ∀ item ∈ items, kind item < n) :
    ((List.range n).flatMap fun r => items.filter fun item => kind item = r).Perm items := by
  have all : items.filter (fun item => kind item < n) = items :=
    List.filter_eq_self.mpr fun item inside => decide_eq_true (bounded item inside)
  have below := classes_below_perm kind items n
  rw [all] at below
  exact below

/-- Between two items of one kind there is none of another. -/
def Together {β : Type*} (kind : α → β) (items : List α) : Prop :=
  ∀ (i j k : ℕ) (a b c : α), i < j → j < k →
    items[i]? = some a → items[j]? = some b → items[k]? = some c → kind a = kind c → kind b = kind a

/-- In a sorted list it is enough to look at the order of the items. -/
theorem together_iff {β : Type*} {le : α → α → Prop}
    (antisymm : ∀ a b, le a b → le b a → a = b) {items : List α} (sorted : items.Pairwise le)
    (kind : α → β) :
    Together kind items ↔ ∀ a ∈ items, ∀ b ∈ items, ∀ c ∈ items,
      le a b → le b c → kind a = kind c → kind b = kind a := by
  have ordered : ∀ {i j : ℕ} {a b : α}, i < j → items[i]? = some a → items[j]? = some b →
      le a b := by
    intro i j a b before first second
    obtain ⟨inside, rfl⟩ := List.getElem?_eq_some_iff.mp first
    obtain ⟨inside', rfl⟩ := List.getElem?_eq_some_iff.mp second
    exact List.pairwise_iff_getElem.mp sorted i j inside inside' before
  have place : ∀ {a b : α} {i j : ℕ}, items[i]? = some a → items[j]? = some b → le a b →
      a ≠ b → i < j := by
    intro a b i j first second below apart
    rcases Nat.lt_trichotomy i j with before | rfl | behind
    · exact before
    · exact absurd (Option.some.inj (first.symm.trans second)) apart
    · exact absurd (antisymm a b below (ordered behind second first)) apart
  constructor
  · intro together a ina b inb c inc below above same
    obtain ⟨i, first⟩ := List.getElem?_of_mem ina
    obtain ⟨j, second⟩ := List.getElem?_of_mem inb
    obtain ⟨k, third⟩ := List.getElem?_of_mem inc
    by_contra other
    have apart : a ≠ b := fun equal => other (equal ▸ rfl)
    have apart' : b ≠ c := fun equal => other (equal ▸ same.symm)
    exact other (together i j k a b c (place first second below apart)
      (place second third above apart') first second third same)
  · intro between i j k a b c before behind first second third same
    exact between a (List.mem_of_getElem? first) b (List.mem_of_getElem? second) c
      (List.mem_of_getElem? third) (ordered before first second) (ordered behind second third) same

variable [DecidableEq α]

/-- Each item of a list with the number of its occurrences. -/
def tallies (items : List α) : List (α × ℕ) := items.dedup.map fun item => (item, items.count item)

theorem tallies_perm {left right : List α} (same : left.Perm right) :
    (tallies left).Perm (tallies right) := by
  have counts : (fun item => (item, left.count item)) = fun item => (item, right.count item) := by
    funext item
    rw [same.count_eq]
  rw [tallies, tallies, counts]
  exact same.dedup.map _

/-- Counting within the classes of a list is counting in the list. -/
theorem tallies_classes_perm (kind : α → ℕ) {items : List α} {n : ℕ}
    (bounded : ∀ item ∈ items, kind item < n) :
    ((List.range n).flatMap fun r => tallies (items.filter fun item => kind item = r)).Perm
      (tallies items) := by
  have own (r : ℕ) : (tallies (items.filter fun item => kind item = r)).Perm
      ((items.dedup.filter fun item => kind item = r).map fun item =>
        (item, items.count item)) := by
    have counts : tallies (items.filter fun item => kind item = r) =
        (items.filter fun item => kind item = r).dedup.map fun item =>
          (item, items.count item) := by
      refine List.map_congr_left fun item inside => ?_
      rw [List.count_filter (List.of_mem_filter (List.mem_dedup.mp inside))]
    rw [counts]
    refine List.Perm.map _ ?_
    rw [List.perm_ext_iff_of_nodup (List.nodup_dedup _) ((List.nodup_dedup _).filter _)]
    simp
  refine (List.Perm.flatMap_left _ fun r _ => own r).trans ?_
  rw [← List.map_flatMap]
  exact (classes_perm kind fun item inside => bounded item (List.mem_dedup.mp inside)).map _

/-- The runs of equal items, when `total` items equal to `current` have been read before. -/
def countRuns (current : α) (total : ℕ) : List α → List (α × ℕ)
  | [] => [(current, total)]
  | item :: items =>
      if item = current then
        countRuns current (total + 1) items
      else
        (current, total) :: countRuns item 1 items

theorem dedup_replicate_append {current : α} {items : List α} (fresh : current ∉ items) (n : ℕ) :
    (List.replicate (n + 1) current ++ items).dedup = current :: items.dedup := by
  induction n with
  | zero => exact List.dedup_cons_of_notMem fresh
  | succ n ih =>
      rw [List.replicate_succ, List.cons_append, List.dedup_cons_of_mem (by simp), ih]

theorem tallies_replicate_append {current : α} {items : List α} (fresh : current ∉ items) (n : ℕ) :
    tallies (List.replicate (n + 1) current ++ items) = (current, n + 1) :: tallies items := by
  rw [tallies, dedup_replicate_append fresh, List.map_cons, List.count_append,
    List.count_replicate_self, List.count_eq_zero.mpr fresh, Nat.add_zero, tallies]
  congr 1
  refine List.map_congr_left fun item inside => ?_
  have apart : item ≠ current := by
    rintro rfl
    exact fresh (List.mem_dedup.mp inside)
  rw [List.count_append, List.count_replicate, if_neg (by simpa using apart.symm), Nat.zero_add]

/-- In a sorted list the runs are the tallies. -/
theorem countRuns_eq_tallies {le : α → α → Prop} (antisymm : ∀ {a b}, le a b → le b a → a = b)
    {current : α} {items : List α} (sorted : (current :: items).Pairwise le) (n : ℕ) :
    countRuns current (n + 1) items = tallies (List.replicate (n + 1) current ++ items) := by
  induction items generalizing current n with
  | nil => rw [tallies_replicate_append List.not_mem_nil]; rfl
  | cons item items ih =>
      obtain ⟨first, rest⟩ := List.pairwise_cons.mp sorted
      rw [countRuns]
      by_cases same : item = current
      · subst same
        rw [if_pos rfl, ih rest, List.replicate_succ', List.append_assoc,
          List.singleton_append]
      · have fresh : current ∉ item :: items := by
          intro inside
          rcases List.mem_cons.mp inside with here | later
          · exact same here.symm
          · exact same (antisymm ((List.pairwise_cons.mp rest).1 current later)
              (first item List.mem_cons_self))
        rw [if_neg same, ih rest, tallies_replicate_append fresh]
        rfl

/-- The run in progress ends no shorter than it is. -/
theorem le_countRuns (current : α) (total : ℕ) (items : List α) :
    ∃ n, total ≤ n ∧ (current, n) ∈ countRuns current total items := by
  induction items generalizing total with
  | nil => exact ⟨total, Nat.le_refl total, List.mem_singleton_self _⟩
  | cons item items ih =>
      rw [countRuns]
      split
      · obtain ⟨n, longer, inside⟩ := ih (total + 1)
        exact ⟨n, by omega, inside⟩
      · exact ⟨total, Nat.le_refl total, List.mem_cons_self⟩

end Syscore
