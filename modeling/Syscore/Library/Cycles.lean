import Mathlib.Data.Fintype.Card
import Mathlib.Logic.Relation

/-!
# Cycles

On a finite set of nodes, a descent from a root comes to an end unless it can run into a cycle.
-/

namespace Syscore

open Relation

variable {α : Type*} {child : α → α → Prop} {root : α}

/-- A node on a cycle can be reached. -/
def ReachesCycle (child : α → α → Prop) (root : α) : Prop :=
  ∃ node, ReflTransGen child root node ∧ TransGen child node node

theorem acc_of_reach {node : α} (ends : Acc (flip child) root)
    (reach : ReflTransGen child root node) : Acc (flip child) node := by
  induction reach with
  | refl => exact ends
  | tail _ step ih => exact ih.inv step

theorem not_cycle_of_acc (ends : Acc (flip child) root) : ¬ TransGen child root root := by
  replace ends := ends.transGen
  induction ends with
  | intro node _ ih => exact fun cycle => ih node (transGen_swap.mpr cycle) cycle

/-- The descent ends just when no cycle is in reach. -/
theorem acc_iff_not_reachesCycle [Finite α] :
    Acc (flip child) root ↔ ¬ ReachesCycle child root := by
  constructor
  · rintro ends ⟨node, reach, cycle⟩
    exact not_cycle_of_acc (acc_of_reach ends reach) cycle
  · intro acyclic
    let below (lower upper : α) : Prop :=
      TransGen child upper lower ∧ ReflTransGen child root upper
    have transitive : IsTrans α below :=
      ⟨fun _ _ _ first second => ⟨second.1.trans first.1, second.2⟩⟩
    have irreflexive : Std.Irrefl below :=
      ⟨fun node self => acyclic ⟨node, self.2, self.1⟩⟩
    have wellFounded : WellFounded below := Finite.wellFounded_of_trans_of_irrefl below
    have descent : ∀ node, ReflTransGen child root node → Acc (flip child) node := by
      intro node
      induction node using wellFounded.induction with
      | h node ih =>
          intro reach
          exact Acc.intro node fun next step => ih next ⟨.single step, reach⟩ (reach.tail step)
    exact descent root .refl

end Syscore
