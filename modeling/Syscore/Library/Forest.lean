import Mathlib.Data.List.Lex
import Mathlib.Order.Defs.LinearOrder

/-!
# Forests

Labelled forests with a first child and a next sibling, as document parsers build them, and the walk
that enters the children of some nodes only. A node is known by its address: the position among its
siblings for each level, from the top. The walk meets the nodes in the order of their addresses.
-/

namespace Syscore

/-- A list of siblings: the first one with its children, and those after it. -/
inductive Forest (α : Type*) where
  | nil
  | node (label : α) (children next : Forest α)

namespace Forest

variable {α β σ : Type*}

/-- The label of a node and its children. -/
def get? : Forest α → List ℕ → Option (α × Forest α)
  | nil, _ | node _ _ _, [] => none
  | node label children _, [0] => some (label, children)
  | node _ children _, 0 :: index :: address => children.get? (index :: address)
  | node _ _ next, (index + 1) :: address => next.get? (index :: address)

/-- The siblings at the top, with their children. -/
def siblings : Forest α → List (α × Forest α)
  | nil => []
  | node label children next => (label, children) :: next.siblings

/-- A walk from sibling to sibling: what a node gives is taken before what its children give, and
the children of a node are passed over unless it is entered. -/
def walk (enters : α → Bool) (gives : α → Forest α → Option β) (take : σ → β → σ) :
    Forest α → σ → σ
  | nil, out => out
  | node label children next, out =>
      let out := match gives label children with
        | some given => take out given
        | none => out
      let out := if enters label then children.walk enters gives take out else out
      next.walk enters gives take out

/-- The address of the next sibling. -/
def shift : List ℕ → List ℕ
  | [] => []
  | index :: address => (index + 1) :: address

/-- A node with its address. -/
abbrev Place (α : Type*) : Type _ := List ℕ × α × Forest α

/-- The nodes that a walk meets. -/
def visited (enters : α → Bool) : Forest α → List (Place α)
  | nil => []
  | node label children next =>
      ([0], label, children) ::
        ((if enters label then (children.visited enters).map (Prod.map (0 :: ·) id) else []) ++
          (next.visited enters).map (Prod.map shift id))

variable {enters : α → Bool}

/-- A walk takes what the nodes give that it meets. -/
theorem walk_eq_foldl (gives : α → Forest α → Option β) (take : σ → β → σ) (forest : Forest α)
    (out : σ) :
    forest.walk enters gives take out =
      ((forest.visited enters).filterMap fun place => gives place.2.1 place.2.2).foldl
        take out := by
  rw [List.foldl_filterMap]
  induction forest generalizing out with
  | nil => rfl
  | node label children next first rest =>
      have within (outside : σ) :
          (if enters label then children.walk enters gives take outside else outside) =
            (if enters label then (children.visited enters).map (Prod.map (0 :: ·) id)
              else []).foldl (fun out place => match gives place.2.1 place.2.2 with
                | some given => take out given
                | none => out) outside := by
        split
        · rw [first, List.foldl_map]
          rfl
        · rfl
      rw [walk, visited, rest, within, List.foldl_cons, List.foldl_append, List.foldl_map]
      rfl

/-! ## Addresses -/

theorem address_ne_nil {forest : Forest α} {place : Place α}
    (met : place ∈ forest.visited enters) : place.1 ≠ [] := by
  induction forest generalizing place with
  | nil => cases met
  | node label children next first rest =>
      rw [visited, List.mem_cons, List.mem_append] at met
      rcases met with rfl | within | later
      · exact List.cons_ne_nil _ _
      · split at within
        · obtain ⟨inner, _, rfl⟩ := List.mem_map.mp within
          exact List.cons_ne_nil _ _
        · cases within
      · obtain ⟨other, found, rfl⟩ := List.mem_map.mp later
        have nonempty := rest found
        rcases other with ⟨_ | ⟨index, address⟩, content⟩
        · exact absurd rfl nonempty
        · exact List.cons_ne_nil _ _

/-- Above a node there are nodes at every level. -/
theorem get?_take {forest : Forest α} {address : List ℕ} {place : α × Forest α}
    (here : forest.get? address = some place) {depth : ℕ} (positive : 0 < depth)
    (below : depth ≤ address.length) : ∃ above, forest.get? (address.take depth) = some above := by
  induction forest generalizing address depth with
  | nil => cases here
  | node label children next first rest =>
      obtain ⟨depth, rfl⟩ := Nat.exists_eq_succ_of_ne_zero positive.ne'
      match address with
      | [] => cases here
      | 0 :: address =>
          cases depth with
          | zero => exact ⟨(label, children), rfl⟩
          | succ depth =>
              have inner : 0 < address.length := by
                rw [List.length_cons] at below
                omega
              obtain ⟨index, address, rfl⟩ := List.exists_cons_of_length_pos inner
              have deeper : children.get? (index :: address) = some place := here
              exact first deeper (Nat.succ_pos depth) (Nat.le_of_succ_le_succ below)
      | (index + 1) :: address =>
          have later : next.get? (index :: address) = some place := here
          exact rest later (Nat.succ_pos depth) below

/-- Every node above the address is entered. -/
def Entered (enters : α → Bool) (forest : Forest α) (address : List ℕ) : Prop :=
  ∀ depth, 0 < depth → depth < address.length →
    (forest.get? (address.take depth)).any (fun place => enters place.1) = true

theorem entered_top (forest : Forest α) (index : ℕ) : Entered enters forest [index] := by
  intro depth positive below
  rw [List.length_singleton] at below
  omega

/-- Above a node among the children there are their parent and the nodes above it there. -/
theorem entered_children {label : α} {children next : Forest α} {index : ℕ} {address : List ℕ} :
    Entered enters (node label children next) (0 :: index :: address) ↔
      enters label = true ∧ Entered enters children (index :: address) := by
  constructor
  · intro entered
    refine ⟨entered 1 Nat.one_pos (by simp), fun depth positive below => ?_⟩
    obtain ⟨depth, rfl⟩ := Nat.exists_eq_succ_of_ne_zero positive.ne'
    exact entered (depth + 2) (Nat.succ_pos _) (Nat.succ_lt_succ below)
  · rintro ⟨parent, entered⟩ depth positive below
    rcases depth with _ | _ | depth
    · exact absurd positive (lt_irrefl 0)
    · exact parent
    · exact entered (depth + 1) (Nat.succ_pos _) (Nat.lt_of_succ_lt_succ below)

/-- Nothing else is above a node of the later siblings. -/
theorem entered_next {label : α} {children next : Forest α} {index : ℕ} {address : List ℕ} :
    Entered enters (node label children next) ((index + 1) :: address) ↔
      Entered enters next (index :: address) := by
  constructor <;>
  · intro entered depth positive below
    obtain ⟨depth, rfl⟩ := Nat.exists_eq_succ_of_ne_zero positive.ne'
    exact entered (depth + 1) positive below

/-- A walk meets the nodes whose ancestors are all entered. -/
theorem mem_visited_iff {forest : Forest α} {place : Place α} :
    place ∈ forest.visited enters ↔
      forest.get? place.1 = some place.2 ∧ Entered enters forest place.1 := by
  induction forest generalizing place with
  | nil =>
      refine iff_of_false List.not_mem_nil ?_
      rintro ⟨nowhere, _⟩
      cases nowhere
  | node label children next first rest =>
      obtain ⟨address, content⟩ := place
      have inner (path : List ℕ) : (path, content) ∈ (if enters label then
          (children.visited enters).map (Prod.map (0 :: ·) id) else []) ↔
            enters label = true ∧ ∃ tail, path = 0 :: tail ∧
              (tail, content) ∈ children.visited enters := by
        split
        · rename_i parent
          rw [List.mem_map, and_iff_right parent]
          constructor
          · rintro ⟨⟨tail, inside⟩, found, same⟩
            obtain ⟨rfl, rfl⟩ := Prod.mk.inj same
            exact ⟨tail, rfl, found⟩
          · rintro ⟨tail, rfl, found⟩
            exact ⟨(tail, content), found, rfl⟩
        · rename_i closed
          exact iff_of_false List.not_mem_nil fun met => closed met.1
      have later (path : List ℕ) : (path, content) ∈ (next.visited enters).map (Prod.map shift id) ↔
          ∃ index tail, path = (index + 1) :: tail ∧
            (index :: tail, content) ∈ next.visited enters := by
        rw [List.mem_map]
        constructor
        · rintro ⟨⟨tail, inside⟩, found, same⟩
          obtain ⟨rfl, rfl⟩ := Prod.mk.inj same
          cases tail with
          | nil => exact absurd rfl (address_ne_nil found)
          | cons index tail => exact ⟨index, tail, rfl, found⟩
        · rintro ⟨index, tail, rfl, found⟩
          exact ⟨(index :: tail, content), found, rfl⟩
      rw [visited, List.mem_cons, List.mem_append, inner, later]
      match address with
      | [] =>
          constructor
          · rintro (same | ⟨_, _, same, _⟩ | ⟨_, _, same, _⟩) <;> cases same
          · rintro ⟨nowhere, _⟩
            cases nowhere
      | [0] =>
          constructor
          · rintro (same | ⟨_, tail, same, found⟩ | ⟨_, _, same, _⟩)
            · exact ⟨congrArg some (Prod.mk.inj same).2.symm, entered_top _ 0⟩
            · cases same
              exact absurd rfl (address_ne_nil found)
            · cases same
          · rintro ⟨here, _⟩
            exact .inl (congrArg (Prod.mk [0]) (Option.some.inj here).symm)
      | 0 :: index :: tail =>
          rw [entered_children, show (node label children next).get? (0 :: index :: tail) =
            children.get? (index :: tail) from rfl]
          constructor
          · rintro (same | ⟨parent, _, same, found⟩ | ⟨_, _, same, _⟩)
            · cases same
            · cases same
              obtain ⟨here, entered⟩ := first.mp found
              exact ⟨here, parent, entered⟩
            · cases same
          · rintro ⟨here, parent, entered⟩
            exact .inr (.inl ⟨parent, _, rfl, first.mpr ⟨here, entered⟩⟩)
      | (index + 1) :: tail =>
          rw [entered_next, show (node label children next).get? ((index + 1) :: tail) =
            next.get? (index :: tail) from rfl]
          constructor
          · rintro (same | ⟨_, _, same, _⟩ | ⟨_, _, same, found⟩)
            · cases same
            · cases same
            · cases same
              exact rest.mp found
          · exact fun met => .inr (.inr ⟨_, _, rfl, rest.mpr met⟩)

/-! ## Order -/

theorem shift_lt_shift {a b : List ℕ} (less : a < b) : shift a < shift b := by
  match a, b with
  | [], [] => exact absurd less (lt_irrefl _)
  | [], index :: address => exact List.nil_lt_cons _ _
  | index :: address, [] => exact absurd less (List.not_lt_nil _)
  | index :: address, other :: rest =>
      rw [List.cons_lt_cons_iff] at less
      rw [shift, shift, List.cons_lt_cons_iff]
      exact less.imp Nat.succ_lt_succ (And.imp_left (congrArg Nat.succ))

/-- A walk meets the nodes in the order of their addresses, each one once. -/
theorem pairwise_visited (enters : α → Bool) (forest : Forest α) :
    (forest.visited enters).Pairwise fun a b => a.1 < b.1 := by
  induction forest with
  | nil => exact List.Pairwise.nil
  | node label children next first rest =>
      have head (place : Place α) (within : place ∈ (if enters label then
          (children.visited enters).map (Prod.map (0 :: ·) id) else [])) :
            ∃ tail, place.1 = 0 :: tail ∧ tail ≠ [] := by
        split at within
        · obtain ⟨inner, found, rfl⟩ := List.mem_map.mp within
          exact ⟨inner.1, rfl, address_ne_nil found⟩
        · cases within
      have behind (place : Place α)
          (later : place ∈ (next.visited enters).map (Prod.map shift id)) :
            ∃ index tail, place.1 = (index + 1) :: tail := by
        obtain ⟨⟨address, content⟩, found, rfl⟩ := List.mem_map.mp later
        cases address with
        | nil => exact absurd rfl (address_ne_nil found)
        | cons index tail => exact ⟨index, tail, rfl⟩
      rw [visited, List.pairwise_cons, List.pairwise_append]
      refine ⟨fun place met => ?_, ?_, ?_, fun inner within outer later => ?_⟩
      · rcases List.mem_append.mp met with within | later
        · obtain ⟨tail, address, nonempty⟩ := head place within
          obtain ⟨index, rest, rfl⟩ := List.exists_cons_of_ne_nil nonempty
          rw [address, List.cons_lt_cons_iff]
          exact .inr ⟨rfl, List.nil_lt_cons _ _⟩
        · obtain ⟨index, tail, address⟩ := behind place later
          rw [address, List.cons_lt_cons_iff]
          exact .inl (Nat.succ_pos index)
      · split
        · rw [List.pairwise_map]
          refine first.imp fun less => ?_
          exact List.cons_lt_cons_iff.mpr (.inr ⟨rfl, less⟩)
        · exact List.Pairwise.nil
      · rw [List.pairwise_map]
        exact rest.imp shift_lt_shift
      · obtain ⟨tail, address, _⟩ := head inner within
        obtain ⟨index, rest, address'⟩ := behind outer later
        rw [address, address', List.cons_lt_cons_iff]
        exact .inl (Nat.succ_pos index)

/-! ## What a walk takes -/

/-- What the nodes give that a walk meets, each with its address. -/
def listing (enters : α → Bool) (gives : α → Forest α → Option β) (forest : Forest α) :
    List (List ℕ × β) :=
  (forest.visited enters).filterMap fun place => (gives place.2.1 place.2.2).map (Prod.mk place.1)

variable {gives : α → Forest α → Option β}

/-- The listing is what a walk takes, in that order. -/
theorem walk_eq (take : σ → β → σ) (forest : Forest α) (out : σ) :
    forest.walk enters gives take out =
      ((forest.listing enters gives).map Prod.snd).foldl take out := by
  rw [walk_eq_foldl, listing, List.map_filterMap]
  congr 2
  funext place
  rw [Option.map_map]
  exact (Option.map_id' (x := gives place.2.1 place.2.2)).symm

/-- It holds what the nodes give whose ancestors are all entered. -/
theorem mem_listing_iff {forest : Forest α} {address : List ℕ} {given : β} :
    (address, given) ∈ forest.listing enters gives ↔ ∃ label children,
      forest.get? address = some (label, children) ∧ gives label children = some given ∧
        Entered enters forest address := by
  rw [listing, List.mem_filterMap]
  constructor
  · rintro ⟨⟨path, label, children⟩, met, taken⟩
    obtain ⟨found, inside, same⟩ := Option.map_eq_some_iff.mp taken
    obtain ⟨rfl, rfl⟩ := Prod.mk.inj same
    obtain ⟨here, entered⟩ := mem_visited_iff.mp met
    exact ⟨label, children, here, inside, entered⟩
  · rintro ⟨label, children, here, inside, entered⟩
    refine ⟨(address, label, children), mem_visited_iff.mpr ⟨here, entered⟩, ?_⟩
    exact Option.map_eq_some_iff.mpr ⟨given, inside, rfl⟩

/-- It is in the order of the addresses. -/
theorem pairwise_listing (forest : Forest α) :
    (forest.listing enters gives).Pairwise fun a b => a.1 < b.1 := by
  rw [listing, List.pairwise_filterMap]
  refine (pairwise_visited enters forest).imp fun {a b} less c here d there => ?_
  obtain ⟨_, _, rfl⟩ := Option.map_eq_some_iff.mp here
  obtain ⟨_, _, rfl⟩ := Option.map_eq_some_iff.mp there
  exact less

end Forest
end Syscore
