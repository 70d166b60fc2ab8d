import Mathlib.Data.List.Infix

/-!
# Runs of items

The maximal runs of the items of a list that are kept, as the scanners find them that collect a run
item by item and emit it at the first item that is not kept.
-/

namespace Syscore

variable {α β σ : Type*} {keep : α → Bool}

/-- The maximal runs of the items that are kept. -/
def runs (keep : α → Bool) (items : List α) : List (List α) :=
  (items.splitOnP fun item => !keep item).filter (· ≠ [])

theorem runs_nil : runs keep [] = [] := rfl

/-- The pieces of a split hold no separator. -/
theorem not_sep_of_mem_splitOnP {sep : α → Bool} {items piece : List α}
    (inside : piece ∈ items.splitOnP sep) : ∀ item ∈ piece, sep item = false := by
  induction items generalizing piece with
  | nil =>
      rw [List.splitOnP_nil, List.mem_singleton] at inside
      rw [inside]
      exact List.forall_mem_nil _
  | cons first items ih =>
      rw [List.splitOnP_cons_eq_if_modifyHead] at inside
      split at inside
      · rcases List.mem_cons.mp inside with rfl | later
        · exact List.forall_mem_nil _
        · exact ih later
      · rename_i kept
        obtain ⟨head, pieces, shape⟩ := List.exists_cons_of_ne_nil (List.splitOnP_ne_nil sep items)
        rw [shape, List.modifyHead_cons] at inside
        rcases List.mem_cons.mp inside with rfl | later
        · rw [List.forall_mem_cons]
          exact ⟨Bool.eq_false_iff.mpr kept, ih (by rw [shape]; exact List.mem_cons_self)⟩
        · exact ih (by rw [shape]; exact List.mem_cons_of_mem _ later)

/-- No run crosses an item that is not kept. -/
theorem runs_append_cons (left right : List α) {sep : α} (separates : keep sep = false) :
    runs keep (left ++ sep :: right) = runs keep left ++ runs keep right := by
  rw [runs, List.splitOnP_append_cons left right (by rw [separates]; rfl), List.filter_append]
  rfl

theorem runs_cons (items : List α) {sep : α} (separates : keep sep = false) :
    runs keep (sep :: items) = runs keep items :=
  runs_append_cons [] items separates

/-- A list can be cut in front of an item that is not kept. -/
theorem runs_append (left : List α) {right : List α}
    (boundary : ∀ item ∈ right.head?, keep item = false) :
    runs keep (left ++ right) = runs keep left ++ runs keep right := by
  cases right with
  | nil => rw [List.append_nil, runs_nil, List.append_nil]
  | cons sep right =>
      have separates : keep sep = false := boundary sep rfl
      rw [runs_append_cons left right separates, runs_cons right separates]

/-- Skipping items that are not kept loses no run. -/
theorem runs_dropWhile {skip : α → Bool} (gaps : ∀ item, skip item = true → keep item = false)
    (items : List α) : runs keep (items.dropWhile skip) = runs keep items := by
  induction items with
  | nil => rfl
  | cons item items ih =>
      rw [List.dropWhile_cons]
      split
      · rename_i skipped
        rw [ih, runs_cons items (gaps item skipped)]
      · rfl

/-- Kept items are one run. -/
theorem runs_eq_singleton {items : List α} (nonempty : items ≠ [])
    (kept : ∀ item ∈ items, keep item = true) : runs keep items = [items] := by
  have whole : items.splitOnP (fun item => !keep item) = [items] :=
    List.splitOnP_eq_singleton fun item inside => by rw [kept item inside]; rfl
  rw [runs, whole, List.filter_singleton, decide_eq_true nonempty]
  rfl

/-- The runs of pieces with a separator between them are those of the pieces. -/
theorem runs_intercalate {sep : α} (separates : keep sep = false) (pieces : List (List α)) :
    runs keep ([sep].intercalate pieces) = pieces.flatMap (runs keep) := by
  induction pieces with
  | nil => rfl
  | cons piece pieces ih =>
      cases pieces with
      | nil => rw [List.intercalate_singleton, List.flatMap_singleton]
      | cons next pieces =>
          rw [List.intercalate_cons_cons, List.append_assoc, List.singleton_append,
            runs_append_cons _ _ separates, ih]
          rfl

/-- A list is kept as a whole, or it has a first item that is not kept. -/
@[elab_as_elim]
theorem runs_induction (keep : α → Bool) {motive : List α → Prop}
    (whole : ∀ items, (∀ item ∈ items, keep item = true) → motive items)
    (cut : ∀ front sep items, (∀ item ∈ front, keep item = true) → keep sep = false →
      motive items → motive (front ++ sep :: items)) (items : List α) : motive items := by
  induction length : items.length using Nat.strong_induction_on generalizing items with
  | _ size ih =>
      have split : items.takeWhile keep ++ items.dropWhile keep = items :=
        List.takeWhile_append_dropWhile
      have front : ∀ item ∈ items.takeWhile keep, keep item = true :=
        List.all_eq_true.mp List.all_takeWhile
      have stopped := List.head?_dropWhile_not keep items
      cases rest : items.dropWhile keep with
      | nil =>
          rw [rest, List.append_nil] at split
          exact whole items (split ▸ front)
      | cons sep right =>
          rw [rest] at split stopped
          have separates : keep sep = false := stopped
          have shorter : right.length < size := by
            rw [← length, ← split, List.length_append, List.length_cons]
            omega
          rw [← split]
          exact cut _ sep right front separates (ih right.length shorter right rfl)

/-! ## What a run is -/

/-- A list of kept items has no other run than itself. -/
theorem mem_runs_of_kept {items run : List α} (kept : ∀ item ∈ items, keep item = true) :
    run ∈ runs keep items ↔ run ≠ [] ∧ run = items := by
  cases items with
  | nil =>
      rw [runs_nil]
      exact iff_of_false List.not_mem_nil fun both => both.1 both.2
  | cons first items =>
      rw [runs_eq_singleton (List.cons_ne_nil first items) kept, List.mem_singleton]
      exact ⟨fun same => ⟨same ▸ List.cons_ne_nil first items, same⟩, And.right⟩

/-- A run is a non-empty stretch of kept items with an item that is not kept, or an end of the list,
on each side. -/
theorem mem_runs_iff {items run : List α} :
    run ∈ runs keep items ↔ run ≠ [] ∧ (∀ item ∈ run, keep item = true) ∧
      ∃ left right, items = left ++ run ++ right ∧
        (∀ item ∈ left.getLast?, keep item = false) ∧
        ∀ item ∈ right.head?, keep item = false := by
  constructor
  · intro inside
    induction items using runs_induction keep with
    | whole items kept =>
        obtain ⟨nonempty, rfl⟩ := (mem_runs_of_kept kept).mp inside
        exact ⟨nonempty, kept, [], [], by simp, by simp, by simp⟩
    | cut front sep items kept separates ih =>
        rw [runs_append_cons front items separates] at inside
        rcases List.mem_append.mp inside with first | later
        · obtain ⟨nonempty, rfl⟩ := (mem_runs_of_kept kept).mp first
          refine ⟨nonempty, kept, [], sep :: items, rfl, by simp, fun item head => ?_⟩
          rw [← Option.some.inj head]
          exact separates
        · obtain ⟨nonempty, own, left, right, rfl, before, after⟩ := ih later
          refine ⟨nonempty, own, front ++ sep :: left, right, by simp, fun item last => ?_, after⟩
          cases left with
          | nil =>
              have same : sep = item := by simpa using last
              exact same ▸ separates
          | cons next left => exact before item (by simpa using last)
  · rintro ⟨nonempty, kept, left, right, rfl, before, after⟩
    have own : runs keep (run ++ right) = run :: runs keep right := by
      rw [runs_append run after, runs_eq_singleton nonempty kept, List.singleton_append]
    rcases List.eq_nil_or_concat left with rfl | ⟨left, last, rfl⟩
    · rw [List.nil_append, own]
      exact List.mem_cons_self
    · have separates : keep last = false := before last (by simp)
      rw [List.append_assoc, List.concat_eq_append, List.append_assoc, List.singleton_append,
        runs_append_cons _ _ separates, own]
      exact List.mem_append_right _ List.mem_cons_self

/-- The kept items of a list stand together just when they are one of its runs. -/
theorem filter_isInfix_iff {items : List α} (nonempty : items.filter keep ≠ []) :
    items.filter keep <:+: items ↔ items.filter keep ∈ runs keep items := by
  rw [mem_runs_iff]
  constructor
  · rintro ⟨left, right, around⟩
    -- no kept item is left for the two sides
    have own : (items.filter keep).filter keep = items.filter keep :=
      List.filter_eq_self.mpr fun item inside => (List.mem_filter.mp inside).2
    have sizes : ((left ++ items.filter keep ++ right).filter keep).length =
        (items.filter keep).length := by rw [around]
    rw [List.filter_append, List.filter_append, own, List.length_append, List.length_append]
      at sizes
    have none (side : List α) (empty : (side.filter keep).length = 0) :
        ∀ item ∈ side, keep item = false := fun item inside =>
      Bool.eq_false_iff.mpr fun kept =>
        List.not_mem_nil (List.length_eq_zero_iff.mp empty ▸ List.mem_filter.mpr ⟨inside, kept⟩)
    refine ⟨nonempty, fun item inside => (List.mem_filter.mp inside).2, left, right, around.symm,
      fun item last => ?_, fun item first => ?_⟩
    · exact none left (by omega) item (List.mem_of_getLast? last)
    · exact none right (by omega) item (List.mem_of_mem_head? first)
  · rintro ⟨_, _, left, right, around, _⟩
    exact ⟨left, right, around.symm⟩

/-- A run that is as long as the list has kept items is all of them. -/
theorem eq_filter_of_mem_runs {items run : List α} (inside : run ∈ runs keep items)
    (long : (items.filter keep).length ≤ run.length) : run = items.filter keep := by
  obtain ⟨_, kept, left, right, rfl, _⟩ := mem_runs_iff.mp inside
  have own : run.filter keep = run := List.filter_eq_self.mpr kept
  have part : run.Sublist (((left ++ run) ++ right).filter keep) := by
    rw [List.filter_append, List.filter_append, own]
    exact (List.sublist_append_right _ run).trans (List.sublist_append_left _ _)
  exact part.eq_of_length_le long

/-! ## Scanners -/

/-- One item of a scanner: the state and the current run. -/
def scanStep (keep : α → Bool) (f : α → β) (emit : σ → List β → σ) (state : σ × List β) (item : α) :
    σ × List β :=
  if keep item then (state.1, state.2 ++ [f item]) else (emit state.1 state.2, [])

variable (f : α → β) (emit : σ → List β → σ)

/-- Kept items make the current run longer. -/
theorem foldl_scanStep_kept {items : List α} (kept : ∀ item ∈ items, keep item = true) (out : σ)
    (cur : List β) :
    items.foldl (scanStep keep f emit) (out, cur) = (out, cur ++ items.map f) := by
  induction items generalizing cur with
  | nil => rw [List.foldl_nil, List.map_nil, List.append_nil]
  | cons item items ih =>
      obtain ⟨here, later⟩ := List.forall_mem_cons.mp kept
      rw [List.foldl_cons, scanStep, if_pos here, ih later, List.map_cons, List.append_assoc,
        List.singleton_append]

/-- A scanner emits the runs in order, the one at the end included. -/
theorem foldl_scanStep (keep : α → Bool) (skip : ∀ out, emit out [] = out) (items : List α)
    (out : σ) :
    emit (items.foldl (scanStep keep f emit) (out, [])).1
        (items.foldl (scanStep keep f emit) (out, [])).2 =
      ((runs keep items).map (List.map f)).foldl emit out := by
  -- an empty front is emitted without effect
  have own (items : List α) (kept : ∀ item ∈ items, keep item = true) (out : σ) :
      ((runs keep items).map (List.map f)).foldl emit out = emit out (items.map f) := by
    cases items with
    | nil => exact (skip out).symm
    | cons first items => rw [runs_eq_singleton (List.cons_ne_nil first items) kept]; rfl
  induction items using runs_induction keep generalizing out with
  | whole items kept => rw [foldl_scanStep_kept f emit kept, own items kept, List.nil_append]
  | cut front sep items kept separates ih =>
      have reset (cur : List β) : scanStep keep f emit (out, cur) sep = (emit out cur, []) := by
        rw [scanStep, if_neg (by rw [separates]; exact Bool.false_ne_true)]
      rw [List.foldl_append, foldl_scanStep_kept f emit kept, List.foldl_cons, reset, ih,
        runs_append_cons front items separates, List.map_append, List.foldl_append, own front kept,
        List.nil_append]

end Syscore
