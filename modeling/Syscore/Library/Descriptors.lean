import Mathlib.Data.List.Basic

/-!
# Descriptor tables

A table says which descriptors are open, and on what. `pipe` and `open` take the lowest closed
descriptors.
-/

namespace Syscore

/-- A descriptor table: an entry for each of the first descriptors; the others are closed. -/
structure Descriptors (File : Type*) where
  entries : List (Option File)

namespace Descriptors

variable {File : Type*} {table : Descriptors File}

/-- What a descriptor refers to. -/
def get (table : Descriptors File) (fd : ℕ) : Option File := table.entries[fd]?.join

/-- Make a descriptor refer to a file, or to nothing. -/
def set (table : Descriptors File) (fd : ℕ) (file : Option File) : Descriptors File where
  entries := (table.entries ++ List.replicate (fd + 1 - table.entries.length) none).set fd file

/-- The lowest closed descriptor. -/
def lowest (table : Descriptors File) : ℕ := table.entries.findIdx Option.isNone

/-- `open`: the lowest closed descriptor refers to the file. -/
def openFile (table : Descriptors File) (file : File) : ℕ × Descriptors File :=
  (table.lowest, table.set table.lowest (some file))

/-- `close`. -/
def close (table : Descriptors File) (fd : ℕ) : Descriptors File := table.set fd none

/-- `dup2`: nothing happens when the first descriptor is closed. -/
def dup2 (table : Descriptors File) (source target : ℕ) : Descriptors File :=
  match table.get source with
  | some file => table.set target (some file)
  | none => table

@[simp]
theorem get_set (fd other : ℕ) (file : Option File) :
    (table.set fd file).get other = if other = fd then file else table.get other := by
  have bound :
      fd < (table.entries ++ List.replicate (fd + 1 - table.entries.length) none).length := by
    rw [List.length_append, List.length_replicate]
    omega
  by_cases same : other = fd
  · rw [if_pos same, same, get, set, List.getElem?_set_self bound, Option.join_some]
  · rw [if_neg same, get, set, List.getElem?_set_ne (Ne.symm same), get, List.getElem?_append]
    split
    · rfl
    · rename_i outside
      rw [List.getElem?_replicate, List.getElem?_eq_none_iff.mpr (Nat.le_of_not_lt outside)]
      split <;> rfl

@[simp]
theorem get_close (fd other : ℕ) :
    (table.close fd).get other = if other = fd then none else table.get other :=
  get_set fd other none

theorem get_dup2 {source : ℕ} {file : File} (opened : table.get source = some file)
    (target other : ℕ) :
    (table.dup2 source target).get other =
      if other = target then some file else table.get other := by
  rw [dup2, opened]
  exact get_set target other (some file)

/-- The lowest closed descriptor is closed. -/
theorem get_lowest : table.get table.lowest = none := by
  rw [get, lowest]
  cases found : table.entries[table.entries.findIdx Option.isNone]? with
  | none => rfl
  | some entry =>
      obtain ⟨bound, rfl⟩ := List.getElem?_eq_some_iff.mp found
      have closed : table.entries[table.entries.findIdx Option.isNone].isNone = true :=
        List.findIdx_getElem
      rw [Option.join_some, Option.isNone_iff_eq_none.mp closed]

/-- No closed descriptor is below the lowest one. -/
theorem lowest_le {fd : ℕ} (closed : table.get fd = none) : table.lowest ≤ fd := by
  by_contra below
  have bound : fd < table.entries.findIdx Option.isNone := Nat.lt_of_not_le below
  have inside : fd < table.entries.length := Nat.lt_of_lt_of_le bound List.findIdx_le_length
  have opened : table.entries[fd].isNone = false := List.not_of_lt_findIdx bound
  rw [get, List.getElem?_eq_getElem inside, Option.join_some] at closed
  rw [closed] at opened
  cases opened

/-- A descriptor is closed when the table has just been asked for a closed one. -/
theorem ne_lowest {fd : ℕ} {file : File} (opened : table.get fd = some file) :
    fd ≠ table.lowest := by
  rintro rfl
  rw [get_lowest] at opened
  cases opened

/-- Some descriptor refers to the file. -/
def Opens (table : Descriptors File) (file : File) : Prop := some file ∈ table.entries

instance [DecidableEq File] (file : File) : Decidable (table.Opens file) :=
  inferInstanceAs (Decidable (_ ∈ _))

theorem opens_iff {file : File} : table.Opens file ↔ ∃ fd, table.get fd = some file := by
  rw [Opens, List.mem_iff_getElem?]
  simp only [get, Option.join_eq_some_iff]

/-! ## Tables that extend a table -/

/-- The table has the descriptors of the base, and some that are closed there. -/
structure Extends (base : Descriptors File) (added : List (ℕ × File)) (table : Descriptors File) :
    Prop where
  closed : ∀ entry ∈ added, base.get entry.1 = none
  get : ∀ fd, table.get fd = (added.lookup fd).or (base.get fd)

theorem lookup_cons_fd (fd other : ℕ) (file : File) (added : List (ℕ × File)) :
    ((other, file) :: added).lookup fd = if fd = other then some file else added.lookup fd := by
  rw [List.lookup_cons]
  by_cases same : fd = other
  · rw [if_pos same, beq_iff_eq.mpr same]
  · rw [if_neg same, beq_false_of_ne same]

theorem lookup_filter_fd (fd other : ℕ) (added : List (ℕ × File)) :
    (added.filter fun entry => entry.1 ≠ fd).lookup other =
      if other = fd then none else added.lookup other := by
  induction added with
  | nil => simp
  | cons entry added ih =>
      obtain ⟨key, file⟩ := entry
      rw [List.filter_cons]
      by_cases here : key = fd
      · rw [if_neg (by simpa using here), ih, lookup_cons_fd, here]
        by_cases same : other = fd
        · rw [if_pos same, if_pos same]
        · rw [if_neg same, if_neg same, if_neg same]
      · rw [if_pos (by simpa using here), lookup_cons_fd, lookup_cons_fd, ih]
        by_cases same : other = key
        · rw [if_pos same, if_pos same, if_neg (same.trans_ne here)]
        · rw [if_neg same, if_neg same]

namespace Extends

variable {base : Descriptors File} {added : List (ℕ × File)}

protected theorem refl (base : Descriptors File) : base.Extends [] base :=
  ⟨nofun, fun fd => by rw [List.lookup_nil, Option.none_or]⟩

/-- The same descriptors are open just when none has been added. -/
theorem same_open_iff (ok : base.Extends added table) :
    (∀ fd, table.get fd ≠ none ↔ base.get fd ≠ none) ↔ added = [] := by
  constructor
  · intro same
    cases added with
    | nil => rfl
    | cons entry added =>
        have opened : table.get entry.1 ≠ none := by
          rw [ok.get, lookup_cons_fd, if_pos rfl, Option.some_or]
          exact Option.some_ne_none entry.2
        exact absurd (ok.closed entry List.mem_cons_self) ((same entry.1).mp opened)
  · rintro rfl fd
    rw [ok.get, List.lookup_nil, Option.none_or]

theorem openFile (ok : base.Extends added table) (file : File) :
    base.Extends ((table.lowest, file) :: added) (table.openFile file).2 where
  closed entry inside := by
    rcases List.mem_cons.mp inside with rfl | old
    · have closed := (ok.get table.lowest).symm.trans get_lowest
      exact (Option.or_eq_none_iff.mp closed).2
    · exact ok.closed entry old
  get fd := by
    rw [Descriptors.openFile, get_set, lookup_cons_fd, ok.get]
    split <;> rfl

/-- Closing a descriptor that is not the base's. -/
theorem close (ok : base.Extends added table) {fd : ℕ} (closed : base.get fd = none) :
    base.Extends (added.filter fun entry => entry.1 ≠ fd) (table.close fd) where
  closed entry inside := ok.closed entry (List.mem_filter.mp inside).1
  get other := by
    rw [get_close, lookup_filter_fd, ok.get]
    by_cases same : other = fd
    · rw [if_pos same, if_pos same, same, closed, Option.none_or]
    · rw [if_neg same, if_neg same]

/-- Replacing a descriptor of the base. -/
theorem dup2 (ok : base.Extends added table) {source target : ℕ} {file : File}
    (opened : base.get target ≠ none) (found : table.get source = some file) :
    (base.set target (some file)).Extends added (table.dup2 source target) where
  closed entry inside := by
    have closed := ok.closed entry inside
    have apart : entry.1 ≠ target := by
      rintro rfl
      exact opened closed
    rw [get_set, if_neg apart, closed]
  get fd := by
    rw [get_dup2 found, get_set, ok.get]
    by_cases same : fd = target
    · have absent : added.lookup fd = none := by
        refine List.lookup_eq_none_iff.mpr fun entry inside => bne_iff_ne.mpr fun equal => ?_
        exact opened (same ▸ equal ▸ ok.closed entry inside)
      rw [if_pos same, if_pos same, absent, Option.none_or]
    · rw [if_neg same, if_neg same]

end Extends

end Descriptors

end Syscore
