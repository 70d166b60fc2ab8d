import Syscore.Library.Descriptors
import Mathlib.Logic.Function.Basic

/-!
# Descriptors with a close-on-exec flag

`dup2` clears the flag of the copy and `exec` closes what is flagged. A process that opens pipes and
closes them again keeps account of where each end is; the table tracks that account.
-/

namespace Syscore

/-- What a descriptor refers to, and whether `exec` closes it. -/
structure Flagged (File : Type*) where
  file : File
  cloexec : Bool
  deriving DecidableEq

/-- An end of a pipe, named by a handle, or any other file. -/
inductive OpenFile (Handle : Type*)
  | other (name : ℕ)
  | pipeEnd (handle : Handle)
  deriving DecidableEq

/-- The ends of a pipe. -/
inductive Side
  | read
  | write
  deriving DecidableEq

namespace Descriptors

variable {File Handle : Type*}

/-- `dup2`: the copy survives `exec`; a descriptor is its own copy. -/
def duplicate (table : Descriptors (Flagged File)) (source target : ℕ) :
    Descriptors (Flagged File) :=
  match table.get source with
  | some entry =>
      if source = target then table else table.set target (some { entry with cloexec := false })
  | none => table

/-- What `exec` leaves open. -/
def exec (table : Descriptors (Flagged File)) : Descriptors (Flagged File) where
  entries := table.entries.map (Option.filter fun entry => !entry.cloexec)

/-- `pipe`: the two descriptors, the read end first. -/
def pipe (table : Descriptors (Flagged (OpenFile Handle))) (cloexec : Bool)
    (readEnd writeEnd : Handle) : (ℕ × ℕ) × Descriptors (Flagged (OpenFile Handle)) :=
  let first := table.openFile ⟨.pipeEnd readEnd, cloexec⟩
  let second := first.2.openFile ⟨.pipeEnd writeEnd, cloexec⟩
  ((first.1, second.1), second.2)

theorem get_duplicate {table : Descriptors (Flagged File)} {source target : ℕ}
    {entry : Flagged File} (opened : table.get source = some entry) (apart : source ≠ target)
    (fd : ℕ) :
    (table.duplicate source target).get fd =
      if fd = target then some { entry with cloexec := false } else table.get fd := by
  rw [duplicate, opened]
  dsimp only
  rw [if_neg apart, get_set]

theorem get_exec (table : Descriptors (Flagged File)) (fd : ℕ) :
    table.exec.get fd = (table.get fd).filter fun entry => !entry.cloexec := by
  rw [get, get, exec, List.getElem?_map]
  cases table.entries[fd]? with
  | none => rfl
  | some entry => rfl

theorem get_empty (fd : ℕ) : (⟨[]⟩ : Descriptors File).get fd = none :=
  rfl

theorem get_openFile (table : Descriptors File) (file : File) (fd : ℕ) :
    (table.openFile file).2.get fd = if fd = table.lowest then some file else table.get fd :=
  get_set table.lowest fd (some file)

/-- Whether some descriptor refers to an end. -/
def refers [DecidableEq Handle] (table : Descriptors (Flagged (OpenFile Handle)))
    (handle : Handle) : Bool :=
  table.entries.any fun entry => entry.any fun open' => open'.file = .pipeEnd handle

theorem refers_iff [DecidableEq Handle] {table : Descriptors (Flagged (OpenFile Handle))}
    {handle : Handle} :
    table.refers handle = true ↔ ∃ fd cloexec, table.get fd = some ⟨.pipeEnd handle, cloexec⟩ := by
  rw [refers, List.any_eq_true]
  constructor
  · rintro ⟨entry, inside, found⟩
    obtain ⟨fd, bound, rfl⟩ := List.mem_iff_getElem.mp inside
    obtain ⟨⟨file, cloexec⟩, here, same⟩ := (Option.any_eq_true _ _).mp found
    obtain rfl : file = .pipeEnd handle := by simpa using same
    exact ⟨fd, cloexec, by rw [get, List.getElem?_eq_getElem bound, Option.join_some, here]⟩
  · rintro ⟨fd, cloexec, opened⟩
    refine ⟨some ⟨.pipeEnd handle, cloexec⟩, ?_, by simp⟩
    exact List.mem_of_getElem? (Option.join_eq_some_iff.mp opened)

/-! ## Tracked tables -/

/-- The pipe ends in the table are those of the account, with one flag. -/
def Tracks (table : Descriptors (Flagged (OpenFile Handle))) (flag : Bool)
    (account : Handle → Option ℕ) : Prop :=
  ∀ fd handle cloexec, table.get fd = some ⟨.pipeEnd handle, cloexec⟩ ↔
    cloexec = flag ∧ account handle = some fd

namespace Tracks

variable {table : Descriptors (Flagged (OpenFile Handle))} {flag : Bool}
  {account : Handle → Option ℕ}

theorem get (tracks : table.Tracks flag account) {handle : Handle} {fd : ℕ}
    (recorded : account handle = some fd) : table.get fd = some ⟨.pipeEnd handle, flag⟩ :=
  (tracks fd handle flag).mpr ⟨rfl, recorded⟩

/-- Two ends are never at one descriptor. -/
theorem injective (tracks : table.Tracks flag account) {handle other : Handle} {fd : ℕ}
    (here : account handle = some fd) (there : account other = some fd) : handle = other := by
  have same := (tracks.get here).symm.trans (tracks.get there)
  injection same with same
  injection same with same
  injection same

/-- A descriptor on another file is not in the account. -/
theorem ne_of_other (tracks : table.Tracks flag account) {handle : Handle} {fd other name : ℕ}
    {cloexec : Bool} (recorded : account handle = some fd)
    (opened : table.get other = some ⟨.other name, cloexec⟩) : fd ≠ other := by
  rintro rfl
  rw [tracks.get recorded] at opened
  cases opened

/-- Opening an end that the process did not have. -/
theorem openEnd [DecidableEq Handle] (tracks : table.Tracks flag account) {handle : Handle}
    (absent : account handle = none) :
    (table.openFile ⟨.pipeEnd handle, flag⟩).2.Tracks flag
      (Function.update account handle (some table.lowest)) := by
  intro fd other cloexec
  have closed : ∀ end', account end' ≠ some table.lowest := by
    intro end' recorded
    have taken := tracks.get recorded
    rw [get_lowest] at taken
    cases taken
  rw [get_openFile, Function.update_apply]
  by_cases same : other = handle
  · subst same
    rw [if_pos rfl]
    by_cases here : fd = table.lowest
    · rw [if_pos here, here]
      simp [eq_comm]
    · have apart : some table.lowest ≠ some fd := fun equal => here (Option.some.inj equal).symm
      rw [if_neg here, tracks fd other cloexec, absent]
      simp [apart]
  · rw [if_neg same]
    by_cases here : fd = table.lowest
    · rw [if_pos here, here]
      have apart : handle ≠ other := Ne.symm same
      simp [apart, closed other]
    · rw [if_neg here, tracks fd other cloexec]

/-- Opening another file. -/
theorem openOther (tracks : table.Tracks flag account) (name : ℕ) (own : Bool) :
    (table.openFile ⟨.other name, own⟩).2.Tracks flag account := by
  intro fd handle cloexec
  rw [get_openFile]
  by_cases here : fd = table.lowest
  · have closed := (tracks fd handle cloexec).not.mp (by rw [here, get_lowest]; nofun)
    rw [if_pos here]
    simp only [closed, iff_false]
    nofun
  · rw [if_neg here, tracks fd handle cloexec]

/-- `pipe` records both ends. -/
theorem pipe [DecidableEq Handle] (tracks : table.Tracks flag account) {readEnd writeEnd : Handle}
    (noRead : account readEnd = none) (noWrite : account writeEnd = none)
    (apart : writeEnd ≠ readEnd) :
    (table.pipe flag readEnd writeEnd).2.Tracks flag
      (Function.update
        (Function.update account readEnd (some (table.pipe flag readEnd writeEnd).1.1))
        writeEnd (some (table.pipe flag readEnd writeEnd).1.2)) := by
  refine (tracks.openEnd noRead).openEnd ?_
  rw [Function.update_of_ne apart, noWrite]

/-- Closing an end. -/
theorem closeEnd [DecidableEq Handle] (tracks : table.Tracks flag account) {handle : Handle}
    {fd : ℕ} (recorded : account handle = some fd) :
    (table.close fd).Tracks flag (Function.update account handle none) := by
  intro other end' cloexec
  rw [get_close, Function.update_apply]
  by_cases same : end' = handle
  · subst same
    rw [if_pos rfl]
    by_cases here : other = fd
    · simp [here]
    · have apart : some fd ≠ some other := fun equal => here (Option.some.inj equal).symm
      rw [if_neg here, tracks other end' cloexec, recorded]
      simp [apart]
  · rw [if_neg same]
    by_cases here : other = fd
    · have apart : account end' ≠ some fd := fun found => same (tracks.injective found recorded)
      simp [here, apart]
    · rw [if_neg here, tracks other end' cloexec]

/-- Closing what is not an end. -/
theorem closeOther (tracks : table.Tracks flag account) {fd : ℕ}
    (other : ∀ handle, account handle ≠ some fd) : (table.close fd).Tracks flag account := by
  intro fd' handle cloexec
  rw [get_close]
  by_cases here : fd' = fd
  · rw [if_pos here, here]
    simp [other handle]
  · rw [if_neg here, tracks fd' handle cloexec]

/-- A table without pipes has an empty account. -/
theorem of_other (files : ∀ fd handle cloexec, table.get fd ≠ some ⟨.pipeEnd handle, cloexec⟩) :
    table.Tracks flag fun _ => none := by
  intro fd handle cloexec
  simp [files fd handle cloexec]

end Tracks

/-! ## Standard descriptors -/

/-- The standard descriptors are open, and not on pipes that the process made. -/
def Standard (table : Descriptors (Flagged (OpenFile Handle))) : Prop :=
  ∀ fd < 3, ∃ name cloexec, table.get fd = some ⟨.other name, cloexec⟩

variable {table : Descriptors (Flagged (OpenFile Handle))}

/-- A table with its standard descriptors open, and no pipes. -/
theorem standard_of_files (opened : ∀ fd < 3, table.get fd ≠ none)
    (files : ∀ fd handle cloexec, table.get fd ≠ some ⟨.pipeEnd handle, cloexec⟩) :
    table.Standard := by
  intro fd low
  cases here : table.get fd with
  | none => exact absurd here (opened fd low)
  | some entry =>
      obtain ⟨file, cloexec⟩ := entry
      cases file with
      | other name => exact ⟨name, cloexec, rfl⟩
      | pipeEnd handle => exact absurd here (files fd handle cloexec)

theorem Standard.lowest (standard : table.Standard) : 2 < table.lowest := by
  by_contra low
  obtain ⟨name, cloexec, opened⟩ := standard table.lowest (by omega)
  rw [get_lowest] at opened
  cases opened

theorem Standard.openFile (standard : table.Standard) (file : Flagged (OpenFile Handle)) :
    (table.openFile file).2.Standard := by
  intro fd low
  have apart : fd ≠ table.lowest := by
    have := standard.lowest
    omega
  rw [get_openFile, if_neg apart]
  exact standard fd low

theorem Standard.close (standard : table.Standard) {closed : ℕ} (high : 2 < closed) :
    (table.close closed).Standard := by
  intro fd low
  rw [get_close, if_neg (by omega)]
  exact standard fd low

/-- An end is not at a standard descriptor. -/
theorem Standard.high (standard : table.Standard) {flag : Bool} {account : Handle → Option ℕ}
    (tracks : table.Tracks flag account) {handle : Handle} {fd : ℕ}
    (recorded : account handle = some fd) : 2 < fd := by
  by_contra low
  obtain ⟨name, cloexec, opened⟩ := standard fd (by omega)
  exact tracks.ne_of_other recorded opened rfl

theorem Standard.pipe (standard : table.Standard) (cloexec : Bool) (readEnd writeEnd : Handle) :
    (table.pipe cloexec readEnd writeEnd).2.Standard :=
  (standard.openFile _).openFile _

theorem Standard.pipe_high (standard : table.Standard) (cloexec : Bool)
    (readEnd writeEnd : Handle) :
    2 < (table.pipe cloexec readEnd writeEnd).1.1 ∧
      2 < (table.pipe cloexec readEnd writeEnd).1.2 :=
  ⟨standard.lowest, (standard.openFile _).lowest⟩

/-- `pipe` takes descriptors that were closed. -/
theorem pipe_ne {fd : ℕ} {file : Flagged (OpenFile Handle)} (opened : table.get fd = some file)
    (cloexec : Bool) (readEnd writeEnd : Handle) :
    (table.pipe cloexec readEnd writeEnd).1.1 ≠ fd ∧
      (table.pipe cloexec readEnd writeEnd).1.2 ≠ fd := by
  have apart := ne_lowest opened
  have still : (table.openFile ⟨.pipeEnd readEnd, cloexec⟩).2.get fd = some file := by
    rw [get_openFile, if_neg apart, opened]
  exact ⟨apart.symm, (ne_lowest still).symm⟩

/-- The standard descriptors on a terminal, and nothing else. -/
def terminal : Descriptors (Flagged (OpenFile Handle)) where
  entries := List.replicate 3 (some ⟨.other 0, false⟩)

theorem terminal_standard (fd : ℕ) (low : fd < 3) :
    (terminal : Descriptors (Flagged (OpenFile Handle))).get fd ≠ none := by
  rw [get, terminal, List.getElem?_replicate, if_pos low]
  exact Option.some_ne_none _

theorem terminal_files (fd : ℕ) (handle : Handle) (cloexec : Bool) :
    terminal.get fd ≠ some ⟨.pipeEnd handle, cloexec⟩ := by
  rw [get, terminal, List.getElem?_replicate]
  split <;> simp

end Descriptors

end Syscore
