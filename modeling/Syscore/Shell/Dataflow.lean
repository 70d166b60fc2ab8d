import Syscore.Library.Chain
import Syscore.Shell.Pipeline

/-!
# The programs of a pipeline

The launch of a pipeline together with the programs that its children run. A program reads what its
descriptor 0 refers to and writes what its descriptor 1 refers to. Who has an end of a pipe open is
read off the descriptor tables of the shell and of the live children: a `read` of an empty pipe
waits while some process has a write end, and a `write` to a pipe without read ends kills the
writer. So every stage comes to its end only because the shell and the children close what they do
not use.
-/

namespace Syscore
namespace Shell

variable {σ : Type*}

/-- The process has not ended. -/
def ChildPc.live : ChildPc → Bool
  | .exited _ => false
  | _ => true

/-- Some process has the file open. -/
def Launch.Held (state : Launch) (file : File) : Prop :=
  state.fds.Opens file ∨ ∃ child ∈ state.children, child.pc.live = true ∧ child.fds.Opens file

instance (state : Launch) (file : File) : Decidable (state.Held file) :=
  inferInstanceAs (Decidable (_ ∨ _))

/-- A program, with the bytes of the write that it is in. -/
structure Program (σ : Type*) where
  code : σ
  pending : Text := []

/-- The program after the kernel has moved bytes of its write. -/
def Program.wrote (program : Program σ) (count : ℕ) : Program σ :=
  { program with pending := program.pending.drop count }

/-- A launch, the programs of its stages, and what they read and write. -/
structure Execution (σ : Type*) where
  launch : Launch
  /-- The program of each stage. -/
  programs : ℕ → Program σ
  /-- What each pipe holds. -/
  buffers : ℕ → Text
  /-- What is left to read outside. -/
  source : Text
  /-- What has been written outside. -/
  sink : Text

/-- Who moves. -/
inductive ExecutionLabel
  | launch (label : LaunchLabel)
  /-- The program of a stage, for which the kernel moves so many bytes. -/
  | program (i count : ℕ)

namespace Execution

def setProgram (state : Execution σ) (i : ℕ) (program : Program σ) : Execution σ :=
  { state with programs := Function.update state.programs i program }

def setBuffer (state : Execution σ) (pipe : ℕ) (text : Text) : Execution σ :=
  { state with buffers := Function.update state.buffers pipe text }

def setSource (state : Execution σ) (text : Text) : Execution σ := { state with source := text }

def setSink (state : Execution σ) (text : Text) : Execution σ := { state with sink := text }

/-- The program ends, by itself or by `SIGPIPE`. -/
def ends (state : Execution σ) (i : ℕ) (child : Child) : Execution σ :=
  { state with
    launch := { state.launch with children := state.launch.children.set i child.die } }

/-- `read` from descriptor 0, with what follows. -/
def readStep (state : Execution σ) (i count : ℕ) (next : Text → σ) :
    Option File → Option (Execution σ)
  | some (.readEnd pipe) =>
      if state.buffers pipe = [] then
        if state.launch.Held (.writeEnd pipe) then none
        else some (state.setProgram i { code := next [] })
      else if 0 < count ∧ count ≤ (state.buffers pipe).length then
        some ((state.setProgram i { code := next ((state.buffers pipe).take count) }).setBuffer pipe
          ((state.buffers pipe).drop count))
      else
        none
  | some (.outer _) | some (.input _) =>
      if state.source = [] then some (state.setProgram i { code := next [] })
      else if 0 < count ∧ count ≤ state.source.length then
        some ((state.setProgram i { code := next (state.source.take count) }).setSource
          (state.source.drop count))
      else
        none
  | some (.writeEnd _) | some (.output _) | none => none

/-- The kernel moves bytes of a `write` to descriptor 1. -/
def writeStep (capacity : ℕ) (state : Execution σ) (i count : ℕ) (child : Child) :
    Option File → Option (Execution σ)
  | some (.writeEnd pipe) =>
      if state.launch.Held (.readEnd pipe) then
        if 0 < count ∧ count ≤ (state.programs i).pending.length ∧
            (state.buffers pipe).length + count ≤ capacity then
          some ((state.setProgram i ((state.programs i).wrote count)).setBuffer pipe
            (state.buffers pipe ++ (state.programs i).pending.take count))
        else
          none
      else
        some (state.ends i child)
  | some (.outer _) | some (.output _) =>
      if 0 < count ∧ count ≤ (state.programs i).pending.length then
        some ((state.setProgram i ((state.programs i).wrote count)).setSink
          (state.sink ++ (state.programs i).pending.take count))
      else
        none
  | some (.readEnd _) | some (.input _) | none => none

/-- The next action of a stage in its program. -/
def programStep (act : σ → FilterAct UInt8 σ) (capacity : ℕ) (state : Execution σ)
    (i count : ℕ) (child : Child) : Option (Execution σ) :=
  if (state.programs i).pending = [] then
    match act (state.programs i).code with
    | .exit => some (state.ends i child)
    | .write bytes next => some (state.setProgram i { code := next, pending := bytes })
    | .read next => state.readStep i count next (child.fds.get 0)
  else
    state.writeStep capacity i count child (child.fds.get 1)

def step (act : σ → FilterAct UInt8 σ) (capacity : ℕ) (setting : Setting) (state : Execution σ) :
    ExecutionLabel → Option (Execution σ)
  | .launch label =>
      (Launch.step setting state.launch label).map fun launch => { state with launch }
  | .program i count =>
      match state.launch.children[i]? with
      | some child =>
          if child.pc = .program then state.programStep act capacity i count child else none
      | none => none

/-- The launch is done and every stage has ended. -/
def Over (state : Execution σ) : Prop :=
  (∃ num, state.launch.pc = .launched num) ∧
    ∀ child ∈ state.launch.children, child.pc.live = false

end Execution

/-- A pipeline whose programs `execvp` finds by their argument vectors, over this source. -/
def execution (act : σ → FilterAct UInt8 σ) (load : List Text → σ) (capacity : ℕ)
    (setting : Setting) (source : Text) : Machine (Execution σ) ExecutionLabel where
  start state := ∃ others, state =
    { launch := .start setting others
      programs := fun i => { code := load (setting.p.commands.getD i []) }
      buffers := fun _ => []
      source
      sink := [] }
  step := Execution.step act capacity setting

/-- No system call fails, and no child is killed from outside. -/
def LaunchLabel.Works : LaunchLabel → Prop
  | .pipeFails | .forkFails | .dies _ => False
  | .shell | .fork _ | .child _ | .others _ => True

/-- The launch works; programs do as they like. -/
def Working : Discipline (Execution σ) ExecutionLabel
  | _, .launch label => label.Works
  | _, .program _ _ => True

/-- The launch works and the rest of the system stands still. -/
def Alone : Discipline (Execution σ) ExecutionLabel
  | _, .launch label => label.Works ∧ ∀ processes, label ≠ .others processes
  | _, .program _ _ => True

theorem working_of_alone (state : Execution σ) (label : ExecutionLabel)
    (alone : Alone state label) : Working state label := by
  cases label with
  | launch label => exact alone.1
  | program i count => trivial

variable {setting : Setting} {state : Launch}

/-- The shell's own input and output are no pipes of its own. -/
def Setting.Outside (setting : Setting) : Prop :=
  ∀ fd < 2, ∃ id, setting.fds.get fd = some (.outer id)

/-! ## Who holds the ends of a pipe -/

section Ends

variable {i : ℕ} {prevRead : Option ℕ} {pfd : Option (ℕ × ℕ)} {fds : Descriptors File}
  (frameOk : FrameOk setting i prevRead pfd)
  (ok : setting.fds.Extends (setting.pfdEnds i pfd ++ setting.prevEnds i prevRead) fds)

include frameOk ok in
theorem opens_prevRead (later : i ≠ 0) : fds.Opens (.readEnd (setting.pipe (i - 1))) := by
  rw [Descriptors.opens_iff]
  cases prevRead with
  | none => exact absurd (frameOk.first.mp rfl) later
  | some fd =>
      refine ⟨fd, ?_⟩
      rw [ok.get]
      cases pfd with
      | none => simp [Setting.pfdEnds, Setting.prevEnds]
      | some ends =>
          obtain ⟨-, notRead, notWrite⟩ := frameOk.apart _ _ rfl
          have notRead : fd ≠ ends.1 := fun same => notRead (congrArg some same)
          have notWrite : fd ≠ ends.2 := fun same => notWrite (congrArg some same)
          simp [Setting.pfdEnds, Setting.prevEnds, Descriptors.lookup_cons_fd, notRead, notWrite]

include frameOk ok in
theorem opens_pfd (next : i + 1 < setting.n) :
    fds.Opens (.readEnd (setting.pipe i)) ∧ fds.Opens (.writeEnd (setting.pipe i)) := by
  simp only [Descriptors.opens_iff]
  cases pfd with
  | none => exact absurd next (frameOk.last.mp rfl)
  | some ends =>
      have distinct := (frameOk.apart _ _ rfl).1
      refine ⟨⟨ends.1, ?_⟩, ends.2, ?_⟩
      · rw [ok.get, Setting.pfdEnds, List.cons_append, Descriptors.lookup_cons_fd,
          if_neg distinct, List.cons_append, Descriptors.lookup_cons_fd, if_pos rfl, Option.some_or]
      · rw [ok.get, Setting.pfdEnds, List.cons_append, Descriptors.lookup_cons_fd, if_pos rfl,
          Option.some_or]

end Ends

theorem opens_of_extends {table fds : Descriptors File} {file : File}
    (ok : table.Extends [] fds) (fd : ℕ) (found : table.get fd = some file) : fds.Opens file := by
  rw [Descriptors.opens_iff]
  exact ⟨fd, by rw [ok.get, List.lookup_nil, Option.none_or, found]⟩

/-- A stage that is not the last keeps the write end of its pipe. -/
theorem opens_writeEnd {child : Child} (ok : ChildOk setting child)
    (live : child.pc.live = true) (next : child.frame.i + 1 < setting.n) :
    child.fds.Opens (.writeEnd (setting.pipe child.frame.i)) := by
  have piped : (setting.piped child.frame.i).get 1 =
      some (.writeEnd (setting.pipe child.frame.i)) := by
    rw [Setting.piped, if_pos next, Descriptors.get_set, if_pos rfl]
  unfold ChildOk at ok
  cases position : child.pc with
  | setpgid | pipes =>
      rw [position] at ok
      exact (opens_pfd ok.1 ok.2 next).2
  | input =>
      rw [position] at ok
      exact opens_of_extends ok _ piped
  | output =>
      rw [position] at ok
      refine opens_of_extends ok 1 ?_
      unfold Setting.fed
      split
      · rw [Descriptors.get_set, if_neg one_ne_zero, piped]
      · exact piped
  | execvp | program =>
      rw [position] at ok
      have wired : (setting.wired child.frame.i).get 1 =
          some (.writeEnd (setting.pipe child.frame.i)) :=
        (get_wired_one (Nat.lt_of_succ_lt next)).trans (if_neg next.ne)
      exact opens_of_extends ok _ wired
  | exited =>
      rw [position] at live
      cases live

/-- A stage that is not the first keeps the read end of the pipe before it. -/
theorem opens_readEnd {child : Child} (ok : ChildOk setting child)
    (live : child.pc.live = true) (later : child.frame.i ≠ 0) :
    child.fds.Opens (.readEnd (setting.pipe (child.frame.i - 1))) := by
  have piped : (setting.piped child.frame.i).get 0 =
      some (.readEnd (setting.pipe (child.frame.i - 1))) := by
    have joined : (setting.joined child.frame.i).get 0 =
        some (.readEnd (setting.pipe (child.frame.i - 1))) := by
      rw [Setting.joined, if_neg later, Descriptors.get_set, if_pos rfl]
    unfold Setting.piped
    split
    · rw [Descriptors.get_set, if_neg zero_ne_one, joined]
    · exact joined
  unfold ChildOk at ok
  cases position : child.pc with
  | setpgid | pipes =>
      rw [position] at ok
      exact opens_prevRead ok.1 ok.2 later
  | input =>
      rw [position] at ok
      exact opens_of_extends ok _ piped
  | output =>
      rw [position] at ok
      refine opens_of_extends ok 0 ?_
      rw [Setting.fed, if_neg fun reads => later reads.1, piped]
  | execvp | program =>
      rw [position] at ok
      have wired := get_wired_zero setting child.frame.i
      rw [if_neg later] at wired
      exact opens_of_extends ok _ wired
  | exited =>
      rw [position] at live
      cases live

/-- The stage has not ended: it runs, or it is still to be forked. -/
def Launch.alive (state : Launch) (i : ℕ) : Bool :=
  state.children[i]?.all fun child => child.pc.live

/-- While a stage is to write, somebody holds the write end of its pipe. -/
theorem held_writeEnd (wired : Wired setting state) (grouped : Grouped setting state) {i : ℕ}
    (next : i + 1 < setting.n) (forked : i < state.children.length)
    (alive : state.alive i = true) : state.Held (.writeEnd (setting.pipe i)) := by
  have here := List.getElem?_eq_getElem forked
  have inside := List.getElem_mem forked
  have place := (grouped.frame i _ here).1
  rw [Launch.alive, here] at alive
  refine .inr ⟨_, inside, alive, ?_⟩
  have opened := opens_writeEnd (wired.child _ inside) alive (by rwa [place])
  rwa [place] at opened

/-- While a stage is to read, somebody holds the read end of the pipe before it: the shell, until it
has forked the stage. -/
theorem held_readEnd (wired : Wired setting state) (grouped : Grouped setting state)
    (running : state.pc ≠ .returned) {i : ℕ} (next : i + 1 < setting.n)
    (forked : i < state.children.length) (alive : state.alive (i + 1) = true) :
    state.Held (.readEnd (setting.pipe i)) := by
  by_cases reader : i + 1 < state.children.length
  · have here := List.getElem?_eq_getElem reader
    have inside := List.getElem_mem reader
    have place := (grouped.frame (i + 1) _ here).1
    rw [Launch.alive, here] at alive
    refine .inr ⟨_, inside, alive, ?_⟩
    have opened := opens_readEnd (wired.child _ inside) alive (by omega)
    rwa [place] at opened
  · refine .inl ?_
    have length := grouped.length_children
    have counted := grouped.counted
    have shell := wired.shell
    unfold ShellOk at shell
    cases position : state.pc with
    | loop =>
        rw [position] at shell counted length
        simp only [LaunchPc.pending, List.length_nil] at counted length
        have same : state.i = i + 1 := by omega
        obtain ⟨first, -, ends⟩ := shell.1 (by omega)
        rw [same] at first ends
        cases prevRead : state.prevRead with
        | none => cases first.mp prevRead
        | some fd =>
            rw [Descriptors.opens_iff]
            exact ⟨fd, by simp [ends.get, prevRead, Setting.prevEnds]⟩
    | fork pfd =>
        rw [position] at shell counted length
        simp only [LaunchPc.pending, List.length_nil] at counted length
        have same : state.i = i + 1 := by omega
        rw [same] at shell
        exact opens_prevRead shell.1 shell.2.2 (Nat.succ_ne_zero i)
    | setpgid pid pfd | close pfd =>
        rw [position] at shell counted length
        simp only [LaunchPc.pending, List.length_nil, List.length_singleton] at counted length
        have same : state.i = i := by omega
        rw [same] at shell
        exact (opens_pfd shell.1 shell.2.2 next).1
    | left | addJob =>
        have whole := grouped.within 0 (by simp [position])
        rw [position] at counted length
        simp only [LaunchPc.pending, List.length_nil] at counted length
        omega
    | launched num =>
        have whole := grouped.within num (.inr (.inr position))
        rw [position] at counted length
        simp only [LaunchPc.pending, List.length_nil] at counted length
        omega
    | returned => exact absurd position running

/-- The launch is done, and the stages run their programs or have ended. -/
def Launch.Settled (state : Launch) : Prop :=
  (∃ num, state.pc = .launched num) ∧
    ∀ child ∈ state.children, child.pc = .program ∨ child.pc.live = false

/-- Of a settled pipeline only the stages themselves hold the ends of its pipes. -/
theorem exists_of_held (wired : Wired setting state) (grouped : Grouped setting state)
    (settled : state.Settled) {file : File} {k : ℕ} (ends : file.pipe = some (setting.pipe k))
    (held : state.Held file) :
    ∃ i, i < state.children.length ∧ state.alive i = true ∧
      (i ≠ 0 ∧ file = .readEnd (setting.pipe (i - 1)) ∨ file = .writeEnd (setting.pipe i)) := by
  rcases held with shell | ⟨child, inside, live, opened⟩
  · have whole := wired.shell
    obtain ⟨⟨num, position⟩, -⟩ := settled
    unfold ShellOk at whole
    rw [position] at whole
    obtain ⟨fd, found⟩ := Descriptors.opens_iff.mp shell
    rw [whole.get, List.lookup_nil, Option.none_or] at found
    exact absurd ends (pipe_ne_of_known found k)
  · have position : child.pc = .program := (settled.2 child inside).resolve_right (by simp [live])
    have ok := wired.child child inside
    unfold ChildOk at ok
    rw [position] at ok
    obtain ⟨i, here⟩ := List.getElem?_of_mem inside
    obtain ⟨forked, -⟩ := List.getElem?_eq_some_iff.mp here
    have place := (grouped.frame i child here).1
    have total := grouped.length_le wired
    rw [place] at ok
    refine ⟨i, forked, by rw [Launch.alive, here]; exact live, ?_⟩
    obtain ⟨fd, found⟩ := Descriptors.opens_iff.mp opened
    rw [ok.get, List.lookup_nil, Option.none_or] at found
    by_cases input : fd = 0
    · rw [input, get_wired_zero] at found
      split at found
      · split at found
        · obtain rfl := Option.some.inj found
          cases ends
        · exact absurd ends (pipe_ne_of_known found k)
      · rename_i later
        exact .inl ⟨later, (Option.some.inj found).symm⟩
    · by_cases output : fd = 1
      · rw [output, get_wired_one (by omega)] at found
        split at found
        · split at found
          · obtain rfl := Option.some.inj found
            cases ends
          · exact absurd ends (pipe_ne_of_known found k)
        · exact .inr (Option.some.inj found).symm
      · rw [get_wired setting i input output] at found
        exact absurd ends (pipe_ne_of_known found k)

end Shell
end Syscore
