import Syscore.Library.CloseOnExec
import Syscore.Library.Interleaving

/-!
# Subprocesses

Calls of `subprocess` by the threads of one process, `src/mapreduce/subprocess.cc`, and what
`runFilter` does with the descriptors it gets. Threads share the descriptor table; `fork` copies it
between any two steps of the other calls. Reads, writes and `waitpid` leave every table as it is and
are not steps.
-/

namespace Syscore
namespace MapReduce

/-- The pipe to the child's stdin and the pipe from its stdout. -/
inductive PipeName
  | supply
  | ingest
  deriving DecidableEq

/-- An end of a pipe of a call. -/
structure PipeEnd where
  call : ℕ
  pipe : PipeName
  side : Side
  deriving DecidableEq

abbrev Table := Descriptors (Flagged (OpenFile PipeEnd))

/-- Where a child is before `execvp`, or that it runs its program, or that it is gone. -/
inductive ChildPc
  | dupSupply
  | closeSupplyRead
  | closeSupplyWrite
  | dupIngest
  | closeIngestRead
  | closeIngestWrite
  | exec
  | running
  | exited
  deriving DecidableEq

structure Child where
  fds : Table
  pc : ChildPc

/-- Where a call is. -/
inductive CallPc
  | supply
  | ingest
  | fork
  | closeSupply
  | closeIngest
  | returned
  deriving DecidableEq

/-- A call with its local variables; `none` stands for descriptors of `-1`. The fields `supplyfd`
and `ingestfd` are those of the result, until the caller closes them. -/
structure Call where
  supplyChildInput : Bool
  supplyChildOutput : Bool
  supplyPipe : Option (ℕ × ℕ) := none
  ingestPipe : Option (ℕ × ℕ) := none
  pc : CallPc := .supply
  supplyfd : Option ℕ := none
  ingestfd : Option ℕ := none
  child : Option Child := none

/-- `pipe2` with `O_CLOEXEC`: the two descriptors, the read end first. -/
def pipe2 (table : Table) (call : ℕ) (pipe : PipeName) : (ℕ × ℕ) × Table :=
  table.pipe true ⟨call, pipe, .read⟩ ⟨call, pipe, .write⟩

def closeIfOpen (table : Table) : Option ℕ → Table
  | some fd => table.close fd
  | none => table

/-- A step of the child. A successful `execvp` closes what is flagged. -/
def Child.step (call : Call) (child : Child) : Option Child :=
  match child.pc with
  | .dupSupply =>
      match call.supplyPipe with
      | some (readFd, _) => some { fds := child.fds.duplicate readFd 0, pc := .closeSupplyRead }
      | none => some { child with pc := .dupIngest }
  | .closeSupplyRead =>
      some { fds := closeIfOpen child.fds (call.supplyPipe.map Prod.fst), pc := .closeSupplyWrite }
  | .closeSupplyWrite =>
      some { fds := closeIfOpen child.fds (call.supplyPipe.map Prod.snd), pc := .dupIngest }
  | .dupIngest =>
      match call.ingestPipe with
      | some (_, writeFd) => some { fds := child.fds.duplicate writeFd 1, pc := .closeIngestRead }
      | none => some { child with pc := .exec }
  | .closeIngestRead =>
      some { fds := closeIfOpen child.fds (call.ingestPipe.map Prod.fst), pc := .closeIngestWrite }
  | .closeIngestWrite =>
      some { fds := closeIfOpen child.fds (call.ingestPipe.map Prod.snd), pc := .exec }
  | .exec => some { fds := child.fds.exec, pc := .running }
  | .running | .exited => none

/-- The child ends: `execvp` fails, its program is done, or a signal kills it. -/
def Child.exit (child : Child) : Option Child :=
  if child.pc = .exited then none else some { fds := ⟨[]⟩, pc := .exited }

/-- A step of the parent in the call with this number. -/
def Call.step (number : ℕ) (call : Call) (parent : Table) : Option (Call × Table) :=
  match call.pc with
  | .supply =>
      if call.supplyChildInput then
        let supplyPipe := pipe2 parent number .supply
        some ({ call with supplyPipe := some supplyPipe.1, pc := .ingest }, supplyPipe.2)
      else
        some ({ call with pc := .ingest }, parent)
  | .ingest =>
      if call.supplyChildOutput then
        let ingestPipe := pipe2 parent number .ingest
        some ({ call with ingestPipe := some ingestPipe.1, pc := .fork }, ingestPipe.2)
      else
        some ({ call with pc := .fork }, parent)
  | .fork =>
      some ({ call with child := some { fds := parent, pc := .dupSupply }, pc := .closeSupply },
        parent)
  | .closeSupply =>
      some ({ call with pc := .closeIngest },
        closeIfOpen parent (call.supplyPipe.map Prod.fst))
  | .closeIngest =>
      some ({ call with
          pc := .returned
          supplyfd := call.supplyPipe.map Prod.snd
          ingestfd := call.ingestPipe.map Prod.fst },
        closeIfOpen parent (call.ingestPipe.map Prod.snd))
  | .returned => none

/-- The process whose threads make the calls. -/
structure Subprocesses where
  parent : Table
  terminated : Bool := false
  calls : List Call := []

/-- What may happen next. -/
inductive SubprocessLabel
  /-- A thread opens a file that is no pipe. -/
  | opens (name : ℕ) (cloexec : Bool)
  /-- A thread closes a file that is no pipe, and not a standard one. -/
  | closes (fd : ℕ)
  /-- A thread calls `subprocess`. -/
  | begins (supplyChildInput supplyChildOutput : Bool)
  /-- The next step of a call. -/
  | call (number : ℕ)
  /-- The caller closes `supplyfd`. -/
  | closesSupply (number : ℕ)
  /-- The caller closes `ingestfd`. -/
  | closesIngest (number : ℕ)
  /-- The next step of the child of a call. -/
  | child (number : ℕ)
  /-- The child of a call ends. -/
  | exits (number : ℕ)
  /-- The process ends: an exception that nothing catches, a signal, or the end of `main`. -/
  | terminates

namespace Subprocesses

/-- A descriptor that refers to no pipe. -/
def isOther (table : Table) (fd : ℕ) : Bool :=
  match table.get fd with
  | some ⟨.other _, _⟩ => true
  | _ => false

/-- One step of the parent: a thread's. -/
def parentStep (state : Subprocesses) : SubprocessLabel → Option Subprocesses
  | .opens name cloexec =>
      some { state with parent := (state.parent.openFile ⟨.other name, cloexec⟩).2 }
  | .closes fd =>
      if 2 < fd ∧ isOther state.parent fd = true then
        some { state with parent := state.parent.close fd }
      else
        none
  | .begins supplyChildInput supplyChildOutput =>
      some { state with calls := state.calls ++ [{ supplyChildInput, supplyChildOutput }] }
  | .call number => do
      let call ← state.calls[number]?
      let (call, parent) ← call.step number state.parent
      some { state with parent, calls := state.calls.set number call }
  | .closesSupply number => do
      let call ← state.calls[number]?
      let fd ← call.supplyfd
      some { state with
        parent := state.parent.close fd
        calls := state.calls.set number { call with supplyfd := none } }
  | .closesIngest number => do
      let call ← state.calls[number]?
      let fd ← call.ingestfd
      some { state with
        parent := state.parent.close fd
        calls := state.calls.set number { call with ingestfd := none } }
  | .terminates => some { state with parent := ⟨[]⟩, terminated := true }
  | .child _ | .exits _ => none

/-- One step. The children outlive the parent. -/
def step (state : Subprocesses) : SubprocessLabel → Option Subprocesses
  | .child number => do
      let call ← state.calls[number]?
      let child ← call.child
      let child ← child.step call
      some { state with calls := state.calls.set number { call with child := some child } }
  | .exits number => do
      let call ← state.calls[number]?
      let child ← call.child
      let child ← child.exit
      some { state with calls := state.calls.set number { call with child := some child } }
  | label => if state.terminated then none else state.parentStep label

end Subprocesses

/-- A process with its standard descriptors open, no pipes and no calls. -/
structure Subprocesses.Initial (state : Subprocesses) : Prop where
  calls : state.calls = []
  terminated : state.terminated = false
  standard : ∀ fd < 3, state.parent.get fd ≠ none
  files : ∀ fd pipeEnd cloexec, state.parent.get fd ≠ some ⟨.pipeEnd pipeEnd, cloexec⟩

/-- The calls of one process. -/
def subprocesses : Machine Subprocesses SubprocessLabel where
  start := Subprocesses.Initial
  step := Subprocesses.step

/-! ## What is open where -/

/-- The process itself, or the child of a call. -/
inductive Process
  | parent
  | child (call : ℕ)
  deriving DecidableEq

namespace Subprocesses

def table (state : Subprocesses) : Process → Option Table
  | .parent => some state.parent
  | .child number => (state.calls[number]?.bind Call.child).map Child.fds

/-- A descriptor of a process refers to an end. -/
def Holds (state : Subprocesses) (process : Process) (fd : ℕ) (pipeEnd : PipeEnd) : Prop :=
  ∃ table cloexec, state.table process = some table ∧
    table.get fd = some ⟨.pipeEnd pipeEnd, cloexec⟩

/-- A read of the drained pipe returns 0: no descriptor refers to its write end. -/
def AtEnd (state : Subprocesses) (number : ℕ) (pipe : PipeName) : Prop :=
  ∀ process fd, ¬ state.Holds process fd ⟨number, pipe, .write⟩

/-- Every child runs its program or is gone. -/
def Settled (state : Subprocesses) : Prop :=
  ∀ call ∈ state.calls, ∀ child, call.child = some child →
    child.pc = .running ∨ child.pc = .exited

end Subprocesses

end MapReduce
end Syscore
