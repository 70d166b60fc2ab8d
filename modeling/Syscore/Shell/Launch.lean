import Syscore.Library.Descriptors
import Syscore.Library.Interleaving
import Syscore.Shell.Jobs
import Syscore.Shell.Parser

/-!
# The launch of a pipeline

`runPipeline` up to the new job, with `SIGCHLD` blocked, interleaved with the children it forks up
to their `execvp` and with the rest of the system. A label names who moves and how its system call
ends. What a program does after `execvp` is not modelled, apart from its death.
-/

namespace Syscore
namespace Shell

/-- What an open descriptor refers to. -/
inductive File
  /-- Opened before the launch. -/
  | outer (id : ℕ)
  | readEnd (pipe : ℕ)
  | writeEnd (pipe : ℕ)
  /-- `open(path, O_RDONLY)`. -/
  | input (path : Text)
  /-- `open(path, O_WRONLY | O_CREAT | O_TRUNC, 0644)`. -/
  | output (path : Text)
  deriving DecidableEq

/-- The pipe that a descriptor is an end of. -/
def File.pipe : File → Option ℕ
  | .readEnd pipe | .writeEnd pipe => some pipe
  | .outer _ | .input _ | .output _ => none

/-- `if (fd != -1) close(fd);`. -/
def closeIf (fds : Descriptors File) : Option ℕ → Descriptors File
  | some fd => fds.close fd
  | none => fds

/-- The locals of `runPipeline` that a child gets its copies of. -/
structure Frame where
  i : ℕ
  pgid : Pid
  /-- `none` for `-1`. -/
  prevRead : Option ℕ
  /-- `none` for `{-1, -1}`. -/
  pfd : Option (ℕ × ℕ)

/-- Positions of a child, named by the next region. -/
inductive ChildPc
  | setpgid
  | pipes
  | input
  | output
  /-- At `execvp`. -/
  | execvp
  /-- Past a successful `execvp`. -/
  | program
  /-- Dead and not yet reaped, with whether it got past `execvp`. -/
  | exited (execed : Bool)
  deriving DecidableEq

/-- The process has called `execvp`. -/
def ChildPc.execed : ChildPc → Bool
  | .program => true
  | .exited execed => execed
  | .setpgid | .pipes | .input | .output | .execvp => false

/-- A child of this launch. -/
structure Child where
  pid : Pid
  pgid : Pid
  fds : Descriptors File
  frame : Frame
  pc : ChildPc

namespace Child

/-- The read end that the last stage has left becomes descriptor 0. -/
def takeInput (fds : Descriptors File) : Option ℕ → Descriptors File
  | some prevRead => (fds.dup2 prevRead 0).close prevRead
  | none => fds

/-- The write end of the pipe of the stage becomes descriptor 1. -/
def takeOutput (fds : Descriptors File) : Option (ℕ × ℕ) → Descriptors File
  | some (readFd, writeFd) => ((fds.dup2 writeFd 1).close readFd).close writeFd
  | none => fds

/-- `int fd = open(..); dup2(fd, target); close(fd);`. -/
def redirect (file : File) (target : ℕ) (fds : Descriptors File) : Descriptors File :=
  let (fd, fds) := fds.openFile file
  (fds.dup2 fd target).close fd

/-- The first stage has an input file. -/
def readsFile (p : Pipeline) (i : ℕ) : Prop := i = 0 ∧ p.input ≠ []

/-- The last stage has an output file. -/
def writesFile (p : Pipeline) (i : ℕ) : Prop := i = p.commands.length - 1 ∧ p.output ≠ []

instance (p : Pipeline) (i : ℕ) : Decidable (readsFile p i) := inferInstanceAs (Decidable (_ ∧ _))

instance (p : Pipeline) (i : ℕ) : Decidable (writesFile p i) := inferInstanceAs (Decidable (_ ∧ _))

/-- The next region of a child whose `open` calls succeed. -/
def step (p : Pipeline) (group : Pid → Bool) (child : Child) : Option Child :=
  match child.pc with
  | .setpgid =>
      let desired := if child.frame.pgid = 0 then child.pid else child.frame.pgid
      let pgid := if desired = child.pid ∨ group desired = true then desired else child.pgid
      some { child with pgid, pc := .pipes }
  | .pipes =>
      let fds := takeOutput (takeInput child.fds child.frame.prevRead) child.frame.pfd
      some { child with fds, pc := .input }
  | .input =>
      if readsFile p child.frame.i then
        some { child with fds := redirect (.input p.input) 0 child.fds, pc := .output }
      else
        some { child with pc := .output }
  | .output =>
      if writesFile p child.frame.i then
        some { child with fds := redirect (.output p.output) 1 child.fds, pc := .execvp }
      else
        some { child with pc := .execvp }
  | .execvp => some { child with pc := .program }
  | .program | .exited _ => none

/-- The end of a child: a failed `open` or `execvp`, a signal, or the end of its program. -/
def die (child : Child) : Child := { child with pc := .exited child.pc.execed }

end Child

/-- Positions in `runPipeline`, named by the next region. -/
inductive LaunchPc
  /-- Head of the loop, then `pipe`. -/
  | loop
  | fork (pfd : Option (ℕ × ℕ))
  | setpgid (pid : Pid) (pfd : Option (ℕ × ℕ))
  | close (pfd : Option (ℕ × ℕ))
  /-- Out of the loop, before the last `close`. -/
  | left
  | addJob
  /-- The job with this number is in the table. -/
  | launched (num : ℕ)
  /-- After `perror`. -/
  | returned
  deriving DecidableEq

/-- What a launch starts from. -/
structure Setting where
  p : Pipeline
  cmdline : Text
  /-- The descriptors of the shell. -/
  fds : Descriptors File
  jobs : JobList
  /-- The group of the shell. -/
  pgrp : Pid
  /-- The pipes made so far in the system. -/
  pipes : ℕ
  /-- `main` launches no empty pipeline. -/
  stages : p.commands ≠ []
  /-- Descriptors 0, 1 and 2 are open. -/
  standard : ∀ fd < 3, fds.get fd ≠ none
  known : ∀ fd file pipe, fds.get fd = some file → file.pipe = some pipe → pipe < pipes

/-- The number of stages. -/
abbrev Setting.n (setting : Setting) : ℕ := setting.p.commands.length

/-- The shell and its new children. -/
structure Launch where
  pc : LaunchPc
  i : ℕ
  pgid : Pid
  pids : List Pid
  prevRead : Option ℕ
  fds : Descriptors File
  jobs : JobList
  pipes : ℕ
  /-- The children of this launch, in the order of their forks. -/
  children : List Child
  /-- Identifier and group of every other process. -/
  others : List (Pid × Pid)

/-- Who moves, and how its system call ends. -/
inductive LaunchLabel
  /-- The shell; its system calls other than `fork` succeed. -/
  | shell
  | pipeFails
  | fork (pid : Pid)
  | forkFails
  /-- A child; its system calls succeed. -/
  | child (index : ℕ)
  | dies (index : ℕ)
  /-- The rest of the system. -/
  | others (processes : List (Pid × Pid))

namespace Launch

/-- Some process is in the group. -/
def group (state : Launch) (pgid : Pid) : Bool :=
  (state.children.any fun child => child.pgid = pgid) ||
    state.others.any fun other => other.2 = pgid

/-- No process has the identifier, and none is in a group of that name. -/
def free (state : Launch) (pid : Pid) : Bool :=
  !state.group pid && (state.children.all fun child => child.pid ≠ pid) &&
    state.others.all fun other => other.1 ≠ pid

/-- `setpgid(pid, pgid)` by the shell: refused for a child that has called `execvp`. -/
def setpgid (state : Launch) (pid pgid : Pid) : List Child :=
  state.children.map fun child =>
    if child.pid = pid ∧ child.pc.execed = false ∧ (pgid = pid ∨ state.group pgid = true) then
      { child with pgid }
    else child

/-- The next region of the shell. -/
def shellStep (setting : Setting) (state : Launch) : Option Launch :=
  match state.pc with
  | .loop =>
      if state.i < setting.n then
        if state.i + 1 < setting.n then
          let (readFd, fds) := state.fds.openFile (.readEnd state.pipes)
          let (writeFd, fds) := fds.openFile (.writeEnd state.pipes)
          some { state with fds, pipes := state.pipes + 1, pc := .fork (some (readFd, writeFd)) }
        else
          some { state with pc := .fork none }
      else
        some { state with pc := .left }
  | .setpgid pid pfd =>
      let pgid := if state.pgid = 0 then pid else state.pgid
      some
        { state with
          pgid
          children := state.setpgid pid pgid
          pids := state.pids ++ [pid]
          pc := .close pfd }
  | .close pfd =>
      let fds := closeIf state.fds state.prevRead
      match pfd with
      | some (readFd, writeFd) =>
          some
            { state with
              fds := fds.close writeFd
              prevRead := some readFd
              i := state.i + 1
              pc := .loop }
      | none => some { state with fds, i := state.i + 1, pc := .loop }
  | .left => some { state with fds := closeIf state.fds state.prevRead, pc := .addJob }
  | .addJob =>
      let job := state.jobs.launch state.pgid setting.cmdline
        (if setting.p.background then .background else .foreground) state.pids
      some { state with jobs := job.2, pc := .launched job.1 }
  | .fork _ | .launched _ | .returned => none

/-- One step of a launch. -/
def step (setting : Setting) (state : Launch) : LaunchLabel → Option Launch
  | .shell => state.shellStep setting
  | .pipeFails =>
      match state.pc with
      | .loop => if state.i + 1 < setting.n then some { state with pc := .returned } else none
      | _ => none
  | .fork pid =>
      match state.pc with
      | .fork pfd =>
          if pid ≠ 0 ∧ state.free pid = true then
            let child : Child :=
              { pid
                pgid := setting.pgrp
                fds := state.fds
                frame := { i := state.i, pgid := state.pgid, prevRead := state.prevRead, pfd }
                pc := .setpgid }
            some { state with children := state.children ++ [child], pc := .setpgid pid pfd }
          else none
      | _ => none
  | .forkFails =>
      match state.pc with
      | .fork _ => some { state with pc := .returned }
      | _ => none
  | .child index =>
      (state.children[index]?).bind fun child =>
        (child.step setting.p state.group).map fun child =>
          { state with children := state.children.set index child }
  | .dies index =>
      (state.children[index]?).map fun child =>
        { state with children := state.children.set index child.die }
  | .others processes =>
      if processes.all fun other => state.children.all fun child => child.pid ≠ other.1 then
        some { state with others := processes }
      else none

/-- The shell at the head of the loop. -/
def start (setting : Setting) (others : List (Pid × Pid)) : Launch where
  pc := .loop
  i := 0
  pgid := 0
  pids := []
  prevRead := none
  fds := setting.fds
  jobs := setting.jobs
  pipes := setting.pipes
  children := []
  others

/-- A launch as a machine. -/
def machine (setting : Setting) : Machine Launch LaunchLabel where
  start state := ∃ others, state = start setting others
  step := step setting

end Launch

end Shell
end Syscore
