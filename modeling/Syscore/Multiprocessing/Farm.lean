import Mathlib.Data.Fintype.Basic
import Mathlib.Data.Finset.Card
import Syscore.Library.CloseOnExec
import Syscore.Library.Interleaving
import Syscore.Multiprocessing.Factor

/-!
# The farm

The manager of `src/multiprocessing/farm.cc` with its `SIGCHLD` handler, and `n` workers that run
`factor.py --self-halting`. The handler runs between two statements of the manager; no signal kills
a worker. A worker that stops before it is registered is lost: no slot has its pid.
-/

namespace Syscore
namespace Multiprocessing

/-- An end of the supply pipe of a worker. -/
structure SupplyEnd where
  worker : ℕ
  side : Side
  deriving DecidableEq

abbrev FarmTable := Descriptors (Flagged (OpenFile SupplyEnd))

/-! ## Workers -/

/-- Where a worker is: in the child branch of `worker::worker`, or in `main` of `factor.py`. -/
inductive WorkerPc
  | unborn
  | dup2
  | closeRead
  | closeWrite
  | exec
  | stop
  | stopped
  | readline
  | emit (line : Text)
  | exiting
  | exited
  deriving DecidableEq

/-- A slot of `workers`, the process behind it and the pipe between. -/
structure Worker where
  /-- Whether the slot has the pid of the process. -/
  registered : Bool := false
  available : Bool := false
  supplyfds : ℕ × ℕ := (0, 0)
  pc : WorkerPc := .unborn
  fds : FarmTable := ⟨[]⟩
  /-- Whether the process is stopped and `waitpid` has not said so. -/
  report : Bool := false
  /-- What is written to the pipe and not yet read. -/
  pipe : Text := []
  /-- What the process has written to its stdout. -/
  printed : List Text := []

/-- `sys.stdin.readline` when it does not block: up to the newline, or all that is left. -/
def readline (text : Text) : Text :=
  text.takeWhile (· ≠ newline) ++ (text.dropWhile (· ≠ newline)).take 1

/-- A step of the process. `readline` blocks while there is no whole line and the pipe has a writer;
an exception in `emit` ends the process. -/
def Worker.step (hasWriter : Bool) (worker : Worker) : Option Worker :=
  match worker.pc with
  | .dup2 =>
      some { worker with
        fds := worker.fds.duplicate worker.supplyfds.1 0
        pc := .closeRead }
  | .closeRead =>
      some { worker with fds := worker.fds.close worker.supplyfds.1, pc := .closeWrite }
  | .closeWrite => some { worker with fds := worker.fds.close worker.supplyfds.2, pc := .exec }
  | .exec => some { worker with fds := worker.fds.exec, pc := .stop }
  | .stop => some { worker with pc := .stopped, report := true }
  | .readline =>
      if hasWriter = true ∧ newline ∉ worker.pipe then
        none
      else if readline worker.pipe = [] then
        some { worker with pc := .exiting }
      else
        let line := strip (readline worker.pipe)
        some { worker with
          pipe := worker.pipe.drop (readline worker.pipe).length
          pc := if line = [] then .stop else .emit line }
  | .emit line =>
      match emit line with
      | some text => some { worker with printed := worker.printed ++ [text], pc := .stop }
      | none => some { worker with pc := .exiting }
  | .exiting => some { worker with fds := ⟨[]⟩, pc := .exited }
  | .unborn | .stopped | .exited => none

/-- What `SIGCONT` does: the stop is over, reported or not. -/
def Worker.resume (worker : Worker) : Worker :=
  if worker.pc = .stopped then { worker with pc := .readline, report := false } else worker

/-- What the handler does about a worker. -/
def Worker.mark (worker : Worker) : Worker :=
  if worker.report then
    { worker with report := false, available := worker.available || worker.registered }
  else
    worker

/-! ## The manager -/

/-- Where the manager is. -/
inductive ManagerPc (n : ℕ)
  | pipe (i : ℕ)
  | fork (i : Fin n)
  | closeRead (i : Fin n)
  | register (i : Fin n)
  | getline
  | block
  | check
  | suspend
  | unblock
  | assertAvailable
  | scan (i : ℕ)
  | assertFound (i : ℕ)
  | unavailable (i : Fin n)
  | decrement (i : Fin n)
  | write (i : Fin n)
  | resume (i : Fin n)
  | blockAll
  | checkAll
  | suspendAll
  | unblockAll
  | ignoreChildren
  | close (i : ℕ)
  | resumeLast (i : Fin n)
  | waitpid (i : ℕ)
  | done
  | failed
  | terminated
  deriving DecidableEq

/-- Whether the handler is installed in a process that still runs. -/
def ManagerPc.handles {n : ℕ} : ManagerPc n → Bool
  | .close _ | .resumeLast _ | .waitpid _ | .done | .failed | .terminated => false
  | _ => true

/-- Where a return from the handler continues. -/
def ManagerPc.afterHandler {n : ℕ} : ManagerPc n → ManagerPc n
  | .suspend => .check
  | .suspendAll => .checkAll
  | pc => pc

/-- The manager, the workers and the signals between them. -/
structure Farm (n : ℕ) where
  stdin : IStream
  pc : ManagerPc n := .pipe 0
  num : ℤ := 0
  fds : FarmTable
  numWorkersAvailable : ℕ := 0
  /-- Whether `SIGCHLD` is blocked. -/
  blocked : Bool := false
  /-- Whether a `SIGCHLD` is pending. -/
  pending : Bool := false
  workers : Fin n → Worker := fun _ => {}
  /-- The numbers written so far, each with the worker it went to. -/
  writes : List (Fin n × ℤ) := []

/-- `std::stoll(line, &endpos)`: the number and `endpos`; `none` when it throws. -/
def stoll (line : Text) : Option (ℤ × ℕ) :=
  let (digits, value, rest) := splitInt (line.dropWhile isspace)
  if digits = [] ∨ ¬(-2 ^ 63 ≤ value ∧ value ≤ 2 ^ 63 - 1) then
    none
  else
    some (value, line.length - rest.length)

/-- `std::to_string(num) + "\n"`. -/
def payload (num : ℤ) : Text := decimalInt num ++ [newline]

namespace Farm

variable {n : ℕ}

def setWorker (state : Farm n) (i : Fin n) (worker : Worker) : Farm n :=
  { state with workers := Function.update state.workers i worker }

/-- The end of the manager. -/
def stop (state : Farm n) (pc : ManagerPc n) : Farm n := { state with fds := ⟨[]⟩, pc }

/-- `kill(workers[i].pid, SIGCONT)`; a worker that continues is news for the manager too. -/
def sigcont (state : Farm n) (i : Fin n) : Farm n :=
  { state.setWorker i (state.workers i).resume with
    pending := state.pending || (state.workers i).pc = .stopped }

/-- A statement of the manager. -/
def managerStep (state : Farm n) : Option (Farm n) :=
  match state.pc with
  | .pipe i =>
      if inside : i < n then
        let worker := state.workers ⟨i, inside⟩
        let supplyPipe := state.fds.pipe false ⟨i, .read⟩ ⟨i, .write⟩
        some { state.setWorker ⟨i, inside⟩ { worker with supplyfds := supplyPipe.1 } with
          fds := supplyPipe.2
          pc := .fork ⟨i, inside⟩ }
      else
        some { state with pc := .getline }
  | .fork i =>
      some { state.setWorker i { state.workers i with fds := state.fds, pc := .dup2 } with
        pc := .closeRead i }
  | .closeRead i =>
      some { state with fds := state.fds.close (state.workers i).supplyfds.1, pc := .register i }
  | .register i =>
      some { state.setWorker i { state.workers i with registered := true, available := false } with
        pc := .pipe (i + 1) }
  | .getline =>
      let (line, stdin) := state.stdin.getline []
      if stdin.fail then
        some { state with stdin, pc := .blockAll }
      else
        match stoll line with
        | none => some (stop { state with stdin } .terminated)
        | some (num, endpos) =>
            if endpos ≠ line.length then
              some { state with stdin, pc := .blockAll }
            else
              some { state with stdin, num, pc := .block }
  | .block => some { state with blocked := true, pc := .check }
  | .check => some { state with pc := if state.numWorkersAvailable = 0 then .suspend else .unblock }
  | .suspend => none
  | .unblock => some { state with blocked := false, pc := .assertAvailable }
  | .assertAvailable =>
      if 0 < state.numWorkersAvailable then some { state with pc := .scan 0 }
      else some (state.stop .failed)
  | .scan i =>
      if inside : i < n then
        some { state with
          pc := if (state.workers ⟨i, inside⟩).available then .assertFound i else .scan (i + 1) }
      else
        some { state with pc := .assertFound i }
  | .assertFound i =>
      if inside : i < n then some { state with pc := .unavailable ⟨i, inside⟩ }
      else some (state.stop .failed)
  | .unavailable i =>
      some { state.setWorker i { state.workers i with available := false } with pc := .decrement i }
  | .decrement i =>
      some { state with numWorkersAvailable := state.numWorkersAvailable - 1, pc := .write i }
  | .write i =>
      let worker := state.workers i
      some { state.setWorker i { worker with pipe := worker.pipe ++ payload state.num } with
        writes := state.writes ++ [(i, state.num)]
        pc := .resume i }
  | .resume i => some { state.sigcont i with pc := .getline }
  | .blockAll => some { state with blocked := true, pc := .checkAll }
  | .checkAll =>
      some { state with pc := if state.numWorkersAvailable < n then .suspendAll else .unblockAll }
  | .suspendAll => none
  | .unblockAll => some { state with blocked := false, pc := .ignoreChildren }
  | .ignoreChildren => some { state with pc := .close 0 }
  | .close i =>
      if inside : i < n then
        some { state with
          fds := state.fds.close (state.workers ⟨i, inside⟩).supplyfds.2
          pc := .resumeLast ⟨i, inside⟩ }
      else
        some { state with pc := .waitpid 0 }
  | .resumeLast i => some { state.sigcont i with pc := .close (i + 1) }
  | .waitpid i =>
      if inside : i < n then
        if (state.workers ⟨i, inside⟩).pc = .exited then some { state with pc := .waitpid (i + 1) }
        else none
      else
        some (state.stop .done)
  | .done | .failed | .terminated => none

/-- The workers that the handler finds newly available. -/
def newlyAvailable (state : Farm n) : Finset (Fin n) :=
  Finset.univ.filter fun i =>
    (state.workers i).report = true ∧ (state.workers i).registered = true ∧
      (state.workers i).available = false

/-- `markWorkersAsAvailable`. -/
def markWorkersAsAvailable (state : Farm n) : Farm n :=
  { state with
    pending := false
    workers := fun i => (state.workers i).mark
    numWorkersAvailable := state.numWorkersAvailable + state.newlyAvailable.card
    pc := state.pc.afterHandler }

/-- Whether some process has the write end of the pipe of a worker. -/
def hasWriter (state : Farm n) (i : Fin n) : Bool :=
  state.fds.refers ⟨i, .write⟩ || decide (∃ j, (state.workers j).fds.refers ⟨i, .write⟩ = true)

end Farm

/-- What may happen next. -/
inductive FarmLabel (n : ℕ)
  /-- The next statement of the manager. -/
  | manager
  /-- The handler runs. -/
  | sigchld
  /-- The next step of a worker. -/
  | worker (i : Fin n)
  /-- `pipe` or `fork` fails. -/
  | fails

namespace Farm

variable {n : ℕ}

/-- One step. -/
def step (state : Farm n) : FarmLabel n → Option (Farm n)
  | .manager => state.managerStep
  | .sigchld =>
      if state.pending = true ∧ state.pc.handles = true ∧
          (state.blocked = false ∨ state.pc = .suspend ∨ state.pc = .suspendAll) then
        some state.markWorkersAsAvailable
      else
        none
  | .worker i => do
      let worker ← (state.workers i).step (state.hasWriter i)
      some { state.setWorker i worker with
        pending := state.pending || (worker.pc = .stopped || worker.pc = .exited) }
  | .fails =>
      match state.pc with
      | .pipe _ | .fork _ => some (state.stop .terminated)
      | _ => none

/-- A manager with its standard descriptors open and these bytes on stdin. -/
structure Initial (text : Text) (state : Farm n) : Prop where
  fresh : state = { stdin := .ofText text, fds := state.fds }
  standard : ∀ fd < 3, state.fds.get fd ≠ none
  files : ∀ fd supplyEnd cloexec, state.fds.get fd ≠ some ⟨.pipeEnd supplyEnd, cloexec⟩

end Farm

/-- The farm with these bytes on stdin. -/
def farm (n : ℕ) (text : Text) : Machine (Farm n) (FarmLabel n) where
  start := Farm.Initial text
  step := Farm.step

end Multiprocessing
end Syscore
