import Syscore.Multiprocessing.Farm

/-!
# The moves of the farm

What a step of a worker, a statement of the manager and a step of the farm can be, each said once.
-/

namespace Syscore
namespace Multiprocessing

variable {n : ℕ} {state after : Farm n} {hasWriter : Bool} {worker worker' : Worker}

/-- The steps of a worker. -/
inductive WorkerMove (hasWriter : Bool) (worker : Worker) : Worker → Prop
  | dup2 (position : worker.pc = .dup2) :
      WorkerMove hasWriter worker
        { worker with
          fds := worker.fds.duplicate worker.supplyfds.1 0
          pc := .closeRead }
  | closeRead (position : worker.pc = .closeRead) :
      WorkerMove hasWriter worker
        { worker with fds := worker.fds.close worker.supplyfds.1, pc := .closeWrite }
  | closeWrite (position : worker.pc = .closeWrite) :
      WorkerMove hasWriter worker
        { worker with fds := worker.fds.close worker.supplyfds.2, pc := .exec }
  | exec (position : worker.pc = .exec) :
      WorkerMove hasWriter worker { worker with fds := worker.fds.exec, pc := .stop }
  | stop (position : worker.pc = .stop) :
      WorkerMove hasWriter worker { worker with pc := .stopped, report := true }
  | ends (position : worker.pc = .readline)
      (unblocked : hasWriter = true → newline ∈ worker.pipe)
      (drained : readline worker.pipe = []) :
      WorkerMove hasWriter worker { worker with pc := .exiting }
  | reads {line} (position : worker.pc = .readline)
      (unblocked : hasWriter = true → newline ∈ worker.pipe) (some : readline worker.pipe ≠ [])
      (stripped : strip (readline worker.pipe) = line) :
      WorkerMove hasWriter worker
        { worker with
          pipe := worker.pipe.drop (readline worker.pipe).length
          pc := if line = [] then .stop else .emit line }
  | prints {line text} (position : worker.pc = .emit line) (printed : emit line = some text) :
      WorkerMove hasWriter worker
        { worker with printed := worker.printed ++ [text], pc := .stop }
  | throws {line} (position : worker.pc = .emit line) (rejected : emit line = none) :
      WorkerMove hasWriter worker { worker with pc := .exiting }
  | exits (position : worker.pc = .exiting) :
      WorkerMove hasWriter worker { worker with fds := ⟨[]⟩, pc := .exited }

theorem workerMove_of_step (taken : worker.step hasWriter = some worker') :
    WorkerMove hasWriter worker worker' := by
  cases position : worker.pc
  all_goals
    rw [Worker.step, position] at taken
    dsimp only at taken
  case readline =>
    split at taken
    · cases taken
    · rename_i goesOn
      have unblocked (writer : hasWriter = true) : newline ∈ worker.pipe :=
        not_not.mp fun none => goesOn ⟨writer, none⟩
      split at taken
      · rename_i drained
        obtain rfl := Option.some.inj taken
        exact .ends position unblocked drained
      · rename_i some
        obtain rfl := Option.some.inj taken
        exact .reads position unblocked some rfl
  case emit line =>
    split at taken
    · rename_i text printed
      obtain rfl := Option.some.inj taken
      exact .prints position printed
    · rename_i rejected
      obtain rfl := Option.some.inj taken
      exact .throws position rejected
  case unborn | stopped | exited => cases taken
  all_goals obtain rfl := Option.some.inj taken
  case dup2 => exact .dup2 position
  case closeRead => exact .closeRead position
  case closeWrite => exact .closeWrite position
  case exec => exact .exec position
  case stop => exact .stop position
  case exiting => exact .exits position

/-- Statements that read the state and move the program counter, or set the mask. -/
inductive Goes (state : Farm n) : ManagerPc n → Prop
  | spawned {i} (position : state.pc = .pipe i) (outside : ¬ i < n) : Goes state .getline
  | block (position : state.pc = .block) : Goes state .check
  | wait (position : state.pc = .check) (none : state.numWorkersAvailable = 0) :
      Goes state .suspend
  | ready (position : state.pc = .check) (some : state.numWorkersAvailable ≠ 0) :
      Goes state .unblock
  | unblock (position : state.pc = .unblock) : Goes state .assertAvailable
  | asserted (position : state.pc = .assertAvailable) (some : 0 < state.numWorkersAvailable) :
      Goes state (.scan 0)
  | finds {i} (position : state.pc = .scan i) (inside : i < n)
      (available : (state.workers ⟨i, inside⟩).available = true) : Goes state (.assertFound i)
  | skips {i} (position : state.pc = .scan i) (inside : i < n)
      (busy : (state.workers ⟨i, inside⟩).available = false) : Goes state (.scan (i + 1))
  | misses {i} (position : state.pc = .scan i) (outside : ¬ i < n) : Goes state (.assertFound i)
  | found {i} (position : state.pc = .assertFound i) (inside : i < n) :
      Goes state (.unavailable ⟨i, inside⟩)
  | blockAll (position : state.pc = .blockAll) : Goes state .checkAll
  | waitAll (position : state.pc = .checkAll) (few : state.numWorkersAvailable < n) :
      Goes state .suspendAll
  | readyAll (position : state.pc = .checkAll) (all : n ≤ state.numWorkersAvailable) :
      Goes state .unblockAll
  | unblockAll (position : state.pc = .unblockAll) : Goes state .ignoreChildren
  | ignoreChildren (position : state.pc = .ignoreChildren) : Goes state (.close 0)
  | closed {i} (position : state.pc = .close i) (outside : ¬ i < n) : Goes state (.waitpid 0)
  | reaps {i} (position : state.pc = .waitpid i) (inside : i < n)
      (exited : (state.workers ⟨i, inside⟩).pc = .exited) : Goes state (.waitpid (i + 1))

/-- The moves of the manager. -/
inductive ManagerMove (state : Farm n) : Farm n → Prop
  | goes {pc blocked} (goes : Goes state pc) : ManagerMove state { state with pc, blocked }
  | pipe {i} (position : state.pc = .pipe i) (inside : i < n) :
      ManagerMove state
        { state.setWorker ⟨i, inside⟩ { state.workers ⟨i, inside⟩ with
            supplyfds := (state.fds.pipe false ⟨i, .read⟩ ⟨i, .write⟩).1 } with
          fds := (state.fds.pipe false ⟨i, .read⟩ ⟨i, .write⟩).2
          pc := .fork ⟨i, inside⟩ }
  | fork {i} (position : state.pc = .fork i) :
      ManagerMove state
        { state.setWorker i { state.workers i with fds := state.fds, pc := .dup2 } with
          pc := .closeRead i }
  | closeRead {i} (position : state.pc = .closeRead i) :
      ManagerMove state
        { state with fds := state.fds.close (state.workers i).supplyfds.1, pc := .register i }
  | register {i} (position : state.pc = .register i) :
      ManagerMove state
        { state.setWorker i { state.workers i with registered := true, available := false } with
          pc := .pipe (i + 1) }
  | ends {stdin} (position : state.pc = .getline) (read : (state.stdin.getline []).2 = stdin)
      (ended : stdin.fail = true) : ManagerMove state { state with stdin, pc := .blockAll }
  | throws {stdin} (position : state.pc = .getline) (read : (state.stdin.getline []).2 = stdin) :
      ManagerMove state (Farm.stop { state with stdin } .terminated)
  | rejects {stdin num endpos} (position : state.pc = .getline)
      (read : (state.stdin.getline []).2 = stdin) (whole : stdin.fail = false)
      (number : stoll (state.stdin.getline []).1 = some (num, endpos))
      (garbage : endpos ≠ (state.stdin.getline []).1.length) :
      ManagerMove state { state with stdin, pc := .blockAll }
  | takes {stdin num} (position : state.pc = .getline)
      (read : (state.stdin.getline []).2 = stdin) (whole : stdin.fail = false)
      (number : stoll (state.stdin.getline []).1 =
        some (num, (state.stdin.getline []).1.length)) :
      ManagerMove state { state with stdin, num, pc := .block }
  | noneAvailable (position : state.pc = .assertAvailable)
      (none : ¬ 0 < state.numWorkersAvailable) : ManagerMove state (state.stop .failed)
  | noneFound {i} (position : state.pc = .assertFound i) (outside : ¬ i < n) :
      ManagerMove state (state.stop .failed)
  | unavailable {i} (position : state.pc = .unavailable i) :
      ManagerMove state
        { state.setWorker i { state.workers i with available := false } with pc := .decrement i }
  | decrement {i} (position : state.pc = .decrement i) :
      ManagerMove state
        { state with numWorkersAvailable := state.numWorkersAvailable - 1, pc := .write i }
  | write {i} (position : state.pc = .write i) :
      ManagerMove state
        { state.setWorker i { state.workers i with
            pipe := (state.workers i).pipe ++ payload state.num } with
          writes := state.writes ++ [(i, state.num)]
          pc := .resume i }
  | resume {i} (position : state.pc = .resume i) :
      ManagerMove state { state.sigcont i with pc := .getline }
  | close {i} (position : state.pc = .close i) (inside : i < n) :
      ManagerMove state
        { state with
          fds := state.fds.close (state.workers ⟨i, inside⟩).supplyfds.2
          pc := .resumeLast ⟨i, inside⟩ }
  | resumeLast {i} (position : state.pc = .resumeLast i) :
      ManagerMove state { state.sigcont i with pc := .close (i + 1) }
  | returns {i} (position : state.pc = .waitpid i) (outside : ¬ i < n) :
      ManagerMove state (state.stop .done)

/-- Reading a line of stdin. -/
theorem managerMove_of_getline (position : state.pc = .getline)
    (taken : state.managerStep = some after) : ManagerMove state after := by
  rw [Farm.managerStep, position] at taken
  dsimp only at taken
  split at taken
  · rename_i ended
    obtain rfl := Option.some.inj taken
    exact .ends position rfl ended
  · rename_i whole
    split at taken
    · obtain rfl := Option.some.inj taken
      exact .throws position rfl
    · rename_i num endpos number
      split at taken
      · rename_i garbage
        obtain rfl := Option.some.inj taken
        exact .rejects position rfl (Bool.not_eq_true _ ▸ whole) number garbage
      · rename_i all
        obtain rfl := Option.some.inj taken
        rw [not_not.mp all] at number
        exact .takes position rfl (Bool.not_eq_true _ ▸ whole) number

theorem managerMove_of_step (taken : state.managerStep = some after) :
    ManagerMove state after := by
  cases position : state.pc
  case getline => exact managerMove_of_getline position taken
  all_goals
    rw [Farm.managerStep, position] at taken
    dsimp only at taken
  case pipe i =>
    split at taken
    · rename_i inside
      obtain rfl := Option.some.inj taken
      exact .pipe position inside
    · rename_i outside
      obtain rfl := Option.some.inj taken
      exact .goes (.spawned position outside)
  case fork i =>
    obtain rfl := Option.some.inj taken
    exact .fork position
  case closeRead i =>
    obtain rfl := Option.some.inj taken
    exact .closeRead position
  case register i =>
    obtain rfl := Option.some.inj taken
    exact .register position
  case block =>
    obtain rfl := Option.some.inj taken
    exact .goes (.block position)
  case check =>
    obtain rfl := Option.some.inj taken
    split
    · rename_i none
      exact .goes (.wait position none)
    · rename_i some
      exact .goes (.ready position some)
  case unblock =>
    obtain rfl := Option.some.inj taken
    exact .goes (.unblock position)
  case assertAvailable =>
    split at taken
    · rename_i some
      obtain rfl := Option.some.inj taken
      exact .goes (.asserted position some)
    · rename_i none
      obtain rfl := Option.some.inj taken
      exact .noneAvailable position none
  case scan i =>
    split at taken
    · rename_i inside
      obtain rfl := Option.some.inj taken
      cases busy : (state.workers ⟨i, inside⟩).available with
      | true => exact .goes (.finds position inside busy)
      | false => exact .goes (.skips position inside busy)
    · rename_i outside
      obtain rfl := Option.some.inj taken
      exact .goes (.misses position outside)
  case assertFound i =>
    split at taken
    · rename_i inside
      obtain rfl := Option.some.inj taken
      exact .goes (.found position inside)
    · rename_i outside
      obtain rfl := Option.some.inj taken
      exact .noneFound position outside
  case unavailable i =>
    obtain rfl := Option.some.inj taken
    exact .unavailable position
  case decrement i =>
    obtain rfl := Option.some.inj taken
    exact .decrement position
  case write i =>
    obtain rfl := Option.some.inj taken
    exact .write position
  case resume i =>
    obtain rfl := Option.some.inj taken
    exact .resume position
  case blockAll =>
    obtain rfl := Option.some.inj taken
    exact .goes (.blockAll position)
  case checkAll =>
    obtain rfl := Option.some.inj taken
    split
    · rename_i few
      exact .goes (.waitAll position few)
    · rename_i all
      exact .goes (.readyAll position (not_lt.mp all))
  case unblockAll =>
    obtain rfl := Option.some.inj taken
    exact .goes (.unblockAll position)
  case ignoreChildren =>
    obtain rfl := Option.some.inj taken
    exact .goes (.ignoreChildren position)
  case close i =>
    split at taken
    · rename_i inside
      obtain rfl := Option.some.inj taken
      exact .close position inside
    · rename_i outside
      obtain rfl := Option.some.inj taken
      exact .goes (.closed position outside)
  case resumeLast i =>
    obtain rfl := Option.some.inj taken
    exact .resumeLast position
  case waitpid i =>
    split at taken
    · rename_i inside
      split at taken
      · rename_i exited
        obtain rfl := Option.some.inj taken
        exact .goes (.reaps position inside exited)
      · cases taken
    · rename_i outside
      obtain rfl := Option.some.inj taken
      exact .returns position outside
  all_goals cases taken

/-- The steps of the farm. -/
inductive FarmMove (state : Farm n) : FarmLabel n → Farm n → Prop
  | manager {next} (move : ManagerMove state next) : FarmMove state .manager next
  | sigchld (pending : state.pending = true) (handles : state.pc.handles = true)
      (unblocked : state.blocked = false ∨ state.pc = .suspend ∨ state.pc = .suspendAll) :
      FarmMove state .sigchld state.markWorkersAsAvailable
  | worker {i worker} (moved : (state.workers i).step (state.hasWriter i) = some worker) :
      FarmMove state (.worker i)
        { state.setWorker i worker with
          pending := state.pending || (worker.pc = .stopped || worker.pc = .exited) }
  | pipeFails {i} (position : state.pc = .pipe i) : FarmMove state .fails (state.stop .terminated)
  | forkFails {i} (position : state.pc = .fork i) : FarmMove state .fails (state.stop .terminated)

theorem farmMove_of_step {label : FarmLabel n} (taken : state.step label = some after) :
    FarmMove state label after := by
  cases label with
  | manager => exact .manager (managerMove_of_step taken)
  | sigchld =>
      rw [Farm.step] at taken
      split at taken
      · rename_i enabled
        obtain rfl := Option.some.inj taken
        exact .sigchld enabled.1 enabled.2.1 enabled.2.2
      · cases taken
  | worker i =>
      obtain ⟨worker, moved, taken⟩ := Option.bind_eq_some_iff.mp taken
      obtain rfl := Option.some.inj taken
      exact .worker moved
  | fails =>
      rw [Farm.step] at taken
      split at taken
      · rename_i position
        obtain rfl := Option.some.inj taken
        exact .pipeFails position
      · rename_i position
        obtain rfl := Option.some.inj taken
        exact .forkFails position
      · cases taken

end Multiprocessing
end Syscore
