import Syscore.Library.CloseOnExec
import Syscore.Library.Interleaving

/-!
# Two programs and a pipe

`pipeline` of `src/multiprocessing/pipeline.cc`: one pipe, two children, and what each process has
open, whichever system call fails. The children go their own ways from the moment they are forked.
-/

namespace Syscore
namespace Multiprocessing

abbrev PipelineTable := Descriptors (Flagged (OpenFile Side))

/-- Where a child is: the first child keeps the write end, the second one the read end. -/
inductive StagePc
  | dup2
  | closeRead
  | closeWrite
  | execvp
  | running
  | exited
  deriving DecidableEq

structure StageProcess where
  fds : PipelineTable
  pc : StagePc

/-- Where the caller is in `pipeline`. -/
inductive PipelinePc
  | pipe
  | forkFirst
  | forkSecond
  | closeRead
  | closeWrite
  | returned
  | threw
  deriving DecidableEq

/-- The caller and its children, by the end that they keep. -/
structure Pipeline where
  parent : PipelineTable
  pc : PipelinePc := .pipe
  /-- The array that `pipe` fills. -/
  fds : Option (ℕ × ℕ) := none
  children : Side → Option StageProcess := fun _ => none

/-- `STDIN_FILENO` or `STDOUT_FILENO`. -/
def standard : Side → ℕ
  | .read => 0
  | .write => 1

/-- `fds[kReadEnd]` or `fds[kWriteEnd]`. -/
def endOf (fds : ℕ × ℕ) : Side → ℕ
  | .read => fds.1
  | .write => fds.2

/-- The next call of a child. A failed `execvp` is an end of the child. -/
def StageProcess.step (fds : ℕ × ℕ) (side : Side) (process : StageProcess) : Option StageProcess :=
  match process.pc with
  | .dup2 =>
      some { fds := process.fds.duplicate (endOf fds side) (standard side), pc := .closeRead }
  | .closeRead => some { fds := process.fds.close fds.1, pc := .closeWrite }
  | .closeWrite => some { fds := process.fds.close fds.2, pc := .execvp }
  | .execvp => some { fds := process.fds.exec, pc := .running }
  | .running | .exited => none

/-- Who moves. -/
inductive PipelineLabel
  | parent
  /-- The next call of the caller fails. -/
  | fails
  | child (side : Side)
  /-- A child ends: `execvp` fails, its program is done, or a signal kills it. -/
  | exits (side : Side)

namespace Pipeline

def fork (state : Pipeline) (side : Side) : Side → Option StageProcess :=
  Function.update state.children side (some { fds := state.parent, pc := .dup2 })

/-- The next call of the caller, when it works. -/
def parentStep (state : Pipeline) : Option Pipeline :=
  match state.pc with
  | .pipe =>
      let made := state.parent.pipe false .read .write
      some { state with parent := made.2, fds := some made.1, pc := .forkFirst }
  | .forkFirst => some { state with children := state.fork .write, pc := .forkSecond }
  | .forkSecond => some { state with children := state.fork .read, pc := .closeRead }
  | .closeRead =>
      state.fds.map fun fds => { state with parent := state.parent.close fds.1, pc := .closeWrite }
  | .closeWrite =>
      state.fds.map fun fds => { state with parent := state.parent.close fds.2, pc := .returned }
  | .returned | .threw => none

def step (state : Pipeline) : PipelineLabel → Option Pipeline
  | .parent => state.parentStep
  | .fails =>
      match state.pc with
      | .pipe | .forkFirst | .forkSecond => some { state with pc := .threw }
      | .closeRead | .closeWrite | .returned | .threw => none
  | .child side => do
      let fds ← state.fds
      let process ← state.children side
      let process ← process.step fds side
      some { state with children := Function.update state.children side (some process) }
  | .exits side => do
      let process ← state.children side
      if process.pc = .exited then none
      else
        some { state with
          children := Function.update state.children side (some { fds := ⟨[]⟩, pc := .exited }) }

end Pipeline

/-- A call of `pipeline` by a process with these descriptors. -/
def pipeline (base : PipelineTable) : Machine Pipeline PipelineLabel where
  start state := state = { parent := base }
  step := Pipeline.step

namespace Pipeline

/-- Some process has an end of the pipe open. -/
def Holds (state : Pipeline) (side : Side) : Prop :=
  (∃ fd cloexec, state.parent.get fd = some ⟨.pipeEnd side, cloexec⟩) ∨
    ∃ other process fd cloexec, state.children other = some process ∧
      process.fds.get fd = some ⟨.pipeEnd side, cloexec⟩

/-- The program of each child has its end of the pipe for its standard descriptor, and everything
else as if the caller had run it. -/
def Wired (base : PipelineTable) (state : Pipeline) : Prop :=
  ∀ side process, state.children side = some process → process.pc = .running → ∀ fd,
    process.fds.get fd =
      if fd = standard side then some ⟨.pipeEnd side, false⟩ else base.exec.get fd

/-- Every child runs its program or has ended. -/
def Settled (state : Pipeline) : Prop :=
  ∀ side, ∃ process, state.children side = some process ∧
    (process.pc = .running ∨ process.pc = .exited)

end Pipeline

/-! ## Tables by position -/

section Tables

variable (base : PipelineTable)

/-- The table behind `pipe`. -/
def piped : PipelineTable := (base.pipe false .read .write).2

/-- The descriptors that `pipe` gives. -/
def pipeFds : ℕ × ℕ := (base.pipe false .read .write).1

/-- A child behind `dup2`. -/
def redirected (side : Side) : PipelineTable :=
  (piped base).duplicate (endOf (pipeFds base) side) (standard side)

/-- What a child has open where. -/
def stageFds (side : Side) : StagePc → PipelineTable
  | .dup2 => piped base
  | .closeRead => redirected base side
  | .closeWrite => (redirected base side).close (pipeFds base).1
  | .execvp => ((redirected base side).close (pipeFds base).1).close (pipeFds base).2
  | .running => (((redirected base side).close (pipeFds base).1).close (pipeFds base).2).exec
  | .exited => ⟨[]⟩

/-- What the caller has open where, when every call works. -/
def callerFds : PipelinePc → PipelineTable
  | .pipe => base
  | .closeWrite => (piped base).close (pipeFds base).1
  | .returned => ((piped base).close (pipeFds base).1).close (pipeFds base).2
  | .forkFirst | .forkSecond | .closeRead | .threw => piped base

end Tables

variable {base : PipelineTable}

theorem get_piped (fd : ℕ) : (piped base).get fd =
    if fd = (pipeFds base).2 then some ⟨.pipeEnd .write, false⟩
    else if fd = (pipeFds base).1 then some ⟨.pipeEnd .read, false⟩ else base.get fd := by
  rw [piped, Descriptors.pipe, Descriptors.get_openFile, Descriptors.get_openFile]
  rfl

/-- The descriptors of a pipe are closed before. -/
theorem get_pipeFds (base : PipelineTable) :
    base.get (pipeFds base).1 = none ∧ base.get (pipeFds base).2 = none ∧
      (pipeFds base).1 ≠ (pipeFds base).2 := by
  have first : base.get (pipeFds base).1 = none := Descriptors.get_lowest
  have second : (base.openFile ⟨.pipeEnd Side.read, false⟩).2.get (pipeFds base).2 = none :=
    Descriptors.get_lowest
  rw [Descriptors.get_openFile] at second
  split at second
  · cases second
  · rename_i apart
    exact ⟨first, second, fun same => apart same.symm⟩

/-- The children that the caller has forked. -/
def PipelinePc.forked : PipelinePc → Side → Bool
  | .forkSecond, .write => true
  | .closeRead, _ | .closeWrite, _ | .returned, _ => true
  | _, _ => false

/-- What is known of a call of `pipeline`. -/
structure Follows (base : PipelineTable) (state : Pipeline) : Prop where
  /-- A call that threw has no pipe, or still has both ends of it. -/
  caller : state.parent = callerFds base state.pc ∧
      (state.pc ≠ .pipe → state.fds = some (pipeFds base)) ∨
    state.pc = .threw ∧ state.parent = base ∧ state.children = fun _ => none
  children : ∀ side process, state.children side = some process →
    process.fds = stageFds base side process.pc
  forked : ∀ side, state.pc.forked side = true → (state.children side).isSome = true
  unforked : state.pc = .pipe → state.children = fun _ => none

theorem follows_start (base : PipelineTable) : Follows base { parent := base } where
  caller := .inl ⟨rfl, fun later => absurd rfl later⟩
  children _ _ here := by cases here
  forked _ forked := by cases forked
  unforked _ := rfl

namespace Follows

variable {state after : Pipeline}

/-- Of a call that has not thrown. -/
theorem caller_at (follows : Follows base state) {pc : PipelinePc} (position : state.pc = pc)
    (running : pc ≠ .threw) :
    state.parent = callerFds base pc ∧ (pc ≠ .pipe → state.fds = some (pipeFds base)) := by
  subst position
  exact follows.caller.resolve_right fun threw => running threw.1

/-- A fork, by a caller that has the pipe. -/
theorem fork (follows : Follows base state) {side : Side} {pc : PipelinePc}
    (table : state.parent = piped base) (fds : state.fds = some (pipeFds base))
    (next : callerFds base pc = piped base) (begun : pc ≠ .pipe)
    (forked : ∀ other, pc.forked other = true → other ≠ side → state.pc.forked other = true) :
    Follows base { state with children := state.fork side, pc } where
  caller := .inl ⟨table.trans next.symm, fun _ => fds⟩
  children other process here := by
    have here : Function.update state.children side
      (some { fds := state.parent, pc := .dup2 }) other = some process := here
    by_cases same : other = side
    · subst same
      rw [Function.update_self] at here
      obtain rfl := Option.some.inj here
      exact table
    · rw [Function.update_of_ne same] at here
      exact follows.children other process here
  forked other known := by
    show (Function.update state.children side
      (some { fds := state.parent, pc := .dup2 }) other).isSome = true
    by_cases same : other = side
    · rw [same, Function.update_self]
      rfl
    · rw [Function.update_of_ne same]
      exact follows.forked other (forked other known same)
  unforked early := absurd early begun

theorem parentStep (follows : Follows base state) (taken : state.parentStep = some after) :
    Follows base after := by
  rw [Pipeline.parentStep] at taken
  cases position : state.pc with
  | pipe =>
      obtain ⟨table, _⟩ := follows.caller_at position fun same => by cases same
      rw [position] at taken
      obtain rfl := Option.some.inj taken
      have none := follows.unforked position
      refine ⟨.inl ⟨?_, fun _ => ?_⟩, follows.children, fun _ known => ?_, nofun⟩
      · rw [table]
        rfl
      · rw [table]
        rfl
      · cases known
  | forkFirst =>
      obtain ⟨table, fds⟩ := follows.caller_at position fun same => by cases same
      rw [position] at taken
      obtain rfl := Option.some.inj taken
      refine follows.fork table (fds fun same => by cases same) rfl (fun same => by cases same)
        fun other known apart => ?_
      cases other with
      | read => cases known
      | write => exact absurd rfl apart
  | forkSecond =>
      obtain ⟨table, fds⟩ := follows.caller_at position fun same => by cases same
      rw [position] at taken
      obtain rfl := Option.some.inj taken
      refine follows.fork table (fds fun same => by cases same) rfl (fun same => by cases same)
        fun other known apart => ?_
      cases other with
      | read => exact absurd rfl apart
      | write =>
          rw [position]
          rfl
  | closeRead | closeWrite =>
      obtain ⟨table, fds⟩ := follows.caller_at position fun same => by cases same
      rw [position] at taken
      have fds := fds fun same => by cases same
      have forked (side : Side) : (state.children side).isSome = true :=
        follows.forked side (by rw [position]; rfl)
      simp only [fds, Option.map_some] at taken
      obtain rfl := Option.some.inj taken
      refine ⟨.inl ⟨?_, fun _ => rfl⟩, follows.children, fun side _ => forked side,
        fun same => by cases same⟩
      rw [table]
      rfl
  | returned | threw =>
      rw [position] at taken
      cases taken

/-- One child changes. -/
theorem setChild (follows : Follows base state) {side : Side} {process next : StageProcess}
    (here : state.children side = some process) (known : next.fds = stageFds base side next.pc) :
    Follows base { state with children := Function.update state.children side (some next) } where
  caller := by
    refine follows.caller.imp_right fun threw => ?_
    rw [threw.2.2] at here
    cases here
  children other process' found := by
    have found : Function.update state.children side (some next) other = some process' := found
    by_cases same : other = side
    · subst same
      rw [Function.update_self] at found
      obtain rfl := Option.some.inj found
      exact known
    · rw [Function.update_of_ne same] at found
      exact follows.children other process' found
  forked other forked := by
    show (Function.update state.children side (some next) other).isSome = true
    by_cases same : other = side
    · rw [same, Function.update_self]
      rfl
    · rw [Function.update_of_ne same]
      exact follows.forked other forked
  unforked early := by
    rw [follows.unforked early] at here
    cases here

/-- A child has the pipe of the call. -/
theorem fds_of_child (follows : Follows base state) {side : Side} {process : StageProcess}
    (here : state.children side = some process) : state.fds = some (pipeFds base) := by
  rcases follows.caller with ⟨_, fds⟩ | ⟨_, _, none⟩
  · refine fds fun early => ?_
    rw [follows.unforked early] at here
    cases here
  · rw [none] at here
    cases here

theorem stageStep {side : Side} {process next : StageProcess}
    (known : process.fds = stageFds base side process.pc)
    (taken : process.step (pipeFds base) side = some next) :
    next.fds = stageFds base side next.pc := by
  rw [StageProcess.step] at taken
  cases position : process.pc with
  | running | exited =>
      rw [position] at taken
      cases taken
  | _ =>
      rw [position] at taken known
      obtain rfl := Option.some.inj taken
      rw [known]
      rfl

theorem step (follows : Follows base state) {label : PipelineLabel}
    (taken : state.step label = some after) : Follows base after := by
  cases label with
  | parent => exact follows.parentStep taken
  | fails =>
      rw [Pipeline.step] at taken
      cases position : state.pc with
      | pipe =>
          rw [position] at taken
          obtain rfl := Option.some.inj taken
          obtain ⟨table, _⟩ := follows.caller_at position fun same => by cases same
          exact ⟨.inr ⟨rfl, table, follows.unforked position⟩, follows.children,
            (fun _ known => by cases known), fun same => by cases same⟩
      | forkFirst | forkSecond =>
          rw [position] at taken
          obtain rfl := Option.some.inj taken
          obtain ⟨table, fds⟩ := follows.caller_at position fun same => by cases same
          exact ⟨.inl ⟨table, fun _ => fds fun same => by cases same⟩, follows.children,
            (fun _ known => by cases known), fun same => by cases same⟩
      | _ =>
          rw [position] at taken
          cases taken
  | child side =>
      obtain ⟨fds, filled, taken⟩ := Option.bind_eq_some_iff.mp taken
      obtain ⟨process, here, taken⟩ := Option.bind_eq_some_iff.mp taken
      obtain ⟨next, moved, taken⟩ := Option.bind_eq_some_iff.mp taken
      obtain rfl := Option.some.inj taken
      obtain rfl := Option.some.inj ((follows.fds_of_child here).symm.trans filled)
      exact follows.setChild here (stageStep (follows.children side process here) moved)
  | exits side =>
      obtain ⟨process, here, taken⟩ := Option.bind_eq_some_iff.mp taken
      obtain ⟨_, taken⟩ := Option.ite_none_left_eq_some.mp taken
      obtain rfl := Option.some.inj taken
      exact follows.setChild here rfl

end Follows

theorem follows_of_reachable {state : Pipeline}
    (reach : (pipeline base).Reachable .free state) : Follows base state := by
  refine reach.invariant (Follows base) ?_ ?_
  · rintro _ rfl
    exact follows_start base
  · intro _ _ _ follows _ taken
    exact follows.step taken

/-! ## What the programs get -/

/-- The descriptor of an end of the pipe. -/
theorem get_endOf (base : PipelineTable) (side : Side) :
    (piped base).get (endOf (pipeFds base) side) = some ⟨.pipeEnd side, false⟩ ∧
      base.get (endOf (pipeFds base) side) = none := by
  obtain ⟨first, second, apart⟩ := get_pipeFds base
  rw [get_piped]
  cases side with
  | read => exact ⟨(if_neg apart).trans (if_pos rfl), first⟩
  | write => exact ⟨if_pos rfl, second⟩

/-- With its standard descriptor open, a program gets its end of the pipe there, and nothing else is
changed. -/
theorem get_running (opened : ∀ side, base.get (standard side) ≠ none) (side : Side) (fd : ℕ) :
    (stageFds base side .running).get fd =
      if fd = standard side then some ⟨.pipeEnd side, false⟩ else base.exec.get fd := by
  obtain ⟨first, second, _⟩ := get_pipeFds base
  obtain ⟨here, closed⟩ := get_endOf base side
  have apart {other : ℕ} (none : base.get other = none) : standard side ≠ other := by
    rintro rfl
    exact opened side none
  rw [stageFds, Descriptors.get_exec, Descriptors.get_close, Descriptors.get_close, redirected,
    Descriptors.get_duplicate here (apart closed).symm, get_piped, Descriptors.get_exec]
  by_cases own : fd = standard side
  · rw [own, if_neg (apart second), if_neg (apart first), if_pos rfl, if_pos rfl]
    rfl
  · rw [if_neg own, if_neg own]
    by_cases write : fd = (pipeFds base).2
    · rw [if_pos write, write, second]
    · by_cases read : fd = (pipeFds base).1
      · rw [if_neg write, if_pos read, read, first]
      · rw [if_neg write, if_neg read, if_neg write, if_neg read]

/-- A program whose standard descriptor was taken for the read end has nothing there. -/
theorem get_running_of_taken {side : Side} (taken : (pipeFds base).1 = standard side) :
    (stageFds base side .running).get (standard side) = none := by
  rw [stageFds, Descriptors.get_exec, Descriptors.get_close, Descriptors.get_close, ← taken,
    if_pos rfl, ite_self]
  rfl

/-- A closed standard descriptor is taken for the read end, the lower one first. -/
theorem exists_taken (closed : ¬ ∀ side, base.get (standard side) ≠ none) :
    ∃ side, (pipeFds base).1 = standard side := by
  obtain ⟨side, closed⟩ := not_forall.mp closed
  have below : base.lowest ≤ standard side := Descriptors.lowest_le (not_not.mp closed)
  have small : standard side ≤ 1 := by cases side <;> decide
  have lowest : (pipeFds base).1 = base.lowest := rfl
  rcases Nat.le_one_iff_eq_zero_or_eq_one.mp (below.trans small) with zero | one
  · exact ⟨.read, lowest.trans zero⟩
  · exact ⟨.write, lowest.trans one⟩

/-! ## Runs -/

section Runs

variable {state : Pipeline}

/-- A child takes its next step. -/
theorem reachable_child (reach : (pipeline base).Reachable .free state) {side : Side}
    {process next : StageProcess} (here : state.children side = some process)
    (moved : process.step (pipeFds base) side = some next) :
    ∃ after, (pipeline base).Reachable .free after ∧ after.children side = some next := by
  let after : Pipeline :=
    { state with children := Function.update state.children side (some next) }
  have fds := (follows_of_reachable reach).fds_of_child here
  have taken : (pipeline base).step state (.child side) = some after :=
    Option.bind_eq_some_iff.mpr ⟨_, fds, Option.bind_eq_some_iff.mpr
      ⟨process, here, Option.bind_eq_some_iff.mpr ⟨next, moved, rfl⟩⟩⟩
  exact ⟨after, reach.next trivial taken, Function.update_self _ _ _⟩

/-- Each program comes to run. -/
theorem exists_running (base : PipelineTable) (side : Side) :
    ∃ state process, (pipeline base).Reachable .free state ∧ state.children side = some process ∧
      process.pc = .running := by
  let made : Pipeline := { parent := piped base, pc := .forkFirst, fds := some (pipeFds base) }
  let first : Pipeline := { made with children := made.fork .write, pc := .forkSecond }
  let second : Pipeline := { first with children := first.fork .read, pc := .closeRead }
  have pipes : (pipeline base).step { parent := base } .parent = some made := rfl
  have writer : (pipeline base).step made .parent = some first := rfl
  have reader : (pipeline base).step first .parent = some second := rfl
  have launched : (pipeline base).Reachable .free second :=
    (((Machine.Reachable.of_start rfl).next trivial pipes).next trivial writer).next trivial reader
  have here : second.children side = some { fds := piped base, pc := .dup2 } := by
    cases side with
    | read => simp [second, first, made, Pipeline.fork]
    | write => simp [second, first, made, Pipeline.fork]
  obtain ⟨_, reach, here⟩ := reachable_child launched here rfl
  obtain ⟨_, reach, here⟩ := reachable_child reach here rfl
  obtain ⟨_, reach, here⟩ := reachable_child reach here rfl
  obtain ⟨last, reach, here⟩ := reachable_child reach here rfl
  exact ⟨last, _, reach, here, rfl⟩

theorem wired_iff (base : PipelineTable) :
    (∀ state, (pipeline base).Reachable .free state → state.Wired base) ↔
      ∀ side, base.get (standard side) ≠ none := by
  constructor
  · intro wired
    by_contra closed
    obtain ⟨side, taken⟩ := exists_taken closed
    obtain ⟨state, process, reach, here, running⟩ := exists_running base side
    have found := wired state reach side process here running (standard side)
    rw [(follows_of_reachable reach).children side process here, running,
      get_running_of_taken taken, if_pos rfl] at found
    cases found
  · intro opened state reach side process here running fd
    rw [(follows_of_reachable reach).children side process here, running]
    exact get_running opened side fd

/-- A caller that returned has neither end. -/
theorem get_returned (base : PipelineTable) (fd : ℕ) :
    (callerFds base .returned).get fd = base.get fd := by
  obtain ⟨first, second, _⟩ := get_pipeFds base
  rw [callerFds, Descriptors.get_close, Descriptors.get_close, get_piped]
  by_cases write : fd = (pipeFds base).2
  · rw [if_pos write, write, second]
  · by_cases read : fd = (pipeFds base).1
    · rw [if_neg write, if_pos read, read, first]
    · rw [if_neg write, if_neg read, if_neg write, if_neg read]

theorem parentStep_of_threw (threw : state.pc = .threw) : state.parentStep = none := by
  rw [Pipeline.parentStep, threw]

/-- A call that threw stays where it is. -/
theorem parent_of_threw {later : Pipeline} (threw : state.pc = .threw)
    (leads : (pipeline base).Leads .free state later) : later.parent = state.parent := by
  have both : later.pc = .threw ∧ later.parent = state.parent := by
    refine leads.invariant (fun other => other.pc = .threw ∧ other.parent = state.parent)
      (fun before label after both _ taken => ?_) ⟨threw, rfl⟩
    cases label with
    | parent =>
        rw [show (pipeline base).step before .parent = before.parentStep from rfl,
          parentStep_of_threw both.1] at taken
        cases taken
    | fails =>
        have taken : before.step .fails = some after := taken
        rw [Pipeline.step, both.1] at taken
        cases taken
    | child side =>
        obtain ⟨_, _, taken⟩ := Option.bind_eq_some_iff.mp taken
        obtain ⟨_, _, taken⟩ := Option.bind_eq_some_iff.mp taken
        obtain ⟨_, _, taken⟩ := Option.bind_eq_some_iff.mp taken
        obtain rfl := Option.some.inj taken
        exact both
    | exits side =>
        obtain ⟨_, _, taken⟩ := Option.bind_eq_some_iff.mp taken
        obtain ⟨_, taken⟩ := Option.ite_none_left_eq_some.mp taken
        obtain rfl := Option.some.inj taken
        exact both
  exact both.2

/-- Of a call that returned only the children have the ends, each its own. -/
theorem holds_iff (outside : ∀ fd side cloexec, base.get fd ≠ some ⟨.pipeEnd side, cloexec⟩)
    (opened : ∀ side, base.get (standard side) ≠ none) (follows : Follows base state)
    (returned : state.pc = .returned) (settled : state.Settled) (side : Side) :
    state.Holds side ↔ ∃ process, state.children side = some process ∧ process.pc = .running := by
  constructor
  · rintro (⟨fd, cloexec, found⟩ | ⟨other, process, fd, cloexec, here, found⟩)
    · rw [(follows.caller_at returned fun same => by cases same).1, get_returned] at found
      exact absurd found (outside fd side cloexec)
    · obtain ⟨process', here', position⟩ := settled other
      obtain rfl := Option.some.inj (here.symm.trans here')
      rcases position with running | exited
      · rw [follows.children other process here, running, get_running opened] at found
        split at found
        · obtain rfl : other = side := by
            injection found with found
            injection found with found
            injection found
          exact ⟨process, here, running⟩
        · rw [Descriptors.get_exec] at found
          exact absurd (Option.filter_eq_some_iff.mp found).1 (outside fd side cloexec)
      · rw [follows.children other process here, exited] at found
        cases found
  · rintro ⟨process, here, running⟩
    refine .inr ⟨side, process, standard side, false, here, ?_⟩
    rw [follows.children side process here, running, get_running opened, if_pos rfl]

/-- Both programs are wired as in a shell if and only if the caller has its own input and output
open. A call that returns has neither end of the pipe, so that the reader is at its end when the
writer is gone and the writer breaks when the reader is; a call that throws has done nothing, or
keeps both ends for good. -/
theorem pipeline_wires (base : PipelineTable)
    (outside : ∀ fd side cloexec, base.get fd ≠ some ⟨.pipeEnd side, cloexec⟩) :
    ((∀ state, (pipeline base).Reachable .free state → state.Wired base) ↔
      ∀ side, base.get (standard side) ≠ none) ∧
    ∀ state, (pipeline base).Reachable .free state →
      (state.pc = .returned → (∀ fd, state.parent.get fd = base.get fd) ∧
        ((∀ side, base.get (standard side) ≠ none) → state.Settled → ∀ side, state.Holds side ↔
          ∃ process, state.children side = some process ∧ process.pc = .running)) ∧
      (state.pc = .threw → (state.parent = base ∧ ∀ side, state.children side = none) ∨
        ∀ later, (pipeline base).Leads .free state later → ∀ side, later.Holds side) := by
  refine ⟨wired_iff base, fun state reach => ?_⟩
  have follows := follows_of_reachable reach
  refine ⟨fun returned => ⟨fun fd => ?_, fun opened settled side => ?_⟩, fun threw => ?_⟩
  · rw [(follows.caller_at returned fun same => by cases same).1, get_returned]
  · exact holds_iff outside opened follows returned settled side
  · rcases follows.caller with ⟨table, _⟩ | ⟨_, table, none⟩
    · refine .inr fun later leads side => .inl ⟨endOf (pipeFds base) side, false, ?_⟩
      rw [parent_of_threw threw leads, table, threw]
      exact (get_endOf base side).1
    · exact .inl ⟨table, fun side => by rw [none]⟩

/-- A caller with its standard descriptors and nothing else. -/
def threeOpen : PipelineTable :=
  ⟨[some ⟨.other 0, false⟩, some ⟨.other 1, false⟩, some ⟨.other 2, false⟩]⟩

theorem outside_threeOpen (fd : ℕ) (side : Side) (cloexec : Bool) :
    threeOpen.get fd ≠ some ⟨.pipeEnd side, cloexec⟩ := by
  intro found
  match fd with
  | 0 | 1 | 2 => cases found
  | _ + 3 => cases found

/-- The second `fork` fails while the first child is on its way. -/
def secondForkFails : List PipelineLabel :=
  [.parent, .parent, .child .write, .fails, .child .write]

theorem secondForkFails_finishes :
    ((pipeline threeOpen).exec .free { parent := threeOpen } secondForkFails).isSome = true := by
  decide

/-- The call there. -/
def secondForkFailed : Pipeline :=
  ((pipeline threeOpen).exec .free { parent := threeOpen } secondForkFails).get
    secondForkFails_finishes

theorem pipeline_wires_threeOpen : secondForkFailed.pc = .threw ∧
    (∀ state, (pipeline threeOpen).Reachable .free state → state.Wired threeOpen) ∧
    ∀ later, (pipeline threeOpen).Leads .free secondForkFailed later →
      ∀ side, later.Holds side := by
  have reach : (pipeline threeOpen).Reachable .free secondForkFailed :=
    .of_exec rfl secondForkFails secondForkFails_finishes
  have threw : secondForkFailed.pc = .threw := by decide
  obtain ⟨wired, calls⟩ := pipeline_wires threeOpen outside_threeOpen
  refine ⟨threw, wired.mpr fun side => ?_, ?_⟩
  · cases side with
    | read | write => exact Option.some_ne_none _
  · rcases (calls secondForkFailed reach).2 threw with ⟨_, none⟩ | leaks
    · have forked : (secondForkFailed.children .write).isSome = true := by decide
      rw [none] at forked
      cases forked
    · exact leaks

end Runs

end Multiprocessing
end Syscore
