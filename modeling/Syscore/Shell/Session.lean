import Syscore.Library.Decimal
import Syscore.Library.Interleaving
import Syscore.Shell.Jobs
import Syscore.Shell.Parser

/-!
# A session of stsh

`main` with its built-ins, launches and foreground waits, interrupted by `handleSIGCHLD` wherever
`SIGCHLD` is not blocked. A child may be reported stopped, continued or ended at any time, so the
signals that the shell sends are not recorded, and neither is what it prints. The members of a group
are the unreaped children that the shell put into it.
-/

namespace Syscore
namespace Shell

/-- An unreaped child. -/
structure Kid where
  pid : Pid
  pgid : Pid
  /-- The job that the child was launched as part of; none while its launch is not complete. -/
  job : Option ℕ
  /-- The last state that `waitpid` reported. -/
  last : ProcState
  /-- Whether `fg` or `bg` named its job since. -/
  resumed : Bool
  deriving DecidableEq

/-- The children of a launch become part of its job. -/
def adopt (kids : List Kid) (pids : List Pid) (num : ℕ) : List Kid :=
  kids.map fun kid => if kid.pid ∈ pids then { kid with job := some num } else kid

/-- The children of a job after `fg` or `bg`. -/
def resume (kids : List Kid) (num : ℕ) : List Kid :=
  kids.map fun kid => if kid.job = some num then { kid with resumed := true } else kid

/-- The unreaped children after `waitpid`. -/
def waitpid (kids : List Kid) (pid : Pid) (status : Status) : List Kid :=
  match status with
  | .exited | .signaled => kids.filter fun kid => kid.pid ≠ pid
  | .stopped | .continued =>
      kids.map fun kid =>
        if kid.pid = pid then { kid with last := status.state, resumed := false } else kid

/-- Positions in `main`, named by the next region. A foreground wait has the group it was given, and
the number of the job that it was called for. -/
inductive MainPc
  /-- About to read a line. -/
  | prompt
  /-- In `runBuiltin`, before `SIGCHLD` is blocked. -/
  | builtin (argv : List Text)
  /-- In `runPipeline`, with `SIGCHLD` blocked and some children forked. -/
  | launch (p : Pipeline) (cmdline : Text) (pgid : Pid) (pids : List Pid)
  /-- At the head of `waitForForegroundJob`. -/
  | waitCall (pgid : Pid) (num : ℕ)
  /-- At the condition of its loop, with `SIGCHLD` blocked. -/
  | waitLoop (pgid : Pid) (num : ℕ)
  /-- In `sigsuspend`. -/
  | suspended (pgid : Pid) (num : ℕ)
  /-- Past its loop, with `SIGCHLD` blocked. -/
  | waitEnd (pgid : Pid) (num : ℕ)
  /-- Before `maybeResetCounter`. -/
  | reset
  | exited
  deriving DecidableEq

/-- `SIGCHLD` is not blocked. -/
def MainPc.unblocked : MainPc → Bool
  | .prompt | .builtin _ | .waitCall _ _ | .suspended _ _ | .reset => true
  | .launch _ _ _ _ | .waitLoop _ _ | .waitEnd _ _ | .exited => false

/-- The shell and its unreaped children. -/
structure Session where
  pc : MainPc
  /-- Inside `handleSIGCHLD`. -/
  handling : Bool
  jobs : JobList
  fgPgid : Pid
  kids : List Kid
  /-- The identifiers that `fork` has returned. -/
  used : List Pid

/-- Who moves, and what the system call or the user gives. -/
inductive SessionLabel
  | main
  | read (line : Text)
  | eof
  | fork (pid : Pid)
  /-- `pipe` or `fork` fails. -/
  | fails
  /-- `handleSIGCHLD` begins. -/
  | signal
  /-- `waitpid` returns a child. -/
  | report (pid : Pid) (status : Status)
  /-- `waitpid` returns no child, and the handler returns. -/
  | handled

namespace Session

/-- `fork` may return the identifier. -/
def free (state : Session) (pid : Pid) : Bool :=
  pid ≠ 0 && state.kids.all fun kid => kid.pid ≠ pid && kid.pgid ≠ pid

/-- `fg` and `bg`, from the lookup of the job on. -/
def continueJob (state : Session) (foreground : Bool) (arg : Text) : Session :=
  match state.jobs.getJob (strtoul arg) with
  | none => { state with pc := .prompt }
  | some job =>
      let jobs := state.jobs.markGroupRunning job.num
      let kids := resume state.kids job.num
      if foreground then
        { state with
          jobs := jobs.setState job.num .foreground
          kids
          fgPgid := job.pgid
          pc := .waitCall job.pgid job.num }
      else
        { state with jobs := jobs.setState job.num .background, kids, pc := .prompt }

/-- `runBuiltin`, apart from `quit`: the others change neither the table nor the children. -/
def runBuiltin (state : Session) : List Text → Session
  | [cmd, arg] =>
      if cmd = ascii "fg" then state.continueJob true arg
      else if cmd = ascii "bg" then state.continueJob false arg
      else { state with pc := .prompt }
  | _ => { state with pc := .prompt }

/-- The built-ins that return to the prompt. -/
def isBuiltin (cmd : Text) : Bool :=
  cmd ∈ [ascii "jobs", ascii "fg", ascii "bg", ascii "slay", ascii "halt", ascii "cont"]

/-- `main` with the line that it read. -/
def readLine (state : Session) (line : Text) : Session :=
  let p := parsePipeline line
  if p.valid = false ∨ p.commands = [] then { state with pc := .prompt }
  else
    match p.commands with
    | [cmd :: args] =>
        if cmd = ascii "quit" ∨ cmd = ascii "exit" then { state with pc := .exited }
        else if isBuiltin cmd then { state with pc := .builtin (cmd :: args) }
        else { state with pc := .launch p line 0 [] }
    | _ => { state with pc := .launch p line 0 [] }

/-- The end of `runPipeline`. -/
def finishLaunch (state : Session) (p : Pipeline) (cmdline : Text) (pgid : Pid) (pids : List Pid) :
    Session :=
  let (num, jobs) :=
    state.jobs.launch pgid cmdline (if p.background then .background else .foreground) pids
  let kids := adopt state.kids pids num
  if p.background then { state with jobs, kids, pc := .prompt }
  else { state with jobs, kids, fgPgid := pgid, pc := .waitCall pgid num }

/-- The end of `waitForForegroundJob`, up to the mask. -/
def finishWait (state : Session) (pgid : Pid) : Session :=
  let jobs := match state.jobs.getJobByPgid pgid with
    | some job => if job.allStopped then state.jobs.setState job.num .background else state.jobs
    | none => state.jobs
  { state with jobs, fgPgid := 0, pc := .reset }

/-- The next region of `main`. -/
def mainStep (state : Session) : Option Session :=
  match state.pc with
  | .builtin argv => some (state.runBuiltin argv)
  | .launch p cmdline pgid pids =>
      if pids.length = p.commands.length then
        some (state.finishLaunch p cmdline pgid pids)
      else
        none
  | .waitCall pgid num => some { state with pc := .waitLoop pgid num }
  | .waitLoop pgid num =>
      match state.jobs.getJobByPgid pgid with
      | some job =>
          if job.anyRunning then some { state with pc := .suspended pgid num }
          else some { state with pc := .waitEnd pgid num }
      | none => some { state with pc := .waitEnd pgid num }
  | .waitEnd pgid _ => some (state.finishWait pgid)
  | .reset => some { state with jobs := state.jobs.maybeResetCounter, pc := .prompt }
  | .prompt | .suspended _ _ | .exited => none

/-- `fork`, and `setpgid` by the shell and the child. -/
def forkStep (state : Session) (pid : Pid) : Option Session :=
  match state.pc with
  | .launch p cmdline pgid pids =>
      if pids.length < p.commands.length ∧ state.free pid = true then
        let pgid := if pgid = 0 then pid else pgid
        let kid : Kid := { pid, pgid, job := none, last := .running, resumed := false }
        some
          { state with
            kids := state.kids ++ [kid]
            used := pid :: state.used
            pc := .launch p cmdline pgid (pids ++ [pid]) }
      else none
  | _ => none

/-- One step of a session. -/
def step (state : Session) : SessionLabel → Option Session
  | .main => if state.handling then none else state.mainStep
  | .read line =>
      if state.handling = false ∧ state.pc = .prompt then some (state.readLine line) else none
  | .eof =>
      if state.handling = false ∧ state.pc = .prompt then
        some { state with pc := .exited }
      else
        none
  | .fork pid => state.forkStep pid
  | .fails =>
      match state.pc with
      | .launch p _ _ pids =>
          if pids.length < p.commands.length then some { state with pc := .prompt } else none
      | _ => none
  | .signal =>
      if state.handling = false ∧ state.pc.unblocked = true then
        some { state with handling := true }
      else none
  | .report pid status =>
      if state.handling = true ∧ ∃ kid ∈ state.kids, kid.pid = pid then
        some
          { state with
            jobs := state.jobs.handleReport pid status
            kids := waitpid state.kids pid status }
      else none
  | .handled =>
      if state.handling then
        match state.pc with
        | .suspended pgid num => some { state with handling := false, pc := .waitLoop pgid num }
        | _ => some { state with handling := false }
      else none

/-- What one step does, for each position of `main` and of the handler. -/
inductive Move (state : Session) : SessionLabel → Session → Prop
  | builtin {argv : List Text} (idle : state.handling = false)
      (position : state.pc = .builtin argv) : Move state .main (state.runBuiltin argv)
  | finishLaunch {p : Pipeline} {cmdline : Text} {pgid : Pid} {pids : List Pid}
      (idle : state.handling = false) (position : state.pc = .launch p cmdline pgid pids)
      (whole : pids.length = p.commands.length) :
      Move state .main (state.finishLaunch p cmdline pgid pids)
  | waitCall {pgid : Pid} {num : ℕ} (idle : state.handling = false)
      (position : state.pc = .waitCall pgid num) :
      Move state .main { state with pc := .waitLoop pgid num }
  | suspends {pgid : Pid} {num : ℕ} {job : Job} (idle : state.handling = false)
      (position : state.pc = .waitLoop pgid num) (found : state.jobs.getJobByPgid pgid = some job)
      (running : job.anyRunning = true) : Move state .main { state with pc := .suspended pgid num }
  | endsWait {pgid : Pid} {num : ℕ} (idle : state.handling = false)
      (position : state.pc = .waitLoop pgid num)
      (stopped : ∀ job, state.jobs.getJobByPgid pgid = some job → job.anyRunning = false) :
      Move state .main { state with pc := .waitEnd pgid num }
  | finishWait {pgid : Pid} {num : ℕ} (idle : state.handling = false)
      (position : state.pc = .waitEnd pgid num) : Move state .main (state.finishWait pgid)
  | reset (idle : state.handling = false) (position : state.pc = .reset) :
      Move state .main { state with jobs := state.jobs.maybeResetCounter, pc := .prompt }
  | read (line : Text) (idle : state.handling = false) (position : state.pc = .prompt) :
      Move state (.read line) (state.readLine line)
  | eof (idle : state.handling = false) (position : state.pc = .prompt) :
      Move state .eof { state with pc := .exited }
  | fork {pid : Pid} {p : Pipeline} {cmdline : Text} {pgid : Pid} {pids : List Pid}
      (position : state.pc = .launch p cmdline pgid pids)
      (more : pids.length < p.commands.length) (free : state.free pid = true) :
      Move state (.fork pid)
        { state with
          kids := state.kids ++
            [{ pid, pgid := if pgid = 0 then pid else pgid, job := none, last := .running,
               resumed := false }]
          used := pid :: state.used
          pc := .launch p cmdline (if pgid = 0 then pid else pgid) (pids ++ [pid]) }
  | fails {p : Pipeline} {cmdline : Text} {pgid : Pid} {pids : List Pid}
      (position : state.pc = .launch p cmdline pgid pids)
      (more : pids.length < p.commands.length) : Move state .fails { state with pc := .prompt }
  | signal (idle : state.handling = false) (unblocked : state.pc.unblocked = true) :
      Move state .signal { state with handling := true }
  | report {kid : Kid} (status : Status) (busy : state.handling = true)
      (inside : kid ∈ state.kids) : Move state (.report kid.pid status)
        { state with
          jobs := state.jobs.handleReport kid.pid status
          kids := waitpid state.kids kid.pid status }
  | wakes {pgid : Pid} {num : ℕ} (busy : state.handling = true)
      (position : state.pc = .suspended pgid num) :
      Move state .handled { state with handling := false, pc := .waitLoop pgid num }
  | returns (busy : state.handling = true) (awake : ∀ pgid num, state.pc ≠ .suspended pgid num) :
      Move state .handled { state with handling := false }

section Moves

variable {state after : Session}

theorem move_of_mainStep (idle : state.handling = false) (taken : state.mainStep = some after) :
    Move state .main after := by
  rw [mainStep] at taken
  split at taken
  · rename_i position
    obtain rfl := Option.some.inj taken
    exact .builtin idle position
  · rename_i position
    split at taken
    · rename_i whole
      obtain rfl := Option.some.inj taken
      exact .finishLaunch idle position whole
    · cases taken
  · rename_i position
    obtain rfl := Option.some.inj taken
    exact .waitCall idle position
  · rename_i position
    split at taken
    · rename_i job found
      split at taken
      · rename_i running
        obtain rfl := Option.some.inj taken
        exact .suspends idle position found running
      · rename_i stopped
        obtain rfl := Option.some.inj taken
        refine .endsWait idle position fun other same => ?_
        obtain rfl := Option.some.inj (found.symm.trans same)
        exact Bool.not_eq_true _ ▸ stopped
    · rename_i gone
      obtain rfl := Option.some.inj taken
      exact .endsWait idle position fun job found => nomatch gone.symm.trans found
  · rename_i position
    obtain rfl := Option.some.inj taken
    exact .finishWait idle position
  · rename_i position
    obtain rfl := Option.some.inj taken
    exact .reset idle position
  all_goals cases taken

theorem move_of_step {label : SessionLabel} (taken : step state label = some after) :
    Move state label after := by
  cases label with
  | main =>
      rw [step] at taken
      split at taken
      · cases taken
      · rename_i idle
        exact move_of_mainStep (Bool.not_eq_true _ ▸ idle) taken
  | read line =>
      rw [step] at taken
      split at taken
      · rename_i position
        obtain rfl := Option.some.inj taken
        exact .read line position.1 position.2
      · cases taken
  | eof =>
      rw [step] at taken
      split at taken
      · rename_i position
        obtain rfl := Option.some.inj taken
        exact .eof position.1 position.2
      · cases taken
  | fork pid =>
      rw [step, forkStep] at taken
      split at taken
      · rename_i position
        split at taken
        · rename_i allowed
          obtain rfl := Option.some.inj taken
          exact .fork position allowed.1 allowed.2
        · cases taken
      · cases taken
  | fails =>
      rw [step] at taken
      split at taken
      · rename_i position
        split at taken
        · rename_i more
          obtain rfl := Option.some.inj taken
          exact .fails position more
        · cases taken
      · cases taken
  | signal =>
      rw [step] at taken
      split at taken
      · rename_i position
        obtain rfl := Option.some.inj taken
        exact .signal position.1 position.2
      · cases taken
  | report pid status =>
      rw [step] at taken
      split at taken
      · rename_i reported
        obtain ⟨busy, kid, inside, rfl⟩ := reported
        obtain rfl := Option.some.inj taken
        exact .report status busy inside
      · cases taken
  | handled =>
      rw [step] at taken
      split at taken
      · rename_i busy
        split at taken
        · rename_i position
          obtain rfl := Option.some.inj taken
          exact .wakes busy position
        · rename_i awake
          obtain rfl := Option.some.inj taken
          exact .returns busy awake
      · cases taken

/-- A built-in returns to the prompt, unless it is a `fg` or `bg` that finds its job. -/
theorem runBuiltin_cases (state : Session) (argv : List Text) :
    state.runBuiltin argv = { state with pc := .prompt } ∨
      ∃ foreground arg, state.runBuiltin argv = state.continueJob foreground arg := by
  unfold runBuiltin
  split
  · split
    · exact .inr ⟨true, _, rfl⟩
    · split
      · exact .inr ⟨false, _, rfl⟩
      · exact .inl rfl
  · exact .inl rfl

/-- What a line makes of a session: only the position of `main` changes. -/
theorem readLine_cases (state : Session) (line : Text) :
    state.readLine line = { state with pc := .prompt } ∨
      state.readLine line = { state with pc := .exited } ∨
      (∃ argv, state.readLine line = { state with pc := .builtin argv }) ∨
      ∃ p, p.commands ≠ [] ∧ state.readLine line = { state with pc := .launch p line 0 [] } := by
  unfold readLine
  simp only
  split
  · exact .inl rfl
  · rename_i fine
    have nonempty : (parsePipeline line).commands ≠ [] := fun empty => fine (.inr empty)
    split
    · split
      · exact .inr (.inl rfl)
      · split
        · exact .inr (.inr (.inl ⟨_, rfl⟩))
        · exact .inr (.inr (.inr ⟨_, nonempty, rfl⟩))
    · exact .inr (.inr (.inr ⟨_, nonempty, rfl⟩))

end Moves

/-- The shell before its first line. -/
def start : Session where
  pc := .prompt
  handling := false
  jobs := .empty
  fgPgid := 0
  kids := []
  used := []

/-- A session as a machine. -/
def machine : Machine Session SessionLabel where
  start state := state = start
  step := step

end Session

end Shell
end Syscore
