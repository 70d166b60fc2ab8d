import Syscore.Shell.Reuse

/-!
# Signals and the terminal

The calls of `kill` and `tcsetpgrp` in a session whose standard input is a terminal:
`forwardToForeground` on Ctrl-C and Ctrl-Z, the built-ins that signal a job or a process, and
`giveTerminalTo`. A signal reaches the processes of the job that it is meant for and no others, and
the shell has the terminal whenever it reads a line.
-/

namespace Syscore
namespace Shell

/-! ## Calls -/

/-- Whom `kill` names: a process group, by a negative number, or one process. -/
inductive Target where
  | group (pgid : Pid)
  | process (pid : Pid)
  deriving DecidableEq

/-- The signals that the shell sends. -/
inductive Signal where
  | int
  | tstp
  | kill
  | cont
  deriving DecidableEq

/-- The unreaped children that a signal reaches. -/
def Target.reached (kids : List Kid) : Target → List Kid
  | .group pgid => kids.filter fun kid => kid.pgid = pgid
  | .process pid => kids.filter fun kid => kid.pid = pid

/-- `resolveTarget`. -/
def resolveTarget (jobs : JobList) : Text → Option Target
  | [] => none
  | 37 :: num => (jobs.getJob (strtoul num)).map fun job => .group job.pgid
  | arg => if 0 < atoi arg then some (.process (atoi arg).toNat) else none

namespace Session

/-- `forwardToForeground`. -/
def forward (state : Session) (sig : Signal) : Option (Target × Signal) :=
  if 0 < state.fgPgid then some (.group state.fgPgid, sig) else none

/-- The call of `kill` in `runBuiltin`. -/
def builtinKill (state : Session) : List Text → Option (Target × Signal)
  | [cmd, arg] =>
      if cmd = ascii "fg" ∨ cmd = ascii "bg" then
        (state.jobs.getJob (strtoul arg)).map fun job => (.group job.pgid, .cont)
      else if cmd = ascii "slay" then
        (resolveTarget state.jobs arg).map fun target => (target, .kill)
      else if cmd = ascii "halt" then
        (resolveTarget state.jobs arg).map fun target => (target, .tstp)
      else if cmd = ascii "cont" then
        (resolveTarget state.jobs arg).map fun target => (target, .cont)
      else
        none
  | _ => none

end Session

/-- The group and the job that a foreground wait is for. -/
def MainPc.awaited : MainPc → Option (Pid × ℕ)
  | .waitCall pgid num | .waitLoop pgid num | .suspended pgid num | .waitEnd pgid num =>
      some (pgid, num)
  | _ => none

/-- A session and the group that has the terminal. -/
structure Console where
  session : Session
  terminal : Pid

/-- The group that has the terminal after a step: `giveTerminalTo` is called at the end of
`runPipeline`, in `fg` before the wait, and after the wait. -/
def Console.handed (own : Pid) (state : Console) (after : Session) : SessionLabel → Pid
  | .main =>
      match state.session.pc, after.pc with
      | .launch _ _ _ _, .waitCall pgid _ => pgid
      | .waitCall pgid _, _ => pgid
      | .reset, _ => own
      | _, _ => state.terminal
  | _ => state.terminal

/-- A session with its terminal, where the group of the shell is `own`. -/
def console (own : Pid) : Machine Console SessionLabel where
  start state := state = { session := .start, terminal := own }
  step state label := (Session.step state.session label).map fun session =>
    { session, terminal := state.handed own session label }

/-- The reports that name the child of the only entry with that identifier. -/
def creditableAt : Discipline Console SessionLabel := fun state label =>
  creditable state.session label

/-! ## Children of no job -/

/-- The children that an incomplete launch left behind share no group with a job. -/
structure Apart (state : Session) : Prop where
  jobs : ∀ kid ∈ state.kids, kid.job = none → ∀ job ∈ state.jobs.jobs, job.pgid ≠ kid.pgid
  awaited : ∀ pgid num, state.pc.awaited = some (pgid, num) →
    ∀ kid ∈ state.kids, kid.job = none → kid.pgid ≠ pgid
  launching : ∀ p cmdline pgid pids, state.pc = .launch p cmdline pgid pids → pids ≠ [] →
    ∀ kid ∈ state.kids, kid.pgid = pgid → kid.pid ∈ pids

namespace Apart

variable {state after : Session} {label : SessionLabel}

/-- The position moves to one that neither waits nor launches, or waits as before. -/
theorem of_quiet (apart : Apart state) (jobs : after.jobs.jobs = state.jobs.jobs)
    (kids : after.kids = state.kids) (awaited : after.pc.awaited = none ∨
      after.pc.awaited = state.pc.awaited)
    (idle : ∀ p cmdline pgid pids, after.pc = .launch p cmdline pgid pids → pids = []) :
    Apart after where
  jobs := by
    rw [jobs, kids]
    exact apart.jobs
  awaited pgid num waits := by
    rw [kids]
    rcases awaited with none | same
    · cases none.symm.trans waits
    · exact apart.awaited pgid num (same.symm.trans waits)
  launching p cmdline pgid pids position some_pid :=
    absurd (idle p cmdline pgid pids position) some_pid

theorem start : Apart .start where
  jobs := nofun
  awaited := nofun
  launching := nofun

/-- `fg` and `bg`. -/
theorem continueJob (apart : Apart state) (foreground : Bool) (arg : Text) :
    Apart (state.continueJob foreground arg) := by
  unfold Session.continueJob
  cases found : state.jobs.getJob (strtoul arg) with
  | none => exact apart.of_quiet rfl rfl (.inl rfl) nofun
  | some job =>
      obtain ⟨known, -⟩ := JobList.mem_of_getJob found
      have orphan {kid : Kid} (inside : kid ∈ resume state.kids job.num) (alone : kid.job = none) :
          ∃ old ∈ state.kids, old.job = none ∧ old.pgid = kid.pgid := by
        obtain ⟨old, before, rfl⟩ := List.mem_map.mp inside
        split at alone
        · exact ⟨old, before, alone, by rw [if_pos ‹_›]⟩
        · exact ⟨old, before, alone, by rw [if_neg ‹_›]⟩
      have same {jobState : JobState} {other : Job} (later : other ∈
          ((state.jobs.markGroupRunning job.num).setState job.num jobState).jobs) :
          ∃ old ∈ state.jobs.jobs, old.pgid = other.pgid := by
        rcases JobList.mem_modify.mp later with ⟨inside, -⟩ | ⟨marked, inside, -, rfl⟩
        · rcases JobList.mem_modify.mp inside with ⟨old, -⟩ | ⟨old, before, -, rfl⟩
          · exact ⟨other, old, rfl⟩
          · exact ⟨old, before, rfl⟩
        · rcases JobList.mem_modify.mp inside with ⟨old, -⟩ | ⟨old, before, -, rfl⟩
          · exact ⟨marked, old, rfl⟩
          · exact ⟨old, before, rfl⟩
      have jobs {jobState : JobState} (kid : Kid) (inside : kid ∈ resume state.kids job.num)
          (alone : kid.job = none) (other : Job) (later : other ∈
            ((state.jobs.markGroupRunning job.num).setState job.num jobState).jobs) :
          other.pgid ≠ kid.pgid := by
        obtain ⟨orphaned, before, none, group⟩ := orphan inside alone
        obtain ⟨old, earlier, pgid⟩ := same later
        rw [← pgid, ← group]
        exact apart.jobs orphaned before none old earlier
      cases foreground with
      | false => exact ⟨jobs, nofun, nofun⟩
      | true =>
          refine ⟨jobs, fun pgid num waits kid inside alone => ?_, nofun⟩
          obtain ⟨rfl, -⟩ := Prod.mk.inj (Option.some.inj waits)
          obtain ⟨orphaned, before, none, group⟩ := orphan inside alone
          rw [← group]
          exact (apart.jobs orphaned before none job known).symm

/-- The end of `runPipeline`: the children of the launch are those of its group. -/
theorem finishLaunch (apart : Apart state) (ok : SessionOk state) {p : Pipeline} {cmdline : Text}
    {pgid : Pid} {pids : List Pid} (position : state.pc = .launch p cmdline pgid pids)
    (whole : pids.length = p.commands.length) :
    Apart (state.finishLaunch p cmdline pgid pids) := by
  have main := ok.main
  unfold MainOk at main
  rw [position] at main
  have some_pid : pids ≠ [] := by
    rintro rfl
    exact main.2.1 (List.eq_nil_of_length_eq_zero whole.symm)
  have orphan {num : ℕ} {kid : Kid} (inside : kid ∈ adopt state.kids pids num)
      (alone : kid.job = none) : kid ∈ state.kids ∧ kid.pgid ≠ pgid := by
    obtain ⟨old, before, rfl⟩ := List.mem_map.mp inside
    split at alone
    · cases alone
    · rename_i outside
      rw [if_neg outside]
      exact ⟨before, fun group =>
        outside (apart.launching p cmdline pgid pids position some_pid old before group)⟩
  have jobs (jobState : JobState) (kid : Kid)
      (inside : kid ∈ adopt state.kids pids (state.jobs.launch pgid cmdline jobState pids).1)
      (alone : kid.job = none) (job : Job)
      (known : job ∈ (state.jobs.launch pgid cmdline jobState pids).2.jobs) :
      job.pgid ≠ kid.pgid := by
    obtain ⟨before, group⟩ := orphan inside alone
    rw [JobList.jobs_launch] at known
    rcases List.mem_append.mp known with old | new
    · exact apart.jobs kid before alone job old
    · rw [List.mem_singleton.mp new]
      exact group.symm
  unfold Session.finishLaunch
  cases p.background with
  | true => exact ⟨jobs .background, nofun, nofun⟩
  | false =>
      refine ⟨jobs .foreground, fun _ num waits kid inside alone => ?_, nofun⟩
      obtain ⟨rfl, -⟩ := Prod.mk.inj (Option.some.inj waits)
      exact (orphan inside alone).2

/-- A forked child joins a group that only the children of its launch are in. -/
theorem fork (apart : Apart state) (ok : SessionOk state) {pid : Pid} {p : Pipeline}
    {cmdline : Text} {pgid : Pid} {pids : List Pid}
    (position : state.pc = .launch p cmdline pgid pids) (free : state.free pid = true) :
    Apart
      { state with
        kids := state.kids ++
          [{ pid, pgid := if pgid = 0 then pid else pgid, job := none, last := .running,
             resumed := false }]
        used := pid :: state.used
        pc := .launch p cmdline (if pgid = 0 then pid else pgid) (pids ++ [pid]) } := by
  have main := ok.main
  unfold MainOk at main
  rw [position] at main
  obtain ⟨-, -, head, launched, fresh⟩ := main
  have unused (kid : Kid) (inside : kid ∈ state.kids) : kid.pgid ≠ pid := by
    have others := List.all_eq_true.mp (Bool.and_eq_true_iff.mp free).2 kid inside
    exact of_decide_eq_true (Bool.and_eq_true_iff.mp others).2
  have begun (some_pid : pids ≠ []) : pgid ≠ 0 := by
    obtain ⟨first, rest, rfl⟩ := List.exists_cons_of_ne_nil some_pid
    exact head ▸ (launched first List.mem_cons_self).1
  have zero (none : pids = []) : pgid = 0 := by
    rw [none] at head
    exact head
  refine ⟨fun kid inside alone job known => ?_, nofun, fun _ _ _ _ same _ kid inside group => ?_⟩
  · rcases List.mem_append.mp inside with old | new
    · exact apart.jobs kid old alone job known
    · rw [List.mem_singleton.mp new]
      by_cases first : pids = []
      · rw [if_pos (zero first)]
        exact ok.ne_pgid_of_free free job known
      · rw [if_neg (begun first)]
        exact fresh first job known
  · obtain ⟨rfl, rfl, rfl, rfl⟩ := MainPc.launch.inj same
    rcases List.mem_append.mp inside with old | new
    · by_cases first : pids = []
      · rw [if_pos (zero first)] at group
        exact absurd group (unused kid old)
      · rw [if_neg (begun first)] at group
        exact List.mem_append_left _
          (apart.launching p cmdline pgid pids position first kid old group)
    · rw [List.mem_singleton.mp new]
      exact List.mem_append_right _ List.mem_cons_self

/-- `waitpid` takes a child away, or leaves it in its group and its job. -/
theorem report (apart : Apart state) (pid : Pid) (status : Status) :
    Apart { state with
      jobs := state.jobs.handleReport pid status, kids := waitpid state.kids pid status } := by
  have before {kid : Kid} (later : kid ∈ waitpid state.kids pid status) :
      ∃ old ∈ state.kids, old.pid = kid.pid ∧ old.pgid = kid.pgid ∧ old.job = kid.job := by
    rcases mem_waitpid.mp later with ⟨old, -⟩ | ⟨old, inside, -, -, rfl⟩
    · exact ⟨kid, old, rfl, rfl, rfl⟩
    · exact ⟨old, inside, rfl, rfl, rfl⟩
  refine ⟨fun kid later alone job known => ?_, fun pgid num waits kid later alone => ?_,
    fun p cmdline pgid pids position some_pid kid later group => ?_⟩
  · obtain ⟨old, inside, -, pgid, none⟩ := before later
    obtain ⟨earlier, before, -, group, -⟩ := before_handleReport known
    rw [← group, ← pgid]
    exact apart.jobs old inside (none.trans alone) earlier before
  · obtain ⟨old, inside, -, same, none⟩ := before later
    rw [← same]
    exact apart.awaited pgid num waits old inside (none.trans alone)
  · obtain ⟨old, inside, named, same, -⟩ := before later
    rw [← named]
    exact apart.launching p cmdline pgid pids position some_pid old inside (same.trans group)

/-- The end of a wait. -/
theorem finishWait (apart : Apart state) (pgid : Pid) : Apart (state.finishWait pgid) := by
  refine ⟨fun kid inside alone job known => ?_, nofun, nofun⟩
  have earlier : ∃ old ∈ state.jobs.jobs, old.pgid = job.pgid := by
    unfold Session.finishWait at known
    cases found : state.jobs.getJobByPgid pgid with
    | none =>
        rw [found] at known
        exact ⟨job, known, rfl⟩
    | some waited =>
        rw [found] at known
        dsimp only at known
        split at known
        · rcases JobList.mem_modify.mp known with ⟨old, -⟩ | ⟨old, before, -, rfl⟩
          · exact ⟨job, old, rfl⟩
          · exact ⟨old, before, rfl⟩
        · exact ⟨job, known, rfl⟩
  obtain ⟨old, before, same⟩ := earlier
  rw [← same]
  exact apart.jobs kid inside alone old before

/-- Every step. -/
theorem step (apart : Apart state) (ok : SessionOk state)
    (taken : Session.step state label = some after) : Apart after := by
  cases Session.move_of_step taken with
  | @builtin argv idle position =>
      rcases state.runBuiltin_cases argv with same | ⟨foreground, arg, same⟩
      · rw [same]
        exact apart.of_quiet rfl rfl (.inl rfl) nofun
      · rw [same]
        exact apart.continueJob foreground arg
  | finishLaunch idle position whole => exact apart.finishLaunch ok position whole
  | waitCall idle position | suspends idle position found running =>
      exact apart.of_quiet rfl rfl (.inr (by rw [position]; rfl)) nofun
  | endsWait idle position stopped =>
      exact apart.of_quiet rfl rfl (.inr (by rw [position]; rfl)) nofun
  | @finishWait pgid num idle position => exact apart.finishWait pgid
  | reset idle position => exact apart.of_quiet rfl rfl (.inl rfl) nofun
  | read line idle position =>
      rcases state.readLine_cases line with same | same | ⟨argv, same⟩ | ⟨p, nonempty, same⟩
      · rw [same]
        exact apart.of_quiet rfl rfl (.inl rfl) nofun
      · rw [same]
        exact apart.of_quiet rfl rfl (.inl rfl) nofun
      · rw [same]
        exact apart.of_quiet rfl rfl (.inl rfl) nofun
      · rw [same]
        refine apart.of_quiet rfl rfl (.inl rfl) fun _ _ _ pids position => ?_
        exact (MainPc.launch.inj position).2.2.2.symm
  | eof idle position => exact apart.of_quiet rfl rfl (.inl rfl) nofun
  | fork position more free => exact apart.fork ok position free
  | fails position more => exact apart.of_quiet rfl rfl (.inl rfl) nofun
  | signal idle unblocked => exact ⟨apart.jobs, apart.awaited, apart.launching⟩
  | report status busy inside => exact apart.report _ status
  | wakes busy position =>
      exact apart.of_quiet rfl rfl (.inr (by rw [position]; rfl)) nofun
  | returns busy awake => exact ⟨apart.jobs, apart.awaited, apart.launching⟩

end Apart

/-! ## Groups have a number -/

/-- The groups of the children and the group that is waited for are no zero. -/
structure Numbered (state : Session) : Prop where
  kids : ∀ kid ∈ state.kids, kid.pgid ≠ 0
  awaited : ∀ pgid num, state.pc.awaited = some (pgid, num) → pgid ≠ 0

namespace Numbered

variable {state after : Session} {label : SessionLabel}

/-- The children stay in their groups, and the position moves to one that does not wait or waits as
before. -/
theorem of_quiet (numbered : Numbered state)
    (kids : ∀ kid ∈ after.kids, ∃ old ∈ state.kids, old.pgid = kid.pgid)
    (awaited : after.pc.awaited = none ∨ after.pc.awaited = state.pc.awaited) :
    Numbered after where
  kids kid inside := by
    obtain ⟨old, before, same⟩ := kids kid inside
    exact same ▸ numbered.kids old before
  awaited pgid num waits := by
    rcases awaited with none | same
    · cases none.symm.trans waits
    · exact numbered.awaited pgid num (same.symm.trans waits)

/-- `fg` waits for the group of a job, which is that of a child. -/
theorem continueJob (numbered : Numbered state) (ok : SessionOk state) (foreground : Bool)
    (arg : Text) : Numbered (state.continueJob foreground arg) := by
  have kept (num : ℕ) (kid : Kid) (inside : kid ∈ resume state.kids num) :
      ∃ old ∈ state.kids, old.pgid = kid.pgid := by
    obtain ⟨old, before, rfl⟩ := List.mem_map.mp inside
    exact ⟨old, before, by split <;> rfl⟩
  unfold Session.continueJob
  cases found : state.jobs.getJob (strtoul arg) with
  | none => exact numbered.of_quiet (fun kid inside => ⟨kid, inside, rfl⟩) (.inl rfl)
  | some job =>
      cases foreground with
      | false => exact numbered.of_quiet (kept job.num) (.inl rfl)
      | true =>
          refine ⟨fun kid inside => ?_, fun pgid num waits => ?_⟩
          · obtain ⟨old, before, same⟩ := kept job.num kid inside
            exact same ▸ numbered.kids old before
          · obtain ⟨rfl, -⟩ := Prod.mk.inj (Option.some.inj waits)
            obtain ⟨known, -⟩ := JobList.mem_of_getJob found
            obtain ⟨kid, inside, own⟩ := ok.faithful.reaped job known
            obtain ⟨other, known', number, same, -⟩ :=
              ok.accounted.credit kid inside job.num own
            rw [← state.jobs.eq_of_num known' known number, same]
            exact numbered.kids kid inside

/-- The end of `runPipeline`: the group of the launch is its first child's identifier. -/
theorem finishLaunch (numbered : Numbered state) (ok : SessionOk state) {p : Pipeline}
    {cmdline : Text} {pgid : Pid} {pids : List Pid}
    (position : state.pc = .launch p cmdline pgid pids)
    (whole : pids.length = p.commands.length) :
    Numbered (state.finishLaunch p cmdline pgid pids) := by
  have main := ok.main
  unfold MainOk at main
  rw [position] at main
  obtain ⟨-, some_command, head, launched, -⟩ := main
  obtain ⟨first, rest, rfl⟩ : ∃ first rest, pids = first :: rest := by
    refine List.exists_cons_of_ne_nil ?_
    rintro rfl
    exact some_command (List.eq_nil_of_length_eq_zero whole.symm)
  have kept (num : ℕ) (kid : Kid) (inside : kid ∈ adopt state.kids (first :: rest) num) :
      ∃ old ∈ state.kids, old.pgid = kid.pgid := by
    obtain ⟨old, before, rfl⟩ := List.mem_map.mp inside
    exact ⟨old, before, by split <;> rfl⟩
  unfold Session.finishLaunch
  cases p.background with
  | true => exact numbered.of_quiet (kept _) (.inl rfl)
  | false =>
      refine ⟨fun kid inside => ?_, fun group num waits => ?_⟩
      · obtain ⟨old, before, same⟩ := kept _ kid inside
        exact same ▸ numbered.kids old before
      · obtain ⟨rfl, -⟩ := Prod.mk.inj (Option.some.inj waits)
        rw [head]
        exact (launched first List.mem_cons_self).1

/-- A forked child has a group: its own identifier, or that of the first child. -/
theorem fork (numbered : Numbered state) {pid : Pid} {p : Pipeline} {cmdline : Text} {pgid : Pid}
    {pids : List Pid} (free : state.free pid = true) :
    Numbered
      { state with
        kids := state.kids ++
          [{ pid, pgid := if pgid = 0 then pid else pgid, job := none, last := .running,
             resumed := false }]
        used := pid :: state.used
        pc := .launch p cmdline (if pgid = 0 then pid else pgid) (pids ++ [pid]) } := by
  refine ⟨fun kid inside => ?_, nofun⟩
  rcases List.mem_append.mp inside with old | new
  · exact numbered.kids kid old
  · rw [List.mem_singleton.mp new]
    by_cases first : pgid = 0
    · rw [if_pos first]
      exact of_decide_eq_true (Bool.and_eq_true_iff.mp free).1
    · rw [if_neg first]
      exact first

/-- Every step. -/
theorem step (numbered : Numbered state) (ok : SessionOk state)
    (taken : Session.step state label = some after) : Numbered after := by
  have same (kid : Kid) (inside : kid ∈ state.kids) : ∃ old ∈ state.kids, old.pgid = kid.pgid :=
    ⟨kid, inside, rfl⟩
  cases Session.move_of_step taken with
  | @builtin argv idle position =>
      rcases state.runBuiltin_cases argv with quiet | ⟨foreground, arg, continues⟩
      · rw [quiet]
        exact numbered.of_quiet same (.inl rfl)
      · rw [continues]
        exact numbered.continueJob ok foreground arg
  | finishLaunch idle position whole => exact numbered.finishLaunch ok position whole
  | waitCall idle position | suspends idle position found running | endsWait idle position stopped
  | wakes busy position =>
      exact numbered.of_quiet same (.inr (by rw [position]; rfl))
  | finishWait idle position => exact numbered.of_quiet same (.inl rfl)
  | reset idle position => exact numbered.of_quiet same (.inl rfl)
  | read line idle position =>
      rcases state.readLine_cases line with quiet | quiet | ⟨argv, quiet⟩ | ⟨p, -, quiet⟩ <;>
      · rw [quiet]
        exact numbered.of_quiet same (.inl rfl)
  | eof idle position | fails position more => exact numbered.of_quiet same (.inl rfl)
  | fork position more free => exact numbered.fork free
  | signal idle unblocked | returns busy awake => exact numbered.of_quiet same (.inr rfl)
  | @report kid status busy inside =>
      refine numbered.of_quiet (fun kid later => ?_) (.inr rfl)
      rcases mem_waitpid.mp later with ⟨old, -⟩ | ⟨old, before, -, -, rfl⟩
      · exact ⟨kid, old, rfl⟩
      · exact ⟨old, before, rfl⟩

end Numbered

/-! ## What a signal reaches -/

/-- The unreaped children that were launched as part of a job. -/
def members (kids : List Kid) (num : ℕ) : List Kid := kids.filter fun kid => kid.job = some num

variable {state : Session}

/-- The group of a job in the table is that of its unreaped processes. -/
theorem reached_job (ok : SessionOk state) (apart : Apart state) {job : Job}
    (known : job ∈ state.jobs.jobs) :
    (Target.group job.pgid).reached state.kids = members state.kids job.num := by
  refine List.filter_congr fun kid inside => decide_eq_decide.mpr ⟨fun group => ?_, fun own => ?_⟩
  · cases member : kid.job with
    | none => exact absurd group.symm (apart.jobs kid inside member job known)
    | some num =>
        obtain ⟨other, known', number, pgid, -⟩ := ok.accounted.credit kid inside num member
        rw [← number, ok.accounted.groups other known' job known (pgid.trans group)]
  · obtain ⟨other, known', number, pgid, -⟩ := ok.accounted.credit kid inside job.num own
    rw [← pgid, state.jobs.eq_of_num known' known number]

/-- A job in the table has an unreaped process. -/
theorem members_ne_nil (ok : SessionOk state) {job : Job} (known : job ∈ state.jobs.jobs) :
    members state.kids job.num ≠ [] := by
  obtain ⟨kid, inside, own⟩ := ok.faithful.reaped job known
  exact List.ne_nil_of_mem (List.mem_filter.mpr ⟨inside, decide_eq_true own⟩)

/-- During a wait the group in `fgPgid` is that of the unreaped processes of the job. -/
theorem reached_awaited (ok : SessionOk state) (apart : Apart state) {pgid : Pid} {num : ℕ}
    (awaited : state.pc.awaited = some (pgid, num)) :
    state.fgPgid = pgid ∧ (Target.group pgid).reached state.kids = members state.kids num := by
  have awaits : Awaits state pgid num := by
    have main := ok.main
    unfold MainOk at main
    cases position : state.pc <;> rw [position] at main awaited <;> cases awaited
    · exact main
    · exact main
    · exact main
    · exact main.1
  refine ⟨awaits.1, List.filter_congr fun kid inside =>
    decide_eq_decide.mpr ⟨fun group => ?_, fun own => ?_⟩⟩
  · cases member : kid.job with
    | none => exact absurd group (apart.awaited pgid num awaited kid inside member)
    | some other =>
        obtain ⟨job, known, number, same, -⟩ := ok.accounted.credit kid inside other member
        rw [← number, (awaits.2.2 job known).mp (same.trans group)]
  · obtain ⟨job, known, number, same, -⟩ := ok.accounted.credit kid inside num own
    rw [← same, (awaits.2.2 job known).mpr number]

/-! ## The terminal -/

/-- The shell has the terminal outside a wait, and the group of the job inside its loop. -/
def Owns (own : Pid) (state : Console) : Prop :=
  match state.session.pc with
  | .prompt | .builtin _ | .launch _ _ _ _ | .exited => state.terminal = own
  | .waitLoop pgid _ | .suspended pgid _ | .waitEnd pgid _ => state.terminal = pgid
  | .waitCall _ _ | .reset => True

theorem Owns.step {own : Pid} {state : Console} (owns : Owns own state) {label : SessionLabel}
    {after : Session} (taken : Session.step state.session label = some after) :
    Owns own { session := after, terminal := state.handed own after label } := by
  unfold Owns at owns ⊢
  cases Session.move_of_step taken with
  | @builtin argv idle position =>
      rw [position] at owns
      rcases state.session.runBuiltin_cases argv with same | ⟨foreground, arg, same⟩
      · rw [same]
        simp only [Console.handed, position]
        exact owns
      · rw [same, Session.continueJob]
        cases state.session.jobs.getJob (strtoul arg) with
        | none =>
            simp only [Console.handed, position]
            exact owns
        | some job =>
            cases foreground with
            | true => trivial
            | false =>
                simp only [Console.handed, position]
                exact owns
  | @finishLaunch p cmdline pgid pids idle position whole =>
      rw [position] at owns
      unfold Session.finishLaunch
      cases p.background with
      | true =>
          simp only [Console.handed, position]
          exact owns
      | false => trivial
  | waitCall idle position =>
      rw [position] at owns
      simp only [Console.handed, position]
  | suspends idle position found running =>
      rw [position] at owns
      simp only [Console.handed, position]
      exact owns
  | endsWait idle position stopped =>
      rw [position] at owns
      simp only [Console.handed, position]
      exact owns
  | finishWait idle position => trivial
  | reset idle position =>
      simp only [Console.handed, position]
  | read line idle position =>
      rw [position] at owns
      rcases state.session.readLine_cases line with same | same | ⟨argv, same⟩ | ⟨p, -, same⟩
      · rw [same]
        exact owns
      · rw [same]
        exact owns
      · rw [same]
        exact owns
      · rw [same]
        exact owns
  | eof idle position =>
      rw [position] at owns
      exact owns
  | fork position more free =>
      rw [position] at owns
      exact owns
  | fails position more =>
      rw [position] at owns
      exact owns
  | signal idle unblocked => exact owns
  | report status busy inside => exact owns
  | wakes busy position =>
      rw [position] at owns
      exact owns
  | returns busy awake => exact owns

/-! ## Runs -/

/-- Whom a built-in is asked to signal. -/
inductive Asked where
  | job (num : ℕ)
  | process (pid : Pid)

/-- The signals of the built-ins that take a process or, behind a percent sign, a job. -/
def killers : List (Text × Signal) :=
  [(ascii "slay", .kill), (ascii "halt", .tstp), (ascii "cont", .cont)]

/-- What the words of a built-in ask for. -/
inductive Asks : List Text → Asked → Signal → Prop
  | fg (arg : Text) : Asks [ascii "fg", arg] (.job (strtoul arg)) .cont
  | bg (arg : Text) : Asks [ascii "bg", arg] (.job (strtoul arg)) .cont
  | job {cmd : Text} {sig : Signal} (known : (cmd, sig) ∈ killers) (num : Text) :
      Asks [cmd, 37 :: num] (.job (strtoul num)) sig
  | process {cmd arg : Text} {sig : Signal} {pid : Pid} (known : (cmd, sig) ∈ killers)
      (word : arg.head? ≠ some 37) (number : atoi arg = pid) (positive : pid ≠ 0) :
      Asks [cmd, arg] (.process pid) sig

/-- Whom the signals of the shell reach, and who has the terminal. -/
structure Directed (own : Pid) (state : Console) : Prop where
  /-- Ctrl-C and Ctrl-Z are sent on, as they are, to the job that is waited for. -/
  keyboard : ∀ pgid num, state.session.pc.awaited = some (pgid, num) → ∀ sig, ∃ target,
    state.session.forward sig = some (target, sig) ∧
      target.reached state.session.kids = members state.session.kids num
  /-- Otherwise they reach nobody. -/
  ignored : state.session.pc.awaited = none → state.session.pc ≠ .exited → ∀ sig,
    state.session.forward sig = none
  /-- A built-in sends its signal to all processes of the job that it names, and there is one. -/
  job : ∀ argv sig, ∀ job ∈ state.session.jobs.jobs, Asks argv (.job job.num) sig → ∃ target,
    state.session.builtinKill argv = some (target, sig) ∧
      target.reached state.session.kids = members state.session.kids job.num ∧
        members state.session.kids job.num ≠ []
  /-- A built-in that names a process sends its signal to this one. -/
  process : ∀ argv sig pid, Asks argv (.process pid) sig →
    state.session.builtinKill argv = some (.process pid, sig)
  /-- Nothing else is sent: what is sent was asked for, of a job in the table or of a process. -/
  asked : ∀ argv target sig, state.session.builtinKill argv = some (target, sig) →
    (∃ job ∈ state.session.jobs.jobs, Asks argv (.job job.num) sig) ∨
      ∃ pid, Asks argv (.process pid) sig
  /-- The shell reads a line from its own terminal. -/
  prompt : state.session.pc = .prompt → state.terminal = own
  /-- A job that is waited for has the terminal. -/
  waits : ∀ pgid num, state.session.pc.awaited = some (pgid, num) →
    state.session.pc ≠ .waitCall pgid num → state.terminal = pgid

/-- What `slay`, `halt` and `cont` send. -/
theorem builtinKill_of_killer (state : Session) {cmd : Text} {sig : Signal}
    (known : (cmd, sig) ∈ killers) (arg : Text) :
    state.builtinKill [cmd, arg] =
      (resolveTarget state.jobs arg).map fun target => (target, sig) := by
  simp only [killers, List.mem_cons, List.not_mem_nil, or_false, Prod.mk.injEq] at known
  rcases known with ⟨rfl, rfl⟩ | ⟨rfl, rfl⟩ | ⟨rfl, rfl⟩
  · rw [Session.builtinKill, if_neg (by decide), if_pos rfl]
  · rw [Session.builtinKill, if_neg (by decide), if_neg (by decide), if_pos rfl]
  · rw [Session.builtinKill, if_neg (by decide), if_neg (by decide), if_neg (by decide), if_pos rfl]

/-- What `fg` and `bg` send. -/
theorem builtinKill_of_resumer (state : Session) {cmd : Text}
    (known : cmd = ascii "fg" ∨ cmd = ascii "bg") (arg : Text) :
    state.builtinKill [cmd, arg] =
      (state.jobs.getJob (strtoul arg)).map fun job => (.group job.pgid, .cont) := by
  rw [Session.builtinKill, if_pos known]

/-- What is sent is sent by one of the five. -/
theorem words_of_builtinKill {session : Session} {argv : List Text} {target : Target}
    {sig : Signal} (sent : session.builtinKill argv = some (target, sig)) :
    ∃ cmd arg, argv = [cmd, arg] ∧
      ((cmd = ascii "fg" ∨ cmd = ascii "bg") ∨ ∃ sig, (cmd, sig) ∈ killers) := by
  unfold Session.builtinKill at sent
  split at sent
  · rename_i cmd arg
    refine ⟨cmd, arg, rfl, ?_⟩
    by_cases resumer : cmd = ascii "fg" ∨ cmd = ascii "bg"
    · exact .inl resumer
    · rw [if_neg resumer] at sent
      by_cases slay : cmd = ascii "slay"
      · exact .inr ⟨.kill, by simp [killers, slay]⟩
      · rw [if_neg slay] at sent
        by_cases halt : cmd = ascii "halt"
        · exact .inr ⟨.tstp, by simp [killers, halt]⟩
        · rw [if_neg halt] at sent
          by_cases cont : cmd = ascii "cont"
          · exact .inr ⟨.cont, by simp [killers, cont]⟩
          · rw [if_neg cont] at sent
            cases sent
  · cases sent

/-- A built-in that names a job in the table signals its group. -/
theorem builtinKill_job {session : Session} {argv : List Text} {sig : Signal} {job : Job}
    (known : job ∈ session.jobs.jobs) (asks : Asks argv (.job job.num) sig) :
    session.builtinKill argv = some (.group job.pgid, sig) := by
  have found : session.jobs.getJob job.num = some job := session.jobs.getJob_of_mem known
  generalize asked : Asked.job job.num = what at asks
  cases asks with
  | fg arg =>
      rw [builtinKill_of_resumer session (.inl rfl), ← Asked.job.inj asked, found]
      rfl
  | bg arg =>
      rw [builtinKill_of_resumer session (.inr rfl), ← Asked.job.inj asked, found]
      rfl
  | job killer num =>
      rw [builtinKill_of_killer session killer, resolveTarget, ← Asked.job.inj asked, found]
      rfl
  | process => cases asked

/-- A built-in that names a process signals it. -/
theorem builtinKill_process (session : Session) {argv : List Text} {sig : Signal} {pid : Pid}
    (asks : Asks argv (.process pid) sig) :
    session.builtinKill argv = some (.process pid, sig) := by
  cases asks with
  | @process cmd arg sig pid killer word number positive =>
      have read : 0 < atoi arg := by
        rw [number]
        exact Int.natCast_pos.mpr (Nat.pos_of_ne_zero positive)
      rw [builtinKill_of_killer session killer, resolveTarget]
      · rw [if_pos read, number, Int.toNat_natCast]
        rfl
      · rintro rfl
        exact absurd read (by decide)
      · rintro num rfl
        exact word rfl

/-- What a built-in sends was asked for. -/
theorem asks_of_builtinKill {session : Session} {argv : List Text} {target : Target} {sig : Signal}
    (sent : session.builtinKill argv = some (target, sig)) :
    (∃ job ∈ session.jobs.jobs, Asks argv (.job job.num) sig) ∨
      ∃ pid, Asks argv (.process pid) sig := by
  obtain ⟨cmd, arg, rfl, resumer | ⟨own, killer⟩⟩ := words_of_builtinKill sent
  · rw [builtinKill_of_resumer session resumer] at sent
    obtain ⟨job, found, same⟩ := Option.map_eq_some_iff.mp sent
    obtain ⟨known, number⟩ := JobList.mem_of_getJob found
    obtain ⟨-, rfl⟩ := Prod.mk.inj same
    refine .inl ⟨job, known, ?_⟩
    rw [number]
    rcases resumer with rfl | rfl
    · exact .fg arg
    · exact .bg arg
  · rw [builtinKill_of_killer session killer] at sent
    obtain ⟨found, resolved, same⟩ := Option.map_eq_some_iff.mp sent
    obtain ⟨-, rfl⟩ := Prod.mk.inj same
    unfold resolveTarget at resolved
    split at resolved
    · cases resolved
    · rename_i num
      obtain ⟨job, at_num, -⟩ := Option.map_eq_some_iff.mp resolved
      obtain ⟨known, number⟩ := JobList.mem_of_getJob at_num
      exact .inl ⟨job, known, number ▸ .job killer num⟩
    · rename_i word
      split at resolved
      · rename_i positive
        refine .inr ⟨(atoi arg).toNat, .process killer (fun percent => ?_) ?_ ?_⟩
        · obtain ⟨num, rfl⟩ := List.head?_eq_some_iff.mp percent
          exact word num rfl
        · exact (Int.toNat_of_nonneg positive.le).symm
        · exact (Int.pos_iff_toNat_pos.mp positive).ne'
      · cases resolved

/-- No group has the foreground while no job is waited for. -/
theorem fgPgid_eq_zero {session : Session} (ok : SessionOk session)
    (none : session.pc.awaited = none) (running : session.pc ≠ .exited) : session.fgPgid = 0 := by
  have main := ok.main
  unfold MainOk at main
  cases position : session.pc with
  | prompt | builtin | reset =>
      rw [position] at main
      exact main.1
  | launch =>
      rw [position] at main
      exact main.1.1
  | waitCall | waitLoop | suspended | waitEnd =>
      rw [position] at none
      cases none
  | exited => exact absurd position running

instance (state : Console) (label : SessionLabel) : Decidable (creditableAt state label) :=
  inferInstanceAs (Decidable (creditable state.session label))

/-- A pipeline in the foreground, with a job in the background. -/
def foregroundRun : List SessionLabel :=
  [.read (ascii "sleep 9 &"), .fork 100, .main, .read (ascii "cat | wc"), .fork 101, .fork 102,
    .main, .main, .main]

theorem foregroundRun_finishes :
    ((console 1).exec creditableAt ⟨.start, 1⟩ foregroundRun).isSome = true := by
  decide +kernel

/-- The shell after `foregroundRun`. -/
def foregroundEnd : Console :=
  ((console 1).exec creditableAt ⟨.start, 1⟩ foregroundRun).get foregroundRun_finishes

end Shell
end Syscore
