import Syscore.Library.Ascii
import Syscore.Library.Keyed

/-!
# The job table of stsh

`JobList` with the two facts that its methods keep: the jobs are in the order of their numbers, and
no number exceeds `counter_`.
-/

namespace Syscore
namespace Shell

/-- `pid_t`, for process and group identifiers; zero where the code has no group. -/
abbrev Pid := ℕ

/-- `ProcState`. -/
inductive ProcState
  | running
  | stopped
  | terminated
  deriving DecidableEq

/-- `JobState`. -/
inductive JobState
  | foreground
  | background
  deriving DecidableEq

/-- `Process`. -/
structure Process where
  pid : Pid
  state : ProcState
  deriving DecidableEq

/-- `Job`. -/
structure Job where
  num : ℕ
  pgid : Pid
  state : JobState
  cmdline : Text
  processes : List Process
  deriving DecidableEq

namespace Job

def allTerminated (job : Job) : Bool := job.processes.all fun p => p.state = .terminated

def anyRunning (job : Job) : Bool := job.processes.any fun p => p.state = .running

def allStopped (job : Job) : Bool := !job.anyRunning && !job.allTerminated

/-- The process has an entry in the job. -/
def Lists (job : Job) (pid : Pid) : Prop := ∃ p ∈ job.processes, p.pid = pid

theorem allTerminated_eq_false {job : Job} :
    job.allTerminated = false ↔ ∃ p ∈ job.processes, p.state ≠ .terminated := by
  simp [allTerminated]

theorem anyRunning_eq_false {job : Job} :
    job.anyRunning = false ↔ ∀ p ∈ job.processes, p.state ≠ .running := by
  simp [anyRunning]

end Job

/-- `jobs_.emplace(job.num, job)`: nothing happens when the number is taken. -/
def emplace (job : Job) : List Job → List Job
  | [] => [job]
  | other :: jobs =>
      if job.num < other.num then job :: other :: jobs
      else if job.num = other.num then other :: jobs
      else other :: emplace job jobs

/-- A number above all others goes to the end. -/
theorem emplace_of_lt {job : Job} {jobs : List Job} (above : ∀ other ∈ jobs, other.num < job.num) :
    emplace job jobs = jobs ++ [job] := by
  induction jobs with
  | nil => rfl
  | cons other jobs ih =>
      have first := above other List.mem_cons_self
      rw [emplace, if_neg (by omega), if_neg (by omega),
        ih fun other inside => above other (List.mem_cons_of_mem _ inside), List.cons_append]

/-- `JobList`. -/
structure JobList where
  /-- `jobs_`, by number. -/
  jobs : List Job
  /-- `counter_`. -/
  counter : ℕ
  sorted : jobs.Pairwise (·.num < ·.num)
  bounded : ∀ job ∈ jobs, job.num ≤ counter

namespace JobList

variable {list : JobList}

/-- No job yet. -/
def empty : JobList where
  jobs := []
  counter := 0
  sorted := .nil
  bounded := nofun

/-- `addJob`, with the number of the new job. -/
def addJob (list : JobList) (pgid : Pid) (cmdline : Text) (state : JobState) : ℕ × JobList :=
  let num := list.counter + 1
  let job : Job := { num, pgid, state, cmdline, processes := [] }
  have above : ∀ other ∈ list.jobs, other.num < job.num := fun other inside =>
    Nat.lt_succ_of_le (list.bounded other inside)
  (num,
    { jobs := emplace job list.jobs
      counter := num
      sorted := by
        rw [emplace_of_lt above]
        exact List.pairwise_append.mpr ⟨list.sorted, List.pairwise_singleton _ _,
          fun other inside _ last => List.mem_singleton.mp last ▸ above other inside⟩
      bounded := by
        rw [emplace_of_lt above]
        intro other inside
        rcases List.mem_append.mp inside with old | new
        · exact Nat.le_of_lt (above other old)
        · exact (List.mem_singleton.mp new ▸ le_rfl) })

/-- `getJob`. -/
def getJob (list : JobList) (num : ℕ) : Option Job := list.jobs.find? fun job => job.num = num

/-- `getJobByPgid`: the first job with the group. -/
def getJobByPgid (list : JobList) (pgid : Pid) : Option Job :=
  list.jobs.find? fun job => job.pgid = pgid

/-- `getJobWithProcess`: the first job with an entry for the process. -/
def getJobWithProcess (list : JobList) (pid : Pid) : Option Job :=
  list.jobs.find? fun job => job.processes.any fun p => p.pid = pid

/-- `remove`. -/
def remove (list : JobList) (num : ℕ) : JobList where
  jobs := list.jobs.filter fun job => job.num ≠ num
  counter := list.counter
  sorted := list.sorted.filter _
  bounded job inside := list.bounded job (List.mem_filter.mp inside).1

/-- `maybeResetCounter`. -/
def maybeResetCounter (list : JobList) : JobList where
  jobs := list.jobs
  counter := if list.jobs = [] then 0 else list.counter
  sorted := list.sorted
  bounded job inside := by
    rw [if_neg (List.ne_nil_of_mem inside)]
    exact list.bounded job inside

/-- Assignments through a pointer to the job with this number: to its state and its processes. -/
def modify (list : JobList) (num : ℕ) (state : JobState → JobState)
    (processes : List Process → List Process) : JobList where
  jobs := list.jobs.map fun job =>
    if job.num = num then
      { job with state := state job.state, processes := processes job.processes }
    else job
  counter := list.counter
  sorted := by
    refine List.pairwise_map.mpr (list.sorted.imp fun less => ?_)
    split <;> split <;> exact less
  bounded job inside := by
    obtain ⟨other, old, rfl⟩ := List.mem_map.mp inside
    split <;> exact list.bounded other old

/-- `job->state = state`. -/
def setState (list : JobList) (num : ℕ) (state : JobState) : JobList :=
  list.modify num (fun _ => state) id

/-- The loop at the end of a launch: `job.processes.push_back({pid, ProcState::kRunning})`. -/
def pushProcesses (list : JobList) (num : ℕ) (pids : List Pid) : JobList :=
  list.modify num id fun processes => processes ++ pids.map fun pid => { pid, state := .running }

/-- The job of a launch: added, then filled. -/
def launch (list : JobList) (pgid : Pid) (cmdline : Text) (state : JobState) (pids : List Pid) :
    ℕ × JobList :=
  let (num, list) := list.addJob pgid cmdline state
  (num, list.pushProcesses num pids)

theorem jobs_launch (list : JobList) (pgid : Pid) (cmdline : Text) (state : JobState)
    (pids : List Pid) :
    (list.launch pgid cmdline state pids).2.jobs =
      list.jobs ++ [{
        num := (list.launch pgid cmdline state pids).1
        pgid, state, cmdline
        processes := pids.map fun pid => { pid, state := .running } }] := by
  have below {other : Job} (inside : other ∈ list.jobs) : other.num < list.counter + 1 :=
    Nat.lt_succ_of_le (list.bounded other inside)
  simp only [launch, pushProcesses, addJob, modify]
  rw [emplace_of_lt fun other inside => below inside, List.map_append]
  congr 1
  · refine (List.map_congr_left fun other inside => ?_).trans (List.map_id _)
    exact if_neg (Nat.ne_of_lt (below inside))
  · simp

/-- `markGroupRunning`. -/
def markGroupRunning (list : JobList) (num : ℕ) : JobList :=
  list.modify num id fun processes =>
    processes.map fun p => if p.state = .stopped then { p with state := .running } else p

end JobList

/-- What `waitpid` says of a child. -/
inductive Status
  | exited
  | signaled
  | stopped
  | continued
  deriving DecidableEq

/-- The state that `handleSIGCHLD` records. -/
def Status.state : Status → ProcState
  | .exited | .signaled => .terminated
  | .stopped => .stopped
  | .continued => .running

/-- The assignments of `handleSIGCHLD` to the entries of a job. -/
def record (pid : Pid) (status : Status) (processes : List Process) : List Process :=
  processes.map fun p => if p.pid = pid then { p with state := status.state } else p

namespace JobList

variable {list : JobList}

/-- One pass of the loop of `handleSIGCHLD`, with what `waitpid` gave. -/
def handleReport (list : JobList) (pid : Pid) (status : Status) : JobList :=
  match list.getJobWithProcess pid with
  | none => list
  | some job =>
      let job := { job with processes := record pid status job.processes }
      let list := list.modify job.num id (record pid status)
      if job.allTerminated then list.remove job.num else list

/-! ### The table after a change -/

theorem nodup_num (list : JobList) : (list.jobs.map Job.num).Nodup :=
  List.pairwise_map.mpr (list.sorted.imp Nat.ne_of_lt)

/-- The numbers tell the jobs apart. -/
theorem eq_of_num {job other : Job} (inside : job ∈ list.jobs) (inside' : other ∈ list.jobs)
    (same : job.num = other.num) : job = other :=
  eq_of_key list.nodup_num inside inside' same

theorem mem_of_getJob {num : ℕ} {job : Job} (found : list.getJob num = some job) :
    job ∈ list.jobs ∧ job.num = num :=
  ⟨List.mem_of_find?_eq_some found,
    of_decide_eq_true (List.find?_some (p := fun job : Job => decide (job.num = num)) found)⟩

theorem getJob_of_mem {job : Job} (inside : job ∈ list.jobs) : list.getJob job.num = some job := by
  cases found : list.getJob job.num with
  | none =>
      exact absurd (decide_eq_true rfl) (List.find?_eq_none.mp found job inside)
  | some other =>
      obtain ⟨known, same⟩ := mem_of_getJob found
      rw [list.eq_of_num known inside same]

theorem mem_of_getJobByPgid {pgid : Pid} {job : Job} (found : list.getJobByPgid pgid = some job) :
    job ∈ list.jobs ∧ job.pgid = pgid :=
  ⟨List.mem_of_find?_eq_some found,
    of_decide_eq_true (List.find?_some (p := fun job : Job => decide (job.pgid = pgid)) found)⟩

theorem of_getJobByPgid_eq_none {pgid : Pid} (absent : list.getJobByPgid pgid = none) :
    ∀ job ∈ list.jobs, job.pgid ≠ pgid := fun job inside same => by
  have missed := List.find?_eq_none.mp absent job inside
  exact missed (decide_eq_true same)

theorem mem_of_getJobWithProcess {pid : Pid} {job : Job}
    (found : list.getJobWithProcess pid = some job) : job ∈ list.jobs ∧ job.Lists pid := by
  refine ⟨List.mem_of_find?_eq_some found, ?_⟩
  have matched := List.find?_some
    (p := fun job : Job => job.processes.any fun p => decide (p.pid = pid)) found
  obtain ⟨p, inside, same⟩ := List.any_eq_true.mp matched
  exact ⟨p, inside, of_decide_eq_true same⟩

theorem getJobWithProcess_eq_none {pid : Pid} :
    list.getJobWithProcess pid = none ↔ ∀ job ∈ list.jobs, ¬ job.Lists pid := by
  simp [getJobWithProcess, Job.Lists]

theorem mem_modify {num : ℕ} {state : JobState → JobState}
    {processes : List Process → List Process} {job : Job} :
    job ∈ (list.modify num state processes).jobs ↔
      (job ∈ list.jobs ∧ job.num ≠ num) ∨
        ∃ old ∈ list.jobs, old.num = num ∧
          job = { old with state := state old.state, processes := processes old.processes } :=
  mem_map_ite

theorem mem_remove {num : ℕ} {job : Job} :
    job ∈ (list.remove num).jobs ↔ job ∈ list.jobs ∧ job.num ≠ num := by
  simp [remove]

/-- A report changes the first job with an entry, and removes it when it has ended. -/
theorem mem_handleReport {pid : Pid} {status : Status} {credited job : Job}
    (found : list.getJobWithProcess pid = some credited) :
    job ∈ (list.handleReport pid status).jobs ↔
      (job ∈ list.jobs ∧ job.num ≠ credited.num) ∨
        job = { credited with processes := record pid status credited.processes } ∧
          job.allTerminated = false := by
  have known := (mem_of_getJobWithProcess found).1
  rw [handleReport, found]
  simp only
  split
  · rename_i ended
    rw [mem_remove, mem_modify]
    constructor
    · rintro ⟨old | ⟨old, _, here, rfl⟩, apart⟩
      · exact .inl old
      · exact absurd here apart
    · rintro (old | ⟨rfl, running⟩)
      · exact ⟨.inl old, old.2⟩
      · cases ended.symm.trans running
  · rename_i running
    rw [mem_modify]
    constructor
    · rintro (old | ⟨old, inside, here, rfl⟩)
      · exact .inl old
      · obtain rfl := list.eq_of_num inside known here
        exact .inr ⟨rfl, Bool.not_eq_true _ ▸ running⟩
    · rintro (old | ⟨rfl, _⟩)
      · exact .inl old
      · exact .inr ⟨credited, known, rfl, rfl⟩

theorem handleReport_of_none {pid : Pid} {status : Status}
    (absent : list.getJobWithProcess pid = none) : list.handleReport pid status = list := by
  rw [handleReport, absent]

end JobList

end Shell
end Syscore
