import Syscore.Shell.Credit

/-!
# What `main` knows of the table

Outside a foreground wait no job is in the foreground; inside one only the job that is waited for
may be, and it is the only one with its group.
-/

namespace Syscore
namespace Shell

variable {state after : Session}

/-- No job is in the foreground. -/
def Quiet (state : Session) : Prop :=
  state.fgPgid = 0 ∧ ∀ job ∈ state.jobs.jobs, job.state = .background

/-- Only the job with this number may be in the foreground, and it is the one with the group. -/
def Awaits (state : Session) (pgid : Pid) (num : ℕ) : Prop :=
  state.fgPgid = pgid ∧ (∀ job ∈ state.jobs.jobs, job.state = .foreground → job.num = num) ∧
    ∀ job ∈ state.jobs.jobs, job.pgid = pgid ↔ job.num = num

/-- Where `main` is agrees with the table. -/
def MainOk (state : Session) : Prop :=
  match state.pc with
  | .prompt | .builtin _ | .reset => Quiet state
  | .launch p _ pgid pids =>
      Quiet state ∧ p.commands ≠ [] ∧ pgid = pids.headD 0 ∧
        (∀ pid ∈ pids, pid ≠ 0 ∧ ∃ kid ∈ state.kids, kid.pid = pid ∧ kid.Launched pgid) ∧
        (pids ≠ [] → ∀ job ∈ state.jobs.jobs, job.pgid ≠ pgid)
  | .waitCall pgid num | .waitLoop pgid num | .suspended pgid num => Awaits state pgid num
  | .waitEnd pgid num =>
      Awaits state pgid num ∧ ∀ job ∈ state.jobs.jobs, job.num = num → job.anyRunning = false
  | .exited => True

/-- What holds between the steps of a session. -/
structure SessionOk (state : Session) : Prop where
  accounted : Accounted state.jobs state.kids
  main : MainOk state
  handling : state.handling = true → state.pc.unblocked = true

/-- The reports that name the child of the only entry with that identifier. -/
def creditable : Discipline Session SessionLabel := fun state label =>
  match label with
  | .report pid _ => OwnEntry state.jobs state.kids pid
  | _ => True

/-- A report keeps the number, the group and the state of every job that it leaves. -/
theorem before_handleReport {jobs : JobList} {pid : Pid} {status : Status} {job : Job}
    (later : job ∈ (jobs.handleReport pid status).jobs) :
    ∃ old ∈ jobs.jobs, old.num = job.num ∧ old.pgid = job.pgid ∧ old.state = job.state := by
  cases found : jobs.getJobWithProcess pid with
  | none =>
      rw [JobList.handleReport_of_none found] at later
      exact ⟨job, later, rfl, rfl, rfl⟩
  | some credited =>
      rcases (JobList.mem_handleReport found).mp later with ⟨old, _⟩ | ⟨rfl, _⟩
      · exact ⟨job, old, rfl, rfl, rfl⟩
      · exact ⟨credited, (JobList.mem_of_getJobWithProcess found).1, rfl, rfl, rfl⟩

/-- A table of fewer jobs keeps what `main` knows while `SIGCHLD` is not blocked. -/
theorem MainOk.shrink (ok : MainOk state) (unblocked : state.pc.unblocked = true)
    (pc : after.pc = state.pc) (fgPgid : after.fgPgid = state.fgPgid)
    (before : ∀ job ∈ after.jobs.jobs, ∃ old ∈ state.jobs.jobs,
      old.num = job.num ∧ old.pgid = job.pgid ∧ old.state = job.state) : MainOk after := by
  have quiet (ok : Quiet state) : Quiet after := by
    refine ⟨fgPgid.trans ok.1, fun job later => ?_⟩
    obtain ⟨old, earlier, _, _, same⟩ := before job later
    exact same.symm.trans (ok.2 old earlier)
  have awaits {pgid : Pid} {num : ℕ} (ok : Awaits state pgid num) : Awaits after pgid num := by
    refine ⟨fgPgid.trans ok.1, fun job later foreground => ?_, fun job later => ?_⟩
    · obtain ⟨old, earlier, number, _, same⟩ := before job later
      exact number.symm.trans (ok.2.1 old earlier (same.trans foreground))
    · obtain ⟨old, earlier, number, group, _⟩ := before job later
      rw [← number, ← group]
      exact ok.2.2 old earlier
  unfold MainOk at ok ⊢
  rw [pc]
  cases position : state.pc with
  | prompt | builtin | reset =>
      rw [position] at ok
      exact quiet ok
  | waitCall | suspended =>
      rw [position] at ok
      exact awaits ok
  | launch | waitLoop | waitEnd | exited =>
      rw [position] at unblocked
      cases unblocked

namespace SessionOk

variable (ok : SessionOk state)

include ok in
/-- A new identifier is not that of the group of a job. -/
theorem ne_pgid_of_free {pid : Pid} (free : state.free pid = true) :
    ∀ job ∈ state.jobs.jobs, job.pgid ≠ pid := by
  intro job inside same
  obtain ⟨p, entry, running⟩ := Job.allTerminated_eq_false.mp (ok.accounted.live job inside)
  obtain ⟨kid, known, _, member⟩ := ok.accounted.owned job inside p entry running
  obtain ⟨other, inside', number, group, _⟩ := ok.accounted.credit kid known job.num member
  obtain rfl := state.jobs.eq_of_num inside' inside number
  have others := List.all_eq_true.mp (Bool.and_eq_true_iff.mp free).2 kid known
  exact of_decide_eq_true (Bool.and_eq_true_iff.mp others).2 (group.symm.trans same)

/-- While nothing runs in the handler. -/
theorem of_idle (idle : after.handling = false) (accounted : Accounted after.jobs after.kids)
    (main : MainOk after) : SessionOk after :=
  ⟨accounted, main, fun busy => nomatch idle.symm.trans busy⟩

include ok in
theorem continueJob (idle : state.handling = false) (quiet : Quiet state) (foreground : Bool)
    (arg : Text) : SessionOk (state.continueJob foreground arg) := by
  have accounted := ok.accounted
  unfold Session.continueJob
  cases found : state.jobs.getJob (strtoul arg) with
  | none => exact of_idle idle accounted quiet
  | some job =>
      obtain ⟨known, number⟩ := JobList.mem_of_getJob found
      have before {jobState : JobState} {other : Job} (later : other ∈
          ((state.jobs.markGroupRunning job.num).setState job.num jobState).jobs) :
          ∃ old ∈ state.jobs.jobs, old.num = other.num ∧ old.pgid = other.pgid ∧
            other.state = if other.num = job.num then jobState else old.state := by
        rcases JobList.mem_modify.mp later with ⟨inside, apart⟩ | ⟨marked, inside, here, rfl⟩
        · rcases JobList.mem_modify.mp inside with ⟨old, _⟩ | ⟨old, _, here, rfl⟩
          · exact ⟨other, old, rfl, rfl, (if_neg apart).symm⟩
          · exact absurd here apart
        · rcases JobList.mem_modify.mp inside with ⟨old, _⟩ | ⟨inner, earlier, _, rfl⟩
          · exact ⟨marked, old, rfl, rfl, (if_pos here).symm⟩
          · exact ⟨inner, earlier, rfl, rfl, (if_pos here).symm⟩
      have changed (jobState : JobState) :=
        (accounted.continueJob job.num).setState job.num jobState
      cases foreground with
      | false =>
          refine of_idle idle (changed .background) ⟨quiet.1, fun other later => ?_⟩
          obtain ⟨old, earlier, _, _, same⟩ := before later
          rw [same]
          split
          · rfl
          · exact quiet.2 old earlier
      | true =>
          refine of_idle idle (changed .foreground) ⟨rfl, fun other later front => ?_,
            fun other later => ?_⟩
          · obtain ⟨old, earlier, _, _, same⟩ := before later
            by_contra apart
            rw [if_neg apart, quiet.2 old earlier] at same
            cases same.symm.trans front
          · obtain ⟨old, earlier, number, group, _⟩ := before later
            rw [← number, ← group]
            constructor
            · exact accounted.groups old earlier job known
            · intro same
              rw [state.jobs.eq_of_num earlier known same]

include ok in
theorem readLine (idle : state.handling = false) (quiet : Quiet state) (line : Text) :
    SessionOk (state.readLine line) := by
  rcases state.readLine_cases line with same | same | ⟨argv, same⟩ | ⟨p, nonempty, same⟩
  · rw [same]
    exact of_idle idle ok.accounted quiet
  · rw [same]
    exact of_idle idle ok.accounted trivial
  · rw [same]
    exact of_idle idle ok.accounted quiet
  · rw [same]
    exact of_idle idle ok.accounted ⟨quiet, nonempty, rfl, nofun, fun none => absurd rfl none⟩

include ok in
theorem finishLaunch {p : Pipeline} {cmdline : Text} {pgid : Pid} {pids : List Pid}
    (idle : state.handling = false) (position : state.pc = .launch p cmdline pgid pids)
    (whole : pids.length = p.commands.length) :
    SessionOk (state.finishLaunch p cmdline pgid pids) := by
  have main := ok.main
  unfold MainOk at main
  rw [position] at main
  obtain ⟨quiet, stages, _, launched, fresh⟩ := main
  have some_pid : pids ≠ [] := by
    rintro rfl
    exact stages (List.eq_nil_of_length_eq_zero whole.symm)
  have accounted (jobState : JobState) :
      Accounted (state.jobs.launch pgid cmdline jobState pids).2
        (adopt state.kids pids (state.jobs.launch pgid cmdline jobState pids).1) :=
    ok.accounted.launch some_pid (fun pid inside => (launched pid inside).2) (fresh some_pid)
  unfold Session.finishLaunch
  have jobs (jobState : JobState) := state.jobs.jobs_launch pgid cmdline jobState pids
  have below {job : Job} (inside : job ∈ state.jobs.jobs) (jobState : JobState) :
      job.num ≠ (state.jobs.launch pgid cmdline jobState pids).1 :=
    Nat.ne_of_lt (Nat.lt_succ_of_le (state.jobs.bounded job inside))
  cases p.background with
  | true =>
      refine of_idle idle (accounted .background) ⟨quiet.1, fun job inside => ?_⟩
      have inside := (jobs .background) ▸ inside
      rcases List.mem_append.mp inside with old | new
      · exact quiet.2 job old
      · exact List.mem_singleton.mp new ▸ rfl
  | false =>
      refine of_idle idle (accounted .foreground) ⟨rfl, fun job inside front => ?_,
        fun job inside => ?_⟩
      · have inside := (jobs .foreground) ▸ inside
        rcases List.mem_append.mp inside with old | new
        · cases (quiet.2 job old).symm.trans front
        · exact List.mem_singleton.mp new ▸ rfl
      · have inside := (jobs .foreground) ▸ inside
        rcases List.mem_append.mp inside with old | new
        · exact iff_of_false (fresh some_pid job old) (below old .foreground)
        · exact List.mem_singleton.mp new ▸ iff_of_true rfl rfl

include ok in
theorem finishWait {pgid : Pid} {num : ℕ} (idle : state.handling = false)
    (position : state.pc = .waitEnd pgid num) : SessionOk (state.finishWait pgid) := by
  have main := ok.main
  unfold MainOk at main
  rw [position] at main
  obtain ⟨⟨_, front, group⟩, ended⟩ := main
  unfold Session.finishWait
  cases found : state.jobs.getJobByPgid pgid with
  | none =>
      refine of_idle idle ok.accounted ⟨rfl, fun job inside => ?_⟩
      have apart := JobList.of_getJobByPgid_eq_none found job inside
      cases shown : job.state with
      | background => rfl
      | foreground => exact absurd ((group job inside).mpr (front job inside shown)) apart
  | some job =>
      obtain ⟨known, same⟩ := JobList.mem_of_getJobByPgid found
      have number := (group job known).mp same
      have stopped : job.allStopped = true := by
        rw [Job.allStopped, ended job known number, ok.accounted.live job known]
        rfl
      simp only [stopped, if_true]
      refine of_idle idle (ok.accounted.setState job.num .background)
        ⟨rfl, fun other inside => ?_⟩
      rcases JobList.mem_modify.mp inside with ⟨old, apart⟩ | ⟨old, _, _, rfl⟩
      · cases shown : other.state with
        | background => rfl
        | foreground => exact absurd ((front other old shown).trans number.symm) apart
      · rfl

include ok in
theorem fork {pid : Pid} {p : Pipeline} {cmdline : Text} {pgid : Pid} {pids : List Pid}
    (position : state.pc = .launch p cmdline pgid pids) (free : state.free pid = true) :
    SessionOk
      { state with
        kids := state.kids ++
          [{ pid, pgid := if pgid = 0 then pid else pgid, job := none, last := .running,
             resumed := false }]
        used := pid :: state.used
        pc := .launch p cmdline (if pgid = 0 then pid else pgid) (pids ++ [pid]) } := by
  have main := ok.main
  unfold MainOk at main
  rw [position] at main
  obtain ⟨quiet, stages, head, launched, fresh⟩ := main
  have nonzero : pid ≠ 0 := of_decide_eq_true (Bool.and_eq_true_iff.mp free).1
  have unused : pid ∉ state.kids.map Kid.pid := by
    intro known
    obtain ⟨kid, inside, same⟩ := List.mem_map.mp known
    have others := List.all_eq_true.mp (Bool.and_eq_true_iff.mp free).2 kid inside
    exact of_decide_eq_true (Bool.and_eq_true_iff.mp others).1 same
  refine ⟨ok.accounted.fork unused rfl rfl, ⟨quiet, stages, ?_, ?_, ?_⟩, fun busy => ?_⟩
  · cases pids with
    | nil => exact if_pos head
    | cons first rest => exact (if_neg (head ▸ (launched first List.mem_cons_self).1)).trans head
  · intro other inside
    rcases List.mem_append.mp inside with old | new
    · obtain ⟨nonzero', kid, known, same, alone, group, running⟩ := launched other old
      have begun : pgid ≠ 0 := by
        obtain ⟨first, rest, rfl⟩ := List.exists_cons_of_ne_nil (List.ne_nil_of_mem old)
        exact head ▸ (launched first List.mem_cons_self).1
      rw [if_neg begun]
      exact ⟨nonzero', kid, List.mem_append_left _ known, same, alone, group, running⟩
    · obtain rfl := List.mem_singleton.mp new
      exact ⟨nonzero, _, List.mem_append_right _ List.mem_cons_self, rfl, rfl, rfl, rfl⟩
  · intro _
    cases pids with
    | nil =>
        have zero : pgid = 0 := head
        rw [if_pos zero]
        exact ok.ne_pgid_of_free free
    | cons first rest =>
        rw [if_neg (head ▸ (launched first List.mem_cons_self).1)]
        exact fresh (List.cons_ne_nil _ _)
  · have unblocked := ok.handling busy
    rw [position] at unblocked
    cases unblocked

include ok in
/-- Every step of a session whose reports are creditable. -/
theorem step {label : SessionLabel} (allowed : creditable state label)
    (taken : Session.step state label = some after) : SessionOk after := by
  have main := ok.main
  unfold MainOk at main
  cases Session.move_of_step taken with
  | @builtin argv idle position =>
      rw [position] at main
      rcases state.runBuiltin_cases argv with same | ⟨foreground, arg, same⟩
      · rw [same]
        exact of_idle idle ok.accounted main
      · rw [same]
        exact ok.continueJob idle main foreground arg
  | finishLaunch idle position whole => exact ok.finishLaunch idle position whole
  | waitCall idle position =>
      rw [position] at main
      exact of_idle idle ok.accounted main
  | suspends idle position found running =>
      rw [position] at main
      exact of_idle idle ok.accounted main
  | @endsWait pgid num idle position stopped =>
      rw [position] at main
      refine of_idle idle ok.accounted ⟨main, fun other inside number => ?_⟩
      have same := (main.2.2 other inside).mpr number
      cases found : state.jobs.getJobByPgid pgid with
      | none => exact absurd same (JobList.of_getJobByPgid_eq_none found other inside)
      | some job =>
          obtain ⟨known, group⟩ := JobList.mem_of_getJobByPgid found
          rw [state.jobs.eq_of_num inside known (number.trans ((main.2.2 job known).mp group).symm)]
          exact stopped job found
  | finishWait idle position => exact ok.finishWait idle position
  | reset idle position =>
      rw [position] at main
      exact of_idle idle { ok.accounted with } main
  | read line idle position =>
      rw [position] at main
      exact ok.readLine idle main line
  | eof idle position => exact of_idle idle ok.accounted trivial
  | fork position more free => exact ok.fork position free
  | fails position more =>
      rw [position] at main
      exact ⟨ok.accounted, main.1, fun _ => rfl⟩
  | signal idle unblocked => exact ⟨ok.accounted, main, fun _ => unblocked⟩
  | report status busy inside =>
      exact ⟨ok.accounted.report inside rfl allowed,
        ok.main.shrink (ok.handling busy) rfl rfl fun _ later => before_handleReport later,
        ok.handling⟩
  | wakes busy position =>
      rw [position] at main
      exact of_idle rfl ok.accounted main
  | returns busy awake => exact of_idle rfl ok.accounted main

end SessionOk

theorem sessionOk_start : SessionOk .start where
  accounted := ⟨List.nodup_nil, nofun, nofun, nofun, nofun, nofun⟩
  main := ⟨rfl, nofun⟩
  handling := nofun

end Shell
end Syscore
