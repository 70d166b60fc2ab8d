import Syscore.Shell.Foreground

/-!
# Entries with the identifier of a child

A step drops entries and children, forks a child, or turns a complete launch into a job. What holds
between the job of a child and any job with an entry of its identifier follows from how it begins.
-/

namespace Syscore
namespace Shell

variable {state after : Session}

/-- The children forked by the launch that `main` is in. -/
def MainPc.forked : MainPc → List Pid
  | .launch _ _ _ pids => pids
  | _ => []

/-- Each entry and each child is one that was there before. -/
structure Keeps (state after : Session) : Prop where
  jobs : ∀ job ∈ after.jobs.jobs, ∃ old ∈ state.jobs.jobs,
    old.num = job.num ∧ ∀ pid, job.Lists pid → old.Lists pid
  kids : ∀ kid ∈ after.kids, ∃ old ∈ state.kids, old.pid = kid.pid ∧ old.job = kid.job
  sublist : (after.kids.map Kid.pid).Sublist (state.kids.map Kid.pid)
  used : after.used = state.used
  forked : after.pc.forked = []

/-- What a step does to entries and children. -/
inductive Effect (state after : Session) : SessionLabel → Prop
  | keeps {label} (same : Keeps state after) : Effect state after label
  | forks {pid kid} (free : state.free pid = true) (named : kid.pid = pid) (alone : kid.job = none)
      (jobs : after.jobs = state.jobs) (kids : after.kids = state.kids ++ [kid])
      (used : after.used = pid :: state.used)
      (forked : after.pc.forked = state.pc.forked ++ [pid]) : Effect state after (.fork pid)
  | adopts {label num job} (above : ∀ old ∈ state.jobs.jobs, old.num < num) (number : job.num = num)
      (lists : ∀ pid, job.Lists pid → pid ∈ state.pc.forked)
      (jobs : after.jobs.jobs = state.jobs.jobs ++ [job])
      (kids : after.kids = adopt state.kids state.pc.forked num)
      (used : after.used = state.used) (forked : after.pc.forked = []) : Effect state after label

section Keeps

variable {pc : MainPc} (quiet : pc.forked = [])

include quiet in
/-- Only the position and the flags change. -/
theorem keeps_refl (handling : Bool) (fgPgid : Pid) :
    Keeps state { state with pc, handling, fgPgid } :=
  ⟨fun job inside => ⟨job, inside, rfl, fun _ => id⟩, fun kid inside => ⟨kid, inside, rfl, rfl⟩,
    List.Sublist.refl _, rfl, quiet⟩

/-- Assignments keep the entries of a job. -/
theorem lists_of_modify {jobs : JobList} {num : ℕ} {jobState : JobState → JobState}
    {processes : List Process → List Process}
    (pids : ∀ list, (processes list).map Process.pid = list.map Process.pid) {job : Job}
    (inside : job ∈ (jobs.modify num jobState processes).jobs) :
    ∃ old ∈ jobs.jobs, old.num = job.num ∧ ∀ pid, job.Lists pid → old.Lists pid := by
  rcases JobList.mem_modify.mp inside with ⟨old, _⟩ | ⟨old, earlier, _, rfl⟩
  · exact ⟨job, old, rfl, fun _ => id⟩
  · refine ⟨old, earlier, rfl, fun pid listed => ?_⟩
    obtain ⟨p, entry, named⟩ := listed
    have known : pid ∈ old.processes.map Process.pid := by
      rw [← pids, ← named]
      exact List.mem_map_of_mem entry
    exact List.mem_map.mp known

theorem map_pid_record (pid : Pid) (status : Status) (processes : List Process) :
    (record pid status processes).map Process.pid = processes.map Process.pid :=
  map_key_ite (fun _ => by rfl) processes

theorem lists_of_handleReport {jobs : JobList} {pid : Pid} {status : Status} {job : Job}
    (inside : job ∈ (jobs.handleReport pid status).jobs) :
    ∃ old ∈ jobs.jobs, old.num = job.num ∧ ∀ pid, job.Lists pid → old.Lists pid := by
  cases found : jobs.getJobWithProcess pid with
  | none =>
      rw [JobList.handleReport_of_none found] at inside
      exact ⟨job, inside, rfl, fun _ => id⟩
  | some credited =>
      have known := (JobList.mem_of_getJobWithProcess found).1
      rcases (JobList.mem_handleReport found).mp inside with ⟨old, _⟩ | ⟨rfl, _⟩
      · exact ⟨job, old, rfl, fun _ => id⟩
      · have changed : { credited with processes := record pid status credited.processes } ∈
            (jobs.modify credited.num id (record pid status)).jobs :=
          JobList.mem_modify.mpr (.inr ⟨credited, known, rfl, rfl⟩)
        exact lists_of_modify (map_pid_record pid status) changed

theorem keeps_continueJob (foreground : Bool) (arg : Text) :
    Keeps state (state.continueJob foreground arg) := by
  unfold Session.continueJob
  cases state.jobs.getJob (strtoul arg) with
  | none => exact keeps_refl rfl _ _
  | some job =>
      have jobs (jobState : JobState) {other : Job} (later : other ∈
          ((state.jobs.markGroupRunning job.num).setState job.num jobState).jobs) :
          ∃ old ∈ state.jobs.jobs,
            old.num = other.num ∧ ∀ pid, other.Lists pid → old.Lists pid := by
        obtain ⟨marked, inside, number, lists⟩ := lists_of_modify (fun _ => rfl) later
        obtain ⟨old, earlier, number', lists'⟩ :=
          lists_of_modify (map_key_ite fun _ => by rfl) inside
        exact ⟨old, earlier, number'.trans number, fun pid listed => lists' pid (lists pid listed)⟩
      have kids {kid : Kid} (later : kid ∈ resume state.kids job.num) :
          ∃ old ∈ state.kids, old.pid = kid.pid ∧ old.job = kid.job := by
        obtain ⟨old, known, rfl⟩ := List.mem_map.mp later
        refine ⟨old, known, ?_⟩
        split <;> exact ⟨rfl, rfl⟩
      have pids : (resume state.kids job.num).map Kid.pid = state.kids.map Kid.pid :=
        map_key_ite (fun _ => by rfl) state.kids
      cases foreground with
      | false =>
          exact ⟨fun _ => jobs .background, fun _ => kids, pids ▸ List.Sublist.refl _, rfl, rfl⟩
      | true =>
          exact ⟨fun _ => jobs .foreground, fun _ => kids, pids ▸ List.Sublist.refl _, rfl, rfl⟩

theorem keeps_finishWait (pgid : Pid) : Keeps state (state.finishWait pgid) := by
  unfold Session.finishWait
  split
  · split
    · exact ⟨fun _ => lists_of_modify fun _ => rfl, fun kid inside => ⟨kid, inside, rfl, rfl⟩,
        List.Sublist.refl _, rfl, rfl⟩
    · exact keeps_refl rfl _ _
  · exact keeps_refl rfl _ _

theorem keeps_report (pid : Pid) (status : Status) (quiet : state.pc.forked = []) :
    Keeps state
      { state with
        jobs := state.jobs.handleReport pid status
        kids := waitpid state.kids pid status } := by
  refine ⟨fun _ => lists_of_handleReport, fun kid inside => ?_, map_pid_waitpid_sublist _ _ _, rfl,
    quiet⟩
  rcases mem_waitpid.mp inside with ⟨old, _⟩ | ⟨old, earlier, _, _, rfl⟩
  · exact ⟨kid, old, rfl, rfl⟩
  · exact ⟨old, earlier, rfl, rfl⟩

end Keeps

theorem effect_finishLaunch {label : SessionLabel} {p : Pipeline} {cmdline : Text} {pgid : Pid}
    {pids : List Pid} (position : state.pc = .launch p cmdline pgid pids) :
    Effect state (state.finishLaunch p cmdline pgid pids) label := by
  have above : ∀ old ∈ state.jobs.jobs, old.num < state.jobs.counter + 1 := fun old inside =>
    Nat.lt_succ_of_le (state.jobs.bounded old inside)
  have forked : state.pc.forked = pids := by rw [position]; rfl
  have lists : ∀ jobState pid, Job.Lists
      { num := state.jobs.counter + 1, pgid, state := jobState, cmdline
        processes := pids.map fun pid => { pid, state := .running } } pid →
        pid ∈ state.pc.forked := by
    rintro _ _ ⟨q, entry, rfl⟩
    obtain ⟨other, inside, rfl⟩ := List.mem_map.mp entry
    exact forked ▸ inside
  unfold Session.finishLaunch
  cases p.background with
  | true =>
      exact .adopts above rfl (lists .background) (state.jobs.jobs_launch pgid cmdline _ pids)
        (by rw [forked]; rfl) rfl rfl
  | false =>
      exact .adopts above rfl (lists .foreground) (state.jobs.jobs_launch pgid cmdline _ pids)
        (by rw [forked]; rfl) rfl rfl

theorem keeps_runBuiltin (state : Session) (argv : List Text) :
    Keeps state (state.runBuiltin argv) ∧ (state.runBuiltin argv).handling = state.handling := by
  rcases state.runBuiltin_cases argv with same | ⟨foreground, arg, same⟩
  · rw [same]
    exact ⟨keeps_refl rfl _ _, rfl⟩
  · rw [same]
    refine ⟨keeps_continueJob _ _, ?_⟩
    unfold Session.continueJob
    split
    · rfl
    · cases foreground <;> rfl

theorem keeps_readLine (state : Session) (line : Text) :
    Keeps state (state.readLine line) ∧ (state.readLine line).handling = state.handling := by
  rcases state.readLine_cases line with same | same | ⟨argv, same⟩ | ⟨p, nonempty, same⟩
  all_goals
    rw [same]
    exact ⟨keeps_refl rfl _ _, rfl⟩

/-- While `SIGCHLD` is not blocked no launch is under way. -/
theorem forked_of_unblocked (unblocked : state.pc.unblocked = true) : state.pc.forked = [] := by
  cases pc : state.pc with
  | launch =>
      rw [pc] at unblocked
      cases unblocked
  | _ => rfl

theorem effect_of_step {label : SessionLabel}
    (unblocked : state.handling = true → state.pc.unblocked = true)
    (taken : Session.step state label = some after) :
    Effect state after label ∧ (after.handling = true → after.pc.unblocked = true) := by
  have idle_of {P : Prop} (idle : state.handling = false) (busy : state.handling = true) : P :=
    nomatch idle.symm.trans busy
  cases Session.move_of_step taken with
  | @builtin argv idle position =>
      obtain ⟨keeps, same⟩ := keeps_runBuiltin state argv
      exact ⟨.keeps keeps, fun busy => idle_of idle (same ▸ busy)⟩
  | @finishLaunch p cmdline pgid pids idle position whole =>
      refine ⟨effect_finishLaunch position, ?_⟩
      unfold Session.finishLaunch
      cases p.background <;> exact idle_of idle
  | waitCall idle | suspends idle | endsWait idle | eof idle =>
      exact ⟨.keeps (keeps_refl rfl _ _), idle_of idle⟩
  | finishWait idle position => exact ⟨.keeps (keeps_finishWait _), idle_of idle⟩
  | reset idle position =>
      have kept : Keeps state { state with pc := .prompt } := keeps_refl rfl _ _
      exact ⟨.keeps { kept with }, idle_of idle⟩
  | read line idle position =>
      obtain ⟨keeps, same⟩ := keeps_readLine state line
      exact ⟨.keeps keeps, fun busy => idle_of idle (same ▸ busy)⟩
  | fork position more free =>
      refine ⟨.forks free rfl rfl rfl rfl rfl ?_, fun busy => ?_⟩
      · rw [position]
        rfl
      · have reachable := unblocked busy
        rw [position] at reachable
        cases reachable
  | fails position more => exact ⟨.keeps (keeps_refl rfl _ _), fun _ => rfl⟩
  | signal idle free =>
      exact ⟨.keeps (keeps_refl (forked_of_unblocked free) _ _), fun _ => free⟩
  | report status busy inside =>
      exact ⟨.keeps (keeps_report _ status (forked_of_unblocked (unblocked busy))), unblocked⟩
  | wakes busy position => exact ⟨.keeps (keeps_refl rfl _ _), nofun⟩
  | returns busy awake =>
      exact ⟨.keeps (keeps_refl (forked_of_unblocked (unblocked busy)) _ _), nofun⟩

/-- How the job of a child and the number of a job with an entry of its identifier may be
related. -/
structure Relation (related : Option ℕ → ℕ → Prop) : Prop where
  own : ∀ num, related (some num) num
  older : ∀ num old, old < num → related none old → related (some num) old

/-- The relation holds of every child and every job with an entry of its identifier. -/
structure Tracked (related : Option ℕ → ℕ → Prop) (state : Session) : Prop where
  unblocked : state.handling = true → state.pc.unblocked = true
  nodup : (state.kids.map Kid.pid).Nodup
  entries : ∀ kid ∈ state.kids, ∀ job ∈ state.jobs.jobs, job.Lists kid.pid →
    related kid.job job.num
  forked : ∀ pid ∈ state.pc.forked, ∃ kid ∈ state.kids, kid.pid = pid ∧ kid.job = none

theorem tracked_start (related : Option ℕ → ℕ → Prop) : Tracked related .start where
  unblocked := nofun
  nodup := List.nodup_nil
  entries := nofun
  forked := nofun

/-- A step keeps the relation when it does so for the child that it may fork. -/
theorem Tracked.step {related : Option ℕ → ℕ → Prop} (relation : Relation related)
    (ok : Tracked related state) {label : SessionLabel}
    (fresh : ∀ pid, label = .fork pid → ∀ job ∈ state.jobs.jobs, job.Lists pid →
      related none job.num)
    (taken : Session.step state label = some after) : Tracked related after := by
  obtain ⟨effect, unblocked⟩ := effect_of_step ok.unblocked taken
  cases effect with
  | keeps same =>
      refine ⟨unblocked, ok.nodup.sublist same.sublist, fun kid inside job inside' listed => ?_, ?_⟩
      · obtain ⟨old, earlier, named, member⟩ := same.kids kid inside
        obtain ⟨job', earlier', number, lists⟩ := same.jobs job inside'
        rw [← member, ← number]
        exact ok.entries old earlier job' earlier' (named ▸ lists _ listed)
      · rw [same.forked]
        nofun
  | @forks pid kid free named alone jobs kids used forked =>
      have unused : kid.pid ∉ state.kids.map Kid.pid := by
        intro known
        obtain ⟨other, inside, same⟩ := List.mem_map.mp known
        have others := List.all_eq_true.mp (Bool.and_eq_true_iff.mp free).2 other inside
        exact of_decide_eq_true (Bool.and_eq_true_iff.mp others).1 (same.trans named)
      refine ⟨unblocked, ?_, ?_, ?_⟩
      · rw [kids]
        exact nodup_concat ok.nodup unused
      · rw [kids, jobs]
        intro other inside job inside' listed
        rcases List.mem_append.mp inside with old | new
        · exact ok.entries other old job inside' listed
        · obtain rfl := List.mem_singleton.mp new
          rw [alone]
          exact fresh pid rfl job inside' (named ▸ listed)
      · rw [kids, forked]
        intro other inside
        rcases List.mem_append.mp inside with old | new
        · obtain ⟨earlier, known, both⟩ := ok.forked other old
          exact ⟨earlier, List.mem_append_left _ known, both⟩
        · exact ⟨kid, List.mem_append_right _ List.mem_cons_self,
            named.trans (List.mem_singleton.mp new).symm, alone⟩
  | @adopts _ num new above number lists jobs kids used forked =>
      have pids : (adopt state.kids state.pc.forked num).map Kid.pid = state.kids.map Kid.pid :=
        map_key_ite (fun _ => by rfl) state.kids
      refine ⟨unblocked, ?_, ?_, ?_⟩
      · rw [kids, pids]
        exact ok.nodup
      · rw [kids, jobs]
        intro kid inside job inside' listed
        obtain ⟨old, known, rfl⟩ := List.mem_map.mp inside
        by_cases here : old.pid ∈ state.pc.forked
        · rw [if_pos here] at listed ⊢
          rcases List.mem_append.mp inside' with earlier | latest
          · obtain ⟨kid, known', same, alone⟩ := ok.forked old.pid here
            obtain rfl := eq_of_key ok.nodup known' known same
            have before := ok.entries kid known job earlier listed
            rw [alone] at before
            exact relation.older num job.num (above job earlier) before
          · obtain rfl := List.mem_singleton.mp latest
            exact number ▸ relation.own job.num
        · rw [if_neg here] at listed ⊢
          rcases List.mem_append.mp inside' with earlier | latest
          · exact ok.entries old known job earlier listed
          · obtain rfl := List.mem_singleton.mp latest
            exact absurd (lists _ listed) here
      · rw [forked]
        nofun

end Shell
end Syscore
