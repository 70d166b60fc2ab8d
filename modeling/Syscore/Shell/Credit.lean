import Syscore.Shell.Session

/-!
# The table and the unreaped children

Every unreaped child of a job has its entry in the record of that job, and every entry that has not
ended is that of an unreaped child. Each change of the table keeps this, a report provided that no
other entry carries the identifier that it names.
-/

namespace Syscore
namespace Shell

/-- The state that the table should have for a child. -/
def Kid.credited (kid : Kid) : ProcState :=
  if kid.resumed = true ∧ kid.last = .stopped then .running else kid.last

/-- The state of an entry after `markGroupRunning`. -/
theorem credited_resumed (kid : Kid) :
    ({ kid with resumed := true } : Kid).credited =
      if kid.credited = .stopped then .running else kid.credited := by
  unfold Kid.credited
  cases kid.resumed <;> cases kid.last <;> rfl

/-- A child of a launch that is not complete. -/
def Kid.Launched (kid : Kid) (pgid : Pid) : Prop :=
  kid.job = none ∧ kid.pgid = pgid ∧ kid.last = .running

/-- The table agrees with the unreaped children. -/
structure Accounted (jobs : JobList) (kids : List Kid) : Prop where
  nodup : (kids.map Kid.pid).Nodup
  alive : ∀ kid ∈ kids, kid.last ≠ .terminated
  credit : ∀ kid ∈ kids, ∀ num, kid.job = some num → ∃ job ∈ jobs.jobs,
    job.num = num ∧ job.pgid = kid.pgid ∧ job.Lists kid.pid ∧
      ∀ p ∈ job.processes, p.pid = kid.pid → p.state = kid.credited
  owned : ∀ job ∈ jobs.jobs, ∀ p ∈ job.processes, p.state ≠ .terminated →
    ∃ kid ∈ kids, kid.pid = p.pid ∧ kid.job = some job.num
  live : ∀ job ∈ jobs.jobs, job.allTerminated = false
  groups : ∀ job ∈ jobs.jobs, ∀ other ∈ jobs.jobs, job.pgid = other.pgid → job.num = other.num

/-- No entry but the child's own carries its identifier. -/
def OwnEntry (jobs : JobList) (kids : List Kid) (pid : Pid) : Prop :=
  ∀ kid ∈ kids, kid.pid = pid → ∀ job ∈ jobs.jobs, job.Lists pid → kid.job = some job.num

instance (jobs : JobList) (kids : List Kid) (pid : Pid) : Decidable (OwnEntry jobs kids pid) :=
  inferInstanceAs (Decidable (∀ kid ∈ kids, kid.pid = pid → ∀ job ∈ jobs.jobs,
    (∃ p ∈ job.processes, p.pid = pid) → kid.job = some job.num))

theorem mem_waitpid {kids : List Kid} {pid : Pid} {status : Status} {kid : Kid} :
    kid ∈ waitpid kids pid status ↔
      (kid ∈ kids ∧ kid.pid ≠ pid) ∨
        ∃ old ∈ kids, old.pid = pid ∧ status.state ≠ .terminated ∧
          kid = { old with last := status.state, resumed := false } := by
  have ended : kid ∈ kids.filter (fun kid => kid.pid ≠ pid) ↔ kid ∈ kids ∧ kid.pid ≠ pid := by
    simp
  cases status with
  | exited | signaled =>
      rw [waitpid, ended]
      exact ⟨.inl, fun either => either.resolve_right fun ⟨_, _, _, gone, _⟩ => gone rfl⟩
  | stopped | continued =>
      rw [waitpid, mem_map_ite]
      simp [Status.state]

theorem map_pid_waitpid_sublist (kids : List Kid) (pid : Pid) (status : Status) :
    ((waitpid kids pid status).map Kid.pid).Sublist (kids.map Kid.pid) := by
  have same (last : ProcState) : (kids.map fun kid =>
      if kid.pid = pid then { kid with last, resumed := false } else kid).map Kid.pid =
        kids.map Kid.pid :=
    map_key_ite (fun _ => by rfl) kids
  cases status with
  | exited | signaled => exact List.filter_sublist.map _
  | stopped | continued => rw [waitpid, same]

theorem mem_record {pid : Pid} {status : Status} {processes : List Process} {p : Process} :
    p ∈ record pid status processes ↔
      (p ∈ processes ∧ p.pid ≠ pid) ∨
        p.pid = pid ∧ p.state = status.state ∧ ∃ old ∈ processes, old.pid = pid := by
  rw [record, mem_map_ite]
  refine or_congr_right ⟨?_, ?_⟩
  · rintro ⟨old, inside, here, rfl⟩
    exact ⟨here, rfl, old, inside, here⟩
  · rintro ⟨here, credited, old, inside, same⟩
    obtain ⟨_, _⟩ := p
    obtain rfl := here
    obtain rfl := credited
    exact ⟨old, inside, same, by rw [same]⟩

namespace Accounted

variable {jobs : JobList} {kids : List Kid} (ok : Accounted jobs kids)

include ok in
theorem kid_eq {kid other : Kid} (inside : kid ∈ kids) (inside' : other ∈ kids)
    (same : kid.pid = other.pid) : kid = other :=
  eq_of_key ok.nodup inside inside' same

include ok in
/-- A new child is part of no job. -/
theorem fork {kid : Kid} (fresh : kid.pid ∉ kids.map Kid.pid) (alone : kid.job = none)
    (running : kid.last = .running) : Accounted jobs (kids ++ [kid]) where
  nodup := nodup_concat ok.nodup fresh
  alive other inside := by
    rcases List.mem_append.mp inside with old | new
    · exact ok.alive other old
    · obtain rfl := List.mem_singleton.mp new
      rw [running]
      nofun
  credit other inside num member := by
    rcases List.mem_append.mp inside with old | new
    · exact ok.credit other old num member
    · obtain rfl := List.mem_singleton.mp new
      cases alone.symm.trans member
  owned job inside p entry running := by
    obtain ⟨kid, known, both⟩ := ok.owned job inside p entry running
    exact ⟨kid, List.mem_append_left _ known, both⟩
  live := ok.live
  groups := ok.groups

include ok in
/-- A report about the owner of the only entry with its identifier. -/
theorem report {pid : Pid} {status : Status} {kid : Kid} (inside : kid ∈ kids)
    (named : kid.pid = pid) (own : OwnEntry jobs kids pid) :
    Accounted (jobs.handleReport pid status) (waitpid kids pid status) := by
  have nodup := ok.nodup.sublist (map_pid_waitpid_sublist kids pid status)
  have alive : ∀ kid ∈ waitpid kids pid status, kid.last ≠ .terminated := by
    intro other inside
    rcases mem_waitpid.mp inside with ⟨old, _⟩ | ⟨old, known, _, living, rfl⟩
    · exact ok.alive other old
    · exact living
  cases found : jobs.getJobWithProcess pid with
  | none =>
      have unlisted := JobList.getJobWithProcess_eq_none.mp found
      have alone : kid.job = none := by
        cases member : kid.job with
        | none => rfl
        | some num =>
            obtain ⟨job, known, _, _, listed, _⟩ := ok.credit kid inside num member
            exact absurd (named ▸ listed) (unlisted job known)
      rw [JobList.handleReport_of_none found]
      refine ⟨nodup, alive, ?_, ?_, ok.live, ok.groups⟩
      · intro other inside' num member
        rcases mem_waitpid.mp inside' with ⟨old, _⟩ | ⟨old, known, same, _, rfl⟩
        · exact ok.credit other old num member
        · obtain rfl := ok.kid_eq known inside (same.trans named.symm)
          cases alone.symm.trans member
      · intro job known p entry running
        obtain ⟨owner, owns, same, member⟩ := ok.owned job known p entry running
        have apart : owner.pid ≠ pid := fun here =>
          unlisted job known ⟨p, entry, same.symm.trans here⟩
        exact ⟨owner, mem_waitpid.mpr (.inl ⟨owns, apart⟩), same, member⟩
  | some credited =>
      obtain ⟨known, listed⟩ := JobList.mem_of_getJobWithProcess found
      have member := own kid inside named credited known listed
      have mem {job : Job} : job ∈ (jobs.handleReport pid status).jobs ↔
          (job ∈ jobs.jobs ∧ job.num ≠ credited.num) ∨
            job = { credited with processes := record pid status credited.processes } ∧
              job.allTerminated = false :=
        JobList.mem_handleReport found
      have unlisted {job : Job} (other : job ∈ jobs.jobs) (apart : job.num ≠ credited.num) :
          ¬ job.Lists pid := fun listed => by
        have owner := own kid inside named job other listed
        exact apart (Option.some.inj (owner.symm.trans member))
      refine ⟨nodup, alive, ?_, ?_, ?_, ?_⟩
      · intro other inside' num membership
        rcases mem_waitpid.mp inside' with ⟨old, apart⟩ | ⟨old, earlier, same, living, rfl⟩
        · obtain ⟨job, inside'', number, group, entry, states⟩ := ok.credit other old num membership
          by_cases here : job.num = credited.num
          · obtain rfl := jobs.eq_of_num inside'' known here
            have running : other.credited ≠ .terminated := by
              unfold Kid.credited
              split
              · nofun
              · exact ok.alive other old
            obtain ⟨p, listed', named'⟩ := entry
            have kept : p ∈ record pid status job.processes :=
              mem_record.mpr (.inl ⟨listed', named' ▸ apart⟩)
            refine ⟨_, mem.mpr (.inr ⟨rfl, ?_⟩), number, group, ⟨p, kept, named'⟩, ?_⟩
            · refine Job.allTerminated_eq_false.mpr ⟨p, kept, ?_⟩
              rw [states p listed' named']
              exact running
            · intro q listed'' named''
              rcases mem_record.mp listed'' with ⟨old, _⟩ | ⟨here, _⟩
              · exact states q old named''
              · exact absurd (named''.symm.trans here) apart
          · exact ⟨job, mem.mpr (.inl ⟨inside'', here⟩), number, group, entry, states⟩
        · obtain rfl := ok.kid_eq earlier inside (same.trans named.symm)
          obtain ⟨job, inside'', number, group, _, _⟩ := ok.credit old inside num membership
          have here : job.num = credited.num :=
            number.trans (Option.some.inj (membership.symm.trans member))
          obtain rfl := jobs.eq_of_num inside'' known here
          have entry : ({ pid, state := status.state } : Process) ∈
              record pid status job.processes :=
            mem_record.mpr (.inr ⟨rfl, rfl, listed⟩)
          refine ⟨_, mem.mpr (.inr ⟨rfl, Job.allTerminated_eq_false.mpr ⟨_, entry, living⟩⟩),
            number,
            group, ⟨_, entry, named.symm⟩, ?_⟩
          intro p listed' named'
          have credit : Kid.credited { old with last := status.state, resumed := false } =
              status.state := if_neg fun both => nomatch both.1
          rcases mem_record.mp listed' with ⟨_, apart⟩ | ⟨_, state, _⟩
          · exact absurd (named'.trans named) apart
          · exact state.trans credit.symm
      · intro job inside' p entry running
        rcases mem.mp inside' with ⟨old, apart⟩ | ⟨rfl, _⟩
        · obtain ⟨owner, owns, same, membership⟩ := ok.owned job old p entry running
          have other : owner.pid ≠ pid := fun here =>
            unlisted old apart ⟨p, entry, same.symm.trans here⟩
          exact ⟨owner, mem_waitpid.mpr (.inl ⟨owns, other⟩), same, membership⟩
        · rcases mem_record.mp entry with ⟨old, apart⟩ | ⟨here, state, _⟩
          · obtain ⟨owner, owns, same, membership⟩ := ok.owned credited known p old running
            exact ⟨owner, mem_waitpid.mpr (.inl ⟨owns, same ▸ apart⟩), same, membership⟩
          · exact ⟨_, mem_waitpid.mpr (.inr ⟨kid, inside, named, state ▸ running, rfl⟩),
              named.trans here.symm, member⟩
      · intro job inside'
        rcases mem.mp inside' with ⟨old, _⟩ | ⟨_, running⟩
        · exact ok.live job old
        · exact running
      · have before {job : Job} (later : job ∈ (jobs.handleReport pid status).jobs) :
            ∃ old ∈ jobs.jobs, old.num = job.num ∧ old.pgid = job.pgid := by
          rcases mem.mp later with ⟨old, _⟩ | ⟨rfl, _⟩
          · exact ⟨job, old, rfl, rfl⟩
          · exact ⟨credited, known, rfl, rfl⟩
        intro job inside' other inside'' same
        obtain ⟨old, earlier, number, group⟩ := before inside'
        obtain ⟨old', earlier', number', group'⟩ := before inside''
        have equal := ok.groups old earlier old' earlier' (group.trans (same.trans group'.symm))
        exact number.symm.trans (equal.trans number')

include ok in
/-- Assignments to the state of a job. -/
theorem setState (num : ℕ) (state : JobState) : Accounted (jobs.setState num state) kids := by
  have before {job : Job} (later : job ∈ (jobs.setState num state).jobs) :
      ∃ old ∈ jobs.jobs, job = { old with state := job.state } := by
    rcases JobList.mem_modify.mp later with ⟨old, _⟩ | ⟨old, earlier, _, rfl⟩
    · exact ⟨job, old, rfl⟩
    · exact ⟨old, earlier, rfl⟩
  have later {job : Job} (earlier : job ∈ jobs.jobs) :
      ∃ state', { job with state := state' } ∈ (jobs.setState num state).jobs := by
    by_cases here : job.num = num
    · exact ⟨state, JobList.mem_modify.mpr (.inr ⟨job, earlier, here, rfl⟩)⟩
    · exact ⟨job.state, JobList.mem_modify.mpr (.inl ⟨earlier, here⟩)⟩
  refine ⟨ok.nodup, ok.alive, ?_, ?_, ?_, ?_⟩
  · intro kid inside num' member
    obtain ⟨job, known, rest⟩ := ok.credit kid inside num' member
    obtain ⟨state', known⟩ := later known
    exact ⟨_, known, rest⟩
  · intro job inside p entry running
    obtain ⟨old, known, same⟩ := before inside
    rw [same] at entry ⊢
    exact ok.owned old known p entry running
  · intro job inside
    obtain ⟨old, known, same⟩ := before inside
    rw [same]
    exact ok.live old known
  · intro job inside other inside' group
    obtain ⟨old, known, same⟩ := before inside
    obtain ⟨old', known', same'⟩ := before inside'
    rw [same, same'] at group ⊢
    exact ok.groups old known old' known' group

include ok in
/-- `fg` and `bg` turn the stopped entries of a job, and what is known of its children, to
running. -/
theorem continueJob (num : ℕ) : Accounted (jobs.markGroupRunning num) (resume kids num) := by
  have pids : (resume kids num).map Kid.pid = kids.map Kid.pid := map_key_ite (fun _ => by rfl) kids
  have keep {kid : Kid} (inside : kid ∈ kids) : ∃ kid' ∈ resume kids num,
      kid'.pid = kid.pid ∧ kid'.job = kid.job := by
    refine ⟨_, List.mem_map_of_mem inside, ?_⟩
    split <;> exact ⟨rfl, rfl⟩
  refine ⟨pids ▸ ok.nodup, ?_, ?_, ?_, ?_, ?_⟩
  · intro kid inside
    obtain ⟨old, known, rfl⟩ := List.mem_map.mp inside
    split <;> exact ok.alive old known
  · intro kid inside num' member
    obtain ⟨old, known, rfl⟩ := List.mem_map.mp inside
    by_cases here : old.job = some num
    · rw [if_pos here] at member ⊢
      obtain ⟨job, inside', number, group, ⟨p, entry, named⟩, states⟩ :=
        ok.credit old known num here
      obtain rfl := Option.some.inj (here.symm.trans member)
      refine ⟨_, JobList.mem_modify.mpr (.inr ⟨job, inside', number, rfl⟩), number, group,
        ⟨_, List.mem_map_of_mem entry, ?_⟩, ?_⟩
      · split <;> exact named
      · intro q entry' named'
        obtain ⟨r, entry'', rfl⟩ := List.mem_map.mp entry'
        have credited := states r entry'' (by split at named' <;> exact named')
        rw [credited_resumed, ← credited]
        split <;> rfl
    · rw [if_neg here] at member ⊢
      obtain ⟨job, inside', number, rest⟩ := ok.credit old known num' member
      have apart : job.num ≠ num := fun same => here (member.trans (by rw [← number, same]))
      exact ⟨job, JobList.mem_modify.mpr (.inl ⟨inside', apart⟩), number, rest⟩
  · intro job inside p entry running
    rcases JobList.mem_modify.mp inside with ⟨old, _⟩ | ⟨old, earlier, here, rfl⟩
    · obtain ⟨kid, known, same, member⟩ := ok.owned job old p entry running
      obtain ⟨kid', known', same', member'⟩ := keep known
      exact ⟨kid', known', same'.trans same, member'.trans member⟩
    · obtain ⟨q, entry', rfl⟩ := List.mem_map.mp entry
      have running' : q.state ≠ .terminated := by
        split at running
        · rename_i stopped
          rw [stopped]
          nofun
        · exact running
      obtain ⟨kid, known, same, member⟩ := ok.owned old earlier q entry' running'
      obtain ⟨kid', known', same', member'⟩ := keep known
      refine ⟨kid', known', ?_, member'.trans member⟩
      split <;> exact same'.trans same
  · intro job inside
    rcases JobList.mem_modify.mp inside with ⟨old, _⟩ | ⟨old, earlier, here, rfl⟩
    · exact ok.live job old
    · obtain ⟨p, entry, running⟩ := Job.allTerminated_eq_false.mp (ok.live old earlier)
      refine Job.allTerminated_eq_false.mpr ⟨_, List.mem_map_of_mem entry, ?_⟩
      split
      · nofun
      · exact running
  · intro job inside other inside' same
    have before {job : Job} (later : job ∈ (jobs.markGroupRunning num).jobs) :
        ∃ old ∈ jobs.jobs, old.num = job.num ∧ old.pgid = job.pgid := by
      rcases JobList.mem_modify.mp later with ⟨old, _⟩ | ⟨old, earlier, _, rfl⟩
      · exact ⟨job, old, rfl, rfl⟩
      · exact ⟨old, earlier, rfl, rfl⟩
    obtain ⟨old, earlier, number, group⟩ := before inside
    obtain ⟨old', earlier', number', group'⟩ := before inside'
    have equal := ok.groups old earlier old' earlier' (group.trans (same.trans group'.symm))
    exact number.symm.trans (equal.trans number')

include ok in
/-- The job of a complete launch. -/
theorem launch {pgid : Pid} {cmdline : Text} {state : JobState} {pids : List Pid}
    (some_pid : pids ≠ [])
    (launched : ∀ pid ∈ pids, ∃ kid ∈ kids, kid.pid = pid ∧ kid.Launched pgid)
    (fresh : ∀ job ∈ jobs.jobs, job.pgid ≠ pgid) :
    Accounted (jobs.launch pgid cmdline state pids).2
      (adopt kids pids (jobs.launch pgid cmdline state pids).1) := by
  have jobs_eq := jobs.jobs_launch pgid cmdline state pids
  have below {job : Job} (inside : job ∈ jobs.jobs) :
      job.num ≠ (jobs.launch pgid cmdline state pids).1 :=
    Nat.ne_of_lt (Nat.lt_succ_of_le (jobs.bounded job inside))
  generalize (jobs.launch pgid cmdline state pids).1 = num at jobs_eq below
  have mem {job : Job} : job ∈ (jobs.launch pgid cmdline state pids).2.jobs ↔
      job ∈ jobs.jobs ∨ job =
        { num, pgid, state, cmdline
          processes := pids.map fun pid => { pid, state := .running } } := by
    rw [jobs_eq, List.mem_append, List.mem_singleton]
  have pids_eq : (adopt kids pids num).map Kid.pid = kids.map Kid.pid :=
    map_key_ite (fun _ => by rfl) kids
  have owner {kid : Kid} (inside : kid ∈ kids) (named : kid.pid ∈ pids) : kid.Launched pgid := by
    obtain ⟨other, known, same, fine⟩ := launched kid.pid named
    exact ok.kid_eq known inside same ▸ fine
  refine ⟨pids_eq ▸ ok.nodup, ?_, ?_, ?_, ?_, ?_⟩
  · intro kid inside
    obtain ⟨old, known, rfl⟩ := List.mem_map.mp inside
    split <;> exact ok.alive old known
  · intro kid inside num' member
    obtain ⟨old, known, rfl⟩ := List.mem_map.mp inside
    by_cases here : old.pid ∈ pids
    · rw [if_pos here] at member ⊢
      obtain rfl := Option.some.inj member
      obtain ⟨_, group, running⟩ := owner known here
      refine ⟨_, mem.mpr (.inr rfl), rfl, group.symm, ⟨_, List.mem_map_of_mem here, rfl⟩, ?_⟩
      intro p entry _
      obtain ⟨pid, _, rfl⟩ := List.mem_map.mp entry
      show ProcState.running = _
      unfold Kid.credited
      rw [running]
      split <;> rfl
    · rw [if_neg here] at member ⊢
      obtain ⟨job, inside', rest⟩ := ok.credit old known num' member
      exact ⟨job, mem.mpr (.inl inside'), rest⟩
  · intro job inside p entry running
    rcases mem.mp inside with old | rfl
    · obtain ⟨kid, known, same, member⟩ := ok.owned job old p entry running
      have apart : kid.pid ∉ pids := fun here => by
        have alone := (owner known here).1
        cases alone.symm.trans member
      exact ⟨kid, List.mem_map.mpr ⟨kid, known, if_neg apart⟩, same, member⟩
    · obtain ⟨pid, here, rfl⟩ := List.mem_map.mp entry
      obtain ⟨kid, known, rfl, _⟩ := launched pid here
      exact ⟨_, List.mem_map.mpr ⟨kid, known, if_pos here⟩, rfl, rfl⟩
  · intro job inside
    rcases mem.mp inside with old | rfl
    · exact ok.live job old
    · obtain ⟨pid, rest, rfl⟩ := List.exists_cons_of_ne_nil some_pid
      exact Job.allTerminated_eq_false.mpr ⟨_, List.mem_cons_self, nofun⟩
  · intro job inside other inside' same
    rcases mem.mp inside with old | rfl <;> rcases mem.mp inside' with old' | rfl
    · exact ok.groups job old other old' same
    · exact absurd same (fresh job old)
    · exact absurd same.symm (fresh other old')
    · rfl

end Accounted

end Shell
end Syscore
