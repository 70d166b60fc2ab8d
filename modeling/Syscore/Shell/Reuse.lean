import Syscore.Shell.Tracking

/-!
# Reports and used identifiers

A job keeps the entries of its reaped processes while one of them lives, and `getJobWithProcess`
takes the first job with an entry. A report is credited to the child that it names exactly when no
other entry carries the identifier, and otherwise to a process that is gone.
-/

namespace Syscore
namespace Shell

variable {state after : Session}

/-- Every unreaped child is in the table with the state last reported for it, no job outlives its
processes, and no foreground wait goes on for one that has. -/
structure Faithful (state : Session) : Prop where
  credited : ∀ kid ∈ state.kids, ∀ num, kid.job = some num → ∃ job ∈ state.jobs.jobs,
    job.num = num ∧ job.Lists kid.pid ∧ ∀ p ∈ job.processes, p.pid = kid.pid →
      p.state = kid.last ∨ kid.resumed = true ∧ kid.last = .stopped ∧ p.state = .running
  reaped : ∀ job ∈ state.jobs.jobs, ∃ kid ∈ state.kids, kid.job = some job.num
  waits : ∀ pgid num after, state.pc = .waitLoop pgid num → Session.step state .main = some after →
    after.pc = .suspended pgid num → ∃ kid ∈ state.kids, kid.job = some num

/-- The handler would credit a report to an entry in another job than that of the child. -/
def Misapplied (state : Session) (pid : Pid) : Prop :=
  ∃ kid ∈ state.kids, kid.pid = pid ∧
    ∃ job, state.jobs.getJobWithProcess pid = some job ∧ kid.job ≠ some job.num

instance (state : Session) (label : SessionLabel) : Decidable (creditable state label) := by
  unfold creditable
  split <;> infer_instance

theorem sessionOk_of_creditable (reach : Session.machine.Reachable creditable state) :
    SessionOk state := by
  refine reach.invariant SessionOk ?_ ?_
  · rintro _ rfl
    exact sessionOk_start
  · exact fun _ _ _ ok allowed taken => ok.step allowed taken

theorem SessionOk.faithful (ok : SessionOk state) : Faithful state := by
  have reaped : ∀ job ∈ state.jobs.jobs, ∃ kid ∈ state.kids, kid.job = some job.num := by
    intro job inside
    obtain ⟨p, entry, running⟩ := Job.allTerminated_eq_false.mp (ok.accounted.live job inside)
    obtain ⟨kid, known, _, member⟩ := ok.accounted.owned job inside p entry running
    exact ⟨kid, known, member⟩
  refine ⟨fun kid inside num member => ?_, reaped, fun pgid num after position taken waits => ?_⟩
  · obtain ⟨job, known, number, _, listed, states⟩ := ok.accounted.credit kid inside num member
    refine ⟨job, known, number, listed, fun p entry named => ?_⟩
    rw [states p entry named, Kid.credited]
    split
    · rename_i both
      exact .inr ⟨both.1, both.2, rfl⟩
    · exact .inl rfl
  · have main := ok.main
    unfold MainOk at main
    rw [position] at main
    cases Session.move_of_step taken with
    | @suspends _ _ job _ here found running =>
        obtain ⟨rfl, rfl⟩ := MainPc.waitLoop.inj (position.symm.trans here)
        obtain ⟨known, same⟩ := JobList.mem_of_getJobByPgid found
        exact (main.2.2 job known).mp same ▸ reaped job known
    | endsWait => cases waits
    | _ _ here => cases position.symm.trans here

/-- The jobs with an entry of the identifier of a child are not younger than its own. -/
def notYounger (job : Option ℕ) (num : ℕ) : Prop := ∀ own, job = some own → num ≤ own

theorem relation_notYounger : Relation notYounger where
  own num own same := (Option.some.inj same).le
  older num old younger _ own same := by
    obtain rfl := Option.some.inj same
    exact younger.le

theorem tracked_of_reachable (reach : Session.machine.Reachable .free state) :
    Tracked notYounger state := by
  refine reach.invariant (Tracked notYounger) ?_ ?_
  · rintro _ rfl
    exact tracked_start _
  · exact fun _ _ _ ok _ taken =>
      ok.step relation_notYounger (fun _ _ _ _ _ _ impossible => nomatch impossible) taken

/-- The first job with an entry is the oldest. -/
theorem le_of_getJobWithProcess {jobs : JobList} {pid : Pid} {first job : Job}
    (found : jobs.getJobWithProcess pid = some first) (inside : job ∈ jobs.jobs)
    (listed : job.Lists pid) : first.num ≤ job.num := by
  obtain ⟨_, before, later, shape, missed⟩ := List.find?_eq_some_iff_append.mp found
  have sorted := jobs.sorted
  rw [shape] at inside sorted
  rcases List.mem_append.mp inside with earlier | here
  · obtain ⟨p, entry, named⟩ := listed
    have absent := missed job earlier
    have present : (job.processes.any fun p => decide (p.pid = pid)) = true :=
      List.any_eq_true.mpr ⟨p, entry, decide_eq_true named⟩
    rw [present] at absent
    cases absent
  · rcases List.mem_cons.mp here with rfl | later
    · exact le_rfl
    · exact (List.rel_of_pairwise_cons (List.pairwise_append.mp sorted).2.1 later).le

/-- In every run whose reports each name the child of the only entry with that identifier, the table
is faithful in every state; and a report is credited to the child that it names exactly then. -/
theorem reports_credited (state : Session) :
    (Session.machine.Reachable creditable state → Faithful state) ∧
      ∀ pid status, Session.machine.Reachable .free state →
        (¬ Misapplied state pid ↔ creditable state (.report pid status)) := by
  refine ⟨fun reach => (sessionOk_of_creditable reach).faithful,
    fun pid status reach => ⟨?_, ?_⟩⟩
  · rintro applied kid inside rfl job inside' listed
    have tracked := tracked_of_reachable reach
    cases found : state.jobs.getJobWithProcess kid.pid with
    | none => exact absurd listed (JobList.getJobWithProcess_eq_none.mp found job inside')
    | some first =>
        have own : kid.job = some first.num := by
          by_contra other
          exact applied ⟨kid, inside, rfl, first, found, other⟩
        have least := le_of_getJobWithProcess found inside' listed
        have most := tracked.entries kid inside job inside' listed first.num own
        rw [own, Nat.le_antisymm least most]
  · rintro own ⟨kid, inside, named, job, found, other⟩
    obtain ⟨known, listed⟩ := JobList.mem_of_getJobWithProcess found
    exact other (own kid inside named job known listed)

/-- The second process of a background job ends, and a foreground job ends after it. -/
def freshRun : List SessionLabel :=
  [.read (ascii "sleep 9 | true &"), .fork 100, .fork 101, .main, .signal, .report 101 .exited,
    .handled, .read (ascii "date"), .fork 102, .main, .main, .main, .signal, .report 102 .exited,
    .report 100 .stopped, .handled]

theorem freshRun_finishes : (Session.machine.exec creditable .start freshRun).isSome = true := by
  decide +kernel

/-- The shell after `freshRun`. -/
def freshEnd : Session := (Session.machine.exec creditable .start freshRun).get freshRun_finishes

theorem reports_credited_fresh :
    freshEnd.kids.map Kid.pid = [100] ∧ Faithful freshEnd ∧ ¬ Misapplied freshEnd 100 := by
  have reach : Session.machine.Reachable creditable freshEnd :=
    .of_exec rfl freshRun freshRun_finishes
  have own : creditable freshEnd (.report 100 .exited) := by decide +kernel
  exact ⟨by decide +kernel, (reports_credited freshEnd).1 reach,
    ((reports_credited freshEnd).2 100 .exited reach.toFree).mpr own⟩

/-- The second process of a background job ends, and a new process gets its identifier. -/
def reusedRun : List SessionLabel :=
  [.read (ascii "sleep 9 | true &"), .fork 100, .fork 101, .main, .signal, .report 101 .exited,
    .handled, .read (ascii "date"), .fork 101, .main, .main, .main, .signal, .report 101 .exited,
    .handled]

theorem reusedRun_finishes : (Session.machine.exec .free .start reusedRun).isSome = true := by
  decide +kernel

/-- The shell after `reusedRun`. -/
def reusedEnd : Session := (Session.machine.exec .free .start reusedRun).get reusedRun_finishes

/-- `date` has ended and has been reaped, and the shell goes on waiting for it. -/
theorem report_to_reaped :
    Session.machine.Reachable .free reusedEnd ∧
      (∃ after, Session.step reusedEnd .main = some after ∧ after.pc = .suspended 101 2) ∧
      (∀ kid ∈ reusedEnd.kids, kid.job ≠ some 2) ∧ ¬ Faithful reusedEnd := by
  have position : reusedEnd.pc = .waitLoop 101 2 := by decide +kernel
  have waits : (Session.step reusedEnd .main).map Session.pc = some (.suspended 101 2) := by
    decide +kernel
  have gone : ∀ kid ∈ reusedEnd.kids, kid.job ≠ some 2 := by decide +kernel
  obtain ⟨after, taken, suspended⟩ := Option.map_eq_some_iff.mp waits
  refine ⟨.of_exec rfl reusedRun reusedRun_finishes, ⟨after, taken, suspended⟩, gone, ?_⟩
  intro faithful
  obtain ⟨kid, inside, member⟩ := faithful.waits 101 2 after position taken suspended
  exact gone kid inside member

end Shell
end Syscore
