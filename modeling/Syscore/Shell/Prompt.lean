import Syscore.Shell.Tracking

/-!
# The table at a prompt

As long as no identifier is used twice every report is credited to the child that it names, so the
table is in order whenever `main` reads a line.
-/

namespace Syscore
namespace Shell

variable {state after : Session}

/-- No identifier of a child is used again. -/
def neverReused : Discipline Session SessionLabel := fun state label =>
  match label with
  | .fork pid => pid ∉ state.used
  | _ => True

instance (state : Session) (label : SessionLabel) : Decidable (neverReused state label) := by
  unfold neverReused
  split <;> infer_instance

/-- Every entry is that of a child forked in this session. -/
structure Recorded (state : Session) : Prop where
  entries : ∀ job ∈ state.jobs.jobs, ∀ pid, job.Lists pid → pid ∈ state.used
  forked : ∀ pid ∈ state.pc.forked, pid ∈ state.used

theorem Recorded.step (ok : Recorded state) {label : SessionLabel}
    (effect : Effect state after label) : Recorded after := by
  cases effect with
  | keeps same =>
      refine ⟨fun job inside pid listed => ?_, ?_⟩
      · obtain ⟨old, earlier, _, lists⟩ := same.jobs job inside
        rw [same.used]
        exact ok.entries old earlier pid (lists pid listed)
      · rw [same.forked]
        nofun
  | forks _ _ _ jobs _ used forked =>
      refine ⟨?_, ?_⟩
      · rw [jobs, used]
        exact fun job inside other listed =>
          List.mem_cons_of_mem _ (ok.entries job inside other listed)
      · rw [forked, used]
        intro other inside
        rcases List.mem_append.mp inside with old | new
        · exact List.mem_cons_of_mem _ (ok.forked other old)
        · exact List.mem_singleton.mp new ▸ List.mem_cons_self
  | adopts _ _ lists jobs _ used forked =>
      refine ⟨?_, ?_⟩
      · rw [jobs, used]
        intro job inside other listed
        rcases List.mem_append.mp inside with old | new
        · exact ok.entries job old other listed
        · obtain rfl := List.mem_singleton.mp new
          exact ok.forked other (lists other listed)
      · rw [forked]
        nofun

/-- An entry with the identifier of a child is its own. -/
def ownJob (job : Option ℕ) (num : ℕ) : Prop := job = some num

theorem relation_ownJob : Relation ownJob where
  own _ := rfl
  older _ _ _ impossible := nomatch impossible

theorem sessionOk_of_neverReused (reach : Session.machine.Reachable neverReused state) :
    SessionOk state := by
  have all : Tracked ownJob state ∧ Recorded state ∧ SessionOk state := by
    refine reach.invariant
      (fun state => Tracked ownJob state ∧ Recorded state ∧ SessionOk state) ?_ ?_
    · rintro _ rfl
      exact ⟨tracked_start _, ⟨nofun, nofun⟩, sessionOk_start⟩
    · rintro before label next ⟨tracked, recorded, ok⟩ allowed taken
      have fresh : ∀ pid, label = .fork pid → ∀ job ∈ before.jobs.jobs, job.Lists pid →
          ownJob none job.num := by
        rintro pid rfl job inside listed
        exact absurd (recorded.entries job inside pid listed) allowed
      have credited : creditable before label := by
        cases label with
        | report pid status =>
            rintro kid inside rfl job inside' listed
            exact tracked.entries kid inside job inside' listed
        | _ => trivial
      exact ⟨tracked.step relation_ownJob fresh taken,
        recorded.step (effect_of_step tracked.unblocked taken).1, ok.step credited taken⟩
  exact all.2.2

/-- Whenever `main` reads a line no job is in the foreground, the numbers are distinct and at most
`counter_`, and every job has a process that has not ended. A foreground wait ends with its job gone
or not running. -/
theorem prompt_invariant (state : Session) (reach : Session.machine.Reachable neverReused state) :
    (state.pc = .prompt →
      state.fgPgid = 0 ∧ (∀ job ∈ state.jobs.jobs, job.state ≠ .foreground) ∧
        (state.jobs.jobs.map Job.num).Nodup ∧
        ∀ job ∈ state.jobs.jobs, job.num ≤ state.jobs.counter ∧ job.processes ≠ [] ∧
          ∃ p ∈ job.processes, p.state ≠ .terminated) ∧
    ∀ pgid num, state.pc = .waitEnd pgid num → ∀ job ∈ state.jobs.jobs, job.num = num →
      ∀ p ∈ job.processes, p.state ≠ .running := by
  have ok := sessionOk_of_neverReused reach
  have main := ok.main
  unfold MainOk at main
  refine ⟨fun position => ?_, fun pgid num position => ?_⟩
  · rw [position] at main
    refine ⟨main.1, fun job inside front => ?_, state.jobs.nodup_num, fun job inside => ?_⟩
    · cases (main.2 job inside).symm.trans front
    · obtain ⟨p, entry, running⟩ := Job.allTerminated_eq_false.mp (ok.accounted.live job inside)
      exact ⟨state.jobs.bounded job inside, List.ne_nil_of_mem entry, p, entry, running⟩
  · rw [position] at main
    intro job inside number
    exact Job.anyRunning_eq_false.mp (main.2 job inside number)

/-- A foreground job is stopped, continued by `fg`, and interrupted with one of its processes
left. -/
def stoppedRun : List SessionLabel :=
  [.read (ascii "sleep 9 | cat"), .fork 100, .fork 101, .main, .main, .main, .signal,
    .report 101 .stopped, .report 100 .stopped, .handled, .main, .main, .main,
    .read (ascii "fg 1"), .main, .main, .main, .signal, .report 101 .signaled,
    .report 100 .stopped, .handled, .main, .main, .main]

theorem stoppedRun_finishes :
    (Session.machine.exec neverReused .start stoppedRun).isSome = true := by
  decide +kernel

/-- The shell after `stoppedRun`. -/
def stoppedEnd : Session :=
  (Session.machine.exec neverReused .start stoppedRun).get stoppedRun_finishes

theorem prompt_invariant_stopped :
    stoppedEnd.jobs.jobs.map Job.num = [1] ∧ stoppedEnd.fgPgid = 0 ∧
      ∀ job ∈ stoppedEnd.jobs.jobs, job.state ≠ .foreground := by
  have reach : Session.machine.Reachable neverReused stoppedEnd :=
    .of_exec rfl stoppedRun stoppedRun_finishes
  obtain ⟨quiet, background, _⟩ := (prompt_invariant stoppedEnd reach).1 (by decide +kernel)
  exact ⟨by decide +kernel, quiet, background⟩

end Shell
end Syscore
