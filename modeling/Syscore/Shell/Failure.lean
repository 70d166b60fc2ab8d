import Syscore.Shell.Pipeline

/-!
# A launch that fails

`runPipeline` returns from the middle of its loop when `pipe` or `fork` fails. What it has opened by
then stays open, and whom it has forked gets no job.
-/

namespace Syscore
namespace Shell

variable {setting : Setting} {state after final : Launch}

/-- The shell is as it was before the launch: the same descriptors are open, and every child belongs
to a job or is dead. -/
structure Restored (setting : Setting) (state : Launch) : Prop where
  fds : ∀ fd, state.fds.get fd ≠ none ↔ setting.fds.get fd ≠ none
  children : ∀ child ∈ state.children,
    (∃ job ∈ state.jobs.jobs, job.Lists child.pid) ∨ ∃ execed, child.pc = .exited execed

/-- The next call of `pipe` or `fork` is the first of the launch. -/
def Launch.AtFirstCall (state : Launch) : Prop :=
  state.i = 0 ∧ (state.pc = .loop ∨ state.pc = .fork none)

/-- `pipe` or `fork` fails. -/
def Launch.Fails (setting : Setting) (state after : Launch) : Prop :=
  Launch.step setting state .pipeFails = some after ∨
    Launch.step setting state .forkFails = some after

theorem Launch.fails_of_loop (position : state.pc = .loop) (next : state.i + 1 < setting.n) :
    Launch.Fails setting state { state with pc := .returned } := by
  refine .inl ?_
  rw [Launch.step, position]
  exact if_pos next

theorem Launch.Fails.cases (failed : Launch.Fails setting state after) :
    after = { state with pc := .returned } ∧
      (state.pc = .loop ∧ state.i + 1 < setting.n ∨ ∃ pfd, state.pc = .fork pfd) := by
  rcases failed with failed | failed
  · rw [Launch.step] at failed
    split at failed
    · rename_i position
      split at failed
      · rename_i next
        exact ⟨(Option.some.inj failed).symm, .inl ⟨position, next⟩⟩
      · cases failed
    · cases failed
  · rw [Launch.step] at failed
    split at failed
    · rename_i position
      exact ⟨(Option.some.inj failed).symm, .inr ⟨_, position⟩⟩
    · cases failed

/-- Nothing that the rest of the system does gives the shell its descriptors back. -/
theorem returned_keeps (position : state.pc = .returned)
    (leads : (Launch.machine setting).Leads .free state final) :
    final.pc = .returned ∧ final.fds = state.fds ∧
      final.children.length = state.children.length := by
  refine leads.invariant (fun final => final.pc = .returned ∧ final.fds = state.fds ∧
    final.children.length = state.children.length) ?_ ⟨position, rfl, rfl⟩
  rintro before _ label ⟨returned, fds, length⟩ _ taken
  cases launchMove_of_step taken with
  | child => exact ⟨returned, fds, List.length_set.trans length⟩
  | others => exact ⟨returned, fds, length⟩
  | fails other =>
      rcases other with other | ⟨_, other⟩
      · exact LaunchPc.noConfusion (returned.symm.trans other)
      · exact LaunchPc.noConfusion (returned.symm.trans other)
  | pipes other | lastStage other | leaves other | forks other | places other | closes other
  | closesAgain other | adds other => exact LaunchPc.noConfusion (returned.symm.trans other)

/-- What the shell has opened when a call fails, if anything. -/
theorem exists_ends (wired : Wired setting state)
    (position : state.pc = .loop ∧ state.i + 1 < setting.n ∨ ∃ pfd, state.pc = .fork pfd) :
    ∃ ends, setting.fds.Extends ends state.fds ∧ (ends = [] ↔ state.AtFirstCall) := by
  have shell := wired.shell
  rw [ShellOk] at shell
  rcases position with ⟨position, next⟩ | ⟨pfd, position⟩
  · rw [position] at shell
    obtain ⟨first, _, ends⟩ := shell.1 (Nat.lt_of_succ_lt next)
    refine ⟨_, ends, ?_⟩
    have none_iff : setting.prevEnds state.i state.prevRead = [] ↔ state.prevRead = none := by
      cases state.prevRead with
      | none => exact iff_of_true rfl rfl
      | some prevRead => exact iff_of_false (List.cons_ne_nil _ _) (Option.some_ne_none prevRead)
    rw [none_iff, first]
    exact ⟨fun zero => ⟨zero, .inl position⟩, fun call => call.1⟩
  · rw [position] at shell
    obtain ⟨frameOk, _, ends⟩ := shell
    refine ⟨_, ends, ?_⟩
    have none_iff : setting.pfdEnds state.i pfd ++ setting.prevEnds state.i state.prevRead = [] ↔
        pfd = none ∧ state.prevRead = none := by
      rw [List.append_eq_nil_iff]
      refine and_congr ?_ ?_
      · cases pfd with
        | none => exact iff_of_true rfl rfl
        | some pfd => exact iff_of_false (List.cons_ne_nil _ _) (Option.some_ne_none pfd)
      · cases state.prevRead with
        | none => exact iff_of_true rfl rfl
        | some prevRead => exact iff_of_false (List.cons_ne_nil _ _) (Option.some_ne_none prevRead)
    rw [none_iff, frameOk.first]
    constructor
    · rintro ⟨rfl, zero⟩
      exact ⟨zero, .inr position⟩
    · rintro ⟨zero, other | call⟩
      · exact LaunchPc.noConfusion (position.symm.trans other)
      · exact ⟨LaunchPc.fork.inj (position.symm.trans call), zero⟩

/-- Nobody has been forked before the first call. -/
theorem children_of_atFirstCall (grouped : Grouped setting state) (call : state.AtFirstCall) :
    state.children.length = 0 := by
  have counted := grouped.counted
  obtain ⟨zero, position⟩ := call
  rw [grouped.length_children]
  rcases position with position | position
  · rw [position, zero] at counted
    rw [counted, position]
    rfl
  · rw [position, zero] at counted
    rw [counted, position]
    rfl

/-- A launch that fails leaves the shell as it was just when the call that fails is the first. -/
theorem failed_launch_restores_iff (setting : Setting) {state after final : Launch}
    (reach : (Launch.machine setting).Reachable .free state)
    (failed : Launch.Fails setting state after)
    (leads : (Launch.machine setting).Leads .free after final) :
    Restored setting final ↔ state.AtFirstCall := by
  obtain ⟨wired, grouped⟩ := wired_of_reachable reach
  obtain ⟨rfl, position⟩ := failed.cases
  obtain ⟨_, fds, length⟩ := returned_keeps rfl leads
  obtain ⟨ends, extends_, empty_iff⟩ := exists_ends wired position
  rw [← empty_iff, ← extends_.same_open_iff]
  constructor
  · intro restored fd
    exact fds ▸ restored.fds fd
  · intro same
    have call := empty_iff.mp (extends_.same_open_iff.mp same)
    refine ⟨fun fd => fds.symm ▸ same fd, ?_⟩
    have unforked : state.children.length = 0 := children_of_atFirstCall grouped call
    rw [List.length_eq_zero_iff.mp (length.trans unforked)]
    exact List.forall_mem_nil _

theorem failed_launch_restores_iff_three :
    ∃ after, Launch.Fails threeStages (.start threeStages [(1, 1)]) after ∧
      Restored threeStages after := by
  have reach : (Launch.machine threeStages).Reachable .free (.start threeStages [(1, 1)]) :=
    .of_start ⟨_, rfl⟩
  have position : (Launch.start threeStages [(1, 1)]).pc = .loop := rfl
  have next : (Launch.start threeStages [(1, 1)]).i + 1 < threeStages.n := by decide +kernel
  have failed := Launch.fails_of_loop position next
  exact ⟨_, failed, (failed_launch_restores_iff threeStages reach failed .refl).mpr
    ⟨rfl, .inl position⟩⟩

/-- The first stage is running when `pipe` fails. -/
def secondPipe : List LaunchLabel := [.shell, .fork 101, .shell, .shell]

theorem secondPipe_finishes :
    ((Launch.machine threeStages).exec .free (.start threeStages [(1, 1)])
      secondPipe).isSome = true := by
  decide +kernel

/-- The shell after `secondPipe`. -/
def beforeSecondPipe : Launch :=
  ((Launch.machine threeStages).exec .free (.start threeStages [(1, 1)]) secondPipe).get
    secondPipe_finishes

/-- A descriptor that is open when `pipe` fails, and was not before the launch, stays open. -/
theorem leaks_of_reachable {fd : ℕ} {file : File} {pids : List ℕ}
    (reach : (Launch.machine setting).Reachable .free state) (position : state.pc = .loop)
    (next : state.i + 1 < setting.n) (leaked : state.fds.get fd = some file)
    (closed : setting.fds.get fd = none) (children : state.children.map Child.pid = pids)
    (jobs : state.jobs.jobs = []) :
    (Launch.machine setting).Reachable .free state ∧
      ∃ after, Launch.Fails setting state after ∧ ¬ Restored setting after ∧
        after.fds.get fd = some file ∧ setting.fds.get fd = none ∧
        after.children.map Child.pid = pids ∧ after.jobs.jobs = [] := by
  refine ⟨reach, { state with pc := .returned }, Launch.fails_of_loop position next, ?_, leaked,
    closed, children, jobs⟩
  intro restored
  have stays : state.fds.get fd ≠ none := by
    rw [leaked]
    exact Option.some_ne_none file
  exact (restored.fds fd).mp stays closed

/-- The read end of the first pipe stays open, and the first stage runs on without a job. -/
theorem failed_launch_leaks :
    (Launch.machine threeStages).Reachable .free beforeSecondPipe ∧
      ∃ after, Launch.Fails threeStages beforeSecondPipe after ∧ ¬ Restored threeStages after ∧
        after.fds.get 3 = some (.readEnd 0) ∧ threeStages.fds.get 3 = none ∧
        after.children.map Child.pid = [101] ∧ after.jobs.jobs = [] := by
  have start : (Launch.machine threeStages).start (.start threeStages [(1, 1)]) := ⟨_, rfl⟩
  have reach : (Launch.machine threeStages).Reachable .free beforeSecondPipe :=
    .of_exec start secondPipe secondPipe_finishes
  have position : beforeSecondPipe.pc = .loop := by decide +kernel
  have next : beforeSecondPipe.i + 1 < threeStages.n := by decide +kernel
  have leaked : beforeSecondPipe.fds.get 3 = some (.readEnd 0) := by decide +kernel
  have closed : threeStages.fds.get 3 = none := by decide +kernel
  have children : beforeSecondPipe.children.map Child.pid = [101] := by decide +kernel
  have jobs : beforeSecondPipe.jobs.jobs = [] := by decide +kernel
  exact leaks_of_reachable reach position next leaked closed children jobs

end Shell
end Syscore
