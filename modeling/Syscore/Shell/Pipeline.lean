import Syscore.Shell.Grouping

/-!
# What a launch leaves

In every run the stages find their descriptors at `execvp`, and the shell is left with its own
descriptors, one group and one job.
-/

namespace Syscore
namespace Shell

variable {setting : Setting} {state after : Launch}

theorem wired_start (setting : Setting) (others : List (Pid × Pid)) :
    Wired setting (.start setting others) where
  shell := ⟨fun _ => ⟨iff_of_true rfl rfl, rfl, .refl _⟩,
    fun outside => absurd (List.length_pos_of_ne_nil setting.stages) outside⟩
  child := nofun

theorem grouped_start (setting : Setting) (others : List (Pid × Pid)) :
    Grouped setting (.start setting others) where
  forked := rfl
  nonzero := nofun
  nodup := List.nodup_nil
  pgid := rfl
  counted := rfl
  frame := nofun
  placed := nofun
  within _ := by rintro (impossible | impossible | impossible) <;> cases impossible
  bound := Nat.zero_le _

theorem wired_of_reachable (reach : (Launch.machine setting).Reachable .free state) :
    Wired setting state ∧ Grouped setting state := by
  refine reach.invariant (fun state => Wired setting state ∧ Grouped setting state) ?_ ?_
  · rintro _ ⟨others, rfl⟩
    exact ⟨wired_start setting others, grouped_start setting others⟩
  · rintro _ _ _ ⟨wired, grouped⟩ _ taken
    have move := launchMove_of_step taken
    exact ⟨wired.step move, grouped.step wired move⟩

/-- The table of jobs is the one before the launch, or has the new job. -/
def Listed (setting : Setting) (state : Launch) : Prop :=
  match state.pc with
  | .launched num =>
      (num, state.jobs) = setting.jobs.launch state.pgid setting.cmdline
        (if setting.p.background then .background else .foreground) state.pids
  | _ => state.jobs = setting.jobs

theorem Listed.step (ok : Listed setting state) (move : LaunchMove setting state after) :
    Listed setting after := by
  unfold Listed at ok
  cases move with
  | pipes position | lastStage position | leaves position | forks position | places position
  | closesAgain position =>
      rw [position] at ok
      exact ok
  | @closes pfd position =>
      rw [position] at ok
      cases pfd <;> exact ok
  | adds position =>
      rw [position] at ok
      unfold Listed
      rw [← ok]
  | fails position =>
      rcases position with position | ⟨pfd, position⟩ <;> rw [position] at ok <;> exact ok
  | child | others => exact ok

theorem listed_of_reachable (reach : (Launch.machine setting).Reachable .free state) :
    Listed setting state := by
  refine reach.invariant (Listed setting) ?_ ?_
  · rintro _ ⟨others, rfl⟩
    rfl
  · exact fun _ _ _ ok _ taken => ok.step (launchMove_of_step taken)

theorem pipe_ne_of_known {fd : ℕ} {file : File} (opened : setting.fds.get fd = some file) (k : ℕ) :
    file.pipe ≠ some (setting.pipe k) := fun same =>
  absurd (setting.known fd file _ opened same) (Nat.not_lt.mpr (Nat.le_add_right _ k))

/-- Descriptor 0 of a stage at `execvp`. -/
theorem get_wired_zero (setting : Setting) (i : ℕ) :
    (setting.wired i).get 0 =
      if i = 0 then
        if setting.p.input ≠ [] then some (.input setting.p.input) else setting.fds.get 0
      else some (.readEnd (setting.pipe (i - 1))) := by
  have piped : (setting.piped i).get 0 = (setting.joined i).get 0 := by
    unfold Setting.piped
    split
    · rw [Descriptors.get_set, if_neg zero_ne_one]
    · rfl
  have fed : (setting.wired i).get 0 = (setting.fed i).get 0 := by
    unfold Setting.wired
    split
    · rw [Descriptors.get_set, if_neg zero_ne_one]
    · rfl
  rw [fed, Setting.fed]
  by_cases first : i = 0
  · rw [if_pos first]
    by_cases reads : setting.p.input ≠ []
    · rw [if_pos ⟨first, reads⟩, if_pos reads, Descriptors.get_set, if_pos rfl]
    · rw [if_neg fun both => reads both.2, if_neg reads, piped, Setting.joined, if_pos first]
  · rw [if_neg first, if_neg fun both => first both.1, piped, Setting.joined, if_neg first,
      Descriptors.get_set, if_pos rfl]

/-- Descriptor 1 of a stage at `execvp`. -/
theorem get_wired_one {i : ℕ} (inside : i < setting.n) :
    (setting.wired i).get 1 =
      if i + 1 = setting.n then
        if setting.p.output ≠ [] then some (.output setting.p.output) else setting.fds.get 1
      else some (.writeEnd (setting.pipe i)) := by
  have joined : (setting.joined i).get 1 = setting.fds.get 1 := by
    unfold Setting.joined
    split
    · rfl
    · rw [Descriptors.get_set, if_neg one_ne_zero]
  have fed : (setting.fed i).get 1 = (setting.piped i).get 1 := by
    unfold Setting.fed
    split
    · rw [Descriptors.get_set, if_neg one_ne_zero]
    · rfl
  unfold Setting.wired
  by_cases last : i + 1 = setting.n
  · rw [if_pos last]
    by_cases writes : setting.p.output ≠ []
    · rw [if_pos ⟨Nat.eq_sub_of_add_eq last, writes⟩, if_pos writes, Descriptors.get_set,
        if_pos rfl]
    · rw [if_neg fun both => writes both.2, if_neg writes, fed, Setting.piped,
        if_neg last.not_lt, joined]
  · have next : i + 1 < setting.n := Nat.lt_of_le_of_ne inside last
    have middle : ¬ Child.writesFile setting.p i := fun both => last (by
      have same : i = setting.n - 1 := both.1
      omega)
    rw [if_neg last, if_neg middle, fed, Setting.piped, if_pos next, Descriptors.get_set,
      if_pos rfl]

/-- Every other descriptor of a stage at `execvp`. -/
theorem get_wired (setting : Setting) (i : ℕ) {fd : ℕ} (notInput : fd ≠ 0) (notOutput : fd ≠ 1) :
    (setting.wired i).get fd = setting.fds.get fd := by
  unfold Setting.wired Setting.fed Setting.piped Setting.joined
  split <;> split <;> split <;> split <;>
    simp only [Descriptors.get_set, notInput, notOutput, if_false]

/-- Every stage finds its ends of the pipes and its files at `execvp`, and the shell is left with
the descriptors it had, one group and one job. -/
theorem runPipeline_wires (setting : Setting) (state : Launch)
    (reach : (Launch.machine setting).Reachable .free state) :
    (∀ i child, state.children[i]? = some child → child.pc = .execvp →
      child.fds.get 0 =
        (if i = 0 then
          if setting.p.input ≠ [] then some (.input setting.p.input) else setting.fds.get 0
        else some (.readEnd (setting.pipe (i - 1)))) ∧
      child.fds.get 1 =
        (if i + 1 = setting.n then
          if setting.p.output ≠ [] then some (.output setting.p.output) else setting.fds.get 1
        else some (.writeEnd (setting.pipe i))) ∧
      ∀ fd file, fd ≠ 0 → fd ≠ 1 → child.fds.get fd = some file →
        ∀ k, file.pipe ≠ some (setting.pipe k)) ∧
    (∀ num, state.pc = .left ∨ state.pc = .addJob ∨ state.pc = .launched num →
      (∀ fd file, state.fds.get fd = some file → ∀ k, file.pipe ≠ some (setting.pipe k)) ∧
      state.children.length = setting.n ∧
      ∃ leader, state.children.head?.map Child.pid = some leader ∧
        ∀ child ∈ state.children, child.pgid = leader) ∧
    ∀ num, state.pc = .launched num →
      ∃ job, state.jobs.jobs = setting.jobs.jobs ++ [job] ∧ job.num = num ∧
        job.pgid = state.leader ∧
        job.processes = state.children.map fun child =>
          { pid := child.pid, state := .running } := by
  obtain ⟨wired, grouped⟩ := wired_of_reachable reach
  have listed := listed_of_reachable reach
  have left {num : ℕ} (past : state.pc = .left ∨ state.pc = .addJob ∨ state.pc = .launched num) :
      setting.fds.Extends [] state.fds ∧ state.pids.length = state.i ∧
        state.children.map Child.pid = state.pids := by
    have shell := wired.shell
    have counted := grouped.counted
    have forked := grouped.forked
    unfold ShellOk at shell
    rcases past with position | position | position <;> rw [position] at shell counted forked
    · exact ⟨shell.1, counted, forked.trans (List.append_nil _)⟩
    · exact ⟨shell, counted, forked.trans (List.append_nil _)⟩
    · exact ⟨shell, counted, forked.trans (List.append_nil _)⟩
  refine ⟨?_, ?_, ?_⟩
  · intro i child here position
    have childOk := wired.child child (List.mem_of_getElem? here)
    obtain ⟨place, _⟩ := grouped.frame i child here
    unfold ChildOk at childOk
    rw [position, place] at childOk
    have get (fd : ℕ) : child.fds.get fd = (setting.wired i).get fd :=
      (childOk.get fd).trans (by rw [List.lookup_nil, Option.none_or])
    have inside : i < setting.n :=
      (List.getElem?_eq_some_iff.mp here).1.trans_le (grouped.length_le wired)
    refine ⟨(get 0).trans (get_wired_zero setting i), (get 1).trans (get_wired_one inside), ?_⟩
    intro fd file notInput notOutput opened
    rw [get, get_wired setting i notInput notOutput] at opened
    exact pipe_ne_of_known opened
  · intro num past
    obtain ⟨ends, length, forked⟩ := left past
    have whole : state.children.length = setting.n := by
      rw [← List.length_map Child.pid, forked, length, grouped.within num past]
    refine ⟨?_, whole, state.leader, ?_, ?_⟩
    · intro fd file opened
      rw [ends.get, List.lookup_nil, Option.none_or] at opened
      exact pipe_ne_of_known opened
    · have begun : 0 < state.children.length := whole ▸ List.length_pos_of_ne_nil setting.stages
      obtain ⟨first, rest, shape⟩ := List.exists_cons_of_ne_nil (List.ne_nil_of_length_pos begun)
      rw [Launch.leader, shape]
      rfl
    · intro child inside
      obtain ⟨index, here⟩ := List.getElem?_of_mem inside
      refine grouped.placed index child here (.inl ?_)
      rw [← forked, List.length_map]
      exact (List.getElem?_eq_some_iff.mp here).1
  · intro num position
    obtain ⟨_, length, forked⟩ := left (.inr (.inr position))
    unfold Listed at listed
    rw [position] at listed
    obtain ⟨number, jobs⟩ := Prod.ext_iff.mp listed
    have begun : state.pids ≠ [] := by
      rw [← List.length_pos_iff, length, grouped.within _ (.inr (.inr position))]
      exact List.length_pos_of_ne_nil setting.stages
    refine ⟨_, (congrArg JobList.jobs jobs).trans (JobList.jobs_launch ..), number.symm,
      (grouped.leader_eq begun).symm, ?_⟩
    rw [← forked, List.map_map]
    rfl

/-- `sort < in | uniq -c | wc -l > out`, with nothing but the standard descriptors open. -/
def threeStages : Setting where
  p := parsePipeline (ascii "sort < in | uniq -c | wc -l > out")
  cmdline := ascii "sort < in | uniq -c | wc -l > out"
  fds := ⟨[some (.outer 0), some (.outer 1), some (.outer 2)]⟩
  jobs := .empty
  pgrp := 1
  pipes := 0
  stages := by decide +kernel
  standard := by decide +kernel
  known fd file pipe opened end_of := by
    rcases fd with _ | _ | _ | fd
    · obtain rfl := Option.some.inj opened
      cases end_of
    · obtain rfl := Option.some.inj opened
      cases end_of
    · obtain rfl := Option.some.inj opened
      cases end_of
    · cases opened

/-- Every child is at `execvp` before the shell adds the job. -/
def threeStagesRun : List LaunchLabel :=
  [.shell, .fork 101, .shell, .child 0, .shell, .child 0, .child 0, .child 0,
    .shell, .fork 102, .child 1, .shell, .shell, .child 1, .child 1, .child 1,
    .shell, .fork 103, .shell, .shell, .child 2, .child 2, .child 2, .child 2,
    .shell, .shell, .shell]

theorem threeStagesRun_finishes :
    ((Launch.machine threeStages).exec .free (.start threeStages [(1, 1)])
      threeStagesRun).isSome = true := by
  decide +kernel

/-- The shell after `threeStagesRun`. -/
def threeStagesEnd : Launch :=
  ((Launch.machine threeStages).exec .free (.start threeStages [(1, 1)]) threeStagesRun).get
    threeStagesRun_finishes

theorem runPipeline_wires_three :
    (∃ child, threeStagesEnd.children[1]? = some child ∧
      child.fds.get 0 = some (.readEnd 0) ∧ child.fds.get 1 = some (.writeEnd 1)) ∧
    ∀ child ∈ threeStagesEnd.children, child.pgid = 101 := by
  have start : (Launch.machine threeStages).start (.start threeStages [(1, 1)]) := ⟨_, rfl⟩
  have reach : (Launch.machine threeStages).Reachable .free threeStagesEnd :=
    .of_exec start threeStagesRun threeStagesRun_finishes
  obtain ⟨stages, left, _⟩ := runPipeline_wires threeStages threeStagesEnd reach
  have second : threeStagesEnd.children[1]?.map Child.pc = some .execvp := by decide +kernel
  obtain ⟨child, here, position⟩ := Option.map_eq_some_iff.mp second
  obtain ⟨input, output, _⟩ := stages 1 child here position
  refine ⟨⟨child, here, input, output.trans ?_⟩, ?_⟩
  · decide +kernel
  · obtain ⟨_, _, leader, first, group⟩ := left 1 (.inr (.inr (by decide +kernel)))
    have first : some 101 = some leader :=
      (show some 101 = threeStagesEnd.children.head?.map Child.pid by decide +kernel).trans first
    exact Option.some.inj first ▸ group

end Shell
end Syscore
