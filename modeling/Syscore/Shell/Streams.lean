import Syscore.Shell.Dataflow

/-!
# What a pipeline computes

The stages of a running pipeline behave as a chain of filters, whatever the shell and the other
children have still to close; once everybody has closed what is not theirs the chain cannot get
stuck. So every pipeline of halting filters ends, no stage is ever killed by `SIGPIPE`, and what
comes out is what the commands compute one after the other.
-/

namespace Syscore
namespace Shell

variable {σ : Type*} {act : σ → FilterAct UInt8 σ} {load : List Text → σ} {capacity : ℕ}
  {setting : Setting} {source : Text}

namespace Execution

variable {state after : Execution σ}

/-! ## The stages as a chain -/

/-- The stages as a chain of filters. -/
def view (setting : Setting) (state : Execution σ) : Chain UInt8 σ setting.n where
  stages i :=
    { code := (state.programs i).code
      pending := (state.programs i).pending
      live := state.launch.alive i }
  waiting i := if i.val = 0 then state.source else state.buffers (setting.pipe (i.val - 1))
  output := state.sink

theorem pipe_injective (setting : Setting) {i j : ℕ} (same : setting.pipe i = setting.pipe j) :
    i = j := Nat.add_left_cancel same

theorem view_setProgram (state : Execution σ) (i : Fin setting.n) (program : Program σ) :
    (state.setProgram i program).view setting =
      (state.view setting).setStage i { (state.view setting).stages i with
        code := program.code, pending := program.pending } := by
  refine Chain.ext (funext fun j => ?_) rfl rfl
  by_cases here : j = i
  · subst here
    simp [view, setProgram]
  · simp [view, setProgram, here, Fin.val_inj]

theorem view_setCode {state : Execution σ} {i : Fin setting.n}
    (idle : (state.programs i).pending = []) (code : σ) :
    (state.setProgram i { code }).view setting =
      (state.view setting).setStage i { (state.view setting).stages i with code } := by
  rw [view_setProgram]
  exact congrArg _ (Stage.ext rfl idle.symm rfl)

theorem view_setBuffer (state : Execution σ) (i : Fin setting.n) {writer : ℕ}
    (adjacent : writer + 1 = i.val) (text : Text) :
    (state.setBuffer (setting.pipe writer) text).view setting =
      { state.view setting with
        waiting := Function.update (state.view setting).waiting i text } := by
  refine Chain.ext rfl (funext fun j => ?_) rfl
  by_cases here : j = i
  · subst here
    simp [view, setBuffer, ← adjacent]
  · by_cases first : j.val = 0
    · simp [view, here, first, setBuffer]
    · have apart : setting.pipe (j.val - 1) ≠ setting.pipe writer := fun same =>
        here (Fin.ext (by have := pipe_injective setting same; omega))
      simp [view, here, first, setBuffer, apart]

theorem view_setSource (state : Execution σ) (i : Fin setting.n) (first : i.val = 0)
    (text : Text) :
    (state.setSource text).view setting =
      { state.view setting with
        waiting := Function.update (state.view setting).waiting i text } := by
  refine Chain.ext rfl (funext fun j => ?_) rfl
  by_cases here : j = i
  · subst here
    simp [view, first, setSource]
  · have later : j.val ≠ 0 := fun zero => here (Fin.ext (zero.trans first.symm))
    simp [view, here, later, setSource]

theorem view_setSink (state : Execution σ) (text : Text) :
    (state.setSink text).view setting = { state.view setting with output := text } := rfl

theorem view_ends (state : Execution σ) (i : Fin setting.n) (child : Child)
    (here : state.launch.children[i.val]? = some child) :
    (state.ends i child).view setting =
      (state.view setting).setStage i { (state.view setting).stages i with live := false } := by
  refine Chain.ext (funext fun j => ?_) rfl rfl
  obtain ⟨forked, -⟩ := List.getElem?_eq_some_iff.mp here
  by_cases same : j = i
  · subst same
    simp [view, ends, Launch.alive, List.getElem?_set_self forked, Child.die, ChildPc.live]
  · have apart : i.val ≠ j.val := fun equal => same (Fin.ext equal.symm)
    simp [view, ends, Launch.alive, same, List.getElem?_set_ne apart]

/-! ## A step of a program is a step of the chain -/

/-- Files that are read from the source. -/
def IsSource (file : Option File) : Prop :=
  (∃ id, file = some (.outer id)) ∨ ∃ path, file = some (.input path)

/-- Files that are written to the sink. -/
def IsSink (file : Option File) : Prop :=
  (∃ id, file = some (.outer id)) ∨ ∃ path, file = some (.output path)

theorem readStep_of_isSource {file : Option File} (outer : IsSource file) (i count : ℕ)
    (next : Text → σ) :
    state.readStep i count next file =
      if state.source = [] then some (state.setProgram i { code := next [] })
      else if 0 < count ∧ count ≤ state.source.length then
        some ((state.setProgram i { code := next (state.source.take count) }).setSource
          (state.source.drop count))
      else none := by
  rcases outer with ⟨id, rfl⟩ | ⟨path, rfl⟩ <;> rfl

theorem writeStep_of_isSink {file : Option File} (outer : IsSink file) (i count : ℕ)
    (child : Child) :
    state.writeStep capacity i count child file =
      if 0 < count ∧ count ≤ (state.programs i).pending.length then
        some ((state.setProgram i ((state.programs i).wrote count)).setSink
          (state.sink ++ (state.programs i).pending.take count))
      else none := by
  rcases outer with ⟨id, rfl⟩ | ⟨path, rfl⟩ <;> rfl

section Stage

variable {i : Fin setting.n} {child : Child} (outside : setting.Outside)
  (wired : Wired setting state.launch) (grouped : Grouped setting state.launch)
  (here : state.launch.children[i.val]? = some child) (position : child.pc = .program)

include wired grouped here position in
/-- A program has the descriptors of its stage. -/
theorem get_program (fd : ℕ) : child.fds.get fd = (setting.wired i).get fd := by
  have ok := wired.child child (List.mem_of_getElem? here)
  unfold ChildOk at ok
  rw [position, (grouped.frame i child here).1] at ok
  exact (ok.get fd).trans (by rw [List.lookup_nil, Option.none_or])

include outside wired grouped here position in
/-- What a program reads. -/
theorem input_program :
    i.val = 0 ∧ IsSource (child.fds.get 0) ∨
      i.val ≠ 0 ∧ child.fds.get 0 = some (.readEnd (setting.pipe (i.val - 1))) := by
  rw [get_program wired grouped here position, get_wired_zero]
  by_cases first : i.val = 0
  · refine .inl ⟨first, ?_⟩
    rw [if_pos first]
    split
    · exact .inr ⟨_, rfl⟩
    · exact .inl (outside 0 Nat.zero_lt_two)
  · exact .inr ⟨first, if_neg first⟩

include outside wired grouped here position in
/-- What a program writes. -/
theorem output_program :
    i.val + 1 = setting.n ∧ IsSink (child.fds.get 1) ∨
      i.val + 1 < setting.n ∧ child.fds.get 1 = some (.writeEnd (setting.pipe i.val)) := by
  rw [get_program wired grouped here position, get_wired_one i.isLt]
  by_cases last : i.val + 1 = setting.n
  · refine .inl ⟨last, ?_⟩
    rw [if_pos last]
    split
    · exact .inr ⟨_, rfl⟩
    · exact .inl (outside 1 Nat.one_lt_two)
  · exact .inr ⟨Nat.lt_of_le_of_ne i.isLt last, if_neg last⟩

include outside wired grouped here position in
theorem move_of_readStep {count : ℕ} {next : Text → σ}
    (idle : (state.programs i).pending = [])
    (read : act (state.programs i).code = .read next)
    (taken : state.readStep i count next (child.fds.get 0) = some after) :
    Chain.Move act capacity (state.view setting) i (after.view setting) := by
  have alive : ((state.view setting).stages i).live = true := by
    simp [view, Launch.alive, here, position, ChildPc.live]
  rcases input_program outside wired grouped here position with ⟨first, outer⟩ | ⟨later, opened⟩
  · have waits : (state.view setting).waiting i = state.source := if_pos first
    rw [readStep_of_isSource outer] at taken
    split at taken
    · rename_i none
      obtain rfl := Option.some.inj taken
      rw [view_setCode idle]
      exact .ends alive idle read (waits.trans none) fun j before => by omega
    · split at taken
      · rename_i bounds
        obtain rfl := Option.some.inj taken
        rw [view_setSource _ _ first, view_setCode idle]
        exact .reads alive idle read (Chain.take_ne_nil bounds)
          (waits.trans (List.take_append_drop count _).symm)
      · cases taken
  · have waits : (state.view setting).waiting i = state.buffers (setting.pipe (i.val - 1)) :=
      if_neg later
    rw [opened, readStep] at taken
    split at taken
    · rename_i none
      split at taken
      · cases taken
      · rename_i unheld
        obtain rfl := Option.some.inj taken
        rw [view_setCode idle]
        refine .ends alive idle read (waits.trans none) fun j before => ?_
        obtain ⟨forked, -⟩ := List.getElem?_eq_some_iff.mp here
        refine Bool.eq_false_iff.mpr fun writes => unheld ?_
        rw [← before, Nat.add_sub_cancel]
        exact held_writeEnd wired grouped (before ▸ i.isLt) (by omega) writes
    · split at taken
      · rename_i bounds
        obtain rfl := Option.some.inj taken
        rw [view_setBuffer _ _ (Nat.sub_add_cancel (Nat.pos_of_ne_zero later)), view_setCode idle]
        exact .reads alive idle read (Chain.take_ne_nil bounds)
          (waits.trans (List.take_append_drop count _).symm)
      · cases taken

include outside wired grouped here position in
theorem move_of_writeStep (running : state.launch.pc ≠ .returned)
    (ordered : ∀ j : Fin setting.n, i.val + 1 = j.val → state.launch.alive j = true) {count : ℕ}
    (taken : state.writeStep capacity i count child (child.fds.get 1) = some after) :
    Chain.Move act capacity (state.view setting) i (after.view setting) := by
  have alive : ((state.view setting).stages i).live = true := by
    simp [view, Launch.alive, here, position, ChildPc.live]
  have cut (count : ℕ) : ((state.view setting).stages i).pending =
      (state.programs i).pending.take count ++ (state.programs i).pending.drop count :=
    (List.take_append_drop count _).symm
  rcases output_program outside wired grouped here position with ⟨last, outer⟩ | ⟨inner, opened⟩
  · rw [writeStep_of_isSink outer] at taken
    split at taken
    · rename_i bounds
      obtain rfl := Option.some.inj taken
      rw [view_setSink, view_setProgram]
      exact .emits alive (cut count) (Chain.take_ne_nil bounds) last
    · cases taken
  · obtain ⟨reader, adjacent⟩ : ∃ reader : Fin setting.n, i.val + 1 = reader.val :=
      ⟨⟨_, inner⟩, rfl⟩
    obtain ⟨forked, -⟩ := List.getElem?_eq_some_iff.mp here
    have waits : (state.view setting).waiting reader = state.buffers (setting.pipe i.val) :=
      (if_neg (by omega)).trans (by rw [← adjacent, Nat.add_sub_cancel])
    have reads := ordered reader adjacent
    have held := held_readEnd wired grouped running inner forked (adjacent ▸ reads)
    rw [opened, writeStep, if_pos held] at taken
    split at taken
    · rename_i bounds
      obtain rfl := Option.some.inj taken
      rw [← waits, view_setBuffer _ reader adjacent, view_setProgram]
      refine .passes alive (cut count) (Chain.take_ne_nil ⟨bounds.1, bounds.2.1⟩) adjacent reads ?_
      rw [waits, List.length_take, Nat.min_eq_left bounds.2.1]
      exact bounds.2.2
    · cases taken

include outside wired grouped here position in
theorem move_of_programStep (running : state.launch.pc ≠ .returned)
    (ordered : ∀ j : Fin setting.n, i.val + 1 = j.val → state.launch.alive j = true) {count : ℕ}
    (taken : state.programStep act capacity i count child = some after) :
    Chain.Move act capacity (state.view setting) i (after.view setting) := by
  have alive : ((state.view setting).stages i).live = true := by
    simp [view, Launch.alive, here, position, ChildPc.live]
  rw [programStep] at taken
  split at taken
  · rename_i idle
    split at taken
    · rename_i exits
      obtain rfl := Option.some.inj taken
      rw [view_ends _ _ _ here]
      exact .exits alive idle exits
    · rename_i writes
      obtain rfl := Option.some.inj taken
      rw [view_setProgram]
      exact .writes alive idle writes
    · rename_i reads
      exact move_of_readStep outside wired grouped here position idle reads taken
  · exact move_of_writeStep outside wired grouped here position running ordered taken

end Stage

end Execution

/-! ## The launch comes to its end -/

/-- The regions that a child has before its program. -/
def ChildPc.left : ChildPc → ℕ
  | .setpgid => 5
  | .pipes => 4
  | .input => 3
  | .output => 2
  | .execvp => 1
  | .program | .exited _ => 0

namespace Launch

variable {state after : Launch}

/-- The steps that the shell has left. -/
def shellLeft (setting : Setting) (state : Launch) : ℕ :=
  match state.pc with
  | .loop => 4 * (setting.n - state.i) + 3
  | .fork _ => 4 * (setting.n - state.i) + 2
  | .setpgid _ _ => 4 * (setting.n - state.i) + 1
  | .close _ => 4 * (setting.n - state.i)
  | .left => 2
  | .addJob => 1
  | .launched _ | .returned => 0

/-- The regions that the children have left. -/
def stagesLeft (state : Launch) : ℕ := (state.children.map fun child => child.pc.left).sum

/-- A step changes no stage that is alive, and the launch has not failed. -/
structure Quiet (state after : Launch) : Prop where
  alive : ∀ i, after.alive i = state.alive i
  running : after.pc ≠ .returned

theorem alive_setpgid (pid pgid : Pid) (i : ℕ) :
    (state.setpgid pid pgid)[i]?.all (fun child => child.pc.live) = state.alive i := by
  rw [setpgid, List.getElem?_map, Option.all_map, alive]
  congr 1
  funext child
  split <;> rfl

theorem quiet_of_shell (taken : state.shellStep setting = some after) :
    Quiet state after := by
  unfold shellStep at taken
  split at taken
  · split at taken
    · split at taken
      all_goals
        obtain rfl := Option.some.inj taken
        exact ⟨fun _ => rfl, nofun⟩
    · obtain rfl := Option.some.inj taken
      exact ⟨fun _ => rfl, nofun⟩
  · obtain rfl := Option.some.inj taken
    exact ⟨alive_setpgid _ _, nofun⟩
  · split at taken
    all_goals
      obtain rfl := Option.some.inj taken
      exact ⟨fun _ => rfl, nofun⟩
  · obtain rfl := Option.some.inj taken
    exact ⟨fun _ => rfl, nofun⟩
  · obtain rfl := Option.some.inj taken
    exact ⟨fun _ => rfl, nofun⟩
  all_goals cases taken

theorem lower_of_shell (wired : Wired setting state)
    (taken : state.shellStep setting = some after) :
    after.shellLeft setting < state.shellLeft setting := by
  have shell := wired.shell
  unfold ShellOk at shell
  unfold shellStep at taken
  unfold shellLeft
  split at taken
  · rename_i position
    split at taken
    · split at taken
      all_goals
        obtain rfl := Option.some.inj taken
        simp [position]
    · obtain rfl := Option.some.inj taken
      simp [position]
  · rename_i position
    obtain rfl := Option.some.inj taken
    simp [position]
  · rename_i position
    rw [position] at shell
    have inside := shell.1.inside
    split at taken
    all_goals
      obtain rfl := Option.some.inj taken
      simp only [position]
      omega
  · rename_i position
    obtain rfl := Option.some.inj taken
    simp [position]
  · rename_i position
    obtain rfl := Option.some.inj taken
    simp [position]
  all_goals cases taken

theorem left_of_child {child next : Child} {group : Pid → Bool}
    (moved : child.step setting.p group = some next) :
    child.pc.live = true ∧ next.pc.live = true ∧ next.pc.left < child.pc.left := by
  unfold Child.step at moved
  split at moved
  · rename_i position
    obtain rfl := Option.some.inj moved
    simp [position, ChildPc.live, ChildPc.left]
  · rename_i position
    obtain rfl := Option.some.inj moved
    simp [position, ChildPc.live, ChildPc.left]
  · rename_i position
    split at moved
    all_goals
      obtain rfl := Option.some.inj moved
      simp [position, ChildPc.live, ChildPc.left]
  · rename_i position
    split at moved
    all_goals
      obtain rfl := Option.some.inj moved
      simp [position, ChildPc.live, ChildPc.left]
  · rename_i position
    obtain rfl := Option.some.inj moved
    simp [position, ChildPc.live, ChildPc.left]
  all_goals cases moved

/-- A working launch ends no stage and does not fail. -/
theorem quiet_of_step {label : LaunchLabel} (works : label.Works) (running : state.pc ≠ .returned)
    (taken : Launch.step setting state label = some after) : Quiet state after := by
  cases label with
  | shell => exact quiet_of_shell taken
  | pipeFails | forkFails | dies _ => exact works.elim
  | fork pid =>
      rw [Launch.step] at taken
      split at taken
      · split at taken
        · obtain rfl := Option.some.inj taken
          refine ⟨fun i => ?_, fun returned => by cases returned⟩
          rw [alive, alive, List.getElem?_append]
          split
          · rfl
          · rename_i outside
            rw [List.getElem?_eq_none (Nat.le_of_not_lt outside)]
            cases i - state.children.length <;> rfl
        · cases taken
      · cases taken
  | child index =>
      obtain ⟨child, here, moved⟩ := Option.bind_eq_some_iff.mp taken
      obtain ⟨next, stepped, rfl⟩ := Option.map_eq_some_iff.mp moved
      obtain ⟨before, later, -⟩ := left_of_child stepped
      refine ⟨fun i => ?_, running⟩
      obtain ⟨inside, -⟩ := List.getElem?_eq_some_iff.mp here
      by_cases same : index = i
      · subst same
        simp [alive, here, List.getElem?_set_self inside, before, later]
      · simp [alive, List.getElem?_set_ne same]
  | others processes =>
      rw [Launch.step] at taken
      split at taken
      · obtain rfl := Option.some.inj taken
        exact ⟨fun _ => rfl, running⟩
      · cases taken

theorem stagesLeft_set {index : ℕ} {child : Child} (here : state.children[index]? = some child)
    (next : Child) :
    stagesLeft { state with children := state.children.set index next } + child.pc.left =
      state.stagesLeft + next.pc.left :=
  sum_map_set (fun child => child.pc.left) here next

/-- A working launch comes nearer to its end. -/
theorem lower_of_step (wired : Wired setting state) {label : LaunchLabel} (works : label.Works)
    (alone : ∀ processes, label ≠ .others processes)
    (taken : Launch.step setting state label = some after) :
    after.shellLeft setting < state.shellLeft setting ∨
      after.shellLeft setting = state.shellLeft setting ∧ after.stagesLeft < state.stagesLeft := by
  cases label with
  | shell => exact .inl (lower_of_shell wired taken)
  | pipeFails | forkFails | dies _ => exact works.elim
  | others processes => exact absurd rfl (alone processes)
  | fork pid =>
      rw [Launch.step] at taken
      split at taken
      · rename_i position
        split at taken
        · obtain rfl := Option.some.inj taken
          refine .inl ?_
          simp [shellLeft, position]
        · cases taken
      · cases taken
  | child index =>
      obtain ⟨child, here, moved⟩ := Option.bind_eq_some_iff.mp taken
      obtain ⟨next, stepped, rfl⟩ := Option.map_eq_some_iff.mp moved
      obtain ⟨-, -, lower⟩ := left_of_child stepped
      refine .inr ⟨rfl, ?_⟩
      have moved := stagesLeft_set here next
      omega

/-- There is always an identifier for a new process. -/
theorem exists_free (state : Launch) : ∃ pid, pid ≠ 0 ∧ state.free pid = true := by
  obtain ⟨pid, fresh⟩ := Infinite.exists_notMem_finset
    ((0 :: state.children.map Child.pid ++ state.children.map Child.pgid ++
      state.others.map Prod.fst ++ state.others.map Prod.snd).toFinset)
  simp only [List.mem_toFinset, List.mem_append, List.mem_cons, List.mem_map, not_or, not_exists,
    not_and, List.cons_append] at fresh
  obtain ⟨nonzero, ⟨⟨pids, pgids⟩, others⟩, groups⟩ := fresh
  refine ⟨pid, nonzero, ?_⟩
  simp only [free, group, Bool.and_eq_true, Bool.not_eq_true', Bool.or_eq_false_iff,
    List.any_eq_false, List.all_eq_true, decide_eq_true_eq]
  exact ⟨⟨⟨pgids, groups⟩, pids⟩, others⟩

end Launch

/-! ## Every run -/

namespace Execution

variable {state after : Execution σ}

/-- The programs of the stages at their start. -/
def loaded (load : List Text → σ) (setting : Setting) (i : Fin setting.n) : σ :=
  load (setting.p.commands.getD i [])

theorem loaded_mem (setting : Setting) (i : Fin setting.n) :
    setting.p.commands.getD i [] = setting.p.commands[i] ∧
      setting.p.commands[i] ∈ setting.p.commands :=
  ⟨by rw [List.getD_eq_getElem?_getD, List.getElem?_eq_getElem i.isLt, Option.getD_some]; rfl,
    List.getElem_mem _⟩

/-- What holds in every state of a working pipeline. -/
structure Known (act : σ → FilterAct UInt8 σ) (load : List Text → σ) (setting : Setting)
    (source : Text) (state : Execution σ) : Prop where
  reach : (Launch.machine setting).Reachable .free state.launch
  running : state.launch.pc ≠ .returned
  flows : ∃ past, Chain.Flows act (loaded load setting) source past (state.view setting)

theorem launch_of_readStep {i count : ℕ} {next : Text → σ} {file : Option File}
    (taken : state.readStep i count next file = some after) : after.launch = state.launch := by
  unfold readStep at taken
  split at taken
  · split at taken
    · split at taken
      · cases taken
      · obtain rfl := Option.some.inj taken
        rfl
    · split at taken
      · obtain rfl := Option.some.inj taken
        rfl
      · cases taken
  iterate 2
    split at taken
    · obtain rfl := Option.some.inj taken
      rfl
    · split at taken
      · obtain rfl := Option.some.inj taken
        rfl
      · cases taken
  all_goals cases taken

theorem launch_of_writeStep {i count : ℕ} {child : Child} {file : Option File}
    (taken : state.writeStep capacity i count child file = some after) :
    after.launch = state.launch ∨ after = state.ends i child := by
  unfold writeStep at taken
  split at taken
  · split at taken
    · split at taken
      · obtain rfl := Option.some.inj taken
        exact .inl rfl
      · cases taken
    · exact .inr (Option.some.inj taken).symm
  iterate 2
    split at taken
    · obtain rfl := Option.some.inj taken
      exact .inl rfl
    · cases taken
  all_goals cases taken

/-- A program either leaves the launch alone or ends. -/
theorem launch_of_programStep {i count : ℕ} {child : Child}
    (taken : state.programStep act capacity i count child = some after) :
    after.launch = state.launch ∨ after = state.ends i child := by
  rw [programStep] at taken
  split at taken
  · split at taken
    · exact .inr (Option.some.inj taken).symm
    · obtain rfl := Option.some.inj taken
      exact .inl rfl
    · exact .inl (launch_of_readStep taken)
  · exact launch_of_writeStep taken

/-- The parts of a step of a program. -/
theorem of_step {i count : ℕ}
    (taken : state.step act capacity setting (.program i count) = some after) :
    ∃ child, state.launch.children[i]? = some child ∧ child.pc = .program ∧
      state.programStep act capacity i count child = some after := by
  rw [step] at taken
  split at taken
  · rename_i child here
    split at taken
    · rename_i position
      exact ⟨child, here, position, taken⟩
    · cases taken
  · cases taken

theorem view_of_quiet {launch : Launch} (quiet : Launch.Quiet state.launch launch) :
    ({ state with launch } : Execution σ).view setting = state.view setting :=
  Chain.ext (funext fun i => Stage.ext rfl rfl (quiet.alive i)) rfl rfl

namespace Known

variable (known : Known act load setting source state)
  (drains : ∀ argv ∈ setting.p.commands, Drains act (load argv))

include drains in
theorem drains_loaded (i : Fin setting.n) : Drains act (loaded load setting i) := by
  rw [loaded, (loaded_mem setting i).1]
  exact drains _ (loaded_mem setting i).2

include known drains in
/-- While a stage lives, so does the one that reads what it writes. -/
theorem ordered {i j : Fin setting.n} (adjacent : i.val + 1 = j.val)
    (alive : state.launch.alive i = true) : state.launch.alive j = true := by
  obtain ⟨past, flows⟩ := known.flows
  by_contra dead
  have dead : ((state.view setting).stages j).live = false := Bool.eq_false_iff.mpr dead
  have exits := (flows.exited (fun i _ => drains_loaded drains i) dead).1
  have ended := drains_loaded drains j _ _ _ _ (flows.ran j) exits
  exact Bool.false_ne_true ((flows.told i j adjacent ended).1.symm.trans alive)

include known drains in
/-- A step of a program is a step of the chain. -/
theorem move (outside : setting.Outside) {i count : ℕ}
    (taken : state.step act capacity setting (.program i count) = some after) :
    ∃ stage : Fin setting.n,
      Chain.Move act capacity (state.view setting) stage (after.view setting) := by
  obtain ⟨child, here, position, taken⟩ := of_step taken
  obtain ⟨wired, grouped⟩ := wired_of_reachable known.reach
  have inside := (List.getElem?_eq_some_iff.mp here).1.trans_le (grouped.length_le wired)
  have alive : state.launch.alive i = true := by
    simp [Launch.alive, here, position, ChildPc.live]
  exact ⟨⟨i, inside⟩, move_of_programStep (i := ⟨i, inside⟩) outside wired grouped here position
    known.running (fun j adjacent => known.ordered drains (i := ⟨i, inside⟩) adjacent alive) taken⟩

include known drains in
theorem step (outside : setting.Outside) {label : ExecutionLabel} (works : Working state label)
    (taken : state.step act capacity setting label = some after) :
    Known act load setting source after := by
  cases label with
  | launch label =>
      obtain ⟨launch, moved, rfl⟩ := Option.map_eq_some_iff.mp taken
      have quiet := Launch.quiet_of_step works known.running moved
      obtain ⟨past, flows⟩ := known.flows
      exact ⟨known.reach.next trivial moved, quiet.running, past, by rwa [view_of_quiet quiet]⟩
  | program i count =>
      obtain ⟨stage, move⟩ := known.move drains outside taken
      obtain ⟨child, here, -, taken⟩ := of_step taken
      obtain ⟨past, flows⟩ := known.flows
      obtain ⟨past, flows⟩ := flows.move move
      rcases launch_of_programStep taken with same | rfl
      · exact ⟨same ▸ known.reach, same ▸ known.running, past, flows⟩
      · have dies : (Launch.machine setting).step state.launch (.dies i) =
            some (state.ends i child).launch := by
          show (state.launch.children[i]?).map _ = _
          rw [here]
          rfl
        exact ⟨known.reach.next trivial dies, known.running, past, flows⟩

end Known

theorem known_of_reachable (outside : setting.Outside)
    (drains : ∀ argv ∈ setting.p.commands, Drains act (load argv))
    (reach : (execution act load capacity setting source).Reachable Working state) :
    Known act load setting source state := by
  refine reach.invariant (Known act load setting source) ?_ ?_
  · rintro _ ⟨others, rfl⟩
    exact ⟨.of_start ⟨others, rfl⟩, nofun, _, Chain.flows_start⟩
  · exact fun _ _ _ known works taken => known.step drains outside works taken

/-! ## No run is stuck -/

section Settled

variable (known : Known act load setting source state) (outside : setting.Outside)
  (settled : state.launch.Settled)

theorem length_of_launched {launch : Launch} (grouped : Grouped setting launch) {num : ℕ}
    (position : launch.pc = .launched num) : launch.children.length = setting.n := by
  have whole := grouped.within num (.inr (.inr position))
  have length := grouped.length_children
  have counted := grouped.counted
  rw [position] at length counted
  simp only [LaunchPc.pending, List.length_nil] at length counted
  omega

include known settled in
/-- A live stage of a settled pipeline runs its program. -/
theorem program_of_alive {i : Fin setting.n} (alive : state.launch.alive i = true) :
    ∃ child, state.launch.children[i.val]? = some child ∧ child.pc = .program := by
  obtain ⟨-, grouped⟩ := wired_of_reachable known.reach
  obtain ⟨⟨num, position⟩, settled⟩ := settled
  have forked : i.val < state.launch.children.length :=
    (length_of_launched grouped position).symm ▸ i.isLt
  have here := List.getElem?_eq_getElem forked
  rw [Launch.alive, here] at alive
  exact ⟨_, here, (settled _ (List.getElem_mem forked)).resolve_right (by simpa using alive)⟩

include known settled in
/-- In a settled pipeline a pipe without its writer is at its end. -/
theorem not_held_writeEnd {i : Fin setting.n} (closed : (state.view setting).Closed i)
    (later : i.val ≠ 0) : ¬ state.launch.Held (.writeEnd (setting.pipe (i.val - 1))) := by
  intro held
  obtain ⟨wired, grouped⟩ := wired_of_reachable known.reach
  obtain ⟨j, forked, alive, ⟨-, same⟩ | same⟩ :=
    exists_of_held wired grouped settled rfl held
  · cases same
  · have same := pipe_injective setting (File.writeEnd.inj same)
    have dead := closed ⟨j, forked.trans_le (grouped.length_le wired)⟩
      (show j + 1 = i.val by omega)
    exact Bool.false_ne_true (dead.symm.trans alive)

include known settled in
/-- In a settled pipeline a pipe without its reader is broken. -/
theorem not_held_readEnd {i : Fin setting.n} (broken : (state.view setting).Broken i) :
    ¬ state.launch.Held (.readEnd (setting.pipe i.val)) := by
  intro held
  obtain ⟨wired, grouped⟩ := wired_of_reachable known.reach
  obtain ⟨reader, adjacent, dead⟩ := broken
  obtain ⟨j, forked, alive, ⟨later, same⟩ | same⟩ :=
    exists_of_held wired grouped settled rfl held
  · have same := pipe_injective setting (File.readEnd.inj same)
    have here : j = reader.val := by omega
    rw [here] at alive
    exact Bool.false_ne_true (dead.symm.trans alive)
  · cases same

include known outside settled in
/-- What the chain of a settled pipeline can do, the pipeline can. -/
theorem isSome_of_move {chain : Chain UInt8 σ setting.n} {i : Fin setting.n}
    (move : Chain.Move act capacity (state.view setting) i chain) :
    ∃ count, (state.step act capacity setting (.program i count)).isSome = true := by
  obtain ⟨wired, grouped⟩ := wired_of_reachable known.reach
  have alive : state.launch.alive i = true := by cases move <;> assumption
  obtain ⟨child, here, position⟩ := program_of_alive known settled alive
  have input := input_program outside wired grouped here position
  have output := output_program outside wired grouped here position
  have goes {count : ℕ}
      (some : (state.programStep act capacity i count child).isSome = true) :
      (state.step act capacity setting (.program i count)).isSome = true := by
    rw [step, here]
    dsimp only
    rwa [if_pos position]
  cases move with
  | exits live idle exit =>
      refine ⟨0, goes ?_⟩
      have idle : (state.programs i).pending = [] := idle
      have exit : act (state.programs i).code = .exit := exit
      rw [programStep, if_pos idle, exit]
      rfl
  | @writes bytes next live idle write =>
      refine ⟨0, goes ?_⟩
      have idle : (state.programs i).pending = [] := idle
      have write : act (state.programs i).code = .write bytes next := write
      rw [programStep, if_pos idle, write]
      rfl
  | @ends next live idle read none closed =>
      refine ⟨0, goes ?_⟩
      have idle : (state.programs i).pending = [] := idle
      have read : act (state.programs i).code = .read next := read
      rw [programStep, if_pos idle, read]
      dsimp only
      rcases input with ⟨first, outer⟩ | ⟨later, opened⟩
      · have empty : state.source = [] := (if_pos first).symm.trans none
        rw [readStep_of_isSource outer, if_pos empty]
        rfl
      · have empty : state.buffers _ = [] := (if_neg later).symm.trans none
        rw [opened, readStep, if_pos empty, if_neg (not_held_writeEnd known settled closed later)]
        rfl
  | @reads next bytes rest live idle read some cut =>
      refine ⟨bytes.length, goes ?_⟩
      have bounds (buffer : Text) (cut : buffer = bytes ++ rest) :
          buffer ≠ [] ∧ 0 < bytes.length ∧ bytes.length ≤ buffer.length := by
        refine ⟨?_, List.length_pos_iff.mpr some, ?_⟩
        · rw [cut]
          exact List.append_ne_nil_of_left_ne_nil some _
        · rw [cut, List.length_append]
          omega
      have idle : (state.programs i).pending = [] := idle
      have read : act (state.programs i).code = .read next := read
      rw [programStep, if_pos idle, read]
      dsimp only
      rcases input with ⟨first, outer⟩ | ⟨later, opened⟩
      · have bounds := bounds state.source ((if_pos first).symm.trans cut)
        rw [readStep_of_isSource outer, if_neg bounds.1, if_pos bounds.2]
        rfl
      · have bounds := bounds (state.buffers _) ((if_neg later).symm.trans cut)
        rw [opened, readStep, if_neg bounds.1, if_pos bounds.2]
        rfl
  | breaks live busy broken =>
      refine ⟨0, goes ?_⟩
      have inner : i.val + 1 < setting.n := by
        obtain ⟨reader, adjacent, -⟩ := broken
        exact adjacent ▸ reader.isLt
      have opened := (output.resolve_left fun last => inner.ne last.1).2
      have busy : (state.programs i).pending ≠ [] := busy
      rw [programStep, if_neg busy, opened, writeStep,
        if_neg (not_held_readEnd known settled broken)]
      rfl
  | @passes next bytes rest live cut some adjacent reader room =>
      refine ⟨bytes.length, goes ?_⟩
      have cut : (state.programs i).pending = bytes ++ rest := cut
      have inner : i.val + 1 < setting.n := adjacent ▸ next.isLt
      have opened := (output.resolve_left fun last => inner.ne last.1).2
      have held := held_readEnd wired grouped known.running inner
        (List.getElem?_eq_some_iff.mp here).1 (adjacent ▸ reader)
      have busy : (state.programs i).pending ≠ [] := by
        rw [cut]
        exact List.append_ne_nil_of_left_ne_nil some _
      have room : (state.buffers (setting.pipe i.val)).length + bytes.length ≤ capacity := by
        have waits : (state.view setting).waiting next = state.buffers (setting.pipe i.val) :=
          (if_neg (by omega)).trans (by rw [← adjacent, Nat.add_sub_cancel])
        rwa [← waits]
      rw [programStep, if_neg busy, opened, writeStep, if_pos held,
        if_pos ⟨List.length_pos_iff.mpr some, by rw [cut, List.length_append]; omega, room⟩]
      rfl
  | @emits bytes rest live cut some last =>
      refine ⟨bytes.length, goes ?_⟩
      have cut : (state.programs i).pending = bytes ++ rest := cut
      have busy : (state.programs i).pending ≠ [] := by
        rw [cut]
        exact List.append_ne_nil_of_left_ne_nil some _
      have outer := (output.resolve_right fun inner => inner.1.ne last).2
      rw [programStep, if_neg busy, writeStep_of_isSink outer,
        if_pos ⟨List.length_pos_iff.mpr some, by rw [cut, List.length_append]; omega⟩]
      rfl

end Settled

/-- A pipeline that is not over can go on by itself. -/
theorem exists_step (known : Known act load setting source state) (outside : setting.Outside)
    (positive : 0 < capacity) (more : ¬ state.Over) :
    ∃ label, Alone state label ∧ (state.step act capacity setting label).isSome = true := by
  have launches (label : LaunchLabel) (works : label.Works)
      (alone : ∀ processes, label ≠ .others processes)
      (moves : (Launch.step setting state.launch label).isSome = true) :
      ∃ label, Alone state label ∧ (state.step act capacity setting label).isSome = true :=
    ⟨.launch label, ⟨works, alone⟩, by rw [step, Option.isSome_map]; exact moves⟩
  have shell (moves : (state.launch.shellStep setting).isSome = true) :=
    launches .shell trivial (fun _ same => by cases same) moves
  cases position : state.launch.pc with
  | loop =>
      refine shell ?_
      rw [Launch.shellStep, position]
      dsimp only
      split
      · split <;> rfl
      · rfl
  | fork pfd =>
      obtain ⟨pid, nonzero, free⟩ := state.launch.exists_free
      refine launches (.fork pid) trivial (fun _ same => by cases same) ?_
      rw [Launch.step, position]
      dsimp only
      rw [if_pos ⟨nonzero, free⟩]
      rfl
  | setpgid pid pfd | left | addJob =>
      refine shell ?_
      rw [Launch.shellStep, position]
      rfl
  | close pfd =>
      refine shell ?_
      rw [Launch.shellStep, position]
      cases pfd <;> rfl
  | returned => exact absurd position known.running
  | launched num =>
      by_cases settled :
          ∀ child ∈ state.launch.children, child.pc = .program ∨ child.pc.live = false
      · have settled : state.launch.Settled := ⟨⟨num, position⟩, settled⟩
        have alive : ∃ i, ((state.view setting).stages i).live = true := by
          by_contra none
          refine more ⟨⟨num, position⟩, fun child inside => ?_⟩
          obtain ⟨i, here⟩ := List.getElem?_of_mem inside
          obtain ⟨wired, grouped⟩ := wired_of_reachable known.reach
          have bound := (List.getElem?_eq_some_iff.mp here).1.trans_le (grouped.length_le wired)
          refine Bool.eq_false_iff.mpr fun live => none ⟨⟨i, bound⟩, ?_⟩
          show state.launch.alive i = true
          rw [Launch.alive, here]
          exact live
        obtain ⟨i, alive⟩ := alive
        obtain ⟨⟨i, count⟩, moves⟩ := Chain.enabled_of_live act positive alive
        obtain ⟨chain, moved⟩ := Option.isSome_iff_exists.mp moves
        obtain ⟨count, goes⟩ :=
          isSome_of_move known outside settled (Chain.move_of_step moved)
        exact ⟨.program i count, trivial, goes⟩
      · simp only [not_forall, not_or] at settled
        obtain ⟨child, inside, unready, live⟩ := settled
        obtain ⟨i, here⟩ := List.getElem?_of_mem inside
        refine launches (.child i) trivial (fun _ same => by cases same) ?_
        rw [Launch.step, here, Option.bind_some, Option.isSome_map, Child.step]
        split
        · rfl
        · rfl
        · split <;> rfl
        · split <;> rfl
        · rfl
        · rename_i position
          exact absurd position unready
        · rename_i position
          rw [position] at live
          exact absurd rfl live

/-- What a step lowers: the steps left to the shell, those left to its children, and what the chain
can still do. -/
def value (setting : Setting) (state : Execution σ) :
    ℕ × ℕ × (Fin setting.n → ℕ × (σ × Text) × ℕ) :=
  (state.launch.shellLeft setting, state.launch.stagesLeft, (state.view setting).measure)

abbrev Lower (act : σ → FilterAct UInt8 σ) (setting : Setting) :
    ℕ × ℕ × (Fin setting.n → ℕ × (σ × Text) × ℕ) →
      ℕ × ℕ × (Fin setting.n → ℕ × (σ × Text) × ℕ) → Prop :=
  Prod.Lex (· < ·) (Prod.Lex (· < ·) (Pi.Lex (· < ·) fun {_ : Fin setting.n} => Chain.Lower act))

theorem wellFounded_lower (halting : Halting act) (setting : Setting) :
    WellFounded (Lower act setting) :=
  (Prod.lex Nat.lt_wfRel (Prod.lex Nat.lt_wfRel
    ⟨_, Chain.wellFounded_lower (n := setting.n) halting⟩)).wf

theorem lower_of_step (known : Known act load setting source state) (outside : setting.Outside)
    (drains : ∀ argv ∈ setting.p.commands, Drains act (load argv)) {label : ExecutionLabel}
    (alone : Alone state label) (taken : state.step act capacity setting label = some after) :
    Lower act setting (after.value setting) (state.value setting) := by
  cases label with
  | launch label =>
      obtain ⟨launch, moved, rfl⟩ := Option.map_eq_some_iff.mp taken
      obtain ⟨wired, -⟩ := wired_of_reachable known.reach
      rcases Launch.lower_of_step wired alone.1 alone.2 moved with lower | ⟨same, lower⟩
      · exact .left _ _ lower
      · rw [value, value, same]
        exact .right _ (.left _ _ lower)
  | program i count =>
      obtain ⟨stage, move⟩ := known.move drains outside taken
      obtain ⟨child, here, position, taken⟩ := of_step taken
      have same : after.launch.shellLeft setting = state.launch.shellLeft setting ∧
          after.launch.stagesLeft = state.launch.stagesLeft := by
        rcases launch_of_programStep taken with same | rfl
        · rw [same]
          exact ⟨rfl, rfl⟩
        · have left := Launch.stagesLeft_set here child.die
          have none : child.pc.left = 0 := by rw [position, ChildPc.left]
          exact ⟨rfl, by rwa [none] at left⟩
      rw [value, value, same.1, same.2]
      exact .right _ (.right _
        ⟨stage, fun j before => Chain.measure_of_move move before, Chain.lower_of_move move⟩)

end Execution

/-- Programs that copy their input. -/
def copying : Scanner UInt8 Unit where
  step _ byte := ((), [byte])
  final _ := []

theorem outside_threeStages : threeStages.Outside := by
  intro fd small
  rcases fd with _ | _ | fd
  · exact ⟨0, rfl⟩
  · exact ⟨1, rfl⟩
  · omega

/-- Three copiers behind pipes of four bytes. -/
def threeCopies : Machine (Execution (ScannerCode UInt8 Unit)) ExecutionLabel :=
  execution copying.act (fun _ => .reading ()) 4 threeStages (ascii "one line\n")

end Shell
end Syscore
