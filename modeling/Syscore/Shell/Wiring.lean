import Syscore.Shell.Launch

/-!
# The wiring of a pipeline

The shell's descriptors between two system calls are those it started with and the ends of at most
two pipes; a child gets a copy and moves its own ends into place.
-/

namespace Syscore
namespace Shell

variable {setting : Setting} {state after : Launch}

/-! ## The steps of a launch -/

/-- The shell after it has closed its ends of the pipes of a stage. -/
def Launch.afterClose (state : Launch) : Option (ℕ × ℕ) → Launch
  | some (readFd, writeFd) =>
      { state with
        fds := (closeIf state.fds state.prevRead).close writeFd
        prevRead := some readFd
        i := state.i + 1
        pc := .loop }
  | none =>
      { state with fds := closeIf state.fds state.prevRead, i := state.i + 1, pc := .loop }

/-- The child that `fork` makes. -/
def Launch.forked (setting : Setting) (state : Launch) (pid : Pid) (pfd : Option (ℕ × ℕ)) :
    Child where
  pid
  pgid := setting.pgrp
  fds := state.fds
  frame := { i := state.i, pgid := state.pgid, prevRead := state.prevRead, pfd }
  pc := .setpgid

/-- The moves of a launch. -/
inductive LaunchMove (setting : Setting) (state : Launch) : Launch → Prop
  | pipes (position : state.pc = .loop) (next : state.i + 1 < setting.n) :
      LaunchMove setting state
        { state with
          fds := ((state.fds.openFile (.readEnd state.pipes)).2.openFile (.writeEnd state.pipes)).2
          pipes := state.pipes + 1
          pc := .fork (some ((state.fds.openFile (.readEnd state.pipes)).1,
            ((state.fds.openFile (.readEnd state.pipes)).2.openFile (.writeEnd state.pipes)).1)) }
  | lastStage (position : state.pc = .loop) (inside : state.i < setting.n)
      (last : ¬ state.i + 1 < setting.n) : LaunchMove setting state { state with pc := .fork none }
  | leaves (position : state.pc = .loop) (outside : ¬ state.i < setting.n) :
      LaunchMove setting state { state with pc := .left }
  | forks {pid pfd} (position : state.pc = .fork pfd) (nonzero : pid ≠ 0)
      (unused : state.free pid = true) :
      LaunchMove setting state
        { state with
          children := state.children ++ [state.forked setting pid pfd]
          pc := .setpgid pid pfd }
  | places {pid pfd} (position : state.pc = .setpgid pid pfd) :
      LaunchMove setting state
        { state with
          pgid := if state.pgid = 0 then pid else state.pgid
          children := state.setpgid pid (if state.pgid = 0 then pid else state.pgid)
          pids := state.pids ++ [pid]
          pc := .close pfd }
  | closes {pfd} (position : state.pc = .close pfd) :
      LaunchMove setting state (state.afterClose pfd)
  | closesAgain (position : state.pc = .left) :
      LaunchMove setting state
        { state with fds := closeIf state.fds state.prevRead, pc := .addJob }
  | adds (position : state.pc = .addJob) :
      LaunchMove setting state
        { state with
          jobs := (state.jobs.launch state.pgid setting.cmdline
            (if setting.p.background then .background else .foreground) state.pids).2
          pc := .launched (state.jobs.launch state.pgid setting.cmdline
            (if setting.p.background then .background else .foreground) state.pids).1 }
  | fails (position : state.pc = .loop ∨ ∃ pfd, state.pc = .fork pfd) :
      LaunchMove setting state { state with pc := .returned }
  | child {index child next} (here : state.children[index]? = some child)
      (moved : child.step setting.p state.group = some next ∨ next = child.die) :
      LaunchMove setting state { state with children := state.children.set index next }
  | others {processes} : LaunchMove setting state { state with others := processes }

theorem launchMove_of_shell (taken : state.shellStep setting = some after) :
    LaunchMove setting state after := by
  unfold Launch.shellStep at taken
  split at taken
  · rename_i position
    split at taken
    · rename_i inside
      split at taken
      · rename_i next
        obtain rfl := Option.some.inj taken
        exact .pipes position next
      · rename_i last
        obtain rfl := Option.some.inj taken
        exact .lastStage position inside last
    · rename_i outside
      obtain rfl := Option.some.inj taken
      exact .leaves position outside
  · rename_i position
    obtain rfl := Option.some.inj taken
    exact .places position
  · rename_i pfd position
    cases pfd <;>
    · obtain rfl := Option.some.inj taken
      exact .closes position
  · rename_i position
    obtain rfl := Option.some.inj taken
    exact .closesAgain position
  · rename_i position
    obtain rfl := Option.some.inj taken
    exact .adds position
  all_goals cases taken

theorem launchMove_of_step {label : LaunchLabel}
    (taken : Launch.step setting state label = some after) : LaunchMove setting state after := by
  cases label with
  | shell => exact launchMove_of_shell taken
  | pipeFails =>
      rw [Launch.step] at taken
      split at taken
      · rename_i position
        split at taken
        · obtain rfl := Option.some.inj taken
          exact .fails (.inl position)
        · cases taken
      · cases taken
  | fork pid =>
      rw [Launch.step] at taken
      split at taken
      · rename_i position
        split at taken
        · rename_i allowed
          obtain rfl := Option.some.inj taken
          exact .forks position allowed.1 allowed.2
        · cases taken
      · cases taken
  | forkFails =>
      rw [Launch.step] at taken
      split at taken
      · rename_i position
        obtain rfl := Option.some.inj taken
        exact .fails (.inr ⟨_, position⟩)
      · cases taken
  | child index =>
      obtain ⟨child, here, moved⟩ := Option.bind_eq_some_iff.mp taken
      obtain ⟨next, stepped, rfl⟩ := Option.map_eq_some_iff.mp moved
      exact .child here (.inl stepped)
  | dies index =>
      obtain ⟨child, here, rfl⟩ := Option.map_eq_some_iff.mp taken
      exact .child here (.inr rfl)
  | others processes =>
      rw [Launch.step] at taken
      split at taken
      · obtain rfl := Option.some.inj taken
        exact .others
      · cases taken

/-! ## Descriptors -/

/-- The pipe out of a stage. -/
def Setting.pipe (setting : Setting) (i : ℕ) : ℕ := setting.pipes + i

/-- The read end that the last stage has left. -/
def Setting.prevEnds (setting : Setting) (i : ℕ) : Option ℕ → List (ℕ × File)
  | some prevRead => [(prevRead, .readEnd (setting.pipe (i - 1)))]
  | none => []

/-- The ends of the pipe out of a stage. -/
def Setting.pfdEnds (setting : Setting) (i : ℕ) : Option (ℕ × ℕ) → List (ℕ × File)
  | some (readFd, writeFd) =>
      [(writeFd, .writeEnd (setting.pipe i)), (readFd, .readEnd (setting.pipe i))]
  | none => []

/-- The locals of a stage agree with its place, and its descriptors are different ones. -/
structure FrameOk (setting : Setting) (i : ℕ) (prevRead : Option ℕ) (pfd : Option (ℕ × ℕ)) :
    Prop where
  inside : i < setting.n
  first : prevRead = none ↔ i = 0
  last : pfd = none ↔ ¬ i + 1 < setting.n
  apart : ∀ readFd writeFd, pfd = some (readFd, writeFd) →
    readFd ≠ writeFd ∧ prevRead ≠ some readFd ∧ prevRead ≠ some writeFd

/-- The descriptors of a stage past its input pipe. -/
def Setting.joined (setting : Setting) (i : ℕ) : Descriptors File :=
  if i = 0 then setting.fds else setting.fds.set 0 (some (.readEnd (setting.pipe (i - 1))))

/-- The descriptors of a stage past its pipes. -/
def Setting.piped (setting : Setting) (i : ℕ) : Descriptors File :=
  if i + 1 < setting.n then (setting.joined i).set 1 (some (.writeEnd (setting.pipe i)))
  else setting.joined i

/-- The descriptors of a stage past `<`. -/
def Setting.fed (setting : Setting) (i : ℕ) : Descriptors File :=
  if Child.readsFile setting.p i then (setting.piped i).set 0 (some (.input setting.p.input))
  else setting.piped i

/-- The descriptors of a stage at `execvp`. -/
def Setting.wired (setting : Setting) (i : ℕ) : Descriptors File :=
  if Child.writesFile setting.p i then (setting.fed i).set 1 (some (.output setting.p.output))
  else setting.fed i

theorem get_set_ne_none {fds : Descriptors File} {fd target : ℕ} {file : File}
    (opened : fds.get fd ≠ none) : (fds.set target (some file)).get fd ≠ none := by
  rw [Descriptors.get_set]
  split
  · exact Option.some_ne_none _
  · exact opened

theorem get_joined_ne_none (setting : Setting) (i : ℕ) {fd : ℕ} (standard : fd < 3) :
    (setting.joined i).get fd ≠ none := by
  unfold Setting.joined
  split
  · exact setting.standard fd standard
  · exact get_set_ne_none (setting.standard fd standard)

theorem get_piped_ne_none (setting : Setting) (i : ℕ) {fd : ℕ} (standard : fd < 3) :
    (setting.piped i).get fd ≠ none := by
  unfold Setting.piped
  split
  · exact get_set_ne_none (get_joined_ne_none setting i standard)
  · exact get_joined_ne_none setting i standard

theorem get_fed_ne_none (setting : Setting) (i : ℕ) {fd : ℕ} (standard : fd < 3) :
    (setting.fed i).get fd ≠ none := by
  unfold Setting.fed
  split
  · exact get_set_ne_none (get_piped_ne_none setting i standard)
  · exact get_piped_ne_none setting i standard

/-- `open`, `dup2` and `close` replace the target. -/
theorem extends_redirect {base fds : Descriptors File} (ok : base.Extends [] fds) (file : File)
    {target : ℕ} (opened : base.get target ≠ none) :
    (base.set target (some file)).Extends [] (Child.redirect file target fds) := by
  have added := ok.openFile file
  have closed := added.closed _ List.mem_cons_self
  have found : (fds.openFile file).2.get fds.lowest = some file := by
    rw [added.get, Descriptors.lookup_cons_fd, if_pos rfl, Option.some_or]
  have moved := added.dup2 opened found
  have done := moved.close (moved.closed _ List.mem_cons_self)
  rw [List.filter_cons_of_neg (by simp), List.filter_nil] at done
  exact done

section Ends

variable {i : ℕ} {prevRead : Option ℕ} {pfd : Option (ℕ × ℕ)}
  (frameOk : FrameOk setting i prevRead pfd)

include frameOk in
/-- Without the read end that the last stage has left. -/
theorem filter_prevEnds {fd : ℕ} (left : prevRead = some fd) :
    ((setting.pfdEnds i pfd ++ setting.prevEnds i prevRead).filter fun entry => entry.1 ≠ fd) =
      setting.pfdEnds i pfd := by
  subst left
  cases pfd with
  | none => simp [Setting.pfdEnds, Setting.prevEnds]
  | some ends =>
      obtain ⟨_, notRead, notWrite⟩ := frameOk.apart _ _ rfl
      have notRead : ends.1 ≠ fd := fun same => notRead (congrArg some same.symm)
      have notWrite : ends.2 ≠ fd := fun same => notWrite (congrArg some same.symm)
      simp [Setting.pfdEnds, Setting.prevEnds, notRead, notWrite]

include frameOk in
/-- A child that is not the first moves its read end to descriptor 0. -/
theorem extends_takeInput {fds : Descriptors File}
    (ok : setting.fds.Extends (setting.pfdEnds i pfd ++ setting.prevEnds i prevRead) fds) :
    (setting.joined i).Extends (setting.pfdEnds i pfd) (Child.takeInput fds prevRead) := by
  unfold Setting.joined
  cases prevRead with
  | none =>
      rw [if_pos (frameOk.first.mp rfl)]
      rw [Setting.prevEnds, List.append_nil] at ok
      exact ok
  | some prevRead =>
      rw [if_neg fun zero => Option.some_ne_none _ (frameOk.first.mpr zero)]
      have found : fds.get prevRead = some (.readEnd (setting.pipe (i - 1))) := by
        rw [ok.get]
        cases pfd with
        | none => simp [Setting.pfdEnds, Setting.prevEnds]
        | some ends =>
            obtain ⟨_, notRead, notWrite⟩ := frameOk.apart _ _ rfl
            have notRead : prevRead ≠ ends.1 := fun same => notRead (congrArg some same)
            have notWrite : prevRead ≠ ends.2 := fun same => notWrite (congrArg some same)
            simp [Setting.pfdEnds, Setting.prevEnds, Descriptors.lookup_cons_fd, notRead, notWrite]
      have moved := ok.dup2 (setting.standard 0 (by decide)) found
      have done := moved.close (moved.closed _ (List.mem_append_right _ List.mem_cons_self))
      rw [filter_prevEnds frameOk rfl] at done
      exact done

include frameOk in
/-- A child that is not the last moves its write end to descriptor 1. -/
theorem extends_takeOutput {fds : Descriptors File}
    (ok : (setting.joined i).Extends (setting.pfdEnds i pfd) fds) :
    (setting.piped i).Extends [] (Child.takeOutput fds pfd) := by
  unfold Setting.piped
  cases pfd with
  | none =>
      rw [if_neg (frameOk.last.mp rfl)]
      exact ok
  | some ends =>
      obtain ⟨readFd, writeFd⟩ := ends
      have next : i + 1 < setting.n := by
        by_contra outside
        cases frameOk.last.mpr outside
      obtain ⟨distinct, _, _⟩ := frameOk.apart _ _ rfl
      rw [if_pos next]
      have found : fds.get writeFd = some (.writeEnd (setting.pipe i)) := by
        rw [ok.get, Setting.pfdEnds, Descriptors.lookup_cons_fd, if_pos rfl, Option.some_or]
      have moved := ok.dup2 (get_joined_ne_none setting i (show 1 < 3 by decide)) found
      have closed := moved.close
        (moved.closed (readFd, .readEnd (setting.pipe i)) (by simp [Setting.pfdEnds]))
      have left : ((setting.pfdEnds i (some (readFd, writeFd))).filter
          fun entry => entry.1 ≠ readFd) = [(writeFd, .writeEnd (setting.pipe i))] := by
        simp [Setting.pfdEnds, distinct.symm]
      rw [left] at closed
      have done := closed.close (closed.closed _ List.mem_cons_self)
      rw [List.filter_cons_of_neg (by simp), List.filter_nil] at done
      exact done

end Ends

/-- The descriptors of the shell agree with where it is. -/
def ShellOk (setting : Setting) (state : Launch) : Prop :=
  match state.pc with
  | .loop =>
      (state.i < setting.n → (state.prevRead = none ↔ state.i = 0) ∧
        state.pipes = setting.pipe state.i ∧
        setting.fds.Extends (setting.prevEnds state.i state.prevRead) state.fds) ∧
      (¬ state.i < setting.n → setting.fds.Extends [] state.fds ∧
        ∀ prevRead, state.prevRead = some prevRead → setting.fds.get prevRead = none)
  | .fork pfd | .setpgid _ pfd | .close pfd =>
      FrameOk setting state.i state.prevRead pfd ∧
        (state.i + 1 < setting.n → state.pipes = setting.pipe (state.i + 1)) ∧
        setting.fds.Extends
          (setting.pfdEnds state.i pfd ++ setting.prevEnds state.i state.prevRead) state.fds
  | .left =>
      setting.fds.Extends [] state.fds ∧
        ∀ prevRead, state.prevRead = some prevRead → setting.fds.get prevRead = none
  | .addJob | .launched _ => setting.fds.Extends [] state.fds
  | .returned => True

/-- The descriptors of a child agree with where it is. -/
def ChildOk (setting : Setting) (child : Child) : Prop :=
  match child.pc with
  | .setpgid | .pipes =>
      FrameOk setting child.frame.i child.frame.prevRead child.frame.pfd ∧
        setting.fds.Extends
          (setting.pfdEnds child.frame.i child.frame.pfd ++
            setting.prevEnds child.frame.i child.frame.prevRead) child.fds
  | .input => (setting.piped child.frame.i).Extends [] child.fds
  | .output => (setting.fed child.frame.i).Extends [] child.fds
  | .execvp | .program => (setting.wired child.frame.i).Extends [] child.fds
  | .exited _ => True

theorem ChildOk.step {child next : Child} {group : Pid → Bool} (ok : ChildOk setting child)
    (moved : child.step setting.p group = some next ∨ next = child.die) :
    ChildOk setting next ∧ next.frame = child.frame ∧ next.pid = child.pid := by
  rcases moved with moved | rfl
  · unfold Child.step at moved
    unfold ChildOk at ok
    split at moved
    · rename_i position
      rw [position] at ok
      obtain rfl := Option.some.inj moved
      exact ⟨ok, rfl, rfl⟩
    · rename_i position
      rw [position] at ok
      obtain rfl := Option.some.inj moved
      exact ⟨extends_takeOutput ok.1 (extends_takeInput ok.1 ok.2), rfl, rfl⟩
    · rename_i position
      rw [position] at ok
      split at moved
      · rename_i reads
        obtain rfl := Option.some.inj moved
        refine ⟨?_, rfl, rfl⟩
        unfold ChildOk Setting.fed
        rw [if_pos reads]
        exact extends_redirect ok _ (get_piped_ne_none setting _ (by decide))
      · rename_i keeps
        obtain rfl := Option.some.inj moved
        refine ⟨?_, rfl, rfl⟩
        unfold ChildOk Setting.fed
        rw [if_neg keeps]
        exact ok
    · rename_i position
      rw [position] at ok
      split at moved
      · rename_i writes
        obtain rfl := Option.some.inj moved
        refine ⟨?_, rfl, rfl⟩
        unfold ChildOk Setting.wired
        rw [if_pos writes]
        exact extends_redirect ok _ (get_fed_ne_none setting _ (by decide))
      · rename_i keeps
        obtain rfl := Option.some.inj moved
        refine ⟨?_, rfl, rfl⟩
        unfold ChildOk Setting.wired
        rw [if_neg keeps]
        exact ok
    · rename_i position
      rw [position] at ok
      obtain rfl := Option.some.inj moved
      exact ⟨ok, rfl, rfl⟩
    all_goals cases moved
  · exact ⟨trivial, rfl, rfl⟩

/-- The shell closes its ends of the pipes of a stage. -/
theorem shellOk_afterClose {pfd : Option (ℕ × ℕ)} (position : state.pc = .close pfd)
    (ok : ShellOk setting state) : ShellOk setting (state.afterClose pfd) := by
  unfold ShellOk at ok
  rw [position] at ok
  obtain ⟨frameOk, pipes, ends⟩ := ok
  have closed : setting.fds.Extends (setting.pfdEnds state.i pfd)
      (closeIf state.fds state.prevRead) := by
    cases left : state.prevRead with
    | none =>
        rw [left, Setting.prevEnds, List.append_nil] at ends
        exact ends
    | some prevRead =>
        have outside := ends.closed (prevRead, .readEnd (setting.pipe (state.i - 1)))
          (by rw [left]; exact List.mem_append_right _ List.mem_cons_self)
        have closed := ends.close outside
        rw [filter_prevEnds frameOk left] at closed
        exact closed
  cases pfd with
  | none =>
      have last := frameOk.last.mp rfl
      refine ⟨fun next => absurd next last, fun _ => ⟨closed, fun prevRead left => ?_⟩⟩
      have left : state.prevRead = some prevRead := left
      refine ends.closed (prevRead, .readEnd (setting.pipe (state.i - 1))) ?_
      rw [left]
      exact List.mem_append_right _ List.mem_cons_self
  | some ends' =>
      obtain ⟨readFd, writeFd⟩ := ends'
      have next : state.i + 1 < setting.n := by
        by_contra outside
        cases frameOk.last.mpr outside
      obtain ⟨distinct, _, _⟩ := frameOk.apart _ _ rfl
      refine ⟨fun _ => ⟨by simp [Launch.afterClose], pipes next, ?_⟩,
        fun outside => absurd next outside⟩
      have done := closed.close
        (closed.closed (writeFd, .writeEnd (setting.pipe state.i)) List.mem_cons_self)
      have kept : ((setting.pfdEnds state.i (some (readFd, writeFd))).filter
          fun entry => entry.1 ≠ writeFd) = [(readFd, .readEnd (setting.pipe state.i))] := by
        simp [Setting.pfdEnds, distinct]
      rw [kept] at done
      exact done

/-- `setpgid` leaves a child as it was or puts it into the group. -/
theorem getElem?_setpgid {pid pgid : Pid} {index : ℕ} {child : Child}
    (here : (state.setpgid pid pgid)[index]? = some child) :
    ∃ old, state.children[index]? = some old ∧ (child = old ∨ child = { old with pgid }) := by
  obtain ⟨old, found, rfl⟩ := Option.map_eq_some_iff.mp ((List.getElem?_map ..).symm.trans here)
  refine ⟨old, found, ?_⟩
  split
  · exact .inr rfl
  · exact .inl rfl

theorem map_pid_setpgid (pid pgid : Pid) :
    (state.setpgid pid pgid).map Child.pid = state.children.map Child.pid :=
  map_key_ite (fun _ => by rfl) state.children

/-- What holds of the descriptors throughout a launch. -/
structure Wired (setting : Setting) (state : Launch) : Prop where
  shell : ShellOk setting state
  child : ∀ child ∈ state.children, ChildOk setting child

theorem Wired.step (ok : Wired setting state) (move : LaunchMove setting state after) :
    Wired setting after := by
  obtain ⟨shell, child⟩ := ok
  unfold ShellOk at shell
  cases move with
  | pipes position next =>
      rw [position] at shell
      obtain ⟨first, pipes, ends⟩ := shell.1 (Nat.lt_of_succ_lt next)
      have reading := ends.openFile (.readEnd state.pipes)
      have writing := reading.openFile (.writeEnd state.pipes)
      have opened : ∀ prevRead, state.prevRead = some prevRead →
          state.fds.get prevRead ≠ none ∧
            (state.fds.openFile (.readEnd state.pipes)).2.get prevRead ≠ none := by
        intro prevRead left
        rw [left] at ends reading
        constructor
        · rw [ends.get]
          simp [Setting.prevEnds]
        · rw [reading.get]
          simp only [Setting.prevEnds, Descriptors.lookup_cons_fd]
          split <;> simp
      refine ⟨⟨⟨Nat.lt_of_succ_lt next, first, ?_, ?_⟩, ?_, ?_⟩, child⟩
      · exact ⟨nofun, fun outside => absurd next outside⟩
      · rintro readFd writeFd same
        obtain ⟨rfl, rfl⟩ := Prod.mk.inj (Option.some.inj same)
        refine ⟨?_, fun left => ?_, fun left => ?_⟩
        · have found : (state.fds.openFile (.readEnd state.pipes)).2.get state.fds.lowest =
              some (.readEnd state.pipes) := by
            rw [reading.get, Descriptors.lookup_cons_fd, if_pos rfl, Option.some_or]
          exact Descriptors.ne_lowest found
        · exact (opened _ left).1 Descriptors.get_lowest
        · exact (opened _ left).2 Descriptors.get_lowest
      · intro _
        show state.pipes + 1 = _
        rw [pipes, Setting.pipe, Setting.pipe, Nat.add_assoc]
      · show setting.fds.Extends ((_, .writeEnd (setting.pipe state.i)) ::
          (_, .readEnd (setting.pipe state.i)) :: setting.prevEnds state.i state.prevRead) _
        rw [← pipes]
        exact writing
  | lastStage position inside last =>
      rw [position] at shell
      obtain ⟨first, pipes, ends⟩ := shell.1 inside
      exact ⟨⟨⟨inside, first, iff_of_true rfl last, nofun⟩, fun next => absurd next last, ends⟩,
        child⟩
  | leaves position outside =>
      rw [position] at shell
      exact ⟨shell.2 outside, child⟩
  | forks position nonzero unused =>
      rw [position] at shell
      refine ⟨shell, fun other inside => ?_⟩
      rcases List.mem_append.mp inside with old | new
      · exact child other old
      · obtain rfl := List.mem_singleton.mp new
        exact ⟨shell.1, shell.2.2⟩
  | places position =>
      rw [position] at shell
      refine ⟨shell, fun other inside => ?_⟩
      obtain ⟨index, here⟩ := List.getElem?_of_mem inside
      obtain ⟨old, found, same⟩ := getElem?_setpgid here
      have known := List.mem_of_getElem? found
      rcases same with rfl | rfl
      · exact child _ known
      · exact child old known
  | closes position =>
      refine ⟨shellOk_afterClose position shell, ?_⟩
      unfold Launch.afterClose
      split <;> exact child
  | closesAgain position =>
      rw [position] at shell
      obtain ⟨whole, stale⟩ := shell
      refine ⟨?_, child⟩
      cases left : state.prevRead with
      | none => exact whole
      | some prevRead => exact whole.close (stale prevRead left)
  | adds position =>
      rw [position] at shell
      exact ⟨shell, child⟩
  | fails position => exact ⟨trivial, child⟩
  | child here moved =>
      refine ⟨shell, fun other inside => ?_⟩
      rcases List.mem_or_eq_of_mem_set inside with old | rfl
      · exact child other old
      · exact ((child _ (List.mem_of_getElem? here)).step moved).1
  | others => exact ⟨shell, child⟩

end Shell
end Syscore
