import Syscore.Shell.Wiring

/-!
# The group of a pipeline

Both the shell and a child put the child into the group; whoever comes first, the child is in it
when it runs its program and when the shell forks the next one.
-/

namespace Syscore
namespace Shell

variable {setting : Setting} {state after : Launch}

/-- The process that the shell has forked and not yet put into the group. -/
def LaunchPc.pending : LaunchPc → List Pid
  | .setpgid pid _ => [pid]
  | _ => []

/-- The child has put itself into the group. -/
def ChildPc.placed : ChildPc → Bool
  | .setpgid => false
  | .exited execed => execed
  | _ => true

/-- The first child. -/
def Launch.leader (state : Launch) : Pid := (state.children.map Child.pid).headD 0

/-- The children are those that the shell has forked, and are put into the group of the first. -/
structure Grouped (setting : Setting) (state : Launch) : Prop where
  forked : state.children.map Child.pid = state.pids ++ state.pc.pending
  nonzero : ∀ pid ∈ state.children.map Child.pid, pid ≠ 0
  nodup : (state.children.map Child.pid).Nodup
  pgid : state.pgid = state.pids.headD 0
  counted : state.pids.length = match state.pc with
    | .close _ => state.i + 1
    | _ => state.i
  frame : ∀ index child, state.children[index]? = some child →
    child.frame.i = index ∧ child.frame.pgid = if index = 0 then 0 else state.leader
  placed : ∀ index child, state.children[index]? = some child →
    index < state.pids.length ∨ child.pc.placed = true → child.pgid = state.leader
  within : ∀ num, state.pc = .left ∨ state.pc = .addJob ∨ state.pc = .launched num →
    state.i = setting.n
  bound : state.i ≤ setting.n

namespace Grouped

variable (ok : Grouped setting state)

include ok in
theorem length_children : state.children.length = state.pids.length + state.pc.pending.length := by
  rw [← List.length_map Child.pid, ok.forked, List.length_append]

include ok in
/-- Once the first child is in its group the shell's group is the leader's. -/
theorem leader_eq (begun : state.pids ≠ []) : state.leader = state.pgid := by
  obtain ⟨first, rest, shape⟩ := List.exists_cons_of_ne_nil begun
  rw [Launch.leader, ok.forked, ok.pgid, shape]
  rfl

include ok in
/-- Once the first child is in its group the group exists. -/
theorem group_leader (begun : 0 < state.pids.length) : state.group state.leader = true := by
  have known : 0 < state.children.length := by
    rw [ok.length_children]
    omega
  have first := List.getElem?_eq_getElem known
  have placed := ok.placed 0 _ first (.inl begun)
  unfold Launch.group
  rw [List.any_eq_true.mpr ⟨_, List.getElem_mem known, decide_eq_true placed⟩, Bool.true_or]

include ok in
/-- A child that moves by itself ends up in the group. -/
theorem child_pgid {index : ℕ} {child next : Child} (here : state.children[index]? = some child)
    (moved : child.step setting.p state.group = some next ∨ next = child.die)
    (due : index < state.pids.length ∨ next.pc.placed = true) : next.pgid = state.leader := by
  obtain ⟨known, found⟩ := List.getElem?_eq_some_iff.mp here
  have before (unmoved : next.pgid = child.pgid)
      (earlier : next.pc.placed = true → child.pc.placed = true) : next.pgid = state.leader :=
    unmoved.trans (ok.placed index child here (due.imp id earlier))
  rcases moved with moved | rfl
  · unfold Child.step at moved
    split at moved
    · obtain rfl := Option.some.inj moved
      obtain ⟨_, desired⟩ := ok.frame index child here
      show (if _ then _ else _) = state.leader
      by_cases first : index = 0
      · subst first
        have leads : state.leader = child.pid := by
          rw [Launch.leader, List.headD_eq_head?_getD, List.head?_map, List.head?_eq_getElem?, here]
          rfl
        rw [desired, if_pos rfl, if_pos rfl, if_pos (.inl rfl), leads]
      · rw [if_neg first] at desired
        have lengths := ok.length_children
        have pending : state.pc.pending.length ≤ 1 := by
          cases state.pc <;> simp [LaunchPc.pending]
        have begun : 0 < state.pids.length := by omega
        have nonzero : state.leader ≠ 0 := by
          rw [ok.leader_eq (List.ne_nil_of_length_pos begun), ok.pgid]
          obtain ⟨pid, rest, shape⟩ :=
            List.exists_cons_of_ne_nil (List.ne_nil_of_length_pos begun)
          refine ok.nonzero _ ?_
          rw [ok.forked, shape]
          exact List.mem_cons_self
        rw [desired, if_neg nonzero, if_pos (.inr (ok.group_leader begun))]
    · rename_i position
      obtain rfl := Option.some.inj moved
      exact before rfl fun _ => by rw [position]; rfl
    · rename_i position
      split at moved
      all_goals
        obtain rfl := Option.some.inj moved
        exact before rfl fun _ => by rw [position]; rfl
    · rename_i position
      split at moved
      all_goals
        obtain rfl := Option.some.inj moved
        exact before rfl fun _ => by rw [position]; rfl
    · rename_i position
      obtain rfl := Option.some.inj moved
      exact before rfl fun _ => by rw [position]; rfl
    all_goals cases moved
  · refine before rfl fun execed => ?_
    have execed : child.pc.execed = true := execed
    cases position : child.pc with
    | program => rfl
    | exited =>
        rw [position] at execed
        exact execed
    | _ =>
        rw [position] at execed
        cases execed

include ok in
/-- `setpgid` by the shell puts the last child into the group. -/
theorem setpgid_pgid {pid : Pid} {pfd : Option (ℕ × ℕ)} (position : state.pc = .setpgid pid pfd)
    {index : ℕ} {child : Child}
    (here : (state.setpgid pid (if state.pgid = 0 then pid else state.pgid))[index]? = some child) :
    child.pgid = state.leader := by
  have forked := ok.forked
  have lengths := ok.length_children
  rw [position, LaunchPc.pending] at forked lengths
  have leads : (if state.pgid = 0 then pid else state.pgid) = state.leader ∧
      (state.leader = pid ∨ state.group state.leader = true) := by
    by_cases begun : state.pids = []
    · have leads : state.leader = pid := by
        rw [Launch.leader, forked, begun]
        rfl
      rw [ok.pgid, begun, leads]
      exact ⟨if_pos rfl, .inl rfl⟩
    · have pgid := ok.leader_eq begun
      have nonzero : state.pgid ≠ 0 := by
        obtain ⟨first, rest, shape⟩ := List.exists_cons_of_ne_nil begun
        refine ok.nonzero _ ?_
        rw [ok.pgid, forked, shape]
        exact List.mem_cons_self
      rw [if_neg nonzero, pgid]
      exact ⟨rfl, .inr (pgid ▸ ok.group_leader (List.length_pos_of_ne_nil begun))⟩
  rw [leads.1, Launch.setpgid, List.getElem?_map] at here
  obtain ⟨old, found, rfl⟩ := Option.map_eq_some_iff.mp here
  by_cases taken : old.pid = pid ∧ old.pc.execed = false ∧
      (state.leader = pid ∨ state.group state.leader = true)
  · rw [if_pos taken]
  · rw [if_neg taken]
    refine ok.placed index old found ?_
    by_cases last : old.pid = pid
    · refine .inr ?_
      have execed : old.pc.execed = true := by
        by_contra fresh
        exact taken ⟨last, Bool.eq_false_of_not_eq_true fresh, leads.2⟩
      cases pc : old.pc with
      | program => rfl
      | exited =>
          rw [pc] at execed
          exact execed
      | _ =>
          rw [pc] at execed
          cases execed
    · refine .inl ?_
      obtain ⟨known, found⟩ := List.getElem?_eq_some_iff.mp found
      by_contra late
      have same : index = state.pids.length := by
        rw [List.length_singleton] at lengths
        omega
      have at_index : (state.children.map Child.pid)[index]? = some old.pid := by
        rw [List.getElem?_map, List.getElem?_eq_getElem known, found]
        rfl
      rw [forked, same, List.getElem?_append_right le_rfl, Nat.sub_self] at at_index
      exact last (Option.some.inj at_index).symm

include ok in
theorem step (wired : Wired setting state) (move : LaunchMove setting state after) :
    Grouped setting after := by
  have forked := ok.forked
  have counted := ok.counted
  cases move with
  | pipes position next =>
      rw [position] at forked counted
      exact { ok with
        forked
        counted
        within := fun _ => by rintro (impossible | impossible | impossible) <;> cases impossible }
  | lastStage position inside last =>
      rw [position] at forked counted
      exact { ok with
        forked
        counted
        within := fun _ => by rintro (impossible | impossible | impossible) <;> cases impossible }
  | leaves position outside =>
      rw [position] at forked counted
      exact { ok with
        forked
        counted
        within := fun _ _ => Nat.le_antisymm ok.bound (Nat.le_of_not_lt outside) }
  | @forks pid pfd position nonzero unused =>
      rw [position] at forked counted
      have forked : state.children.map Child.pid = state.pids := forked.trans (List.append_nil _)
      have length : state.children.length = state.pids.length := by
        rw [← List.length_map Child.pid, forked]
      have pids : ∀ other : List Child, (state.children ++ other).map Child.pid =
          state.pids ++ other.map Child.pid := fun other => by rw [List.map_append, forked]
      have leader (begun : 0 < state.children.length) :
          ({ state with
              children := state.children ++ [state.forked setting pid pfd]
              pc := .setpgid pid pfd } : Launch).leader = state.leader := by
        have nonempty : state.children.map Child.pid ≠ [] :=
          List.ne_nil_of_length_pos (by rwa [List.length_map])
        obtain ⟨first, rest, shape⟩ := List.exists_cons_of_ne_nil nonempty
        show ((state.children ++ _).map Child.pid).headD 0 = (state.children.map Child.pid).headD 0
        rw [List.map_append, shape]
        rfl
      have fresh : pid ∉ state.children.map Child.pid := by
        intro taken
        obtain ⟨child, inside, same⟩ := List.mem_map.mp taken
        simp only [Launch.free, Bool.and_eq_true, List.all_eq_true] at unused
        exact of_decide_eq_true (unused.1.2 child inside) same
      refine { ok with
        forked := pids _
        nonzero := ?_
        nodup := ?_
        counted
        frame := ?_
        placed := ?_
        within := fun _ => by rintro (impossible | impossible | impossible) <;> cases impossible }
      · intro other inside
        rw [List.map_append] at inside
        rcases List.mem_append.mp inside with old | new
        · exact ok.nonzero other old
        · exact List.mem_singleton.mp new ▸ nonzero
      · exact nodup_concat ok.nodup fresh
      · intro index child here
        rw [List.getElem?_append] at here
        split at here
        · rename_i inside
          rw [leader (Nat.zero_lt_of_lt inside)]
          exact ok.frame index child here
        · rename_i outside
          obtain ⟨bound, found⟩ := List.getElem?_eq_some_iff.mp here
          rw [List.length_singleton] at bound
          have last : index = state.children.length := by omega
          obtain rfl : state.forked setting pid pfd = child := by simpa using found
          refine ⟨?_, ?_⟩
          · show state.i = index
            rw [last, length]
            exact counted.symm
          · show state.pgid = _
            by_cases first : index = 0
            · have none_yet : state.pids = [] := List.eq_nil_of_length_eq_zero (by omega)
              rw [if_pos first, ok.pgid, none_yet]
              rfl
            · rw [if_neg first, leader (by omega)]
              exact (ok.leader_eq (List.ne_nil_of_length_pos (by omega))).symm
      · intro index child here due
        rw [List.getElem?_append] at here
        split at here
        · rename_i inside
          rw [leader (Nat.zero_lt_of_lt inside)]
          exact ok.placed index child here due
        · rename_i outside
          obtain ⟨bound, found⟩ := List.getElem?_eq_some_iff.mp here
          obtain rfl : state.forked setting pid pfd = child := by
            rw [List.length_singleton] at bound
            simpa using found
          rcases due with early | placed
          · have early : index < state.pids.length := early
            omega
          · cases placed
  | @places pid pfd position =>
      rw [position] at forked counted
      have pids : (state.setpgid pid (if state.pgid = 0 then pid else state.pgid)).map Child.pid =
          state.children.map Child.pid := map_pid_setpgid _ _
      have leader : ∀ launch : Launch, launch.children =
          state.setpgid pid (if state.pgid = 0 then pid else state.pgid) →
            launch.leader = state.leader := fun launch same => by
        rw [Launch.leader, same, pids, Launch.leader]
      refine { ok with
        forked := ?_
        nonzero := fun other inside => ok.nonzero other (pids ▸ inside)
        nodup := ?_
        pgid := ?_
        counted := ?_
        frame := ?_
        placed := fun index child here _ =>
          (ok.setpgid_pgid position here).trans (leader _ rfl).symm
        within := fun _ => by rintro (impossible | impossible | impossible) <;> cases impossible }
      · rw [pids, forked]
        exact (List.append_nil _).symm
      · rw [pids]
        exact ok.nodup
      · show (if state.pgid = 0 then pid else state.pgid) = (state.pids ++ [pid]).headD 0
        rw [ok.pgid]
        cases shape : state.pids with
        | nil => rfl
        | cons first rest =>
            refine if_neg (ok.nonzero first ?_)
            rw [forked, shape]
            exact List.mem_cons_self
      · show (state.pids ++ [pid]).length = state.i + 1
        rw [List.length_append, counted]
        rfl
      · intro index child here
        rw [leader _ rfl]
        obtain ⟨old, found, same⟩ := getElem?_setpgid here
        rcases same with rfl | rfl
        · exact ok.frame index _ found
        · exact ok.frame index old found
  | @closes pfd position =>
      rw [position] at forked counted
      have inside : state.i < setting.n := by
        have shell := wired.shell
        unfold ShellOk at shell
        rw [position] at shell
        exact shell.1.inside
      cases pfd <;>
      · exact { ok with
          forked
          counted
          within := fun _ => by rintro (impossible | impossible | impossible) <;> cases impossible
          bound := inside }
  | closesAgain position =>
      rw [position] at forked counted
      exact { ok with
        forked
        counted
        within := fun _ _ => ok.within 0 (.inl position) }
  | adds position =>
      rw [position] at forked counted
      exact { ok with
        forked
        counted
        within := fun _ _ => ok.within 0 (.inr (.inl position)) }
  | fails position =>
      have quiet : state.pc.pending = [] ∧ state.pids.length = state.i := by
        rcases position with position | ⟨pfd, position⟩ <;> rw [position] at counted ⊢ <;>
          exact ⟨rfl, counted⟩
      rw [quiet.1] at forked
      exact { ok with
        forked
        counted := quiet.2
        within := fun _ => by rintro (impossible | impossible | impossible) <;> cases impossible }
  | @child index child next here moved =>
      obtain ⟨_, frame, pid⟩ := (wired.child child (List.mem_of_getElem? here)).step moved
      have pids : (state.children.set index next).map Child.pid = state.children.map Child.pid := by
        rw [List.map_set, pid]
        refine List.ext_getElem? fun other => ?_
        rw [List.getElem?_set, List.getElem?_map]
        split
        · rename_i same
          subst same
          rw [here, List.length_map, if_pos (List.getElem?_eq_some_iff.mp here).1]
          rfl
        · rfl
      have leader : ({ state with children := state.children.set index next } : Launch).leader =
          state.leader := by
        rw [Launch.leader, pids, Launch.leader]
      refine { ok with
        forked := pids.trans forked
        nonzero := fun other inside => ok.nonzero other (pids ▸ inside)
        nodup := pids ▸ ok.nodup
        frame := ?_
        placed := ?_ }
      · intro other child' here'
        rw [leader]
        rw [List.getElem?_set] at here'
        split at here'
        · rename_i same
          subst same
          obtain ⟨_, rfl⟩ : _ ∧ next = child' := by simpa using here'
          rw [frame]
          exact ok.frame index child here
        · exact ok.frame other child' here'
      · intro other child' here' due
        rw [leader]
        rw [List.getElem?_set] at here'
        split at here'
        · rename_i same
          subst same
          obtain ⟨_, rfl⟩ : _ ∧ next = child' := by simpa using here'
          exact ok.child_pgid here moved due
        · exact ok.placed other child' here' due
  | others => exact { ok with }

end Grouped

/-- No more children than stages. -/
theorem Grouped.length_le (ok : Grouped setting state) (wired : Wired setting state) :
    state.children.length ≤ setting.n := by
  have lengths := ok.length_children
  have counted := ok.counted
  have shell := wired.shell
  unfold ShellOk at shell
  cases position : state.pc with
  | setpgid | close =>
      rw [position] at lengths counted shell
      have inside := shell.1.inside
      simp only [LaunchPc.pending, List.length_nil, List.length_cons] at lengths counted
      omega
  | _ =>
      rw [position] at lengths counted
      simp only [LaunchPc.pending, List.length_nil] at lengths counted
      have bound := ok.bound
      omega

end Shell
end Syscore
