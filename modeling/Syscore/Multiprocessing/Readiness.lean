import Syscore.Multiprocessing.Numbers
import Syscore.Multiprocessing.Splitting

/-!
# Readiness

A worker tells the manager that it is ready by a stop, and `waitpid` reports the stop once. If the
handler consumes no stop of a worker that has no slot yet, none is forgotten: a stopped worker is
marked, or held by the manager, or still to be reported. And if the handler meets no statement half
done, the counter is the number of marks.
-/

namespace Syscore
namespace Multiprocessing

variable {n : ℕ} {state after : Farm n}

/-- The handler consumes no stop of a worker that is not in its slot. -/
def prompt : Discipline (Farm n) (FarmLabel n)
  | state, .sigchld =>
      ∀ j, (state.workers j).report = true → (state.workers j).registered = true
  | _, _ => True

/-! ## What the manager hears of a worker -/

/-- The stop of a worker that is neither marked nor held is still to be reported, and the worker is
forked and in its slot once the manager is past that. -/
structure Heard (pc : ManagerPc n) (pending : Bool) (j : Fin n) (worker : Worker) : Prop where
  stopped : worker.pc = .stopped → worker.available = false → pc.holding ≠ some j →
    worker.report = true
  pending : worker.report = true → pending = true
  forked : pc ≠ .terminated → ¬ pc.unforked j → worker.pc ≠ .unborn
  registered : pc ≠ .terminated → ¬ pc.unregistered j → worker.registered = true

/-- Moves of the manager that change nothing for a worker. -/
structure Passes (pc pc' : ManagerPc n) (j : Fin n) : Prop where
  held : pc.holding = some j → pc'.holding = some j
  running : pc' ≠ .terminated → pc ≠ .terminated
  forked : pc' ≠ .terminated → pc.unforked j → pc'.unforked j
  registered : pc' ≠ .terminated → pc.unregistered j → pc'.unregistered j

variable {pc pc' : ManagerPc n} {pending pending' : Bool} {i j : Fin n} {worker worker' : Worker}

theorem Heard.passes (heard : Heard pc pending j worker) (passes : Passes pc pc' j)
    (more : pending = true → pending' = true) : Heard pc' pending' j worker where
  stopped position unavailable free :=
    heard.stopped position unavailable fun here => free (passes.held here)
  pending reported := more (heard.pending reported)
  forked running past :=
    heard.forked (passes.running running) fun here => past (passes.forked running here)
  registered running past :=
    heard.registered (passes.running running) fun here => past (passes.registered running here)

/-- What the manager hears does not depend on the pipe, the descriptors or the output. -/
theorem Heard.congr (heard : Heard pc pending j worker) (position : worker'.pc = worker.pc)
    (available : worker'.available = worker.available) (report : worker'.report = worker.report)
    (registered : worker'.registered = worker.registered) : Heard pc pending j worker' where
  stopped := by
    rw [position, available, report]
    exact heard.stopped
  pending := by
    rw [report]
    exact heard.pending
  forked := by
    rw [position]
    exact heard.forked
  registered := by
    rw [registered]
    exact heard.registered

/-- A worker that is continued. -/
theorem Heard.resume (heard : Heard pc pending i worker)
    (more : pending = true → pending' = true) (running : pc ≠ .terminated)
    (forked : ¬ pc.unforked i) (registered : ¬ pc.unregistered i) :
    Heard pc' pending' i worker.resume := by
  have born := heard.forked running forked
  have slot := heard.registered running registered
  rw [Worker.resume]
  split
  · refine ⟨?_, ?_, fun _ _ => ?_, fun _ _ => slot⟩ <;> rintro ⟨⟩
  · rename_i live
    exact ⟨fun position => absurd position live, fun reported => more (heard.pending reported),
      fun _ _ => born, fun _ _ => slot⟩

/-- A step of a worker: a stop is a report. -/
theorem Heard.step {hasWriter : Bool} (heard : Heard pc pending j worker)
    (taken : worker.step hasWriter = some worker') :
    Heard pc (pending || (worker'.pc = .stopped || worker'.pc = .exited)) j worker' := by
  have slot := (Situation.slot_of_step taken).1
  have stops : (worker'.pc = .stopped → worker'.report = true) ∧
      (worker'.report = true → worker.report = true ∨ worker'.pc = .stopped) ∧
      worker'.pc ≠ .unborn := by
    cases workerMove_of_step taken with
    | stop =>
        refine ⟨fun _ => rfl, fun _ => .inr rfl, ?_⟩
        rintro ⟨⟩
    | reads =>
        dsimp only
        split
        · refine ⟨?_, .inl, ?_⟩ <;> rintro ⟨⟩
        · refine ⟨?_, .inl, ?_⟩ <;> rintro ⟨⟩
    | _ => refine ⟨?_, .inl, ?_⟩ <;> rintro ⟨⟩
  obtain ⟨reports, news, born⟩ := stops
  refine ⟨fun position _ _ => reports position, fun reported => ?_, fun _ _ => born,
    fun running past => slot.trans (heard.registered running past)⟩
  rcases news reported with before | here
  · rw [heard.pending before]
    rfl
  · rw [here]
    simp

/-- The handler, if the worker is in its slot when it has a report. -/
theorem Heard.handler (heard : Heard pc pending j worker)
    (slot : worker.report = true → worker.registered = true) :
    Heard pc.afterHandler false j worker.mark := by
  have passes : Passes pc pc.afterHandler j := by
    cases pc with
    | suspend | suspendAll => exact ⟨nofun, fun _ => nofun, fun _ => id, fun _ => id⟩
    | _ => exact ⟨id, id, fun _ => id, fun _ => id⟩
  have same : worker.mark.pc = worker.pc ∧ worker.mark.registered = worker.registered := by
    rw [Worker.mark]
    split <;> exact ⟨rfl, rfl⟩
  have heard := heard.passes passes id
  refine ⟨fun position unavailable free => ?_, fun reported => ?_, ?_, ?_⟩
  · rw [Worker.mark] at unavailable position ⊢
    split at unavailable
    · rename_i reported
      simp [slot reported] at unavailable
    · rename_i unreported
      rw [if_neg unreported] at position ⊢
      exact heard.stopped position unavailable free
  · rw [Worker.mark] at reported
    split at reported
    · cases reported
    · rename_i unreported
      exact absurd reported unreported
  · rw [same.1]
    exact heard.forked
  · rw [same.2]
    exact heard.registered

/-! ## Every step -/

namespace Farm

/-- What the manager hears of every worker. -/
def Alert (state : Farm n) : Prop := ∀ j, Heard state.pc state.pending j (state.workers j)

theorem Alert.moveOn (alert : state.Alert) (workers : after.workers = state.workers)
    (pending : after.pending = state.pending) (passes : ∀ j, Passes state.pc after.pc j) :
    after.Alert := by
  intro j
  rw [workers, pending]
  exact (alert j).passes (passes j) id

theorem Alert.moveOne (alert : state.Alert)
    (workers : after.workers = Function.update state.workers i worker)
    (pending : state.pending = true → after.pending = true)
    (own : Heard after.pc after.pending i worker)
    (passes : ∀ j, j ≠ i → Passes state.pc after.pc j) : after.Alert := by
  intro j
  rw [workers, Function.update_apply]
  split
  · rename_i here
    rw [here]
    exact own
  · rename_i apart
    exact (alert j).passes (passes j apart) pending

theorem passes_of_goes (goes : Goes state pc) (j : Fin n) : Passes state.pc pc j := by
  cases goes with
  | spawned position outside =>
      rw [position]
      have inside := j.isLt
      refine ⟨nofun, fun _ => nofun, fun _ early => ?_, fun _ early => ?_⟩
      · exact absurd (show _ ≤ j.val from early) (by omega)
      · exact absurd (show _ ≤ j.val from early) (by omega)
  | _ position =>
      rw [position]
      exact ⟨nofun, fun _ => nofun, fun _ => id, fun _ => id⟩

theorem Alert.managerMove (alert : state.Alert) (sound : state.Sound)
    (move : ManagerMove state after) : after.Alert := by
  cases move with
  | goes goes => exact alert.moveOn rfl rfl (passes_of_goes goes)
  | ends position | throws position | rejects position | takes position | noneAvailable position
  | noneFound position | close position | returns position | closeRead position =>
      refine alert.moveOn rfl rfl fun j => ?_
      rw [position]
      exact ⟨nofun, fun _ => nofun, fun _ => id, fun _ => id⟩
  | decrement position =>
      refine alert.moveOn rfl rfl fun j => ?_
      rw [position]
      exact ⟨id, fun _ => nofun, fun _ => id, fun _ => id⟩
  | @pipe i position inside =>
      have passes (j : Fin n) : Passes state.pc (.fork ⟨i, inside⟩) j := by
        rw [position]
        exact ⟨nofun, fun _ => nofun, fun _ => id, fun _ => id⟩
      exact alert.moveOne rfl id (((alert _).passes (passes _) id).congr rfl rfl rfl rfl)
        fun j _ => passes j
  | @fork i position =>
      have heard := alert i
      refine alert.moveOne rfl id ⟨nofun, heard.pending, fun _ _ => nofun, fun running past => ?_⟩
        fun j apart => ?_
      · rw [position] at heard
        exact heard.registered nofun past
      · rw [position]
        exact ⟨nofun, fun _ => nofun, fun _ early => lt_of_le_of_ne early (Ne.symm apart),
          fun _ => id⟩
  | @register i position =>
      have heard := alert i
      have unmarked := (sound.unregistered i (by rw [position]; exact le_rfl)).2
      rw [position] at heard
      refine alert.moveOne rfl id ⟨fun stopped _ _ => heard.stopped stopped unmarked nofun,
        heard.pending, fun _ _ => heard.forked nofun (lt_irrefl _), fun _ _ => rfl⟩
        fun j apart => ?_
      rw [position]
      refine ⟨nofun, fun _ => nofun, fun _ early => Nat.succ_le_of_lt early, fun _ early => ?_⟩
      exact Nat.succ_le_of_lt (lt_of_le_of_ne early (Ne.symm (Fin.val_ne_of_ne apart)))
  | @unavailable i position =>
      have heard := alert i
      rw [position] at heard
      refine alert.moveOne rfl id ⟨fun _ _ free => absurd rfl free, heard.pending,
        fun _ _ => heard.forked nofun id, fun _ _ => heard.registered nofun id⟩ fun j _ => ?_
      rw [position]
      exact ⟨nofun, fun _ => nofun, fun _ => id, fun _ => id⟩
  | @write i position =>
      have passes (j : Fin n) : Passes state.pc (.resume i) j := by
        rw [position]
        exact ⟨id, fun _ => nofun, fun _ => id, fun _ => id⟩
      exact alert.moveOne rfl id (((alert _).passes (passes _) id).congr rfl rfl rfl rfl)
        fun j _ => passes j
  | @resume i position =>
      have heard := alert i
      rw [position] at heard
      refine alert.moveOne rfl Bool.or_inl (heard.resume Bool.or_inl nofun id id) fun j apart => ?_
      rw [position]
      exact ⟨fun held => absurd (Option.some.inj held).symm apart, fun _ => nofun, fun _ => id,
        fun _ => id⟩
  | @resumeLast i position =>
      have heard := alert i
      rw [position] at heard
      refine alert.moveOne rfl Bool.or_inl (heard.resume Bool.or_inl nofun id id) fun j apart => ?_
      rw [position]
      exact ⟨nofun, fun _ => nofun, fun _ => id, fun _ => id⟩

theorem Alert.step (alert : state.Alert) (sound : state.Sound) {label : FarmLabel n}
    (permitted : prompt state label) (taken : state.step label = some after) : after.Alert := by
  cases farmMove_of_step taken with
  | manager move => exact alert.managerMove sound move
  | sigchld => exact fun j => (alert j).handler (permitted j)
  | @worker i _ moved =>
      exact alert.moveOne rfl Bool.or_inl ((alert i).step moved)
        fun j _ => ⟨id, id, fun _ => id, fun _ => id⟩
  | pipeFails position | forkFails position =>
      refine alert.moveOn rfl rfl fun j => ?_
      rw [position]
      exact ⟨nofun, fun _ => nofun, fun running => absurd rfl running,
        fun running => absurd rfl running⟩

theorem Alert.of_initial {text : Text} (initial : state.Initial text) : state.Alert := by
  rw [initial.fresh]
  exact fun j => ⟨nofun, nofun, fun _ past => absurd (Nat.zero_le j) past,
    fun _ past => absurd (Nat.zero_le j) past⟩

/-- If the handler consumes no stop of a worker without a slot, the manager hears of every stop. -/
theorem alert_of_reachable {text : Text} {allowed : Discipline (Farm n) (FarmLabel n)}
    (prompts : ∀ state label, allowed state label → prompt state label)
    (reach : (farm n text).Reachable allowed state) : state.Alert :=
  reach.invariant_with Alert (fun _ => sound_of_reachable) (fun _ => .of_initial)
    fun _ _ _ sound _ alert permitted => alert.step sound (prompts _ _ permitted)

/-! ## The first number -/

/-- Whether the manager takes a worker off the list, or has before. -/
def Begun (state : Farm n) : Prop :=
  state.writes ≠ [] ∨ (∃ i, state.pc = .decrement i) ∨ ∃ i, state.pc = .write i

theorem Begun.of_writes (begun : state.Begun) (decrement : ∀ i, state.pc ≠ .decrement i)
    (write : ∀ i, state.pc ≠ .write i) : state.writes ≠ [] := by
  rcases begun with wrote | ⟨i, position⟩ | ⟨i, position⟩
  · exact wrote
  · exact absurd position (decrement i)
  · exact absurd position (write i)

theorem Begun.managerMove (begun : state.Begun) (move : ManagerMove state after) :
    after.Begun := by
  cases move with
  | decrement => exact .inr (.inr ⟨_, rfl⟩)
  | write => exact .inl (by simp)
  | goes goes =>
      refine .inl (begun.of_writes ?_ ?_)
      all_goals
        intro i here
        cases goes with
        | _ position =>
            rw [position] at here
            cases here
  | pipe position | fork position | closeRead position | register position | ends position
  | throws position | rejects position | takes position | noneAvailable position
  | noneFound position | unavailable position | resume position | close position
  | resumeLast position | returns position =>
      refine .inl (begun.of_writes ?_ ?_)
      all_goals
        intro i here
        rw [position] at here
        cases here

theorem Begun.step (begun : state.Begun) {label : FarmLabel n}
    (taken : state.step label = some after) : after.Begun := by
  cases farmMove_of_step taken with
  | manager move => exact begun.managerMove move
  | sigchld =>
      exact begun.imp id (Or.imp (fun ⟨i, here⟩ => ⟨i, congrArg ManagerPc.afterHandler here⟩)
        fun ⟨i, here⟩ => ⟨i, congrArg ManagerPc.afterHandler here⟩)
  | worker => exact begun
  | pipeFails position | forkFails position =>
      exact .inl (begun.of_writes (by rw [position]; nofun) (by rw [position]; nofun))

end Farm

namespace SplitFarm

variable {state after : SplitFarm n} {text : Text}

theorem begun_step (begun : state.farm.Begun) {label : FarmLabel n}
    (taken : state.step label = some after) : after.farm.Begun := by
  cases label with
  | manager =>
      replace taken : state.managerStep = some after := taken
      rw [managerStep] at taken
      split at taken
      · rename_i i position
        have wrote := begun.of_writes (by rw [position]; rintro _ ⟨⟩)
          (by rw [position]; rintro _ ⟨⟩)
        split at taken
        · obtain rfl := Option.some.inj taken
          exact .inl wrote
        · obtain rfl := Option.some.inj taken
          exact .inl wrote
      · split at taken
        · obtain rfl := Option.some.inj taken
          exact begun
        · obtain rfl := Option.some.inj taken
          exact .inr (.inr ⟨_, rfl⟩)
      · obtain ⟨farm, moved, rfl⟩ := Option.map_eq_some_iff.mp taken
        exact begun.managerMove (managerMove_of_step moved)
  | sigchld | worker _ | fails =>
      obtain ⟨farm, moved, rfl⟩ := Option.map_eq_some_iff.mp taken
      exact begun.step moved

/-- A handler that keeps to the workers assigned to their slots does so in whole statements. -/
theorem prompt_whole {label : FarmLabel n} (permitted : assignsFirst state label) :
    prompt state.whole label := by
  cases label with
  | sigchld =>
      intro j reported
      obtain ⟨_, same⟩ := state.whole_worker j
      rw [same] at reported
      obtain ⟨registered, other⟩ := permitted j reported
      rw [whole_worker_of_ne other]
      exact registered
  | _ => trivial

/-- Until a worker is taken off the list, a run in which the handler consumes no stop of a worker
without a slot is a run of whole statements. -/
theorem whole_or_begun (reach : (splitFarm n text).Reachable assignsFirst state) :
    state.farm.Begun ∨
      state.Aligned ∧ (Multiprocessing.farm n text).Reachable prompt state.whole := by
  refine reach.invariant (fun state => state.farm.Begun ∨
      state.Aligned ∧ (Multiprocessing.farm n text).Reachable prompt state.whole)
    (fun state initial => ?_) fun before label after held permitted taken => ?_
  · obtain ⟨aligned, initial⟩ := aligned_of_start initial
    exact .inr ⟨aligned, .of_start initial⟩
  · by_cases begun : before.farm.Begun
    · exact .inl (begun_step begun taken)
    obtain ⟨aligned, reached⟩ := held.resolve_left begun
    have counts : countsWhole before label := by
      cases label with
      | sigchld =>
          refine ⟨fun j reported => (permitted j reported).2, fun loaded => ?_⟩
          obtain ⟨count, loaded⟩ := Option.ne_none_iff_exists'.mp loaded
          exact absurd (.inr (.inl (aligned.loaded count loaded).2)) begun
      | _ => trivial
    obtain ⟨aligned', ⟨same, -⟩ | moved⟩ :=
      aligned.step (Farm.sound_of_reachable reached) counts taken
    · exact .inr ⟨aligned', same.symm ▸ reached⟩
    · exact .inr ⟨aligned', reached.next (prompt_whole permitted) moved⟩

/-- Whether no worker has been taken off the list yet. -/
def Starting (state : SplitFarm n) : Prop :=
  state.farm.writes = [] ∧ state.farm.pc.holding = none

/-- Every worker whose stop is consumed is marked and counted, so the counter is the number of
workers when all stops are consumed. -/
def ReadinessKept (state : SplitFarm n) : Prop :=
  (∀ j, (state.farm.workers j).pc = .stopped → (state.farm.workers j).report = false →
    (state.farm.workers j).available = true) ∧
  state.farm.numWorkersAvailable = state.farm.marked.card ∧
  ((∀ j, (state.farm.workers j).pc = .stopped ∧ (state.farm.workers j).report = false) →
    state.farm.numWorkersAvailable = n)

/-- If the handler consumes no stop of a worker before the assignment to its slot is complete, no
readiness is lost while the farm is starting up. -/
theorem readiness_kept (reach : (splitFarm n text).Reachable assignsFirst state)
    (starting : state.Starting) : state.ReadinessKept := by
  have early : ¬ state.farm.Begun := by
    rintro (wrote | ⟨i, position⟩ | ⟨i, position⟩)
    · exact wrote starting.1
    · have free := starting.2
      rw [position] at free
      cases free
    · have free := starting.2
      rw [position] at free
      cases free
  obtain ⟨-, reached⟩ := (whole_or_begun reach).resolve_left early
  have alert := Farm.alert_of_reachable (fun _ _ => id) reached
  have kept (j : Fin n) (stopped : (state.farm.workers j).pc = .stopped)
      (reported : (state.farm.workers j).report = false) :
      (state.farm.workers j).available = true := by
    rw [← Bool.not_eq_false]
    intro unmarked
    have heard := alert j
    obtain ⟨_, same⟩ := state.whole_worker j
    rw [same, whole_pc] at heard
    have news := heard.stopped stopped unmarked (by rw [starting.2]; nofun)
    exact Bool.false_ne_true (reported.symm.trans news)
  have counted : state.farm.numWorkersAvailable = state.farm.marked.card := by
    have counted := (Farm.sound_of_reachable reached).counted
    rw [whole_numWorkersAvailable, whole_marked, whole_pc, owing_of_free starting.2] at counted
    exact counted
  refine ⟨kept, counted, fun all => ?_⟩
  have every : state.farm.marked = Finset.univ := by
    rw [Finset.eq_univ_iff_forall]
    exact fun j => mem_marked.mpr (kept j (all j).1 (all j).2)
  rw [counted, every, Finset.card_univ, Fintype.card_fin]

/-- A farm on a terminal, its statements split. -/
def terminal (n : ℕ) (text : Text) : SplitFarm n := { farm := terminalFarm n text }

theorem terminal_start (n : ℕ) (text : Text) : (splitFarm n text).start (terminal n text) :=
  ⟨terminalFarm n text, terminalFarm_initial n text, rfl⟩

/-- The worker stops when it has its slot, and the handler marks it. -/
def oneReady : List (FarmLabel 1) :=
  List.replicate 6 .manager ++ List.replicate 5 (.worker 0) ++ [.sigchld]

theorem oneReady_run :
    ((splitFarm 1 []).exec assignsFirst (terminal 1 []) oneReady).isSome = true := by
  decide +kernel

theorem readiness_kept_one :
    ReadinessKept
      (((splitFarm 1 []).exec assignsFirst (terminal 1 []) oneReady).get oneReady_run) :=
  readiness_kept (.of_exec (terminal_start 1 []) oneReady oneReady_run)
    ⟨by decide +kernel, by decide +kernel⟩

/-- The worker stops before its pid is in `workers`, and the handler runs then. -/
def oneLost : List (FarmLabel 1) :=
  List.replicate 2 .manager ++ List.replicate 5 (.worker 0) ++ [.sigchld] ++
  List.replicate 4 .manager

theorem oneLost_run :
    ((splitFarm 1 []).exec .free (terminal 1 []) oneLost).isSome = true := by
  decide +kernel

/-- The stop of a worker that is not in `workers` yet is consumed for nothing. -/
theorem readiness_lost :
    ¬ ∀ state : SplitFarm 1, (splitFarm 1 []).Reachable .free state → state.Starting →
      state.ReadinessKept := by
  intro claim
  have kept := claim _ (.of_exec (terminal_start 1 []) oneLost oneLost_run)
    ⟨by decide +kernel, by decide +kernel⟩
  have available := kept.1 0 (by decide +kernel) (by decide +kernel)
  revert available
  decide +kernel

/-! ## The counter -/

/-- If the handler meets neither the assignment to a slot nor `numWorkersAvailable--` half done,
then outside that decrement the counter is the number of workers marked available. -/
theorem counter_exact (reach : (splitFarm n text).Reachable countsWhole state)
    (outside : ∀ i, state.farm.pc ≠ .decrement i) :
    state.farm.numWorkersAvailable = state.farm.marked.card := by
  have reached : (Multiprocessing.farm n text).Reachable .free state.whole :=
    (reachable_whole (fun _ _ => id) (fun _ _ _ _ => trivial) reach).2
  have counted := (Farm.sound_of_reachable reached).counted
  rw [whole_numWorkersAvailable, whole_marked, whole_pc] at counted
  have owing : state.farm.pc.owing = 0 := by
    cases position : state.farm.pc with
    | decrement i => exact absurd position (outside i)
    | _ => rfl
  rw [counted, owing, Nat.add_zero]

/-- A worker is given a number, and another one is marked before that one is taken off the list. -/
def twoKept : List (FarmLabel 2) :=
  List.replicate 14 .manager ++ List.replicate 5 (.worker 0) ++ [.sigchld] ++
  List.replicate 6 .manager ++ List.replicate 5 (.worker 1) ++ [.sigchld] ++
  List.replicate 2 .manager

theorem twoKept_run :
    ((splitFarm 2 (ascii "7\n")).exec countsWhole (terminal 2 (ascii "7\n"))
      twoKept).isSome = true := by
  decide +kernel

/-- The farm after `twoKept`. -/
def twoKeptDone : SplitFarm 2 :=
  ((splitFarm 2 (ascii "7\n")).exec countsWhole (terminal 2 (ascii "7\n")) twoKept).get twoKept_run

theorem counter_exact_two :
    twoKeptDone.farm.numWorkersAvailable = twoKeptDone.farm.marked.card ∧
      twoKeptDone.farm.marked = {1} :=
  ⟨counter_exact (.of_exec (terminal_start 2 (ascii "7\n")) twoKept twoKept_run)
    (by decide +kernel), by decide +kernel⟩

/-- The second worker is marked after the counter is loaded. -/
def twoRaced : List (FarmLabel 2) :=
  List.replicate 14 .manager ++ List.replicate 5 (.worker 0) ++ [.sigchld] ++
  List.replicate 7 .manager ++ List.replicate 5 (.worker 1) ++ [.sigchld] ++ [.manager]

theorem twoRaced_run :
    ((splitFarm 2 (ascii "7\n")).exec .free (terminal 2 (ascii "7\n")) twoRaced).isSome = true := by
  decide +kernel

/-- The increment of the handler is overwritten by the decrement of the manager. -/
theorem counter_drifts :
    ¬ ∀ state : SplitFarm 2, (splitFarm 2 (ascii "7\n")).Reachable .free state →
      (∀ i, state.farm.pc ≠ .decrement i) →
      state.farm.numWorkersAvailable = state.farm.marked.card := by
  intro claim
  have counted := claim _ (.of_exec (terminal_start 2 (ascii "7\n")) twoRaced twoRaced_run)
    (by decide +kernel)
  revert counted
  decide +kernel

end SplitFarm

end Multiprocessing
end Syscore
