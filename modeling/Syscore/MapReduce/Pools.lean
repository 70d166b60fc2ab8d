import Syscore.Library.Inevitable
import Syscore.MapReduce.Independence
import Syscore.ThreadPool.Finish

/-!
# The engine on its pools

`main` makes a pool of `M` workers for the map tasks and, when that pool is destroyed, a pool of `R`
workers for the reduce tasks. No reduce task begins before every map task has returned, no run gets
stuck, and every run ends with the results of the sequential one.
-/

namespace Syscore
namespace MapReduce

open ThreadPool (Bodies Crew Mover Ticket)

instance (job : Job) : NeZero job.M := ⟨job.M_pos.ne'⟩

instance (job : Job) : NeZero job.R := ⟨job.R_pos.ne'⟩

/-- The lambdas that the map phase schedules. -/
def mapBodies (job : Job) : Bodies State Unit where
  step state m _ := mapStep job state m
  returned state m := state.maps m = .done

/-- The lambdas that the reduce phase schedules: a region of their own, or a system call that writes
so many bytes. -/
def reduceBodies (job : Job) : Bodies State (Option ℕ) where
  step state r
    | none => reduceStep job state r
    | some count => writeStep job state r count
  returned state r := state.reduces r = .done

/-- `main` in its first block and in its second. -/
inductive Main (job : Job)
  | mapping (crew : Crew job.M State)
  | reducing (crew : Crew job.R State)

/-- The partitions, the tasks and the files. -/
def Main.shared {job : Job} : Main job → State
  | .mapping crew => crew.shared
  | .reducing crew => crew.shared

/-- Who moves: a thread of the map phase, a thread of the reduce phase, or `main` between them. -/
inductive Turn (job : Job)
  | map (mover : Mover job.M Unit)
  | between
  | reduce (mover : Mover job.R (Option ℕ))

/-- Nobody wakes without a notification. -/
def Turn.moves {job : Job} : Turn job → Bool
  | .map mover => mover.moves
  | .between => true
  | .reduce mover => mover.moves

/-- One step of `main` and its pools. -/
def mainStep (job : Job) : Main job → Turn job → Option (Main job)
  | .mapping crew, .map mover => (crew.step (mapBodies job) job.M mover).map .mapping
  | .mapping crew, .between =>
      if crew.owner = .past then some (.reducing (.start job.R crew.shared)) else none
  | .reducing crew, .reduce mover => (crew.step (reduceBodies job) job.R mover).map .reducing
  | _, _ => none

/-- What the tasks share when `main` starts. -/
def fresh (disk : Text → Option Text) : State where
  partitions _ := []
  maps _ := .ready
  reduces _ := .ready
  files := disk
  inputs _ := none

/-- `main` and its pools as a machine. -/
def pools (job : Job) (disk : Text → Option Text) : Machine (Main job) (Turn job) where
  start main := main = .mapping (.start job.M (fresh disk))
  step := mainStep job

/-- Nobody wakes without a notification. -/
def notified {job : Job} : Discipline (Main job) (Turn job) := fun _ turn => turn.moves = true

/-! ## The map tasks -/

variable {job : Job} {disk : Text → Option Text} {state next : State}

/-- The regions ahead of a map task. -/
def MapTask.left (R : ℕ) : MapTask → ℕ
  | .ready => R + 2
  | .appending r => R - r + 1
  | .done => 0

theorem MapTask.left_le (R : ℕ) (task : MapTask) : task.left R ≤ R + 2 := by
  cases task with
  | ready => exact le_rfl
  | appending r =>
      rw [MapTask.left]
      omega
  | done => exact Nat.zero_le _

/-- A step of a map task leaves it less to do and moves no other task. -/
theorem mapStep_spec {m : ℕ} (stepped : mapStep job state m = some next) :
    (next.maps m).left job.R < (state.maps m).left job.R ∧
      ∀ other, other ≠ m → next.maps other = state.maps other := by
  rw [mapStep] at stepped
  cases task : state.maps m with
  | ready =>
      rw [task] at stepped
      obtain rfl := Option.some.inj stepped
      refine ⟨?_, fun other apart => Function.update_of_ne apart _ _⟩
      simp only [Function.update_self]
      split <;> simp [MapTask.left]
  | appending r =>
      rw [task] at stepped
      simp only at stepped
      split at stepped
      · obtain rfl := Option.some.inj stepped
        refine ⟨?_, fun other apart => Function.update_of_ne apart _ _⟩
        simp only [Function.update_self, MapTask.left]
        omega
      · obtain rfl := Option.some.inj stepped
        refine ⟨?_, fun other apart => Function.update_of_ne apart _ _⟩
        simp [MapTask.left]
  | done =>
      rw [task] at stepped
      cases stepped

theorem lawful_mapBodies (job : Job) (disk : Text → Option Text) :
    (mapBodies job).Lawful job.M (job.R + 2) ((machine job disk).Reachable .free)
      fun state m => (state.maps m).left job.R where
  bounded state _ m _ := MapTask.left_le job.R (state.maps m)
  goes state _ m _ running := by
    refine ⟨(), ?_⟩
    have alive : state.maps m ≠ .done := of_decide_eq_false running
    show (mapStep job state m).isSome = true
    rw [mapStep]
    cases task : state.maps m with
    | ready => rfl
    | appending r =>
        simp only
        split <;> rfl
    | done => exact absurd task alive
  keeps state reach m known _ next stepped := by
    have taken : (machine job disk).step state (.map m) = some next := (if_pos known).trans stepped
    exact reach.next trivial taken
  falls state _ m _ _ next stepped := (mapStep_spec stepped).1
  others state _ m _ _ next stepped other := by
    obtain ⟨falls, others⟩ := mapStep_spec stepped
    by_cases same : other = m
    · subst same
      refine ⟨falls.le, fun returned => ?_⟩
      have done : state.maps other = .done := of_decide_eq_true returned
      rw [done] at falls
      cases falls
    · show (next.maps other).left job.R ≤ (state.maps other).left job.R ∧
        (decide (state.maps other = .done) = true → decide (next.maps other = .done) = true)
      rw [others other same]
      exact ⟨le_rfl, id⟩

/-! ## The reduce tasks -/

/-- The regions ahead of a reduce task, when its output has so many bytes. -/
def ReduceTask.left (size : ℕ) : ReduceTask → ℕ
  | .ready => size + 3
  | .opening reduced => reduced.length + 2
  | .writing reduced written => reduced.length - written + 1
  | .done => 0

/-- The most regions of a reduce task. -/
def reduceCost (job : Job) : ℕ :=
  ((List.range job.R).map fun r => (job.sequentialOutput r).length).sum + 3

/-- A reduce task has no more ahead than one that has not begun. -/
theorem ReduceProgress.left_le {r : ℕ} {input file : Option Text} {task : ReduceTask}
    (progress : ReduceProgress job disk r input file task) :
    task.left (job.sequentialOutput r).length ≤ (job.sequentialOutput r).length + 3 := by
  cases task with
  | ready => exact le_rfl
  | opening reduced =>
      rw [ReduceTask.left, progress.2.1]
      omega
  | writing reduced written =>
      rw [ReduceTask.left, progress.2.1]
      omega
  | done => exact Nat.zero_le _

/-- A step of a reduce task moves no other task. -/
theorem frame_reduceBodies {r : ℕ} {choice : Option ℕ}
    (stepped : (reduceBodies job).step state r choice = some next) :
    next.maps = state.maps ∧ ∀ other, other ≠ r → next.reduces other = state.reduces other := by
  cases choice with
  | none =>
      have stepped : reduceStep job state r = some next := stepped
      rw [reduceStep] at stepped
      split at stepped
      · obtain rfl := Option.some.inj stepped
        exact ⟨rfl, fun other apart => Function.update_of_ne apart _ _⟩
      · split at stepped <;>
        · obtain rfl := Option.some.inj stepped
          exact ⟨rfl, fun other apart => Function.update_of_ne apart _ _⟩
      · split at stepped
        · obtain rfl := Option.some.inj stepped
          exact ⟨rfl, fun other apart => Function.update_of_ne apart _ _⟩
        · cases stepped
      · cases stepped
  | some count =>
      have stepped : writeStep job state r count = some next := stepped
      rw [writeStep] at stepped
      split at stepped
      · split at stepped
        · obtain rfl := Option.some.inj stepped
          exact ⟨rfl, fun other apart => Function.update_of_ne apart _ _⟩
        · cases stepped
      · cases stepped

/-- Behind the barrier a step of a reduce task is one of the engine. -/
theorem reachable_reduceBodies {r : ℕ} {choice : Option ℕ}
    (reach : (machine job disk).Reachable .free state) (mapped : state.Mapped job)
    (small : r < job.R) (stepped : (reduceBodies job).step state r choice = some next) :
    (machine job disk).Reachable .free next := by
  cases choice with
  | none =>
      have taken : (machine job disk).step state (.reduce r) = some next :=
        (if_pos ⟨small, mapped⟩).trans stepped
      exact reach.next trivial taken
  | some count =>
      have taken : (machine job disk).step state (.write r count) = some next :=
        (if_pos ⟨small, mapped⟩).trans stepped
      exact reach.next trivial taken

/-- A step of a reduce task leaves it less to do. -/
theorem falls_reduceBodies {r : ℕ} {choice : Option ℕ}
    (reach : (machine job disk).Reachable .free state) (mapped : state.Mapped job)
    (small : r < job.R) (stepped : (reduceBodies job).step state r choice = some next) :
    (next.reduces r).left (job.sequentialOutput r).length <
      (state.reduces r).left (job.sequentialOutput r).length := by
  have later := (faithful_of_reachable
    (reachable_reduceBodies reach mapped small stepped)).progress r small
  cases choice with
  | none =>
      have stepped : reduceStep job state r = some next := stepped
      rw [reduceStep] at stepped
      cases task : state.reduces r with
      | ready =>
          rw [task] at stepped
          obtain rfl := Option.some.inj stepped
          simp only [Function.update_self] at later ⊢
          rw [ReduceTask.left, ReduceTask.left, later.2.1]
          omega
      | opening reduced =>
          rw [task] at stepped
          simp only at stepped
          split at stepped <;>
          · obtain rfl := Option.some.inj stepped
            simp [ReduceTask.left]
      | writing reduced written =>
          rw [task] at stepped
          simp only at stepped
          split at stepped
          · obtain rfl := Option.some.inj stepped
            simp [ReduceTask.left]
          · cases stepped
      | done =>
          rw [task] at stepped
          cases stepped
  | some count =>
      have stepped : writeStep job state r count = some next := stepped
      rw [writeStep] at stepped
      split at stepped
      · rename_i reduced written writing
        split at stepped
        · rename_i fits
          obtain rfl := Option.some.inj stepped
          rw [writing]
          simp only [Function.update_self, ReduceTask.left]
          omega
        · cases stepped
      · cases stepped

/-- A reduce task that has not returned can go on: a write takes what is left. -/
theorem goes_reduceBodies {r : ℕ} (reach : (machine job disk).Reachable .free state)
    (small : r < job.R) (alive : state.reduces r ≠ .done) :
    ∃ choice, ((reduceBodies job).step state r choice).isSome = true := by
  cases task : state.reduces r with
  | ready =>
      refine ⟨none, ?_⟩
      show (reduceStep job state r).isSome = true
      rw [reduceStep, task]
      rfl
  | opening reduced =>
      refine ⟨none, ?_⟩
      show (reduceStep job state r).isSome = true
      rw [reduceStep, task]
      simp only
      split <;> rfl
  | writing reduced written =>
      have progress := (faithful_of_reachable reach).progress r small
      rw [task] at progress
      have bounded : written ≤ reduced.length := progress.2.2.2.1
      by_cases finished : written = reduced.length
      · refine ⟨none, ?_⟩
        show (reduceStep job state r).isSome = true
        rw [reduceStep, task]
        simp only [finished, if_true]
        rfl
      · refine ⟨some (reduced.length - written), ?_⟩
        show (writeStep job state r (reduced.length - written)).isSome = true
        rw [writeStep, task]
        simp only
        rw [if_pos (by omega)]
        rfl
  | done => exact absurd task alive

theorem lawful_reduceBodies (job : Job) (disk : Text → Option Text) :
    (reduceBodies job).Lawful job.R (reduceCost job)
      (fun state => (machine job disk).Reachable .free state ∧ state.Mapped job)
      fun state r => (state.reduces r).left (job.sequentialOutput r).length where
  bounded state sound r small := by
    have own := ((faithful_of_reachable sound.1).progress r small).left_le
    have listed : (job.sequentialOutput r).length ∈
        (List.range job.R).map fun r => (job.sequentialOutput r).length :=
      List.mem_map.mpr ⟨r, List.mem_range.mpr small, rfl⟩
    exact own.trans (Nat.add_le_add_right (List.le_sum_of_mem listed) 3)
  goes state sound r small running :=
    goes_reduceBodies sound.1 small (of_decide_eq_false running)
  keeps state sound r small choice next stepped := by
    refine ⟨reachable_reduceBodies sound.1 sound.2 small stepped, fun m known => ?_⟩
    rw [(frame_reduceBodies stepped).1]
    exact sound.2 m known
  falls state sound r small choice next stepped :=
    falls_reduceBodies sound.1 sound.2 small stepped
  others state sound r small choice next stepped other := by
    by_cases same : other = r
    · subst same
      have falls := falls_reduceBodies sound.1 sound.2 small stepped
      refine ⟨falls.le, fun returned => ?_⟩
      have done : state.reduces other = .done := of_decide_eq_true returned
      rw [done] at falls
      cases falls
    · show (next.reduces other).left _ ≤ (state.reduces other).left _ ∧
        (decide (state.reduces other = .done) = true →
          decide (next.reduces other = .done) = true)
      rw [(frame_reduceBodies stepped).2 other same]
      exact ⟨le_rfl, id⟩

/-! ## Both blocks -/

/-- What is known of `main` and its pools: the shared state is one of the engine, and in the second
block the barrier is behind it. -/
def Main.Sound (disk : Text → Option Text) : Main job → Prop
  | .mapping crew => crew.Ok (mapBodies job) job.M ∧
      (machine job disk).Reachable .free crew.shared
  | .reducing crew => crew.Ok (reduceBodies job) job.R ∧
      (machine job disk).Reachable .free crew.shared ∧ crew.shared.Mapped job

/-- The work that `main` has left, the second block included. -/
def Main.work : Main job → ℕ
  | .mapping crew =>
      crew.work job.M (job.R + 2) (fun state m => (state.maps m).left job.R) +
        (job.R * ThreadPool.thunkWork (reduceCost job) +
          ThreadPool.closingWork job.R (reduceCost job) + 5)
  | .reducing crew =>
      crew.work job.R (reduceCost job)
        fun state r => (state.reduces r).left (job.sequentialOutput r).length

variable {main after : Main job}

/-- Past its first block `main` has the barrier behind it. -/
theorem mapped_of_past {crew : Crew job.M State} (ok : crew.Ok (mapBodies job) job.M)
    (past : crew.owner = .past) : crew.shared.Mapped job :=
  fun _ known => of_decide_eq_true (ok.returned_of_past past known)

theorem sound_start (job : Job) (disk : Text → Option Text) :
    (Main.mapping (Crew.start job.M (fresh disk))).Sound disk :=
  ⟨ThreadPool.Crew.ok_start _ _ _, .of_start rfl⟩

/-- Every step keeps what is known. -/
theorem Main.Sound.step (sound : main.Sound disk) {turn : Turn job}
    (taken : mainStep job main turn = some after) : after.Sound disk := by
  cases main with
  | mapping crew =>
      obtain ⟨ok, reach⟩ := sound
      cases turn with
      | map mover =>
          obtain ⟨crew, moved, rfl⟩ := Option.map_eq_some_iff.mp taken
          exact ok.step (lawful_mapBodies job disk) reach moved
      | between =>
          obtain ⟨past, same⟩ := Option.ite_none_right_eq_some.mp taken
          obtain rfl := Option.some.inj same
          exact ⟨ThreadPool.Crew.ok_start _ _ _, reach, mapped_of_past ok past⟩
      | reduce => cases taken
  | reducing crew =>
      obtain ⟨ok, known⟩ := sound
      cases turn with
      | reduce mover =>
          obtain ⟨crew, moved, rfl⟩ := Option.map_eq_some_iff.mp taken
          exact ok.step (lawful_reduceBodies job disk) known moved
      | map | between => cases taken

/-- Every step leaves less to do. -/
theorem Main.Sound.falls (sound : main.Sound disk) {turn : Turn job} (calm : turn.moves = true)
    (taken : mainStep job main turn = some after) : after.work < main.work := by
  cases main with
  | mapping crew =>
      obtain ⟨ok, reach⟩ := sound
      cases turn with
      | map mover =>
          obtain ⟨crew, moved, rfl⟩ := Option.map_eq_some_iff.mp taken
          have less := ThreadPool.Crew.work_step ok (lawful_mapBodies job disk) reach calm moved
          exact Nat.add_lt_add_right less _
      | between =>
          obtain ⟨_, same⟩ := Option.ite_none_right_eq_some.mp taken
          obtain rfl := Option.some.inj same
          rw [Main.work, Main.work, ThreadPool.Crew.work_start]
          omega
      | reduce => cases taken
  | reducing crew =>
      obtain ⟨ok, known⟩ := sound
      cases turn with
      | reduce mover =>
          obtain ⟨crew, moved, rfl⟩ := Option.map_eq_some_iff.mp taken
          exact ThreadPool.Crew.work_step ok (lawful_reduceBodies job disk) known calm moved
      | map | between => cases taken

theorem sound_of_reachable (reach : (pools job disk).Reachable .free main) : main.Sound disk := by
  refine reach.invariant (fun main => main.Sound disk) ?_ ?_
  · rintro _ rfl
    exact sound_start job disk
  · intro _ _ _ sound _ taken
    exact sound.step taken

/-- `main` is past both blocks and the threads of the second pool have exited. -/
def Main.Past : Main job → Prop
  | .mapping _ => False
  | .reducing crew => crew.owner = .past ∧ ThreadPool.Finished crew.pool

/-- Where no thread can move, `main` is past both blocks and every task is done. -/
theorem past_of_still (sound : main.Sound disk)
    (still : ∀ turn : Turn job, turn.moves = true → mainStep job main turn = none) :
    main.Past ∧ main.shared.Complete job := by
  cases main with
  | mapping crew =>
      obtain ⟨ok, reach⟩ := sound
      have past := ThreadPool.Crew.past_of_still ok (lawful_mapBodies job disk) reach
        fun mover calm => Option.map_eq_none_iff.mp (still (.map mover) calm)
      have blocked := still .between rfl
      rw [mainStep, if_pos past] at blocked
      cases blocked
  | reducing crew =>
      obtain ⟨ok, known⟩ := sound
      have past := ThreadPool.Crew.past_of_still ok (lawful_reduceBodies job disk) known
        fun mover calm => Option.map_eq_none_iff.mp (still (.reduce mover) calm)
      exact ⟨⟨past, ok.finished_of_past past⟩, known.2,
        fun r small => of_decide_eq_true (ok.returned_of_past past small)⟩

/-- Every state that `main` and its pools come to is one of the engine, with the barrier between the
phases; and where every mapper and reducer halts and reads its input to the end, every way to go on
gets past both pools, with the inputs of the sequential run and, where the paths of the parts
differ, its files. -/
theorem pools_finish (job : Job) (disk : Text → Option Text) {main : Main job}
    (reach : (pools job disk).Reachable .free main) :
    (machine job disk).Reachable .free main.shared ∧
      (pools job disk).Inevitable notified (fun last => last.Past ∧ last.shared.Complete job ∧
        ∀ r < job.R, last.shared.inputs r = some (job.sequentialInput r) ∧
          (PathsDistinct job.outDir job.R → last.shared.files (job.path r) =
            if job.opens (job.path r) then some (job.sequentialOutput r)
            else disk (job.path r))) main := by
  have engine {main : Main job} (sound : main.Sound disk) :
      (machine job disk).Reachable .free main.shared := by
    cases main with
    | mapping crew => exact sound.2
    | reducing crew => exact sound.2.1
  refine ⟨engine (sound_of_reachable reach), ?_⟩
  refine Machine.inevitable_of_measure Main.work (fun main (sound : main.Sound disk) => ?_)
    (fun before after sound => ?_) (sound_of_reachable reach)
  · by_cases moves : ∃ next, (pools job disk).Step notified main next
    · exact .inr moves
    · obtain ⟨past, complete⟩ := past_of_still sound fun turn calm => by
        by_contra some
        obtain ⟨next, taken⟩ := Option.ne_none_iff_exists'.mp some
        exact moves ⟨next, turn, calm, taken⟩
      refine .inl ⟨past, complete, fun r small => ?_⟩
      have progress := (faithful_of_reachable (engine sound)).progress r small
      rw [complete.2 r small] at progress
      exact progress
  · rintro ⟨turn, calm, taken⟩
    exact ⟨sound.step taken, sound.falls calm taken⟩

/-- One line, one map task and one reduce task. -/
def oneLine : Job := catJob [100] 1 0 Nat.one_pos

/-- A run up to where the map task has run its mapper. -/
def mappingRun : List (Turn oneLine) :=
  List.replicate 5 (.map .owner) ++ List.replicate 8 (.map .dispatcher) ++
    List.replicate 3 (.map (.worker ⟨0, oneLine.M_pos⟩ ()))

theorem mappingRun_finishes :
    ((pools oneLine fun _ => none).exec .free (.mapping (.start oneLine.M (fresh fun _ => none)))
      mappingRun).isSome = true := by
  decide +kernel

/-- `main` there. -/
def mappingEnd : Main oneLine :=
  ((pools oneLine fun _ => none).exec .free (.mapping (.start oneLine.M (fresh fun _ => none)))
    mappingRun).get mappingRun_finishes

theorem pools_finish_oneLine : mappingEnd.shared.maps 0 = .appending 0 ∧
    ∃ last, (pools oneLine fun _ => none).Leads notified mappingEnd last ∧ last.Past ∧
      last.shared.files (ascii "d/part-0") = some [97, newline] := by
  have reach : (pools oneLine fun _ => none).Reachable .free mappingEnd :=
    .of_exec rfl mappingRun mappingRun_finishes
  obtain ⟨last, leads, past, _, results⟩ :=
    (pools_finish oneLine (fun _ => none) reach).2.exists_leads
  have alone : PathsDistinct oneLine.outDir oneLine.R := by
    intro r r' small small' _
    have one : oneLine.R = 1 := rfl
    omega
  have file := (results 0 Nat.one_pos).2 alone
  have output : oneLine.sequentialOutput 0 = [97, newline] :=
    (sequentialOutput_catJob [100] Nat.one_pos).trans (if_pos rfl)
  have path : oneLine.path 0 = ascii "d/part-0" := by decide +kernel
  rw [output, path] at file
  exact ⟨by decide +kernel, last, leads, past, file⟩

end MapReduce
end Syscore
