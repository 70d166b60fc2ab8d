import Syscore.MapReduce.Shuffle

/-!
# Runs of the engine

When the paths of the reduce tasks differ, every complete run leaves the inputs and the files of the
sequential run. The sequential run is one of the runs, and the reduce tasks may run in any order.
-/

namespace Syscore
namespace MapReduce

namespace Job

variable (job : Job)

/-- What reducer `r` reads after the map tasks ran one after another. -/
def sequentialInput (r : ℕ) : Text := reduceInput (job.gather (List.range job.M) r)

/-- What reduce task `r` writes after the map tasks ran one after another. -/
def sequentialOutput (r : ℕ) : Text := job.reduced (job.gather (List.range job.M) r)

/-- The files after one more reduce task has run alone. -/
def writeFile (files : Text → Option Text) (r : ℕ) : Text → Option Text :=
  if job.opens (job.path r) then
    Function.update files (job.path r) (some (job.sequentialOutput r))
  else
    files

/-- The files after all tasks ran one after another. -/
def sequentialFiles (disk : Text → Option Text) : Text → Option Text :=
  (List.range job.R).foldl job.writeFile disk

end Job

/-! ## Every complete run -/

/-- What a reduce task has done so far: its input and its output, and, where the paths differ, its
file. -/
def ReduceProgress (job : Job) (disk : Text → Option Text) (r : ℕ) (input : Option Text)
    (file : Option Text) : ReduceTask → Prop
  | .ready => PathsDistinct job.outDir job.R → file = disk (job.path r)
  | .opening reduced => input = some (job.sequentialInput r) ∧
      reduced = job.sequentialOutput r ∧ (PathsDistinct job.outDir job.R → file = disk (job.path r))
  | .writing reduced written => input = some (job.sequentialInput r) ∧
      reduced = job.sequentialOutput r ∧ job.opens (job.path r) = true ∧
        written ≤ reduced.length ∧
          (PathsDistinct job.outDir job.R → file = some (reduced.take written))
  | .done => input = some (job.sequentialInput r) ∧ (PathsDistinct job.outDir job.R →
      file = if job.opens (job.path r) then some (job.sequentialOutput r) else disk (job.path r))

theorem ReduceProgress.congr_file {job : Job} {disk : Text → Option Text} {r : ℕ}
    {input file file' : Option Text} {task : ReduceTask}
    (progress : ReduceProgress job disk r input file task)
    (same : PathsDistinct job.outDir job.R → file' = file) :
    ReduceProgress job disk r input file' task := by
  cases task with
  | ready => exact fun distinct => (same distinct).trans (progress distinct)
  | opening reduced =>
      obtain ⟨input, output, file⟩ := progress
      exact ⟨input, output, fun distinct => (same distinct).trans (file distinct)⟩
  | writing reduced written =>
      obtain ⟨input, output, opens, bound, file⟩ := progress
      exact ⟨input, output, opens, bound, fun distinct => (same distinct).trans (file distinct)⟩
  | done => exact ⟨progress.1, fun distinct => (same distinct).trans (progress.2 distinct)⟩

/-- A reduce task that has begun has read the input of the sequential run. -/
theorem ReduceProgress.input_eq {job : Job} {disk : Text → Option Text} {r : ℕ}
    {input file : Option Text} {task : ReduceTask}
    (progress : ReduceProgress job disk r input file task) (started : task ≠ .ready) :
    input = some (job.sequentialInput r) := by
  cases task with
  | ready => exact absurd rfl started
  | opening reduced => exact progress.1
  | writing reduced written => exact progress.1
  | done => exact progress.1

/-- The invariant of the runs. -/
structure Faithful (job : Job) (disk : Text → Option Text) (state : State) : Prop where
  gathered : Gathered job state
  progress : ∀ r < job.R,
    ReduceProgress job disk r (state.inputs r) (state.files (job.path r)) (state.reduces r)

/-- A prefix of a file grows by what is written behind it. -/
theorem overwrite_take (output : Text) {written count : ℕ}
    (fits : written + count ≤ output.length) :
    overwrite (output.take written) written ((output.drop written).take count) =
      output.take (written + count) := by
  have length : (output.take written).length = written := List.length_take_of_le (by omega)
  have kept : (output.take written).take written = output.take written :=
    List.take_of_length_le length.le
  have behind (size : ℕ) : (output.take written).drop (written + size) = [] :=
    List.drop_of_length_le (by rw [length]; exact Nat.le_add_right written size)
  rw [overwrite, kept, length, Nat.sub_self, List.replicate_zero, List.append_nil, behind,
    List.append_nil, List.take_add]

namespace Faithful

variable {job : Job} {disk : Text → Option Text} {state next : State}

/-- A step of one reduce task, which touches its own file only. -/
theorem reduces (faithful : Faithful job disk state) {r : ℕ} (small : r < job.R)
    (partitions : next.partitions = state.partitions) (maps : next.maps = state.maps)
    (others : ∀ other, other ≠ r → next.reduces other = state.reduces other ∧
      next.inputs other = state.inputs other)
    (files : ∀ path, path ≠ job.path r → next.files path = state.files path)
    (own : ReduceProgress job disk r (next.inputs r) (next.files (job.path r)) (next.reduces r)) :
    Faithful job disk next := by
  refine ⟨fun other inside => ?_, fun other inside => ?_⟩
  · rw [partitions, maps]
    exact faithful.gathered other inside
  · by_cases same : other = r
    · subst same
      exact own
    · rw [(others other same).1, (others other same).2]
      refine (faithful.progress other inside).congr_file fun distinct => ?_
      exact files _ fun clash => same (distinct other r inside small clash)

theorem reduceStep (faithful : Faithful job disk state) (mapped : state.Mapped job) {r : ℕ}
    (small : r < job.R) (stepped : MapReduce.reduceStep job state r = some next) :
    Faithful job disk next := by
  have progress := faithful.progress r small
  rw [MapReduce.reduceStep] at stepped
  split at stepped
  · rename_i ready
    obtain rfl := Option.some.inj stepped
    obtain ⟨order, perm, partition⟩ := faithful.gathered.perm mapped small
    rw [ready] at progress
    refine faithful.reduces small rfl rfl (fun other apart => ?_) (fun _ _ => rfl) ?_
    · exact ⟨Function.update_of_ne apart _ _, Function.update_of_ne apart _ _⟩
    · simp only [Function.update_self, partition]
      exact ⟨congrArg some (job.reduceInput_gather perm r), job.reduced_gather perm r, progress⟩
  · rename_i reduced opening
    rw [opening] at progress
    obtain ⟨input, output, file⟩ := progress
    split at stepped
    · rename_i opens
      obtain rfl := Option.some.inj stepped
      refine faithful.reduces small rfl rfl (fun other apart => ?_) (fun path apart => ?_) ?_
      · exact ⟨Function.update_of_ne apart _ _, rfl⟩
      · exact Function.update_of_ne apart _ _
      · simp only [Function.update_self]
        exact ⟨input, output, opens, Nat.zero_le _, fun _ => rfl⟩
    · rename_i closed
      obtain rfl := Option.some.inj stepped
      refine faithful.reduces small rfl rfl (fun other apart => ?_) (fun _ _ => rfl) ?_
      · exact ⟨Function.update_of_ne apart _ _, rfl⟩
      · simp only [Function.update_self]
        exact ⟨input, fun distinct => (file distinct).trans (if_neg closed).symm⟩
  · rename_i reduced written writing
    rw [writing] at progress
    obtain ⟨input, output, opens, _, file⟩ := progress
    split at stepped
    · rename_i finished
      obtain rfl := Option.some.inj stepped
      refine faithful.reduces small rfl rfl (fun other apart => ?_) (fun _ _ => rfl) ?_
      · exact ⟨Function.update_of_ne apart _ _, rfl⟩
      · simp only [Function.update_self]
        rw [finished, List.take_length] at file
        exact ⟨input, fun distinct => by rw [if_pos opens, file distinct, output]⟩
    · cases stepped
  · cases stepped

theorem writeStep (faithful : Faithful job disk state) {r count : ℕ} (small : r < job.R)
    (stepped : MapReduce.writeStep job state r count = some next) : Faithful job disk next := by
  have progress := faithful.progress r small
  rw [MapReduce.writeStep] at stepped
  split at stepped
  · rename_i reduced written writing
    rw [writing] at progress
    obtain ⟨input, output, opens, _, file⟩ := progress
    split at stepped
    · rename_i fits
      obtain rfl := Option.some.inj stepped
      refine faithful.reduces small rfl rfl (fun other apart => ?_) (fun path apart => ?_) ?_
      · exact ⟨Function.update_of_ne apart _ _, rfl⟩
      · exact Function.update_of_ne apart _ _
      · simp only [Function.update_self]
        refine ⟨input, output, opens, fits.2, fun distinct => ?_⟩
        rw [file distinct, Option.getD_some, overwrite_take reduced fits.2]
    · cases stepped
  · cases stepped

theorem mapStep (faithful : Faithful job disk state) {m : ℕ} (known : m < job.M)
    (stepped : MapReduce.mapStep job state m = some next) : Faithful job disk next := by
  refine ⟨faithful.gathered.mapStep known stepped, ?_⟩
  rw [MapReduce.mapStep] at stepped
  split at stepped
  · obtain rfl := Option.some.inj stepped
    exact faithful.progress
  · split at stepped <;>
      · obtain rfl := Option.some.inj stepped
        exact faithful.progress
  · cases stepped

end Faithful

/-- Every run computes the inputs and outputs of the sequential run. -/
theorem faithful_of_reachable {job : Job} {disk : Text → Option Text} {state : State}
    (reach : (machine job disk).Reachable .free state) : Faithful job disk state := by
  refine reach.invariant (Faithful job disk) ?_ ?_
  · rintro state rfl
    refine ⟨fun r small => ⟨[], List.nodup_nil, rfl, fun m => ?_⟩, fun r small _ => rfl⟩
    exact iff_of_false List.not_mem_nil fun past => past.2
  · intro state action next faithful _ stepped
    cases action with
    | map m =>
        obtain ⟨known, stepped⟩ := Option.ite_none_right_eq_some.mp stepped
        exact faithful.mapStep known stepped
    | reduce r =>
        obtain ⟨⟨small, mapped⟩, stepped⟩ := Option.ite_none_right_eq_some.mp stepped
        exact faithful.reduceStep mapped small stepped
    | write r count =>
        obtain ⟨⟨small, _⟩, stepped⟩ := Option.ite_none_right_eq_some.mp stepped
        exact faithful.writeStep small stepped

end MapReduce
end Syscore
