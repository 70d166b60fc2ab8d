import Syscore.MapReduce.Completion

/-!
# Results and schedules

The results of `mr` do not depend on the schedule exactly when the paths that `snprintf` puts into
its 512 byte buffer differ: a long output directory cuts the number off, and the reduce tasks then
write to one file.
-/

namespace Syscore
namespace MapReduce

/-- Whatever the input, the programs, the hash and the surroundings are: every run can be completed,
and a complete run leaves the reducer inputs and the part files of the sequential run. -/
def ScheduleIndependent (outDir : Text) (R : ℕ) : Prop :=
  ∀ job : Job, job.outDir = outDir → job.R = R → ∀ disk state,
    (machine job disk).Reachable .free state →
      (∃ final, (machine job disk).Leads .free state final ∧ final.Complete job) ∧
        (state.Complete job → ∀ r < R, state.inputs r = some (job.sequentialInput r) ∧
          state.files (job.path r) = job.sequentialFiles disk (job.path r))

/-! ## Different paths -/

/-- With different paths every task leaves its own file. -/
theorem foldl_writeFile {job : Job} (distinct : PathsDistinct job.outDir job.R) {order : List ℕ}
    (nodup : order.Nodup) (small : ∀ r ∈ order, r < job.R) (files : Text → Option Text) {r : ℕ}
    (inRange : r < job.R) :
    order.foldl job.writeFile files (job.path r) =
      if r ∈ order ∧ job.opens (job.path r) = true then
        some (job.sequentialOutput r)
      else
        files (job.path r) := by
  induction order generalizing files with
  | nil => rw [if_neg fun found => absurd found.1 List.not_mem_nil]; rfl
  | cons first order ih =>
      obtain ⟨fresh, nodup⟩ := List.nodup_cons.mp nodup
      have later := ih nodup (fun r inside => small r (List.mem_cons_of_mem first inside))
      rw [List.foldl_cons, later]
      by_cases same : r = first
      · subst same
        rw [if_neg fun found => fresh found.1, Job.writeFile]
        by_cases opens : job.opens (job.path r) = true <;> simp [opens]
      · have apart : job.path r ≠ job.path first := fun clash =>
          same (distinct r first inRange (small first List.mem_cons_self) clash)
        have kept : job.writeFile files first (job.path r) = files (job.path r) := by
          rw [Job.writeFile]
          split
          · exact Function.update_of_ne apart _ _
          · rfl
        rw [kept]
        simp only [List.mem_cons, same, false_or]

theorem independent_of_distinct {outDir : Text} {R : ℕ} (distinct : PathsDistinct outDir R) :
    ScheduleIndependent outDir R := by
  rintro job rfl rfl disk state reach
  refine ⟨can_complete reach, fun complete r small => ?_⟩
  have progress := (faithful_of_reachable reach).progress r small
  rw [complete.2 r small] at progress
  refine ⟨progress.1, ?_⟩
  rw [progress.2 distinct, Job.sequentialFiles, foldl_writeFile distinct List.nodup_range
    (fun r inside => List.mem_range.mp inside) disk small]
  simp only [List.mem_range, small, true_and]

/-! ## Colliding paths -/

/-- One line `a`, mapped and reduced by `cat`, that the hash sends to one partition. -/
def catJob (outDir : Text) (R r : ℕ) (positive : 0 < R) : Job where
  input := [97, newline]
  M := 1
  R := R
  M_pos := Nat.one_pos
  R_pos := positive
  hasher _ := r
  mapper := id
  reducer := id
  outDir := outDir
  opens _ := true

theorem sequentialOutput_catJob (outDir : Text) {R r : ℕ} (small : r < R) {q : ℕ} :
    (catJob outDir R r (Nat.zero_lt_of_lt small)).sequentialOutput q =
      if q = r then [97, newline] else [] := by
  let job := catJob outDir R r (Nat.zero_lt_of_lt small)
  have chunk : job.chunk 0 = [97, newline] := by
    change joinLines (((getlines [97, newline]).zipIdx.filter fun numbered =>
      numbered.2 % 1 = 0).map Prod.fst) = _
    decide +kernel
  have lines : getlines [97, newline] = [[97]] := by decide +kernel
  have routed : job.routed 0 q = if q = r then [[97]] else [] := by
    have known : r % R = r := Nat.mod_eq_of_lt small
    rw [Job.routed, chunk, if_neg (List.cons_ne_nil _ _)]
    change (getlines [97, newline]).filter (fun kv => decide (kv ≠ [] ∧ r % R = q)) = _
    rw [lines, known]
    by_cases same : q = r
    · simp [same]
    · simp [same, Ne.symm same]
  have sorted : reduceInput [97, newline] = [97, newline] := by
    rw [reduceInput, lines]
    simp [joinLines]
  have none : reduceInput [] = [] := by
    rw [reduceInput, getlines, if_pos rfl]
    simp [joinLines]
  have gathered : job.gather (List.range job.M) q = joinLines (job.routed 0 q) :=
    List.append_nil _
  rw [Job.sequentialOutput, gathered, routed]
  by_cases same : q = r
  · rw [if_pos same, if_pos same]
    change job.reduced [97, newline] = _
    rw [Job.reduced, sorted, if_neg (List.cons_ne_nil _ _)]
    rfl
  · rw [if_neg same, if_neg same]
    change job.reduced [] = _
    rw [Job.reduced, none, if_pos rfl]

/-- A file that is empty stays empty under tasks that write nothing. -/
theorem foldl_writeFile_empty {job : Job} {order : List ℕ}
    (nothing : ∀ q ∈ order, job.sequentialOutput q = []) {files : Text → Option Text} {path : Text}
    (empty : files path = some []) : order.foldl job.writeFile files path = some [] := by
  induction order generalizing files with
  | nil => exact empty
  | cons first order ih =>
      refine ih (fun q inside => nothing q (List.mem_cons_of_mem first inside)) ?_
      rw [Job.writeFile, nothing first List.mem_cons_self]
      split
      · by_cases same : path = job.path first
        · rw [same, Function.update_self]
        · rw [Function.update_of_ne same]
          exact empty
      · exact empty

/-- Two tasks that write to one file are told apart by their order. -/
theorem not_independent_of_clash {outDir : Text} {R r r' : ℕ} (order : r < r') (small : r' < R)
    (clash : partPath outDir r = partPath outDir r') : ¬ ScheduleIndependent outDir R := by
  intro independent
  have small' := Nat.lt_trans order small
  let job := catJob outDir R r (Nat.zero_lt_of_lt small')
  have output (q : ℕ) : job.sequentialOutput q = if q = r then [97, newline] else [] :=
    sequentialOutput_catJob outDir small'
  have opened (files : Text → Option Text) (q : ℕ) :
      job.writeFile files q (job.path q) = some (job.sequentialOutput q) := by
    have opens : job.opens (job.path q) = true := rfl
    rw [Job.writeFile, if_pos opens, Function.update_self]
  -- one after another, task `r'` and its successors leave an empty file
  have numbers : List.range R = List.range r' ++
      r' :: (List.range (R - r' - 1)).map fun q => r' + (q + 1) := by
    have split : R = r' + ((R - r' - 1) + 1) := by omega
    rw [split, List.range_add, List.range_succ_eq_map]
    simp
  have sequential : job.sequentialFiles (fun _ => none) (job.path r) = some [] := by
    have clash : job.path r = job.path r' := clash
    rw [Job.sequentialFiles, show job.R = R from rfl, numbers, List.foldl_append, List.foldl_cons]
    apply foldl_writeFile_empty
    · intro q inside
      obtain ⟨k, _, rfl⟩ := List.mem_map.mp inside
      rw [output, if_neg (by omega)]
    · rw [clash, opened, output, if_neg (by omega)]
  -- with task `r` last, its line is in the file
  have all : ((List.range R).erase r ++ [r]).Perm (List.range job.R) :=
    (List.perm_append_singleton r _).trans
      (List.perm_cons_erase (List.mem_range.mpr small')).symm
  obtain ⟨final, reach, complete, files⟩ := complete_run all fun _ => none
  have agrees := ((independent job rfl rfl _ final reach).2 complete r small').2
  rw [sequential, files, List.foldl_append, List.foldl_cons, List.foldl_nil, opened, output,
    if_pos rfl] at agrees
  cases agrees

/-! ## How long the output directory may be -/

/-- The bytes that `outDir` leaves of the buffer for the number of a part. -/
def digitRoom (outDir : Text) : ℕ := 505 - (outDir.takeWhile (· ≠ 0)).length

theorem partPath_eq (outDir : Text) (r : ℕ) :
    partPath outDir r = (outDir.takeWhile (· ≠ 0) ++ ascii "/part-").take 511 ++
      (decimal r).take (digitRoom outDir) := by
  have name : (ascii "/part-").length = 6 := by decide
  have room : 511 - (outDir.takeWhile (· ≠ 0) ++ ascii "/part-").length = digitRoom outDir := by
    rw [List.length_append, name, digitRoom]
    omega
  rw [partPath, List.take_append, room]

/-- Ten numbers in one digit, a hundred in two: beyond that a number loses its last digit. -/
theorem pathsDistinct_iff (outDir : Text) (R : ℕ) :
    PathsDistinct outDir R ↔ R ≤ 10 ^ digitRoom outDir := by
  simp only [PathsDistinct, partPath_eq, List.append_cancel_left_eq]
  cases digitRoom outDir with
  | zero =>
      constructor
      · intro distinct
        by_contra many
        exact absurd (distinct 0 1 (by omega) (by omega) rfl) (by decide)
      · intro few r r' small small' _
        rw [Nat.pow_zero] at few
        omega
  | succ k =>
      constructor
      · intro distinct
        by_contra many
        obtain ⟨longer, digits⟩ := decimal_pow k
        have smaller : 10 ^ k < 10 ^ (k + 1) :=
          Nat.pow_lt_pow_right (by decide) (Nat.lt_succ_self k)
        have cut : (decimal (10 ^ (k + 1))).take (k + 1) = (decimal (10 ^ k)).take (k + 1) := by
          rw [longer, List.take_append_of_le_length digits.ge]
        exact absurd (distinct _ _ (by omega) (by omega) cut) smaller.ne'
      · intro few r r' small small' same
        rw [List.take_of_length_le (length_decimal_le (by omega)),
          List.take_of_length_le (length_decimal_le (by omega))] at same
        exact decimal_injective same

/-- The results of `mr` do not depend on the schedule if and only if the numbers of the parts fit
the buffer behind the output directory. -/
theorem schedule_independent_iff (outDir : Text) (R : ℕ) :
    ScheduleIndependent outDir R ↔ R ≤ 10 ^ digitRoom outDir := by
  rw [← pathsDistinct_iff]
  refine ⟨fun independent r r' small small' clash => ?_, independent_of_distinct⟩
  rcases Nat.lt_trichotomy r r' with before | same | after
  · exact absurd independent (not_independent_of_clash before small' clash)
  · exact same
  · exact absurd independent (not_independent_of_clash after small clash.symm)

/-- A path of 505 bytes, `d/d/ ... /d`. -/
def deepOutDir : Text := (List.replicate 252 [100, 47]).flatten ++ [100]

/-- Under this directory both reduce tasks write to `part-`. -/
theorem not_independent_deepOutDir : ¬ ScheduleIndependent deepOutDir 2 :=
  not_independent_of_clash Nat.zero_lt_one Nat.one_lt_two (by decide +kernel)

end MapReduce
end Syscore
