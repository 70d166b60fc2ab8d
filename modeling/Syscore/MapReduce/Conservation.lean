import Syscore.Library.Grouping
import Syscore.MapReduce.Completion

/-!
# The shuffle conserves

Every input line reaches one chunk, every emitted line one reducer, and lines with one key the same
reducer.
-/

namespace Syscore
namespace MapReduce

/-- Lines without newlines read back from their concatenation. -/
theorem getlines_joinLines {lines : List Text} (free : ∀ line ∈ lines, newline ∉ line) :
    getlines (joinLines lines) = lines := by
  have none : getlines [] = [] := by rw [getlines, if_pos rfl]
  have whole := getlines_append free []
  rw [List.append_nil, none, List.append_nil] at whole
  exact whole

namespace Job

variable (job : Job)

/-- The input lines that chunk `m` is made of, with their positions in the input. -/
def fed (m : ℕ) : List (Text × ℕ) :=
  (getlines job.input).zipIdx.filter fun (_, i) => i % job.M = m

/-- The non-empty lines that the mapper emits over the non-empty chunks. -/
def emitted : List Text :=
  (List.range job.M).flatMap fun m =>
    if job.chunk m = [] then [] else (getlines (job.mapper (job.chunk m))).filter (· ≠ [])

/-- The reducer that the key of a line selects. -/
def route (kv : Text) : ℕ := job.hasher (keyOf kv) % job.R

/-- The lines of a chunk are the input lines fed to it. -/
theorem getlines_chunk (m : ℕ) : getlines (job.chunk m) = (job.fed m).map Prod.fst := by
  rw [chunk, fed]
  apply getlines_joinLines
  intro line inside
  obtain ⟨⟨line, i⟩, chosen, rfl⟩ := List.mem_map.mp inside
  exact newline_notMem_of_getlines (List.fst_mem_of_mem_zipIdx (List.mem_of_mem_filter chosen))

/-- Every input line is fed to exactly one chunk. -/
theorem fed_exactly_once {entry : Text × ℕ} (inside : entry ∈ (getlines job.input).zipIdx) :
    ∃! m, m < job.M ∧ entry ∈ job.fed m := by
  refine ⟨entry.2 % job.M, ⟨Nat.mod_lt _ job.M_pos, ?_⟩, fun m ⟨_, chosen⟩ => ?_⟩
  · exact List.mem_filter.mpr ⟨inside, decide_eq_true rfl⟩
  · exact (of_decide_eq_true (List.mem_filter.mp chosen).2).symm

/-- The chunks together hold every input line once. -/
theorem fed_perm : ((List.range job.M).flatMap job.fed).Perm (getlines job.input).zipIdx :=
  classes_perm (fun entry : Text × ℕ => entry.2 % job.M) fun _ _ => Nat.mod_lt _ job.M_pos

theorem route_lt (kv : Text) : job.route kv < job.R := Nat.mod_lt _ job.R_pos

theorem newline_notMem_emitted {kv : Text} (inside : kv ∈ job.emitted) : newline ∉ kv := by
  obtain ⟨m, _, own⟩ := List.mem_flatMap.mp inside
  split at own
  · cases own
  · exact newline_notMem_of_getlines (List.mem_of_mem_filter own)

/-- What the map tasks append to partition `r`. -/
theorem flatMap_routed (r : ℕ) :
    ((List.range job.M).flatMap fun m => job.routed m r) =
      job.emitted.filter fun kv => job.route kv = r := by
  rw [emitted, List.filter_flatMap]
  congr 1
  funext m
  rw [routed]
  by_cases empty : job.chunk m = []
  · rw [if_pos empty, if_pos empty, List.filter_nil]
  · rw [if_neg empty, if_neg empty, List.filter_filter]
    refine List.filter_congr fun kv _ => ?_
    rw [← Bool.decide_and, decide_eq_decide]
    exact and_comm

/-- The sorted lines that reducer `r` reads. -/
def sortedRecords (r : ℕ) : List Text :=
  (job.emitted.filter fun kv => job.route kv = r).mergeSort textLE

theorem sequentialInput_eq (r : ℕ) :
    job.sequentialInput r = joinLines (job.sortedRecords r) := by
  have nonempty :
      ∀ kv ∈ job.emitted.filter fun kv => job.route kv = r, decide (kv ≠ []) = true := by
    intro kv inside
    obtain ⟨m, _, own⟩ := List.mem_flatMap.mp (List.mem_of_mem_filter inside)
    split at own
    · cases own
    · exact (List.mem_filter.mp own).2
  rw [sequentialInput, reduceInput, getlines_gather, flatMap_routed,
    List.filter_eq_self.mpr nonempty, sortedRecords]

theorem sortedRecords_perm (r : ℕ) :
    (job.sortedRecords r).Perm (job.emitted.filter fun kv => job.route kv = r) :=
  List.mergeSort_perm _ _

theorem getlines_sequentialInput (r : ℕ) :
    getlines (job.sequentialInput r) = job.sortedRecords r := by
  rw [sequentialInput_eq]
  apply getlines_joinLines
  intro kv inside
  exact job.newline_notMem_emitted
    (List.mem_of_mem_filter ((job.sortedRecords_perm r).mem_iff.mp inside))

/-- The reducer inputs together hold every emitted line once. -/
theorem sortedRecords_all_perm :
    ((List.range job.R).flatMap job.sortedRecords).Perm job.emitted :=
  (List.Perm.flatMap_left _ fun r _ => job.sortedRecords_perm r).trans
    (classes_perm job.route fun kv _ => job.route_lt kv)

theorem route_of_sortedRecords {r : ℕ} {kv : Text} (inside : kv ∈ job.sortedRecords r) :
    job.route kv = r :=
  of_decide_eq_true (List.mem_filter.mp ((job.sortedRecords_perm r).mem_iff.mp inside)).2

end Job

/-- When `inputs` are what the reducers read, nothing is lost, duplicated or split on the way from
the input file to them. -/
structure Conserved (job : Job) (inputs : ℕ → Text) : Prop where
  /-- An input line, told from others by its position, is fed to exactly one mapper chunk. -/
  fed_once : ∀ entry ∈ (getlines job.input).zipIdx, ∃! m, m < job.M ∧ entry ∈ job.fed m
  chunk_lines : ∀ m, getlines (job.chunk m) = (job.fed m).map Prod.fst
  /-- Each reducer reads whole lines. -/
  whole_lines : ∀ r < job.R, inputs r = joinLines (getlines (inputs r))
  /-- The reducers together read the emitted lines. -/
  emitted_perm : ((List.range job.R).flatMap fun r => getlines (inputs r)).Perm job.emitted
  same_key : ∀ r < job.R, ∀ r' < job.R, ∀ kv ∈ getlines (inputs r), ∀ kv' ∈ getlines (inputs r'),
    keyOf kv = keyOf kv' → r = r'

theorem conserved_sequential (job : Job) : Conserved job job.sequentialInput := by
  refine ⟨fun entry => job.fed_exactly_once, job.getlines_chunk, fun r _ => ?_, ?_, ?_⟩
  · rw [job.getlines_sequentialInput, job.sequentialInput_eq]
  · simp only [job.getlines_sequentialInput]
    exact job.sortedRecords_all_perm
  · intro r _ r' _ kv inside kv' inside' sameKey
    rw [job.getlines_sequentialInput] at inside inside'
    rw [← job.route_of_sortedRecords inside, ← job.route_of_sortedRecords inside', Job.route,
      Job.route, sameKey]

/-- The shuffle loses, duplicates and splits nothing, whatever the interleaving. -/
theorem shuffle_conserves {job : Job} {disk : Text → Option Text} {state : State}
    (reach : (machine job disk).Reachable .free state)
    (started : ∀ r < job.R, state.reduces r ≠ .ready) :
    ∃ inputs : ℕ → Text, (∀ r < job.R, state.inputs r = some (inputs r)) ∧
      Conserved job inputs := by
  refine ⟨job.sequentialInput, fun r small => ?_, conserved_sequential job⟩
  exact ((faithful_of_reachable reach).progress r small).input_eq (started r small)

/-- Three lines, two of them with one key in different chunks, the last without its newline. -/
def sharedKeyJob : Job where
  input := ascii "k\t1\nk\nl\t2"
  M := 2
  R := 3
  M_pos := Nat.two_pos
  R_pos := Nat.succ_pos 2
  hasher := List.length
  mapper := id
  reducer := id
  outDir := ascii "out"
  opens _ := true

theorem shuffle_conserves_sharedKey :
    ∃ state inputs, (machine sharedKeyJob fun _ => none).Reachable .free state ∧
      (∀ r < 3, state.inputs r = some (inputs r)) ∧ Conserved sharedKeyJob inputs := by
  obtain ⟨final, reach, complete, _⟩ :=
    complete_run (List.Perm.refl (List.range sharedKeyJob.R)) fun _ => none
  have started : ∀ r < sharedKeyJob.R, final.reduces r ≠ .ready := fun r small => by
    rw [complete.2 r small]
    simp
  obtain ⟨inputs, read, conserved⟩ := shuffle_conserves reach started
  exact ⟨final, inputs, reach, read, conserved⟩

end MapReduce
end Syscore
