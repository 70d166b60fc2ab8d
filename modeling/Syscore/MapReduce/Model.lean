import Mathlib.Logic.Function.Basic
import Syscore.Library.Interleaving
import Syscore.Library.Stream

/-!
# The MapReduce engine

`mr` as a machine: the map tasks append to the partitions under their locks, in any interleaving,
and after the barrier of `pool.wait()` the reduce tasks write their files, in any interleaving.
-/

namespace Syscore
namespace MapReduce

/-- The arguments of `mr`, the programs that it runs and its surroundings. -/
structure Job where
  /-- The contents of the input file. -/
  input : Text
  M : ℕ
  R : ℕ
  M_pos : 0 < M
  R_pos : 0 < R
  hasher : Text → ℕ
  mapper : Text → Text
  reducer : Text → Text
  outDir : Text
  /-- Whether an `ofstream` on a path opens. -/
  opens : Text → Bool

/-- The order of `std::string`. -/
def textLE (left right : Text) : Bool := (compare left right).isLE

/-- `key\tvalue`: the key, or the whole line when there is no tab. -/
def keyOf (kv : Text) : Text := kv.takeWhile (· ≠ 9)

/-- Lines as they are concatenated. -/
def joinLines (lines : List Text) : Text := lines.flatMap fun line => line ++ [newline]

/-- The sorted records that a reducer reads, for the contents of its partition. -/
def reduceInput (partition : Text) : Text :=
  joinLines (((getlines partition).filter (· ≠ [])).mergeSort textLE)

/-- The buffer that `snprintf(path, 512, "%s/part-%d", outDir.c_str(), r)` fills. -/
def partPath (outDir : Text) (r : ℕ) : Text :=
  (outDir.takeWhile (· ≠ 0) ++ ascii "/part-" ++ decimal r).take 511

/-- The reduce tasks fill their buffers with different paths. -/
def PathsDistinct (outDir : Text) (R : ℕ) : Prop :=
  ∀ r r', r < R → r' < R → partPath outDir r = partPath outDir r' → r = r'

namespace Job

variable (job : Job)

/-- `chunks[m]`. -/
def chunk (m : ℕ) : Text :=
  joinLines (((getlines job.input).zipIdx.filter fun (_, i) => i % job.M = m).map Prod.fst)

/-- The emitted lines of map task `m` for partition `r`. -/
def routed (m r : ℕ) : List Text :=
  if job.chunk m = [] then
    []
  else
    (getlines (job.mapper (job.chunk m))).filter fun kv =>
      kv ≠ [] ∧ job.hasher (keyOf kv) % job.R = r

/-- `local[r]` of map task `m`. -/
def localPart (m r : ℕ) : Text := joinLines (job.routed m r)

/-- What reduce task `r` writes, for the contents of its partition. -/
def reduced (partition : Text) : Text :=
  if reduceInput partition = [] then [] else job.reducer (reduceInput partition)

/-- `path` of reduce task `r`. -/
def path (r : ℕ) : Text := partPath job.outDir r

end Job

/-- Where a map task stands. -/
inductive MapTask where
  | ready
  /-- In the last loop, at partition `r`. -/
  | appending (r : ℕ)
  | done
  deriving DecidableEq

/-- Where a reduce task stands. -/
inductive ReduceTask where
  | ready
  /-- The reducer has run; its output is not yet in a file. -/
  | opening (reduced : Text)
  /-- So much of the output is written. -/
  | writing (reduced : Text) (written : ℕ)
  | done
  deriving DecidableEq

/-- The partitions, the tasks, the files, and what was fed to each reducer. -/
structure State where
  partitions : ℕ → Text
  maps : ℕ → MapTask
  reduces : ℕ → ReduceTask
  files : Text → Option Text
  inputs : ℕ → Option Text

/-- A step of a task; a write carries the number of bytes that the system call takes. -/
inductive Action where
  | map (m : ℕ)
  | reduce (r : ℕ)
  | write (r count : ℕ)

/-- A file after some bytes are written at an offset. -/
def overwrite (file : Text) (offset : ℕ) (data : Text) : Text :=
  file.take offset ++ List.replicate (offset - file.length) 0 ++ data ++
    file.drop (offset + data.length)

section Steps

variable (job : Job)

/-- A step of map task `m`: the mapper runs, or one partition is extended under its lock. -/
def mapStep (state : State) (m : ℕ) : Option State :=
  match state.maps m with
  | .ready =>
      let next := if job.chunk m = [] then .done else .appending 0
      some { state with maps := Function.update state.maps m next }
  | .appending r =>
      if r < job.R then
        some
          { state with
            partitions :=
              Function.update state.partitions r (state.partitions r ++ job.localPart m r)
            maps := Function.update state.maps m (.appending (r + 1)) }
      else
        some { state with maps := Function.update state.maps m .done }
  | .done => none

/-- A step of reduce task `r`: the reducer runs, or the file is opened or closed. -/
def reduceStep (state : State) (r : ℕ) : Option State :=
  match state.reduces r with
  | .ready =>
      let partition := state.partitions r
      some
        { state with
          reduces := Function.update state.reduces r (.opening (job.reduced partition))
          inputs := Function.update state.inputs r (some (reduceInput partition)) }
  | .opening reduced =>
      if job.opens (job.path r) then
        some
          { state with
            files := Function.update state.files (job.path r) (some [])
            reduces := Function.update state.reduces r (.writing reduced 0) }
      else
        some { state with reduces := Function.update state.reduces r .done }
  | .writing reduced written =>
      if written = reduced.length then
        some { state with reduces := Function.update state.reduces r .done }
      else
        none
  | .done => none

/-- A system call that writes part of the output of reduce task `r`. -/
def writeStep (state : State) (r count : ℕ) : Option State :=
  match state.reduces r with
  | .writing reduced written =>
      if 0 < count ∧ written + count ≤ reduced.length then
        let file := (state.files (job.path r)).getD []
        let file := overwrite file written ((reduced.drop written).take count)
        some
          { state with
            files := Function.update state.files (job.path r) (some file)
            reduces := Function.update state.reduces r (.writing reduced (written + count)) }
      else
        none
  | _ => none

/-- The barrier between the phases: every map task is done. -/
def State.Mapped (state : State) : Prop := ∀ m < job.M, state.maps m = .done

instance (state : State) : Decidable (state.Mapped job) :=
  inferInstanceAs (Decidable (∀ m < job.M, state.maps m = .done))

/-- One step of `mr`. -/
def step (state : State) : Action → Option State
  | .map m => if m < job.M then mapStep job state m else none
  | .reduce r => if r < job.R ∧ state.Mapped job then reduceStep job state r else none
  | .write r count => if r < job.R ∧ state.Mapped job then writeStep job state r count else none

/-- `mr` as a machine, over the files that exist when it starts. -/
def machine (disk : Text → Option Text) : Machine State Action where
  start state := state =
    { partitions := fun _ => []
      maps := fun _ => .ready
      reduces := fun _ => .ready
      files := disk
      inputs := fun _ => none }
  step := step job

/-- Every task is done. -/
def State.Complete (state : State) : Prop :=
  state.Mapped job ∧ ∀ r < job.R, state.reduces r = .done

end Steps

end MapReduce
end Syscore
