import Syscore.Library.Runs
import Syscore.MapReduce.Conservation

/-!
# Word count

The mapper and the reducer that come with the engine, and what `mr` computes with them: one line
with its count for each word of the input.
-/

namespace Syscore
namespace MapReduce
namespace WordCount

/-! ## The programs -/

/-- `flush` of the mapper: the output and the current word. -/
def flush : Text × Text → Text × Text
  | (out, cur) => if cur ≠ [] then (out ++ cur ++ ascii "\t1\n", []) else (out, cur)

/-- One character of the mapper. -/
def mapperStep (state : Text × Text) (c : UInt8) : Text × Text :=
  if isalnum c then (state.1, state.2 ++ [tolower c]) else flush state

/-- `main` of the mapper. -/
def mapper (stdin : Text) : Text := (flush (stdin.foldl mapperStep ([], []))).1

/-- `stol`: `none` where it throws. -/
def stol (text : Text) : Option ℤ :=
  let (digits, value, _) := splitInt (text.dropWhile isspace)
  if digits ≠ [] ∧ -2 ^ 63 ≤ value ∧ value ≤ 2 ^ 63 - 1 then some value else none

/-- The variables of the reducer, and what it has written. -/
structure ReducerState where
  currentKey : Text
  total : ℤ
  /-- `have`. -/
  have' : Bool
  out : Text

/-- The tab. -/
def tab : UInt8 := 9

/-- A line of the reducer's output. -/
def countLine (key : Text) (value : ℤ) : Text := key ++ [tab] ++ decimalInt value

/-- One line of the reducer's input: `none` where `stol` throws or the sum leaves `long`. -/
def reducerStep (state : ReducerState) (line : Text) : Option ReducerState :=
  if line = [] then
    some state
  else do
    let key := keyOf line
    let value ← if tab ∈ line then stol ((line.dropWhile (· ≠ tab)).drop 1) else some 1
    let state :=
      if state.have' ∧ key ≠ state.currentKey then
        { state with
          out := state.out ++ countLine state.currentKey state.total ++ [newline]
          total := 0 }
      else
        state
    if -2 ^ 63 ≤ state.total + value ∧ state.total + value ≤ 2 ^ 63 - 1 then
      some { state with currentKey := key, total := state.total + value, have' := true }
    else
      none

/-- `main` of the reducer, where it does not abort. -/
def reducer (stdin : Text) : Option Text := do
  let state ← (getlines stdin).foldlM reducerStep
    { currentKey := [], total := 0, have' := false, out := [] }
  if state.have' then
    some (state.out ++ countLine state.currentKey state.total ++ [newline])
  else
    some state.out

/-! ## Words -/

/-- The words of a text: its maximal runs of alphanumeric characters, in lower case. -/
def words (text : Text) : List Text :=
  ((text.splitOnP fun c => !isalnum c).filter (· ≠ [])).map (List.map tolower)

/-- What the mapper emits for a word. -/
def record (word : Text) : Text := word ++ [tab, 49]

theorem words_nil : words [] = [] := rfl

theorem words_eq (text : Text) : words text = (runs isalnum text).map (List.map tolower) := rfl

/-- A separator separates words. -/
theorem words_append (left right : Text) {sep : UInt8} (separates : isalnum sep = false) :
    words (left ++ sep :: right) = words left ++ words right := by
  rw [words_eq, runs_append_cons left right separates, List.map_append]
  rfl

/-- No word crosses the end of a line. -/
theorem words_getlines (text : Text) : words text = (getlines text).flatMap words := by
  induction text using getlines.induct with
  | case1 => rw [getlines, if_pos rfl]; rfl
  | case2 text nonempty ih =>
      rw [getlines, if_neg nonempty, List.flatMap_cons, ← ih]
      by_cases found : newline ∈ text
      · obtain ⟨line, rest, rfl, free⟩ := List.eq_append_cons_of_mem found
        obtain ⟨taken, dropped⟩ := cut_at free rest
        rw [taken, dropped, words_append line rest rfl]
        rfl
      · have kept : ∀ c ∈ text, decide (c ≠ newline) = true := fun c inside =>
          decide_eq_true fun same => found (same ▸ inside)
        rw [List.takeWhile_eq_self_iff.mpr kept, List.dropWhile_eq_nil_iff.mpr kept,
          List.drop_nil, words_nil, List.append_nil]

/-- A word is not empty and holds neither a tab nor a newline. -/
theorem word_clean {text word : Text} (inside : word ∈ words text) :
    word ≠ [] ∧ tab ∉ word ∧ newline ∉ word := by
  obtain ⟨run, chosen, rfl⟩ := List.mem_map.mp inside
  obtain ⟨piece, nonempty⟩ := List.mem_filter.mp chosen
  have clean (control : UInt8) (low : control.toNat < 48) : control ∉ run.map tolower := by
    intro member
    obtain ⟨raw, here, same⟩ := List.mem_map.mp member
    have alnum := not_sep_of_mem_splitOnP piece raw here
    have bound := le_tolower (show isalnum raw = true by simpa using alnum)
    rw [same] at bound
    omega
  exact ⟨by simpa using nonempty, clean tab (by decide), clean newline (by decide)⟩

/-! ## What the mapper emits -/

/-- The mapper emits one record for each word, in order. -/
theorem mapper_eq (stdin : Text) : mapper stdin = joinLines ((words stdin).map record) := by
  let emit (out cur : Text) : Text := if cur ≠ [] then out ++ cur ++ ascii "\t1\n" else out
  have flushed (state : Text × Text) : flush state = (emit state.1 state.2, []) := by
    obtain ⟨out, cur⟩ := state
    cases cur with
    | nil => rfl
    | cons c cur => rfl
  have step : mapperStep = scanStep isalnum tolower emit := by
    funext state c
    rw [mapperStep, scanStep, flushed]
  have emitted (chosen : List Text) (nonempty : [] ∉ chosen) (out : Text) :
      chosen.foldl emit out = out ++ joinLines (chosen.map record) := by
    induction chosen generalizing out with
    | nil => exact (List.append_nil out).symm
    | cons word chosen ih =>
        have own : emit out word = out ++ word ++ ascii "\t1\n" :=
          if_pos (List.ne_of_not_mem_cons nonempty).symm
        have line : record word ++ [newline] = word ++ ascii "\t1\n" := List.append_assoc _ _ _
        have first : joinLines ((word :: chosen).map record) =
            word ++ ascii "\t1\n" ++ joinLines (chosen.map record) := by
          rw [List.map_cons, joinLines, List.flatMap_cons, line]
          rfl
        rw [List.foldl_cons, own, ih (List.not_mem_of_not_mem_cons nonempty), first]
        simp only [List.append_assoc]
  have nonempty : [] ∉ words stdin := fun inside => (word_clean inside).1 rfl
  have scanned := foldl_scanStep tolower emit isalnum (fun _ => rfl) stdin []
  rw [← words_eq, emitted _ nonempty, List.nil_append] at scanned
  rw [← scanned, mapper, step, flushed]

/-! ## What the reducer computes -/

/-- A record is one occurrence of its word. -/
theorem reducerStep_record {word : Text} (free : tab ∉ word) (state : ReducerState) :
    reducerStep state (record word) =
      let state :=
        if state.have' ∧ word ≠ state.currentKey then
          { state with
            out := state.out ++ countLine state.currentKey state.total ++ [newline]
            total := 0 }
        else
          state
      if -2 ^ 63 ≤ state.total + 1 ∧ state.total + 1 ≤ 2 ^ 63 - 1 then
        some { state with currentKey := word, total := state.total + 1, have' := true }
      else
        none := by
  obtain ⟨key, value⟩ := cut_at free [49]
  have nonempty : record word ≠ [] := by simp [record]
  have tabbed : tab ∈ record word := by simp [record]
  have key : keyOf (record word) = word := key
  have value : stol (((record word).dropWhile (· ≠ tab)).drop 1) = some 1 := by
    rw [record, value]
    decide
  rw [reducerStep, if_neg nonempty, if_pos tabbed, value, key]
  rfl

theorem reducerStep_first {word : Text} (free : tab ∉ word) (state : ReducerState)
    (first : state.have' = false) (zero : state.total = 0) :
    reducerStep state (record word) =
      some { state with currentKey := word, total := (1 : ℕ), have' := true } := by
  rw [reducerStep_record free]
  simp [first, zero]

theorem reducerStep_again {word : Text} (free : tab ∉ word) {n : ℕ} (small : n + 1 < 2 ^ 63)
    (out : Text) :
    reducerStep ⟨word, n, true, out⟩ (record word) = some ⟨word, (n + 1 : ℕ), true, out⟩ := by
  rw [reducerStep_record free]
  simp only [ne_eq, not_true_eq_false, and_false, if_false]
  rw [if_pos (by omega)]
  rfl

theorem reducerStep_other {word current : Text} (free : tab ∉ word) (other : word ≠ current) (n : ℕ)
    (out : Text) :
    reducerStep ⟨current, n, true, out⟩ (record word) =
      some ⟨word, (1 : ℕ), true, out ++ countLine current n ++ [newline]⟩ := by
  rw [reducerStep_record free]
  simp [other]

/-- The line for a word and the number of its occurrences. -/
def tallyLine (entry : Text × ℕ) : Text := countLine entry.1 entry.2

/-- The loop of the reducer counts the runs. -/
theorem reducer_loop {keys : List Text} (clean : ∀ word ∈ keys, tab ∉ word) (current out : Text)
    {n : ℕ} (small : ∀ entry ∈ countRuns current n keys, entry.2 < 2 ^ 63) :
    ∃ final, (keys.map record).foldlM reducerStep ⟨current, n, true, out⟩ = some final ∧
      final.have' = true ∧ final.out ++ countLine final.currentKey final.total ++ [newline] =
        out ++ joinLines ((countRuns current n keys).map tallyLine) := by
  induction keys generalizing current out n with
  | nil =>
      refine ⟨_, rfl, rfl, ?_⟩
      simp [countRuns, joinLines, tallyLine]
  | cons word keys ih =>
      obtain ⟨free, clean⟩ := List.forall_mem_cons.mp clean
      rw [countRuns] at small ⊢
      rw [List.map_cons, List.foldlM_cons]
      by_cases same : word = current
      · subst same
        rw [if_pos rfl] at small ⊢
        obtain ⟨last, longer, inside⟩ := le_countRuns word (n + 1) keys
        have bound := small _ inside
        rw [reducerStep_again free (by omega) out]
        exact ih clean word out small
      · rw [if_neg same] at small ⊢
        obtain ⟨_, small⟩ := List.forall_mem_cons.mp small
        obtain ⟨final, run, seen, output⟩ :=
          ih clean word (out ++ countLine current n ++ [newline]) small
        rw [reducerStep_other free same n out]
        refine ⟨final, run, seen, ?_⟩
        rw [output, List.map_cons]
        simp [joinLines, tallyLine]

/-- On the sorted records of words the reducer writes one line for each word. -/
theorem reducer_eq {keys : List Text} (clean : ∀ word ∈ keys, tab ∉ word ∧ newline ∉ word)
    (nonempty : keys ≠ []) (sorted : (keys.map record).Pairwise fun a b => textLE a b = true)
    (small : ∀ entry ∈ tallies keys, entry.2 < 2 ^ 63) :
    reducer (joinLines (keys.map record)) = some (joinLines ((tallies keys).map tallyLine)) := by
  have lines : getlines (joinLines (keys.map record)) = keys.map record := by
    apply getlines_joinLines
    intro line inside
    obtain ⟨word, member, rfl⟩ := List.mem_map.mp inside
    rw [record, List.mem_append, not_or]
    exact ⟨(clean word member).2, by decide⟩
  obtain ⟨word, keys, rfl⟩ := List.exists_cons_of_ne_nil nonempty
  have runs : countRuns word 1 keys = tallies (word :: keys) :=
    countRuns_eq_tallies (fun forward backward =>
      List.append_cancel_right (textLE_antisymm forward backward)) (List.pairwise_map.mp sorted) 0
  rw [← runs] at small
  obtain ⟨free, rest⟩ := List.forall_mem_cons.mp clean
  obtain ⟨final, run, seen, output⟩ :=
    reducer_loop (fun word inside => (rest word inside).1) word [] small
  have all : ((word :: keys).map record).foldlM reducerStep ⟨[], 0, false, []⟩ = some final := by
    rw [List.map_cons, List.foldlM_cons, reducerStep_first free.1 _ rfl rfl]
    exact run
  rw [reducer, lines, all, ← runs]
  simp only [Option.bind_eq_bind, Option.bind_some, seen, if_true, output]
  rfl

/-! ## The engine with these programs -/

variable {job : Job}

theorem joinLines_eq_nil {lines : List Text} : joinLines lines = [] ↔ lines = [] := by
  cases lines with
  | nil => simp [joinLines]
  | cons line lines => simp [joinLines]

/-- The words of the chunks are the words of the input. -/
theorem words_chunks_perm (job : Job) :
    ((List.range job.M).flatMap fun m => words (job.chunk m)).Perm (words job.input) := by
  have chunk (m : ℕ) : words (job.chunk m) = (job.fed m).flatMap fun entry => words entry.1 := by
    rw [words_getlines, job.getlines_chunk, List.flatMap_map]
  have lines : words job.input =
      (getlines job.input).zipIdx.flatMap fun entry => words entry.1 := by
    rw [← List.flatMap_map, List.zipIdx_map_fst, ← words_getlines]
  simp only [chunk, lines, ← List.flatMap_assoc]
  exact job.fed_perm.flatMap_right _

/-- The emitted lines are the records of the words of the input. -/
theorem emitted_perm (mapped : job.mapper = mapper) :
    job.emitted.Perm ((words job.input).map record) := by
  have own (m : ℕ) : (if job.chunk m = [] then [] else
      (getlines (job.mapper (job.chunk m))).filter (· ≠ [])) =
        (words (job.chunk m)).map record := by
    have lines : getlines (joinLines ((words (job.chunk m)).map record)) =
        (words (job.chunk m)).map record := by
      apply getlines_joinLines
      intro line inside
      obtain ⟨word, member, rfl⟩ := List.mem_map.mp inside
      rw [record, List.mem_append, not_or]
      exact ⟨(word_clean member).2.2, by decide⟩
    split
    · rename_i empty
      rw [empty]
      rfl
    · rw [mapped, mapper_eq, lines]
      refine List.filter_eq_self.mpr fun line inside => ?_
      obtain ⟨word, _, rfl⟩ := List.mem_map.mp inside
      simp [record]
  simp only [Job.emitted, own, ← List.map_flatMap]
  exact (words_chunks_perm job).map record

theorem keyOf_record {text word : Text} (inside : word ∈ words text) : keyOf (record word) = word :=
  (cut_at (word_clean inside).2.1 [49]).1

/-- The words whose records reducer `r` reads, in its order. -/
def keys (job : Job) (r : ℕ) : List Text := (job.sortedRecords r).map keyOf

/-- A reducer reads records of the words that the hash sends to it. -/
theorem keys_spec (mapped : job.mapper = mapper) (r : ℕ) :
    job.sortedRecords r = (keys job r).map record ∧
      (keys job r).Perm ((words job.input).filter fun word => job.hasher word % job.R = r) := by
  have perm : (job.sortedRecords r).Perm
      (((words job.input).filter fun word => job.hasher word % job.R = r).map record) := by
    refine (job.sortedRecords_perm r).trans (((emitted_perm mapped).filter _).trans ?_)
    rw [List.filter_map]
    refine List.Perm.of_eq (congrArg _ (List.filter_congr fun word inside => ?_))
    rw [Function.comp_apply, Job.route, keyOf_record inside]
  constructor
  · rw [keys, List.map_map]
    refine (List.map_id' _).symm.trans (List.map_congr_left fun line inside => ?_)
    obtain ⟨word, chosen, rfl⟩ := List.mem_map.mp (perm.mem_iff.mp inside)
    rw [Function.comp_apply, keyOf_record (List.mem_of_mem_filter chosen)]
  · refine (perm.map keyOf).trans ?_
    rw [List.map_map]
    refine List.Perm.of_eq ((List.map_congr_left fun word chosen => ?_).trans (List.map_id' _))
    exact keyOf_record (List.mem_of_mem_filter chosen)

theorem clean_of_keys (mapped : job.mapper = mapper) {r : ℕ} {word : Text}
    (inside : word ∈ keys job r) : tab ∉ word ∧ newline ∉ word :=
  (word_clean (List.mem_of_mem_filter ((keys_spec mapped r).2.mem_iff.mp inside))).2

/-- The counts of the reducers together are the counts of the input. -/
theorem tallies_keys_perm (mapped : job.mapper = mapper) :
    ((List.range job.R).flatMap fun r => tallies (keys job r)).Perm (tallies (words job.input)) :=
  (List.Perm.flatMap_left _ fun r _ => tallies_perm (keys_spec mapped r).2).trans
    (tallies_classes_perm (fun word => job.hasher word % job.R) fun _ _ => Nat.mod_lt _ job.R_pos)

/-- A reduce task writes one line for each of its words. -/
theorem sequentialOutput_eq (mapped : job.mapper = mapper)
    (reduced : ∀ input output, reducer input = some output → job.reducer input = output)
    (small : ∀ entry ∈ tallies (words job.input), entry.2 < 2 ^ 63) {r : ℕ} (known : r < job.R) :
    job.sequentialOutput r = joinLines ((tallies (keys job r)).map tallyLine) := by
  have records := (keys_spec mapped r).1
  have input : reduceInput (job.gather (List.range job.M) r) =
      joinLines ((keys job r).map record) := by
    rw [← records, ← job.sequentialInput_eq, Job.sequentialInput]
  rw [Job.sequentialOutput, Job.reduced, input]
  by_cases empty : keys job r = []
  · rw [if_pos (by rw [empty]; rfl), empty]
    rfl
  · have nonempty : joinLines ((keys job r).map record) ≠ [] := by
      rw [ne_eq, joinLines_eq_nil, List.map_eq_nil_iff]
      exact empty
    rw [if_neg nonempty]
    refine reduced _ _ (reducer_eq (fun word inside => clean_of_keys mapped inside) empty ?_ ?_)
    · rw [← records]
      exact List.pairwise_mergeSort textLE_trans textLE_total _
    · intro entry inside
      exact small entry ((tallies_keys_perm mapped).mem_iff.mp
        (List.mem_flatMap.mpr ⟨r, List.mem_range.mpr known, inside⟩))

theorem newline_notMem_tallyLine {entry : Text × ℕ} (clean : newline ∉ entry.1) :
    newline ∉ tallyLine entry := by
  rw [tallyLine, countLine, List.mem_append, List.mem_append, not_or, not_or]
  exact ⟨⟨clean, by decide⟩, newline_notMem_decimalInt _⟩

/-- The part files hold whole lines, and together one line with its count for each word of the input
and no other line. -/
def Counted (job : Job) (files : Text → Option Text) : Prop :=
  ∃ outputs : ℕ → Text,
    (∀ r < job.R, files (job.path r) = some (outputs r) ∧
      outputs r = joinLines (getlines (outputs r))) ∧
    ((List.range job.R).flatMap fun r => getlines (outputs r)).Perm
      ((tallies (words job.input)).map tallyLine)

theorem pathsDistinct_of_short {outDir : Text} {R : ℕ}
    (short : ∀ r < R, (outDir.takeWhile (· ≠ 0) ++ ascii "/part-" ++ decimal r).length < 512) :
    PathsDistinct outDir R := by
  intro r r' small small' same
  rw [partPath, partPath, List.take_of_length_le (Nat.le_of_lt_succ (short r small)),
    List.take_of_length_le (Nat.le_of_lt_succ (short r' small'))] at same
  exact decimal_injective (List.append_cancel_left same)

/-- Word count end to end: with the mapper and the reducer that come with it, every run of `mr` can
be completed, and a complete run leaves the counts of the words. -/
theorem counts_words {job : Job} (mapped : job.mapper = mapper)
    (reduced : ∀ input output, reducer input = some output → job.reducer input = output)
    (opens : ∀ r < job.R, job.opens (job.path r) = true)
    (short : ∀ r < job.R,
      (job.outDir.takeWhile (· ≠ 0) ++ ascii "/part-" ++ decimal r).length < 512)
    (small : ∀ entry ∈ tallies (words job.input), entry.2 < 2 ^ 63)
    {disk : Text → Option Text} {state : State} (reach : (machine job disk).Reachable .free state) :
    (∃ final, (machine job disk).Leads .free state final ∧ final.Complete job) ∧
      (state.Complete job → Counted job state.files) := by
  refine ⟨can_complete reach, fun complete => ?_⟩
  have lines {r : ℕ} (known : r < job.R) :
      getlines (job.sequentialOutput r) = (tallies (keys job r)).map tallyLine := by
    rw [sequentialOutput_eq mapped reduced small known]
    apply getlines_joinLines
    intro line inside
    obtain ⟨entry, member, rfl⟩ := List.mem_map.mp inside
    obtain ⟨word, present, rfl⟩ := List.mem_map.mp member
    exact newline_notMem_tallyLine (clean_of_keys mapped (List.mem_dedup.mp present)).2
  refine ⟨job.sequentialOutput, fun r known => ⟨?_, ?_⟩, ?_⟩
  · have progress := (faithful_of_reachable reach).progress r known
    rw [complete.2 r known] at progress
    rw [progress.2 (pathsDistinct_of_short short), if_pos (opens r known)]
  · rw [lines known, sequentialOutput_eq mapped reduced small known]
  · have all : ((List.range job.R).flatMap fun r => getlines (job.sequentialOutput r)) =
        ((List.range job.R).flatMap fun r => tallies (keys job r)).map tallyLine := by
      rw [List.map_flatMap]
      exact List.flatMap_congr fun r inside => lines (List.mem_range.mp inside)
    rw [all]
    exact (tallies_keys_perm mapped).map tallyLine

/-- Two lines in two chunks, the second without its newline, with a word in both. -/
def twoLines : Job where
  input := ascii "b, a\nA!"
  M := 2
  R := 2
  M_pos := Nat.two_pos
  R_pos := Nat.two_pos
  hasher := List.length
  mapper := mapper
  reducer input := (reducer input).getD []
  outDir := ascii "out"
  opens _ := true

theorem counts_words_twoLines :
    (∃ final, (machine twoLines fun _ => none).Reachable .free final ∧
      final.Complete twoLines ∧ Counted twoLines final.files) ∧
      (tallies (words twoLines.input)).map tallyLine = [ascii "b\t1", ascii "a\t2"] := by
  constructor
  · obtain ⟨final, reach, complete, _⟩ :=
      complete_run (List.Perm.refl (List.range twoLines.R)) fun _ => none
    have reduced (input output : Text) (done : reducer input = some output) :
        twoLines.reducer input = output := by
      change (reducer input).getD [] = output
      rw [done, Option.getD_some]
    have counted := counts_words rfl reduced (fun _ _ => rfl) (by decide +kernel)
      (by decide +kernel) reach
    exact ⟨final, reach, complete, counted.2 complete⟩
  · decide +kernel

end WordCount
end MapReduce
end Syscore
