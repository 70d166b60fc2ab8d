import Mathlib.Data.Fin.VecNotation
import Syscore.Library.Chain
import Syscore.MapReduce.WordCount

/-!
# Running a filter

`runFilter` of `src/mapreduce/mr.cc` on the descriptors that `subprocess` returns: a thread writes
the input to the child, the caller drains what the child writes, and then joins the thread and waits
for the child. Both pipes are bounded. The end of the input of the child is that the thread has
closed `supplyfd`, the end of its output that the child is gone; nobody else holds these ends.
-/

namespace Syscore
namespace MapReduce

variable {σ : Type*}

/-- Where the writer thread, the child and the loop of the caller are. -/
inductive FilterCode (σ : Type*)
  /-- The loop of `writer`. -/
  | writer (input : Text)
  /-- `writer` closes `supplyfd`. -/
  | written
  | child (code : σ)
  /-- The loop that reads `ingestfd`. -/
  | reader (out : Text)
  /-- The caller closes `ingestfd`. -/
  | drained (out : Text)

namespace FilterCode

/-- The next action of each. -/
def act (act : σ → FilterAct UInt8 σ) : FilterCode σ → FilterAct UInt8 (FilterCode σ)
  | writer input => .write input written
  | written => .exit
  | child code => (act code).map child
  | reader out => .read fun bytes => if bytes = [] then drained out else reader (out ++ bytes)
  | drained _ => .exit

/-- What the loop of the caller has read. -/
def out : FilterCode σ → Text
  | reader out | drained out => out
  | _ => []

end FilterCode

/-- Where the caller is after its loop, or that `SIGPIPE` has killed the process. -/
inductive FilterPc
  | join
  | waitpid
  | returned
  | killed
  deriving DecidableEq

/-- The one proof that the numbers of the three programs cite. -/
local instance neZero_three : NeZero 3 := ⟨Nat.succ_ne_zero 2⟩

/-- A call of `runFilter`: its thread, the child and its loop as a chain, and what follows. -/
structure RunFilter (σ : Type*) where
  chain : Chain UInt8 (FilterCode σ) 3
  pc : FilterPc := .join

namespace RunFilter

/-- What is returned. -/
def out (state : RunFilter σ) : Text := (state.chain.stages 2).code.out

/-- The writer thread was in a write when it died. -/
def Killed (chain : Chain UInt8 (FilterCode σ) 3) : Prop :=
  (chain.stages 0).live = false ∧ (chain.stages 0).pending ≠ []

instance (chain : Chain UInt8 (FilterCode σ) 3) : Decidable (Killed chain) :=
  inferInstanceAs (Decidable (_ ∧ _))

/-- The next step of the thread, the child or the loop, or of what follows the loop. -/
inductive Label
  | moves (label : ChainLabel 3)
  | caller

def step (act : σ → FilterAct UInt8 σ) (capacity : ℕ) (state : RunFilter σ) :
    Label → Option (RunFilter σ)
  | .moves label =>
      if state.pc = .killed then none
      else
        (state.chain.step (FilterCode.act act) capacity label).map fun chain =>
          { chain, pc := if Killed chain then .killed else state.pc }
  | .caller =>
      match state.pc with
      | .join =>
          if (state.chain.stages 2).live = false ∧ (state.chain.stages 0).live = false then
            some { state with pc := .waitpid }
          else
            none
      | .waitpid =>
          if (state.chain.stages 1).live = false then some { state with pc := .returned } else none
      | .returned | .killed => none

end RunFilter

/-- The programs at their start. -/
def filterStart (code : σ) (input : Text) : Fin 3 → FilterCode σ :=
  ![.writer input, .child code, .reader []]

/-- A call of `runFilter` with this input and a child that begins at `code`. -/
def runFilter (act : σ → FilterAct UInt8 σ) (capacity : ℕ) (code : σ) (input : Text) :
    Machine (RunFilter σ) RunFilter.Label where
  start state := state = { chain := .start (filterStart code input) [] }
  step := RunFilter.step act capacity

/-! ## The three programs -/

namespace FilterCode

variable {act : σ → FilterAct UInt8 σ}

theorem act_child (code : σ) : FilterCode.act act (child code) = (act code).map child := rfl

/-- The thread writes its input, whatever there is to read. -/
theorem writer_ran {input consumed emitted : Text} {ended : Bool} {now : FilterCode σ}
    (ran : Ran (FilterCode.act act) (writer input) consumed ended emitted now) :
    (now = writer input ∧ emitted = [] ∨ now = written ∧ emitted = input) ∧
      consumed = [] ∧ ended = false := by
  induction ran with
  | start => exact ⟨.inl ⟨rfl, rfl⟩, rfl, rfl⟩
  | chunk _ reads _ ih | ends _ reads ih =>
      rcases ih.1 with ⟨rfl, -⟩ | ⟨rfl, -⟩ <;> cases reads
  | write _ writes ih =>
      rcases ih.1 with ⟨rfl, rfl⟩ | ⟨rfl, -⟩
      · obtain ⟨rfl, rfl⟩ := FilterAct.write.inj writes
        exact ⟨.inr ⟨rfl, rfl⟩, ih.2⟩
      · cases writes

/-- The loop of the caller keeps what it reads. -/
theorem reader_ran {consumed emitted : Text} {ended : Bool} {now : FilterCode σ}
    (ran : Ran (FilterCode.act act) (reader []) consumed ended emitted now) :
    (now = reader consumed ∨ now = drained consumed ∧ ended = true) ∧ emitted = [] := by
  induction ran with
  | start => exact ⟨.inl rfl, rfl⟩
  | chunk _ reads some ih =>
      rcases ih.1 with rfl | ⟨rfl, -⟩
      · obtain rfl := FilterAct.read.inj reads
        exact ⟨.inl (if_neg some), ih.2⟩
      · cases reads
  | ends _ reads ih =>
      rcases ih.1 with rfl | ⟨rfl, -⟩
      · obtain rfl := FilterAct.read.inj reads
        exact ⟨.inr ⟨if_pos rfl, rfl⟩, ih.2⟩
      · cases reads
  | write _ writes ih => rcases ih.1 with rfl | ⟨rfl, -⟩ <;> cases writes

theorem halting (halting : Halting act) : Halting (FilterCode.act act) := by
  have finished {code : FilterCode σ} (rest : Text) (exits : FilterCode.act act code = .exit) :
      Acc (fun after before => Consumes (FilterCode.act act) before after) (code, rest) := by
    refine ⟨_, fun after step => ?_⟩
    cases step with
    | chunk reads | ends reads => cases exits.symm.trans reads
    | write writes => cases exits.symm.trans writes
  refine ⟨fun ⟨code, rest⟩ => ?_⟩
  cases code with
  | child code => exact halting.acc_map act_child code rest
  | written | drained _ => exact finished rest rfl
  | writer input =>
      refine ⟨_, fun after step => ?_⟩
      cases step with
      | chunk reads | ends reads => cases reads
      | write writes =>
          obtain ⟨-, rfl⟩ := FilterAct.write.inj writes
          exact finished rest rfl
  | reader out =>
      induction size : rest.length using Nat.strong_induction_on generalizing rest out with
      | _ size ih =>
          refine ⟨_, fun after step => ?_⟩
          cases step with
          | @chunk _ _ bytes rest reads some =>
              obtain rfl := FilterAct.read.inj reads
              have positive := List.length_pos_iff.mpr some
              beta_reduce
              rw [if_neg some]
              rw [List.length_append] at size
              exact ih rest.length (by omega) rest _ rfl
          | ends reads =>
              obtain rfl := FilterAct.read.inj reads
              exact finished [] rfl
          | write writes => cases writes

end FilterCode

/-! ## Every run returns -/

variable {act : σ → FilterAct UInt8 σ} {capacity : ℕ} {code : σ} {input : Text}
  {image : Text → Text} {state after : RunFilter σ}

/-- Only the writer thread does without its input. -/
theorem drains_filterStart (drains : Drains act code) (input : Text) (i : Fin 3)
    (later : i.val ≠ 0) : Drains (FilterCode.act act) (filterStart code input i) := by
  match i with
  | 0 => exact absurd rfl later
  | 1 =>
      intro consumed ended emitted now ran exits
      obtain ⟨now, rfl, alone⟩ := ran.of_map FilterCode.act_child
      exact drains consumed ended emitted now alone (FilterAct.of_map_exit exits)
  | 2 =>
      intro consumed ended emitted now ran exits
      rcases (FilterCode.reader_ran ran).1 with rfl | ⟨-, ended⟩
      · cases exits
      · exact ended

namespace RunFilter

/-- What holds in every state of a call. -/
structure Known (act : σ → FilterAct UInt8 σ) (capacity : ℕ) (code : σ) (input : Text)
    (state : RunFilter σ) : Prop where
  reach : (Syscore.chain (FilterCode.act act) capacity (filterStart code input) []).Reachable .free
    state.chain
  killed : state.pc = .killed → Killed state.chain
  joined : state.pc = .waitpid ∨ state.pc = .returned →
    (state.chain.stages 2).live = false ∧ (state.chain.stages 0).live = false
  reaped : state.pc = .returned → (state.chain.stages 1).live = false

theorem known_of_reachable (reach : (runFilter act capacity code input).Reachable .free state) :
    Known act capacity code input state := by
  refine reach.invariant (Known act capacity code input) ?_ ?_
  · rintro _ rfl
    exact ⟨.of_start rfl, nofun, nofun, nofun⟩
  rintro before label after known - taken
  cases label with
  | moves label =>
      replace taken : step act capacity before (.moves label) = some after := taken
      rw [step] at taken
      split at taken
      · cases taken
      rename_i alive
      obtain ⟨chain, moved, rfl⟩ := Option.map_eq_some_iff.mp taken
      have move := Chain.move_of_step moved
      have stays {i : Fin 3} (dead : (before.chain.stages i).live = false) :
          (chain.stages i).live = false := Chain.dead_of_move move dead
      refine ⟨known.reach.next trivial moved, fun killed => ?_, fun pc => ?_, fun pc => ?_⟩
      · dsimp only at killed
        split at killed
        · assumption
        · exact absurd killed alive
      · dsimp only at pc
        split at pc
        · rcases pc with pc | pc <;> cases pc
        · exact ⟨stays (known.joined pc).1, stays (known.joined pc).2⟩
      · dsimp only at pc
        split at pc
        · cases pc
        · exact stays (known.reaped pc)
  | caller =>
      replace taken : step act capacity before .caller = some after := taken
      rw [step] at taken
      split at taken
      · split at taken
        · rename_i finished
          obtain rfl := Option.some.inj taken
          exact ⟨known.reach, nofun, fun _ => finished, nofun⟩
        · cases taken
      · split at taken
        · rename_i pc reaped
          obtain rfl := Option.some.inj taken
          exact ⟨known.reach, nofun, fun _ => known.joined (.inl pc), fun _ => reaped⟩
        · cases taken
      · cases taken
      · cases taken

/-- A child that reads to the end of its input never breaks the pipe to it. -/
theorem Known.unkilled (known : Known act capacity code input state) (drains : Drains act code) :
    state.pc ≠ .killed := by
  intro killed
  obtain ⟨dead, busy⟩ := known.killed killed
  obtain ⟨past, flows⟩ := Chain.flows_of_reachable known.reach
  exact busy (flows.exited (drains_filterStart drains input) dead).2

/-- What is returned is the image of the input. -/
theorem Known.out_eq (known : Known act capacity code input state)
    (computes : Computes act code image) (returned : state.pc = .returned) :
    state.out = image input := by
  obtain ⟨past, flows⟩ := Chain.flows_of_reachable known.reach
  have drains := drains_filterStart computes.drains input
  obtain ⟨second, first⟩ := known.joined (.inr returned)
  have writer := FilterCode.writer_ran (flows.ran 0)
  have reader := FilterCode.reader_ran (flows.ran 2)
  have fed := flows.consumed_succ drains (i := 0) (j := 1) rfl (known.reaped returned)
  have drained := flows.consumed_succ drains (i := 1) (j := 2) rfl second
  have child := (computes.map FilterCode.act_child _ _ _ _ (flows.ran 1)
    (flows.exited drains (known.reaped returned)).1).2
  rcases writer.1 with ⟨still, -⟩ | ⟨-, wrote⟩
  · have exits := (flows.exited drains first).1
    rw [still] at exits
    cases exits
  · rw [drained, child, fed, wrote] at reader
    rw [out]
    rcases reader.1 with here | ⟨here, -⟩
    · rw [here]
      rfl
    · rw [here]
      rfl

/-- What is left of the call after its loop. -/
def left : FilterPc → ℕ
  | .join => 2
  | .waitpid => 1
  | .returned | .killed => 0

/-- A call that has neither returned nor been killed can go on. -/
theorem exists_step (positive : 0 < capacity) (alive : state.pc ≠ .killed)
    (running : state.pc ≠ .returned) :
    ∃ label, (step act capacity state label).isSome = true := by
  by_cases finished : ∀ i, (state.chain.stages i).live = false
  · refine ⟨.caller, ?_⟩
    rw [step]
    cases pc : state.pc with
    | join =>
        dsimp only
        rw [if_pos ⟨finished 2, finished 0⟩]
        rfl
    | waitpid =>
        dsimp only
        rw [if_pos (finished 1)]
        rfl
    | returned => exact absurd pc running
    | killed => exact absurd pc alive
  · obtain ⟨i, live⟩ := not_forall.mp finished
    obtain ⟨label, moves⟩ := Chain.enabled_of_live (FilterCode.act act) positive
      ((Bool.not_eq_false _).mp live)
    refine ⟨.moves label, ?_⟩
    rw [step, if_neg alive, Option.isSome_map]
    exact moves

/-- A step lowers what the chain can still do, or what is left after it. -/
theorem lower_of_step {label : Label} (taken : step act capacity state label = some after)
    (alive : after.pc ≠ .killed) :
    Prod.Lex (Pi.Lex (· < ·) fun {_ : Fin 3} => Chain.Lower (FilterCode.act act)) (· < ·)
      (after.chain.measure, left after.pc) (state.chain.measure, left state.pc) := by
  cases label with
  | moves label =>
      rw [step] at taken
      split at taken
      · cases taken
      obtain ⟨chain, moved, rfl⟩ := Option.map_eq_some_iff.mp taken
      have move := Chain.move_of_step moved
      exact .left _ _
        ⟨label.1, fun j before => Chain.measure_of_move move before, Chain.lower_of_move move⟩
  | caller =>
      rw [step] at taken
      split at taken
      · rename_i pc
        split at taken
        · obtain rfl := Option.some.inj taken
          rw [pc]
          exact .right _ (Nat.lt_succ_self 1)
        · cases taken
      · rename_i pc
        split at taken
        · obtain rfl := Option.some.inj taken
          rw [pc]
          exact .right _ Nat.one_pos
        · cases taken
      · cases taken
      · cases taken

end RunFilter

/-- With a child that halts and reads to the end of its input, whatever the two pipes hold and
however the reads and writes are cut and interleaved: `SIGPIPE` never kills the process, every run
comes to the return, and what is returned is what the child computes on the whole input. -/
theorem runFilter_returns (positive : 0 < capacity) (halting : Halting act)
    (computes : Computes act code image)
    (reach : (runFilter act capacity code input).Reachable .free state) :
    state.pc ≠ .killed ∧ (state.pc = .returned → state.out = image input) ∧
      (runFilter act capacity code input).Inevitable .free (fun state => state.pc = .returned)
        state := by
  have known := RunFilter.known_of_reachable reach
  refine ⟨known.unkilled computes.drains, known.out_eq computes, ?_⟩
  have lower := (Prod.lex ⟨_, Chain.wellFounded_lower (n := 3) (FilterCode.halting halting)⟩
    Nat.lt_wfRel).wf
  refine Machine.inevitable_of_wellFounded lower
    (fun state : RunFilter σ => (state.chain.measure, RunFilter.left state.pc))
    (fun state reach => ?_) (fun before after reach step => ?_) reach
  · by_cases returned : state.pc = .returned
    · exact .inl returned
    · have alive := (RunFilter.known_of_reachable reach).unkilled computes.drains
      obtain ⟨label, moves⟩ := RunFilter.exists_step positive alive returned
      obtain ⟨next, moved⟩ := Option.isSome_iff_exists.mp moves
      exact .inr ⟨next, label, trivial, moved⟩
  · obtain ⟨label, permitted, taken⟩ := step
    have later := reach.next permitted taken
    have alive := (RunFilter.known_of_reachable later).unkilled computes.drains
    exact ⟨later, RunFilter.lower_of_step taken alive⟩

/-! ## The mapper behind its pipes -/

/-- `main` of the mapper, that looks at one character after the other: the state is `cur`. -/
def mapperScanner : Scanner UInt8 Text where
  step cur c := ((WordCount.mapperStep ([], cur) c).2, (WordCount.mapperStep ([], cur) c).1)
  final cur := (WordCount.flush ([], cur)).1

theorem flush_eq (out cur : Text) :
    WordCount.flush (out, cur) =
      (out ++ (WordCount.flush ([], cur)).1, (WordCount.flush ([], cur)).2) := by
  rw [WordCount.flush, WordCount.flush]
  split
  · simp only [List.nil_append, List.append_assoc]
  · simp only [List.append_nil]

theorem mapperStep_eq (out cur : Text) (c : UInt8) :
    WordCount.mapperStep (out, cur) c =
      (out ++ (WordCount.mapperStep ([], cur) c).1, (WordCount.mapperStep ([], cur) c).2) := by
  rw [WordCount.mapperStep, WordCount.mapperStep]
  split
  · simp only [List.append_nil]
  · exact flush_eq out cur

theorem foldl_mapperStep (out cur text : Text) :
    text.foldl WordCount.mapperStep (out, cur) =
      (out ++ (mapperScanner.scan cur text).2, (mapperScanner.scan cur text).1) := by
  induction text generalizing out cur with
  | nil => simp only [List.foldl_nil, Scanner.scan, List.append_nil]
  | cons c text ih =>
      rw [List.foldl_cons, mapperStep_eq, ih]
      simp only [Scanner.scan, mapperScanner, List.append_assoc]

theorem mapperScanner_image (stdin : Text) :
    mapperScanner.image [] stdin = WordCount.mapper stdin := by
  rw [WordCount.mapper, foldl_mapperStep, flush_eq]
  rfl

/-- The supplied mapper behind pipes of one byte. -/
theorem runFilter_returns_mapper :
    let input := ascii "To be, or not\n"
    let call := runFilter mapperScanner.act 1 (.reading []) input
    let state : RunFilter _ := { chain := .start (filterStart (.reading []) input) [] }
    state.pc ≠ .killed ∧ (state.pc = .returned → state.out = WordCount.mapper input) ∧
      call.Inevitable .free (fun state => state.pc = .returned) state := by
  intro input call state
  rw [← mapperScanner_image]
  exact runFilter_returns Nat.one_pos mapperScanner.halting (mapperScanner.computes [])
    (.of_start rfl)

end MapReduce
end Syscore
