import Mathlib.Data.List.FinRange
import Syscore.Library.Grouping
import Syscore.Multiprocessing.Delivery

/-!
# The numbers of stdin

The manager hands out the numbers in the order in which it reads them, and when it has waited for
all workers every number has been printed with its factors, once.
-/

namespace Syscore
namespace Multiprocessing

variable {n : ℕ} {state after : Farm n} {numbers : List ℤ}

/-- The integer that a line spells, blanks before it apart. -/
def spelled (line : Text) : Option ℤ :=
  let (digits, value, rest) := splitInt (line.dropWhile isspace)
  if digits ≠ [] ∧ rest = [] then some value else none

/-- A line that spells an integer is taken whole, if `stoll` does not throw. -/
theorem stoll_of_spelled {line : Text} {value num : ℤ} {endpos : ℕ}
    (spells : spelled line = some value) (number : stoll line = some (num, endpos)) :
    num = value ∧ endpos = line.length := by
  rw [spelled] at spells
  rw [stoll] at number
  dsimp only at spells number
  split at spells
  · rename_i whole
    split at number
    · cases number
    · obtain ⟨rfl, rfl⟩ := Prod.mk.inj (Option.some.inj number)
      rw [whole.2, List.length_nil, Nat.sub_zero]
      exact ⟨Option.some.inj spells, rfl⟩
  · cases spells

/-- The integer that a line spells, if it fits a `long long`. -/
def fitting (line : Text) : Option ℤ :=
  (spelled line).filter fun value => -2 ^ 63 ≤ value ∧ value ≤ 2 ^ 63 - 1

theorem spelled_of_fitting {line : Text} {value : ℤ} (fits : fitting line = some value) :
    spelled line = some value :=
  (Option.filter_eq_some_iff.mp fits).1

/-- The lines that `stoll` takes whole. -/
theorem stoll_eq_iff {line : Text} {num : ℤ} :
    stoll line = some (num, line.length) ↔ fitting line = some num := by
  have empty : line = [] → (splitInt (line.dropWhile isspace)).1 = [] := by
    rintro rfl
    rfl
  rw [fitting, Option.filter_eq_some_iff, decide_eq_true_eq, spelled, stoll]
  generalize splitInt (line.dropWhile isspace) = parts at empty ⊢
  obtain ⟨digits, value, rest⟩ := parts
  dsimp only at empty ⊢
  constructor
  · intro number
    split at number
    · cases number
    · rename_i accepted
      obtain ⟨some, inRange⟩ := not_or.mp accepted
      obtain ⟨rfl, all⟩ := Prod.mk.inj (Option.some.inj number)
      have read : rest = [] := by
        by_contra left
        have positive := List.length_pos_iff.mpr left
        exact some (empty (List.length_eq_zero_iff.mp (by omega)))
      rw [if_pos ⟨some, read⟩]
      exact ⟨rfl, not_not.mp inRange⟩
  · rintro ⟨spells, inRange⟩
    split at spells
    · rename_i whole
      obtain rfl := Option.some.inj spells
      rw [if_neg (not_or.mpr ⟨whole.1, not_not.mpr inRange⟩), whole.2, List.length_nil,
        Nat.sub_zero]
    · cases spells

/-! ## The intake -/

/-- Whether the manager has a number that it has not written. -/
def ManagerPc.carrying : ManagerPc n → Bool
  | .block | .check | .suspend | .unblock | .assertAvailable | .scan _ | .assertFound _
  | .unavailable _ | .decrement _ | .write _ => true
  | _ => false

/-- Whether the manager is done with stdin. -/
def ManagerPc.fed : ManagerPc n → Bool
  | .blockAll | .checkAll | .suspendAll | .unblockAll | .ignoreChildren | .close _ | .resumeLast _
  | .waitpid _ | .done => true
  | _ => false

/-- Whether the process of the manager is over before that. -/
def ManagerPc.aborted : ManagerPc n → Bool
  | .failed | .terminated => true
  | _ => false

/-- The manager has taken the first lines, each a number, and is done with stdin only before a line
that is no number and that `stoll` does not throw on. -/
def Intake (lines : List Text) (state : Farm n) : Prop :=
  ∃ taken rest, lines = taken ++ rest ∧
    taken.map fitting =
      (state.writes.map Prod.snd ++ if state.pc.carrying then [state.num] else []).map some ∧
    (state.pc.fed = false → state.pc.aborted = false → state.stdin.lines = rest) ∧
    (state.pc.fed = true → ∀ line ∈ rest.head?, fitting line = none ∧ (stoll line).isSome = true)

variable {lines : List Text}

/-- A step that reads and writes no number. -/
theorem Intake.keep (intake : Intake lines state) (writes : after.writes = state.writes)
    (num : after.num = state.num) (stdin : after.stdin = state.stdin)
    (carrying : after.pc.carrying = state.pc.carrying) (fed : after.pc.fed = state.pc.fed)
    (aborted : after.pc.aborted = state.pc.aborted) : Intake lines after := by
  rw [Intake, writes, num, stdin, carrying, fed, aborted]
  exact intake

/-- The process of the manager ends. -/
theorem Intake.abort (intake : Intake lines state) (writes : after.writes = state.writes)
    (aborted : after.pc.aborted = true) : Intake lines after := by
  obtain ⟨taken, rest, all, numbers, -, -⟩ := intake
  have shape : after.pc.carrying = false ∧ after.pc.fed = false := by
    cases here : after.pc <;> rw [here] at aborted <;> first | exact ⟨rfl, rfl⟩ | cases aborted
  rw [List.map_append] at numbers
  obtain ⟨written, lost, rfl, numbers, -⟩ := List.map_eq_append_iff.mp numbers
  refine ⟨written, lost ++ rest, ?_, ?_, ?_, ?_⟩
  · rw [all, List.append_assoc]
  · rw [numbers, writes, shape.1, if_neg Bool.false_ne_true, List.append_nil]
  · intro _ running
    rw [aborted] at running
    cases running
  · intro ended
    rw [shape.2] at ended
    cases ended

/-- The next line of stdin. -/
theorem Intake.line (intake : Intake lines state) (position : state.pc = .getline)
    (whole : (state.stdin.getline []).2.fail = false) :
    ∃ taken rest, lines = taken ++ (state.stdin.getline []).1 :: rest ∧
      taken.map fitting = (state.writes.map Prod.snd).map some ∧
      (state.stdin.getline []).2.lines = rest := by
  obtain ⟨taken, rest, all, numbers, remaining, -⟩ := intake
  rw [position] at numbers remaining
  have left := remaining rfl rfl
  cases shape : state.stdin.lines with
  | nil =>
      rw [IStream.getline_of_nil shape []] at whole
      cases whole
  | cons line later =>
      obtain ⟨here, -, next⟩ := IStream.getline_of_cons shape []
      refine ⟨taken, later, ?_, ?_, next⟩
      · rw [all, here, ← left, shape]
      · rw [numbers]
        simp [ManagerPc.carrying]

theorem Intake.goes (intake : Intake lines state) {pc : ManagerPc n} {blocked : Bool}
    (goes : Goes state pc) : Intake lines { state with pc, blocked } := by
  cases goes with
  | _ position =>
      exact intake.keep rfl rfl rfl (by rw [position]; rfl) (by rw [position]; rfl)
        (by rw [position]; rfl)

theorem Intake.managerMove (intake : Intake lines state) (move : ManagerMove state after) :
    Intake lines after := by
  cases move with
  | goes goes => exact intake.goes goes
  | ends position read ended =>
      subst read
      obtain ⟨taken, rest, all, numbers, remaining, -⟩ := intake
      rw [position] at numbers remaining
      have left := remaining rfl rfl
      refine ⟨taken, rest, all, numbers, nofun, fun _ line first => ?_⟩
      cases shape : state.stdin.lines with
      | nil =>
          rw [← left, shape] at first
          cases first
      | cons line later =>
          have read := (IStream.getline_of_cons shape []).2.1
          rw [ended] at read
          cases read
  | throws position | noneAvailable position | noneFound position => exact intake.abort rfl rfl
  | rejects position read whole number garbage =>
      subst read
      obtain ⟨taken, rest, all, numbers, -⟩ := intake.line position whole
      refine ⟨taken, _ :: rest, all, ?_, nofun, fun _ line first => ?_⟩
      · rw [numbers]
        simp [ManagerPc.carrying]
      · obtain rfl := Option.some.inj first
        refine ⟨?_, by rw [number]; rfl⟩
        rw [Option.eq_none_iff_forall_ne_some]
        intro value fits
        rw [stoll_eq_iff.mpr fits] at number
        exact garbage (Prod.mk.inj (Option.some.inj number)).2.symm
  | takes position read whole number =>
      subst read
      obtain ⟨taken, rest, all, numbers, remaining⟩ := intake.line position whole
      refine ⟨taken ++ [(state.stdin.getline []).1], rest, ?_, ?_, fun _ _ => remaining, nofun⟩
      · rw [all, List.append_assoc, List.singleton_append]
      · rw [List.map_append, numbers, List.map_singleton, stoll_eq_iff.mp number, List.map_append]
        rfl
  | write position =>
      obtain ⟨taken, rest, all, numbers, remaining, -⟩ := intake
      rw [position] at numbers remaining
      refine ⟨taken, rest, all, ?_, fun _ _ => remaining rfl rfl, nofun⟩
      rw [numbers]
      simp [ManagerPc.carrying]
  | pipe position | fork position | closeRead position | register position
  | unavailable position | decrement position | resume position | close position
  | resumeLast position | returns position =>
      exact intake.keep rfl rfl rfl (by rw [position]; rfl) (by rw [position]; rfl)
        (by rw [position]; rfl)

theorem Intake.step (intake : Intake lines state) {label : FarmLabel n}
    (taken : state.step label = some after) : Intake lines after := by
  cases farmMove_of_step taken with
  | manager move => exact intake.managerMove move
  | sigchld =>
      refine intake.keep rfl rfl rfl ?_ ?_ ?_
      all_goals
        simp only [Farm.markWorkersAsAvailable]
        cases state.pc <;> rfl
  | worker moved => exact intake.keep rfl rfl rfl rfl rfl rfl
  | pipeFails | forkFails => exact intake.abort rfl rfl

theorem intake_of_reachable {text : Text} {allowed : Discipline (Farm n) (FarmLabel n)}
    (reach : (farm n text).Reachable allowed state) : Intake (getlines text) state := by
  refine reach.invariant (Intake (getlines text)) (fun state initial => ?_)
    fun _ _ _ intake _ => intake.step
  rw [initial.fresh]
  exact ⟨[], getlines text, rfl, rfl, fun _ _ => rfl, nofun⟩

/-! ## The feed -/

/-- The numbers are those written, the one that the manager has, and those still to be read. -/
def Feed (numbers : List ℤ) (state : Farm n) : Prop :=
  ∃ rest, numbers =
      state.writes.map Prod.snd ++ (if state.pc.carrying then [state.num] else []) ++ rest ∧
    (state.pc.fed = false → state.pc.aborted = false →
      state.stdin.lines.map spelled = rest.map some) ∧
    (state.pc.fed = true → rest = [])

/-- Where every line spells a number, the intake is all of them. -/
theorem Intake.feed (intake : Intake lines state)
    (spells : lines.map spelled = numbers.map some) : Feed numbers state := by
  obtain ⟨taken, rest, rfl, whole, remaining, ended⟩ := intake
  rw [List.map_append] at spells
  obtain ⟨first, later, rfl, spelledFirst, spelledLater⟩ := List.map_eq_append_iff.mp spells.symm
  have fits : taken.map spelled = taken.map fitting := by
    refine List.map_congr_left fun line inside => ?_
    have number : fitting line ∈ taken.map fitting := List.mem_map_of_mem inside
    rw [whole] at number
    obtain ⟨value, -, number⟩ := List.mem_map.mp number
    rw [← number]
    exact spelled_of_fitting number.symm
  have same := List.map_injective_iff.mpr (Option.some_injective ℤ)
    (spelledFirst.trans (fits.trans whole))
  refine ⟨later, by rw [same], fun reading running => ?_, fun fed => ?_⟩
  · rw [remaining reading running, spelledLater]
  · cases rest with
    | nil => exact List.map_eq_nil_iff.mp spelledLater
    | cons line others =>
        obtain ⟨unfit, accepted⟩ := ended fed line rfl
        obtain ⟨⟨num, endpos⟩, number⟩ := Option.isSome_iff_exists.mp accepted
        cases later with
        | nil => cases spelledLater
        | cons value later =>
            have spells := (List.cons.inj spelledLater).1.symm
            obtain ⟨rfl, rfl⟩ := stoll_of_spelled spells number
            rw [stoll_eq_iff.mp number] at unfit
            cases unfit

/-- Lines that spell the numbers feed them to the manager. -/
theorem feed_of_reachable {text : Text} {allowed : Discipline (Farm n) (FarmLabel n)}
    (spells : (getlines text).map spelled = numbers.map some)
    (reach : (farm n text).Reachable allowed state) : Feed numbers state :=
  (intake_of_reachable reach).feed spells

/-! ## Every number once -/

/-- The numbers of all workers together are the numbers written. -/
theorem received_perm (writes : List (Fin n × ℤ)) :
    ((List.finRange n).flatMap (received writes)).Perm (writes.map Prod.snd) := by
  have bounded : ∀ write ∈ writes, write.1.val < n := fun write _ => write.1.isLt
  have classes := (classes_perm (fun write : Fin n × ℤ => write.1.val) bounded).map Prod.snd
  have own (j : Fin n) : received writes j =
      (writes.filter fun write => write.1.val = j.val).map Prod.snd := by
    rw [received, ← List.filterMap_eq_map, List.filterMap_filter]
    refine List.filterMap_congr fun write _ => ?_
    simp only [Fin.ext_iff, decide_eq_true_eq, Function.comp]
  rw [List.map_flatMap, ← List.map_coe_finRange_eq_range, List.flatMap_map] at classes
  exact (List.Perm.of_eq (List.flatMap_congr fun j _ => own j)).trans classes

/-- Whether `waitForAllWorkers` has returned. -/
def ManagerPc.waited : ManagerPc n → Bool
  | .ignoreChildren | .close _ | .resumeLast _ | .waitpid _ | .done => true
  | _ => false

/-- When the manager has waited for all workers, each has read and printed what was written to
it. -/
theorem Farm.Sound.all_printed (sound : state.Sound) (waited : state.pc.waited = true) (j : Fin n) :
    (state.workers j).pipe = [] ∧
      (state.workers j).printed = (received state.writes j).map answer := by
  have all : state.marked = Finset.univ := by
    have promise := sound.promise
    cases position : state.pc <;> rw [position] at promise waited <;>
      first | exact promise | cases waited
  have available := mem_marked.mp (show j ∈ state.marked from all.symm ▸ Finset.mem_univ j)
  obtain ⟨-, -, drained, printed, -⟩ := (sound.situations j).of_available available
  exact ⟨drained, printed⟩

/-- However the manager, the handler and the workers are interleaved: a stopped worker marked
available has an empty pipe and no pipe holds more than one number; the assertions hold; the numbers
written are the first numbers of stdin, each written once, to one worker; and when
`waitForAllWorkers` has returned, all numbers are written and every worker has read and factored
each of its own once. -/
theorem numbers_delivered {text : Text} (spells : (getlines text).map spelled = numbers.map some)
    (reach : (farm n text).Reachable .free state) :
    (∀ j, (state.workers j).pc = .stopped → (state.workers j).available = true →
      (state.workers j).pipe = []) ∧
    (∀ j, (state.workers j).pipe = [] ∨ ∃ num, (state.workers j).pipe = payload num) ∧
    state.pc ≠ .failed ∧
    state.writes.map Prod.snd <+: numbers ∧
    (state.pc.waited = true →
      state.writes.map Prod.snd = numbers ∧
      (∀ j, (state.workers j).pipe = [] ∧
        (state.workers j).printed = (received state.writes j).map answer) ∧
      ((List.finRange n).flatMap fun j => (state.workers j).printed).Perm
        (numbers.map answer)) := by
  have sound := Farm.sound_of_reachable reach
  obtain ⟨rest, all, -, ended⟩ := feed_of_reachable spells reach
  refine ⟨fun j _ available => ?_, fun j => (sound.situations j).pipe_cases, ?_, ?_,
    fun waited => ?_⟩
  · exact ((sound.situations j).of_available available).2.2.1
  · intro failed
    have promise := sound.promise
    rw [failed] at promise
    exact promise
  · rw [all, List.append_assoc]
    exact List.prefix_append _ _
  · have printed := sound.all_printed waited
    have written : state.writes.map Prod.snd = numbers := by
      have done : state.pc.fed = true ∧ state.pc.carrying = false := by
        cases position : state.pc <;> rw [position] at waited <;>
          first | exact ⟨rfl, rfl⟩ | cases waited
      rw [all, ended done.1, done.2]
      simp
    refine ⟨written, printed, ?_⟩
    rw [← written]
    have together := (received_perm state.writes).map answer
    rw [List.map_flatMap] at together
    exact (List.Perm.of_eq (List.flatMap_congr fun j _ => (printed j).2)).trans together

/-! ## Two numbers for two workers -/

/-- A manager on a terminal, with these bytes on stdin. -/
def terminalFarm (n : ℕ) (text : Text) : Farm n :=
  { stdin := .ofText text, fds := .terminal }

theorem terminalFarm_initial (n : ℕ) (text : Text) : (farm n text).start (terminalFarm n text) where
  fresh := rfl
  standard := Descriptors.terminal_standard
  files := Descriptors.terminal_files

/-- Two workers stop and are marked, each is given a number, and each stops again. -/
def twoNumbers : List (FarmLabel 2) :=
  List.replicate 12 .manager ++ List.replicate 5 (.worker 0) ++ List.replicate 5 (.worker 1) ++
  [.sigchld] ++ List.replicate 24 .manager ++ List.replicate 3 (.worker 0) ++
  List.replicate 3 (.worker 1) ++ [.sigchld] ++ List.replicate 2 .manager

theorem twoNumbers_run :
    ((farm 2 (ascii "12\n-7\n")).exec .free (terminalFarm 2 (ascii "12\n-7\n"))
      twoNumbers).isSome = true := by
  decide +kernel

/-- After they have stopped again. -/
def twoNumbersDone : Farm 2 :=
  ((farm 2 (ascii "12\n-7\n")).exec .free (terminalFarm 2 (ascii "12\n-7\n")) twoNumbers).get
    twoNumbers_run

theorem numbers_delivered_two :
    ((List.finRange 2).flatMap fun j => (twoNumbersDone.workers j).printed).Perm
      [answer 12, answer (-7)] := by
  have spells : (getlines (ascii "12\n-7\n")).map spelled = [12, -7].map some := by
    decide +kernel
  have delivered := numbers_delivered spells
    (.of_exec (terminalFarm_initial 2 (ascii "12\n-7\n")) twoNumbers twoNumbers_run)
  exact (delivered.2.2.2.2 (by decide +kernel)).2.2

end Multiprocessing
end Syscore
