import Syscore.Library.Inevitable
import Syscore.Multiprocessing.Progress

/-!
# Bad input

`broadcastNumbersToWorkers` goes up to the first line that is not a number. If `stoll` takes a
number from the front of that line, the manager leaves its loop and the farm comes to its end; if
`stoll` throws, nobody catches it and the workers are left behind.
-/

namespace Syscore
namespace Multiprocessing

variable {n : ℕ}

/-- The numbers of the lines before the first that is not a decimal integer fitting a `long
long`. -/
def leading : List Text → List ℤ
  | [] => []
  | line :: lines =>
      match fitting line with
      | some num => num :: leading lines
      | none => []

example : leading [ascii "12", ascii " -7", ascii "3x", ascii "5"] = [12, -7] := by decide +kernel

/-- The first line that is not a decimal integer fitting a `long long`. -/
def firstBad (lines : List Text) : Option Text := lines.find? fun line => (fitting line).isNone

/-- Lines that are numbers come before the rest. -/
theorem leading_append {taken : List Text} {numbers : List ℤ} (rest : List Text)
    (fits : taken.map fitting = numbers.map some) :
    leading (taken ++ rest) = numbers ++ leading rest ∧
      firstBad (taken ++ rest) = firstBad rest := by
  induction taken generalizing numbers with
  | nil =>
      obtain rfl := List.map_eq_nil_iff.mp fits.symm
      exact ⟨rfl, rfl⟩
  | cons line taken ih =>
      cases numbers with
      | nil => cases fits
      | cons num numbers =>
          obtain ⟨here, later⟩ := List.cons.inj fits
          obtain ⟨numbers, bad⟩ := ih later
          constructor
          · simp only [List.cons_append, leading, here, numbers]
          · rw [List.cons_append, firstBad, List.find?_cons_of_neg (by rw [here]; simp)]
            exact bad

/-- The rest begins with a line that is no number, if any. -/
theorem leading_of_bad {rest : List Text} (bad : ∀ line ∈ rest.head?, fitting line = none) :
    leading rest = [] ∧ firstBad rest = rest.head? := by
  cases rest with
  | nil => exact ⟨rfl, rfl⟩
  | cons line later =>
      have here := bad line rfl
      constructor
      · simp only [leading, here]
      · rw [firstBad, List.find?_cons_of_pos (by rw [here]; rfl)]
        rfl

/-! ## Where the loop ends -/

variable {state after : Farm n} {lines : List Text}

/-- When the manager is done with stdin, it has written the numbers before the first bad line, and
`stoll` has not thrown on that. -/
theorem Intake.fed (intake : Intake lines state) (fed : state.pc.fed = true) :
    state.writes.map Prod.snd = leading lines ∧
      ∀ line ∈ firstBad lines, (stoll line).isSome = true := by
  obtain ⟨taken, rest, rfl, numbers, -, ended⟩ := intake
  have settled : state.pc.carrying = false := by
    cases position : state.pc <;> rw [position] at fed <;> first | rfl | cases fed
  rw [settled, if_neg Bool.false_ne_true, List.append_nil] at numbers
  obtain ⟨all, bad⟩ := leading_append rest numbers
  obtain ⟨none, first⟩ := leading_of_bad fun line here => (ended fed line here).1
  rw [all, bad, none, first, List.append_nil]
  exact ⟨rfl, fun line here => (ended fed line here).2⟩

/-- The manager is terminated by a line on which `stoll` throws. -/
theorem stoll_of_terminated (taken : state.managerStep = some after)
    (terminated : after.pc = .terminated) :
    state.pc = .getline ∧ (state.stdin.getline []).2.fail = false ∧
      stoll (state.stdin.getline []).1 = none := by
  have position : state.pc = .getline := by
    cases managerMove_of_step taken with
    | goes goes => cases goes <;> cases terminated
    | throws position => exact position
    | _ => cases terminated
  rw [Farm.managerStep, position] at taken
  dsimp only at taken
  split at taken
  · obtain rfl := Option.some.inj taken
    cases terminated
  · rename_i whole
    refine ⟨position, Bool.not_eq_true _ ▸ whole, ?_⟩
    split at taken
    · assumption
    · split at taken
      · obtain rfl := Option.some.inj taken
        cases terminated
      · obtain rfl := Option.some.inj taken
        cases terminated

/-- If `stoll` does not throw on the first bad line, the manager is not terminated. -/
theorem not_terminated {text : Text}
    (accepts : ∀ line ∈ firstBad (getlines text), (stoll line).isSome = true)
    (reach : (farm n text).Reachable tidy state) : state.pc ≠ .terminated := by
  refine reach.invariant_with (fun state => state.pc ≠ .terminated)
    (fun _ => intake_of_reachable) (fun state initial => ?_)
    fun before label after intake _ running permitted taken => ?_
  · rw [initial.fresh]
    nofun
  · cases farmMove_of_step taken with
    | manager =>
        intro terminated
        obtain ⟨position, whole, throws⟩ := stoll_of_terminated taken terminated
        obtain ⟨first, rest, all, numbers, -⟩ := intake.line position whole
        have unfit : fitting (before.stdin.getline []).1 = none := by
          rw [Option.eq_none_iff_forall_ne_some]
          intro num fits
          rw [stoll_eq_iff.mpr fits] at throws
          cases throws
        have bad := (leading_append ((before.stdin.getline []).1 :: rest) numbers).2
        have head : ∀ line ∈ ((before.stdin.getline []).1 :: rest).head?, fitting line = none := by
          intro line here
          rw [← Option.some.inj here]
          exact unfit
        rw [← all, (leading_of_bad head).2] at bad
        have accepted := accepts _ bad
        rw [throws] at accepted
        cases accepted
    | sigchld =>
        cases position : before.pc with
        | terminated => exact absurd position running
        | _ => simp [Farm.markWorkersAsAvailable, position, ManagerPc.afterHandler]
    | worker => exact running
    | pipeFails | forkFails => cases permitted

/-! ## Every run -/

/-- `pipe` and `fork` succeed, and the handler meets no worker without a slot and no statement half
done. -/
def orderly : Discipline (SplitFarm n) (FarmLabel n)
  | _, .fails => False
  | state, label => assignsFirst state label ∧ countsWhole state label

/-- The manager has written these numbers and returned from `main`, and no worker is left. -/
structure CleanEnd (numbers : List ℤ) (state : SplitFarm n) : Prop where
  written : state.farm.writes.map Prod.snd = numbers
  done : state.farm.pc = .done
  exited : ∀ j, (state.farm.workers j).pc = .exited

/-- Every run of the farm hands out the numbers before the first bad line and comes to its end. -/
def EndsCleanly (n : ℕ) (text : Text) : Prop :=
  ∀ state, (splitFarm n text).start state →
    (splitFarm n text).Inevitable orderly (CleanEnd (leading (getlines text))) state

namespace SplitFarm

theorem countsWhole_of_orderly (state : SplitFarm n) (label : FarmLabel n)
    (permitted : orderly state label) : countsWhole state label := by
  cases label with
  | fails => cases permitted
  | manager | sigchld | worker _ => exact permitted.2

theorem tidy_of_orderly (state : SplitFarm n) (label : FarmLabel n)
    (permitted : orderly state label) :
    tidy state.whole label := by
  cases label with
  | fails => cases permitted
  | manager | worker _ => trivial
  | sigchld => exact prompt_whole permitted.1

variable {state after : SplitFarm n} {text : Text}

theorem reachable_whole_of_orderly (reach : (splitFarm n text).Reachable orderly state) :
    state.Aligned ∧ (Multiprocessing.farm n text).Reachable tidy state.whole :=
  reachable_whole countsWhole_of_orderly (fun state label _ => tidy_of_orderly state label) reach

/-- A farm that ends cleanly is not stopped by `stoll`. -/
theorem accepts_of_endsCleanly (ends : EndsCleanly n text) :
    ∀ line ∈ firstBad (getlines text), (stoll line).isSome = true := by
  have start := terminal_start n text
  obtain ⟨last, leads, clean⟩ := (ends _ start).exists_leads
  obtain ⟨-, reached⟩ := reachable_whole_of_orderly (.trans (.of_start start) leads)
  refine ((intake_of_reachable reached).fed ?_).2
  rw [whole_pc, clean.done]
  rfl

/-! ## Whole statements make progress -/

/-- Within a statement the manager goes on. -/
theorem isSome_managerStep_of_within
    (within : (∃ i, state.farm.pc = .register i) ∨ ∃ i, state.farm.pc = .decrement i) :
    state.managerStep.isSome = true := by
  rw [managerStep]
  rcases within with ⟨i, position⟩ | ⟨i, position⟩
  · rw [position]
    dsimp only
    split <;> rfl
  · rw [position]
    dsimp only
    split <;> rfl

theorem isSome_step_of_whole (aligned : state.Aligned) (register : ∀ i, state.farm.pc ≠ .register i)
    (decrement : ∀ i, state.farm.pc ≠ .decrement i) {label : FarmLabel n}
    (moves : (state.whole.step label).isSome = true) : (state.step label).isSome = true := by
  rw [whole_of_uncopied (aligned.between register decrement).1] at moves
  have mapped : state.step label = (state.farm.step label).map fun farm => { state with farm } := by
    cases label with
    | manager => exact managerStep_of_between register decrement
    | sigchld | worker _ | fails => rfl
  rw [mapped, Option.isSome_map]
  exact moves

/-- The farm is over, or goes on in order. -/
theorem orderly_live {state : SplitFarm (n + 1)}
    (reach : (splitFarm (n + 1) text).Reachable orderly state) :
    state.farm.pc = .done ∨ state.farm.pc = .terminated ∨
      ∃ next, (splitFarm (n + 1) text).Step orderly state next := by
  obtain ⟨aligned, reached⟩ := reachable_whole_of_orderly reach
  have goes (label : FarmLabel (n + 1)) (permitted : orderly state label)
      (moves : (state.step label).isSome = true) :
      ∃ next, (splitFarm (n + 1) text).Step orderly state next := by
    obtain ⟨next, moved⟩ := Option.isSome_iff_exists.mp moves
    exact ⟨next, label, permitted, moved⟩
  by_cases within : (∃ i, state.farm.pc = .register i) ∨ ∃ i, state.farm.pc = .decrement i
  · exact .inr (.inr (goes .manager ⟨trivial, trivial⟩ (isSome_managerStep_of_within within)))
  obtain ⟨register, decrement⟩ := not_or.mp within
  have register := not_exists.mp register
  have decrement := not_exists.mp decrement
  obtain ⟨uncopied, unloaded⟩ := aligned.between register decrement
  rw [← whole_pc]
  rcases Farm.live reached with done | terminated | manager | ⟨j, worker⟩ | ⟨asleep, pending⟩
  · exact .inl done
  · exact .inr (.inl terminated)
  · exact .inr (.inr (goes .manager ⟨trivial, trivial⟩
      (isSome_step_of_whole aligned register decrement manager)))
  · exact .inr (.inr (goes (.worker j) ⟨trivial, trivial⟩
      (isSome_step_of_whole aligned register decrement worker)))
  · have alert := Farm.alert_of_reachable prompt_of_tidy reached
    have handled : (state.whole.step .sigchld).isSome = true := by
      have handles : state.whole.pc.handles = true := by
        rcases asleep with position | position
        · rw [position]
          rfl
        · rw [position]
          rfl
      rw [Farm.step, if_pos ⟨pending, handles, .inr asleep⟩]
      rfl
    have settled (j : Fin (n + 1)) : (state.farm.workers j).registered = true := by
      rw [whole_of_uncopied uncopied] at alert asleep
      refine (alert j).registered ?_ ?_
      · rcases asleep with position | position
        · rw [position]
          rintro ⟨⟩
        · rw [position]
          rintro ⟨⟩
      · rcases asleep with position | position
        · rw [position]
          exact id
        · rw [position]
          exact id
    have free (j : Fin (n + 1)) : state.half ≠ some j := by
      rw [half_of_uncopied uncopied]
      rintro ⟨⟩
    exact .inr (.inr (goes .sigchld ⟨fun j _ => ⟨settled j, free j⟩, fun j _ => free j,
      fun loaded => absurd unloaded loaded⟩
      (isSome_step_of_whole aligned register decrement handled)))

/-- A bound on the steps that are left: two for each step of the farm, and one to begin a
statement. -/
def remaining (state : SplitFarm n) : ℤ :=
  2 * state.whole.remaining + if state.within then 0 else 1

theorem remaining_step (aligned : state.Aligned) (sound : state.whole.Sound) {label : FarmLabel n}
    (permitted : countsWhole state label) (taken : state.step label = some after) :
    after.remaining < state.remaining := by
  rw [remaining, remaining]
  obtain ⟨-, ⟨same, outside, within⟩ | moved⟩ := aligned.step sound permitted taken
  · rw [same, outside, within]
    simp
  · have falls := Farm.remaining_step sound moved
    have before : (0 : ℤ) ≤ if state.within then 0 else 1 := by split <;> decide
    have later : (if after.within then (0 : ℤ) else 1) ≤ 1 := by split <;> decide
    omega

theorem remaining_nonneg (state : SplitFarm n) : 0 ≤ state.remaining := by
  have whole := state.whole.remaining_nonneg
  have within : (0 : ℤ) ≤ if state.within then 0 else 1 := by split <;> decide
  rw [remaining]
  omega

/-- At the end of `main` everything is written, and every worker has been waited for. -/
theorem cleanEnd_of_done (reach : (splitFarm n text).Reachable orderly state)
    (done : state.farm.pc = .done) : CleanEnd (leading (getlines text)) state := by
  obtain ⟨-, reached⟩ := reachable_whole_of_orderly reach
  rw [← whole_pc] at done
  refine ⟨?_, state.whole_pc ▸ done, fun j => ?_⟩
  · rw [← whole_writes]
    exact ((intake_of_reachable reached).fed (by rw [done]; rfl)).1
  · have exited := (Farm.waits_of_reachable reached).reaped j (by rw [done]; rfl)
    obtain ⟨_, same⟩ := state.whole_worker j
    rw [same] at exited
    exact exited

/-- With at least one worker, and unless a stop is lost in a race with the handler, the farm comes
to a clean end exactly if `stoll` does not throw on the first line that is no number. -/
theorem endsCleanly_iff (n : ℕ) (text : Text) :
    EndsCleanly (n + 1) text ↔ ∀ line ∈ firstBad (getlines text), (stoll line).isSome = true := by
  refine ⟨accepts_of_endsCleanly, fun accepts state start => ?_⟩
  have initially : (splitFarm (n + 1) text).Reachable orderly state := .of_start start
  refine Machine.inevitable_of_measure (fun state => state.remaining.toNat)
    (fun state reach => ?_) (fun before after reach step => ?_) initially
  · rcases orderly_live reach with done | terminated | moves
    · exact .inl (cleanEnd_of_done reach done)
    · rw [← whole_pc] at terminated
      exact absurd terminated (not_terminated accepts (reachable_whole_of_orderly reach).2)
    · exact .inr moves
  · obtain ⟨label, permitted, taken⟩ := step
    obtain ⟨aligned, reached⟩ := reachable_whole_of_orderly reach
    have falls := remaining_step aligned (Farm.sound_of_reachable reached)
      (countsWhole_of_orderly before label permitted) taken
    have bound := before.remaining_nonneg
    have bound' := after.remaining_nonneg
    exact ⟨reach.next permitted taken, by omega⟩

/-- An empty line is enough: `stoll` throws, and the workers are left behind. -/
theorem not_endsCleanly_newline : ¬ EndsCleanly 1 (ascii "\n") := by
  intro ends
  have accepted := accepts_of_endsCleanly ends [] (by decide +kernel)
  revert accepted
  decide +kernel

end SplitFarm

end Multiprocessing
end Syscore
