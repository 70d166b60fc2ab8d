import Syscore.Multiprocessing.Delivery

/-!
# Statements that the handler splits

Two statements of `src/multiprocessing/farm.cc` are more than one step of the manager: the
assignment to `workers[i]` copies the pid and then the flag, and `numWorkersAvailable--` loads the
counter and then stores it. Where the handler meets neither of them half done, the manager runs as
if each were one step.
-/

namespace Syscore
namespace Multiprocessing

variable {n : ℕ}

/-- A farm, and how far the manager is within a statement. -/
structure SplitFarm (n : ℕ) where
  farm : Farm n
  /-- Whether `workers[i]` has the pid of the new worker and not yet its flag. -/
  copied : Bool := false
  /-- What `numWorkersAvailable--` has loaded. -/
  loaded : Option ℕ := none

namespace SplitFarm

/-- A step of the manager. -/
def managerStep (state : SplitFarm n) : Option (SplitFarm n) :=
  match state.farm.pc with
  | .register i =>
      let worker := state.farm.workers i
      if state.copied then
        some { state with
          farm := { state.farm.setWorker i { worker with available := false } with
            pc := .pipe (i + 1) }
          copied := false }
      else
        some { state with
          farm := state.farm.setWorker i { worker with registered := true }
          copied := true }
  | .decrement i =>
      match state.loaded with
      | none => some { state with loaded := some state.farm.numWorkersAvailable }
      | some count =>
          some { state with
            farm := { state.farm with numWorkersAvailable := count - 1, pc := .write i }
            loaded := none }
  | _ => state.farm.managerStep.map fun farm => { state with farm }

/-- One step. -/
def step (state : SplitFarm n) : FarmLabel n → Option (SplitFarm n)
  | .manager => state.managerStep
  | label => (state.farm.step label).map fun farm => { state with farm }

/-- The worker that is being assigned to its slot. -/
def half (state : SplitFarm n) : Option (Fin n) :=
  match state.farm.pc with
  | .register i => if state.copied then some i else none
  | _ => none

end SplitFarm

/-- The farm with these bytes on stdin, its statements split. -/
def splitFarm (n : ℕ) (text : Text) : Machine (SplitFarm n) (FarmLabel n) where
  start state := ∃ farm, Farm.Initial text farm ∧ state = { farm }
  step := SplitFarm.step

/-- The handler consumes no stop of a worker that is not assigned to its slot. -/
def assignsFirst : Discipline (SplitFarm n) (FarmLabel n)
  | state, .sigchld =>
      ∀ j, (state.farm.workers j).report = true →
        (state.farm.workers j).registered = true ∧ state.half ≠ some j
  | _, _ => True

/-- The handler consumes no stop of a worker that is half assigned to its slot, and marks nobody
between the load and the store of `numWorkersAvailable--`. -/
def countsWhole : Discipline (SplitFarm n) (FarmLabel n)
  | state, .sigchld =>
      (∀ j, (state.farm.workers j).report = true → state.half ≠ some j) ∧
        (state.loaded ≠ none → state.farm.newlyAvailable = ∅)
  | _, _ => True

instance (state : SplitFarm n) (label : FarmLabel n) : Decidable (assignsFirst state label) :=
  match label with
  | .sigchld =>
      inferInstanceAs (Decidable (∀ j, (state.farm.workers j).report = true →
        (state.farm.workers j).registered = true ∧ state.half ≠ some j))
  | .manager | .worker _ | .fails => inferInstanceAs (Decidable True)

instance (state : SplitFarm n) (label : FarmLabel n) : Decidable (countsWhole state label) :=
  match label with
  | .sigchld =>
      inferInstanceAs (Decidable ((∀ j, (state.farm.workers j).report = true →
        state.half ≠ some j) ∧ (state.loaded ≠ none → state.farm.newlyAvailable = ∅)))
  | .manager | .worker _ | .fails => inferInstanceAs (Decidable True)

/-! ## Whole statements -/

namespace SplitFarm

/-- The farm before a slot that is half assigned. -/
def whole (state : SplitFarm n) : Farm n :=
  match state.half with
  | some i => state.farm.setWorker i { state.farm.workers i with registered := false }
  | none => state.farm

/-- Whether the manager is within a statement. -/
def within (state : SplitFarm n) : Bool := state.copied || state.loaded.isSome

/-- A statement that is half done is the one at the program counter, and nothing that it works on
has changed. -/
structure Aligned (state : SplitFarm n) : Prop where
  copied : state.copied = true →
    ∃ i, state.farm.pc = .register i ∧ (state.farm.workers i).registered = true
  loaded : ∀ count, state.loaded = some count →
    count = state.farm.numWorkersAvailable ∧ ∃ i, state.farm.pc = .decrement i

variable {state after : SplitFarm n} {label : FarmLabel n} {i : Fin n}

theorem half_eq_some : state.half = some i ↔ state.farm.pc = .register i ∧ state.copied = true := by
  rw [half]
  cases position : state.farm.pc with
  | register k => cases state.copied <;> simp
  | _ => simp

theorem half_of_uncopied (uncopied : state.copied = false) : state.half = none := by
  rw [Option.eq_none_iff_forall_ne_some]
  intro i here
  exact Bool.false_ne_true (uncopied.symm.trans (half_eq_some.mp here).2)

theorem whole_of_uncopied (uncopied : state.copied = false) : state.whole = state.farm := by
  rw [whole, half_of_uncopied uncopied]

theorem whole_of_half (here : state.half = some i) :
    state.whole = state.farm.setWorker i { state.farm.workers i with registered := false } := by
  rw [whole, here]

theorem whole_uncopied (farm : Farm n) (loaded : Option ℕ) : whole ⟨farm, false, loaded⟩ = farm :=
  whole_of_uncopied rfl

theorem whole_half {farm : Farm n} (position : farm.pc = .register i) (loaded : Option ℕ) :
    whole ⟨farm, true, loaded⟩ =
      farm.setWorker i { farm.workers i with registered := false } :=
  whole_of_half (half_eq_some.mpr ⟨position, rfl⟩)

theorem Aligned.of_idle (uncopied : state.copied = false) (unloaded : state.loaded = none) :
    state.Aligned where
  copied copied := by
    rw [uncopied] at copied
    cases copied
  loaded count loaded := by
    rw [unloaded] at loaded
    cases loaded

/-- Between two statements nothing is half done. -/
theorem Aligned.between (aligned : state.Aligned) (register : ∀ i, state.farm.pc ≠ .register i)
    (decrement : ∀ i, state.farm.pc ≠ .decrement i) :
    state.copied = false ∧ state.loaded = none := by
  constructor
  · rw [Bool.eq_false_iff]
    intro copied
    obtain ⟨i, position, -⟩ := aligned.copied copied
    exact register i position
  · rw [Option.eq_none_iff_forall_ne_some]
    intro count loaded
    obtain ⟨-, i, position⟩ := aligned.loaded count loaded
    exact decrement i position

/-! ## Steps that see half a slot -/

/-- What a process does is not changed by its slot. -/
theorem workerStep_registered (worker : Worker) (hasWriter registered : Bool) :
    ({ worker with registered } : Worker).step hasWriter =
      (worker.step hasWriter).map fun worker => { worker with registered } := by
  rw [Worker.step, Worker.step]
  cases worker.pc with
  | readline =>
      dsimp only
      split
      · rfl
      · split <;> rfl
  | emit line =>
      dsimp only
      cases emit line <;> rfl
  | _ => rfl

theorem hasWriter_setWorker {state : Farm n} {worker : Worker}
    (fds : worker.fds = (state.workers i).fds) (j : Fin n) :
    (state.setWorker i worker).hasWriter j = state.hasWriter j := by
  have same (k : Fin n) :
      ((state.setWorker i worker).workers k).fds = (state.workers k).fds := by
    rw [Farm.workers_setWorker]
    split
    · rename_i here
      rw [fds, here]
    · rfl
  rw [Farm.hasWriter, Farm.hasWriter]
  simp only [same]
  rfl

/-- The handler passes over a worker that has no report. -/
theorem markWorkersAsAvailable_setWorker {state : Farm n} {worker : Worker}
    (unreported : (state.workers i).report = false) (unreported' : worker.report = false) :
    (state.setWorker i worker).markWorkersAsAvailable =
      state.markWorkersAsAvailable.setWorker i worker := by
  have new : (state.setWorker i worker).newlyAvailable = state.newlyAvailable := by
    refine Finset.filter_congr fun j _ => ?_
    rw [Farm.workers_setWorker]
    split
    · rename_i here
      rw [here, unreported, unreported']
      exact iff_of_false (fun both => Bool.noConfusion both.1) fun both => Bool.noConfusion both.1
    · rfl
  have workers : (fun j => ((state.setWorker i worker).workers j).mark) =
      Function.update (fun j => (state.workers j).mark) i worker := by
    funext j
    rw [Farm.workers_setWorker, Function.update_apply]
    split
    · rw [Worker.mark, unreported']
      rfl
    · rfl
  rw [Farm.markWorkersAsAvailable, new, workers]
  rfl

/-! ## One statement at a time -/

/-- A statement begins and the farm is where it was, or the farm takes a step. -/
def Follows (state : SplitFarm n) (label : FarmLabel n) (after : SplitFarm n) : Prop :=
  after.whole = state.whole ∧ state.within = false ∧ after.within = true ∨
    state.whole.step label = some after.whole

/-- A statement that is not split. -/
theorem managerStep_of_between (register : ∀ i, state.farm.pc ≠ .register i)
    (decrement : ∀ i, state.farm.pc ≠ .decrement i) :
    state.managerStep = state.farm.managerStep.map fun farm => { state with farm } := by
  rw [managerStep]
  split
  · rename_i i position
    exact absurd position (register i)
  · rename_i i position
    exact absurd position (decrement i)
  · rfl

/-- The assignment to `workers[i]`. -/
theorem Aligned.register (aligned : state.Aligned) (sound : state.whole.Sound)
    (position : state.farm.pc = .register i) (taken : state.managerStep = some after) :
    after.Aligned ∧ state.Follows .manager after := by
  have unloaded : state.loaded = none := by
    rw [Option.eq_none_iff_forall_ne_some]
    intro count loaded
    obtain ⟨-, k, elsewhere⟩ := aligned.loaded count loaded
    rw [position] at elsewhere
    cases elsewhere
  rw [managerStep, position] at taken
  dsimp only at taken
  cases copied : state.copied with
  | false =>
      rw [copied, if_neg Bool.false_ne_true] at taken
      obtain rfl := Option.some.inj taken
      have whole := whole_of_uncopied copied
      rw [whole] at sound
      have unregistered := (sound.unregistered i (by rw [position]; exact le_rfl)).1
      refine ⟨⟨fun _ => ⟨i, position, ?_⟩, ?_⟩, .inl ⟨?_, ?_, rfl⟩⟩
      · rw [Farm.workers_setWorker, if_pos rfl]
      · intro count loaded
        rw [unloaded] at loaded
        cases loaded
      · rw [whole, whole_half (by exact position), Farm.workers_setWorker, if_pos rfl,
          ← unregistered, Farm.setWorker, Farm.setWorker, Function.update_idem,
          Function.update_eq_self]
      · rw [within, copied, unloaded]
        rfl
  | true =>
      rw [copied, if_pos rfl] at taken
      obtain rfl := Option.some.inj taken
      obtain ⟨k, here, registered⟩ := aligned.copied copied
      obtain rfl := ManagerPc.register.inj (here.symm.trans position)
      refine ⟨.of_idle rfl unloaded, .inr ?_⟩
      rw [whole_uncopied, whole_of_half (half_eq_some.mpr ⟨position, copied⟩), Farm.step,
        Farm.managerStep]
      simp only [Farm.setWorker, position, Function.update_self, Function.update_idem, registered]

/-- `numWorkersAvailable--`. -/
theorem Aligned.decrement (aligned : state.Aligned) (position : state.farm.pc = .decrement i)
    (taken : state.managerStep = some after) : after.Aligned ∧ state.Follows .manager after := by
  have uncopied : state.copied = false := by
    rw [Bool.eq_false_iff]
    intro copied
    obtain ⟨k, elsewhere, -⟩ := aligned.copied copied
    rw [position] at elsewhere
    cases elsewhere
  have whole := whole_of_uncopied uncopied
  rw [managerStep, position] at taken
  dsimp only at taken
  cases loaded : state.loaded with
  | none =>
      rw [loaded] at taken
      obtain rfl := Option.some.inj taken
      refine ⟨⟨?_, ?_⟩, .inl ⟨?_, ?_, ?_⟩⟩
      · intro copied
        rw [uncopied] at copied
        cases copied
      · intro count same
        exact ⟨(Option.some.inj same).symm, i, position⟩
      · rw [whole, uncopied, whole_uncopied]
      · rw [within, uncopied, loaded]
        rfl
      · exact Bool.or_true _
  | some count =>
      rw [loaded] at taken
      obtain rfl := Option.some.inj taken
      obtain ⟨same, -⟩ := aligned.loaded count loaded
      refine ⟨.of_idle uncopied rfl, .inr ?_⟩
      rw [whole, uncopied, whole_uncopied, Farm.step, Farm.managerStep, position, same]

/-- Every statement of the manager. -/
theorem Aligned.managerStep (aligned : state.Aligned) (sound : state.whole.Sound)
    (taken : state.managerStep = some after) : after.Aligned ∧ state.Follows .manager after := by
  by_cases register : ∃ i, state.farm.pc = .register i
  · obtain ⟨i, position⟩ := register
    exact aligned.register sound position taken
  by_cases decrement : ∃ i, state.farm.pc = .decrement i
  · obtain ⟨i, position⟩ := decrement
    exact aligned.decrement position taken
  obtain ⟨uncopied, unloaded⟩ := aligned.between (not_exists.mp register) (not_exists.mp decrement)
  rw [managerStep_of_between (not_exists.mp register) (not_exists.mp decrement)] at taken
  obtain ⟨farm, moved, rfl⟩ := Option.map_eq_some_iff.mp taken
  refine ⟨.of_idle uncopied unloaded, .inr ?_⟩
  rw [whole_of_uncopied uncopied, uncopied, whole_uncopied]
  exact moved

/-- The handler, when it does not meet a statement half done. -/
theorem Aligned.handler (aligned : state.Aligned) (permitted : countsWhole state .sigchld)
    {farm : Farm n} (taken : state.farm.step .sigchld = some farm) :
    Aligned { state with farm } ∧ state.Follows .sigchld { state with farm } := by
  obtain ⟨unreported, unmarked⟩ := permitted
  have unreported (i : Fin n) (here : state.half = some i) :
      (state.farm.workers i).report = false := by
    rw [Bool.eq_false_iff]
    exact fun reported => unreported i reported here
  cases farmMove_of_step taken with
  | sigchld pending handles unblocked =>
      refine ⟨⟨fun copied => ?_, fun count loaded => ?_⟩, .inr ?_⟩
      · obtain ⟨i, position, registered⟩ := aligned.copied copied
        refine ⟨i, congrArg ManagerPc.afterHandler position, ?_⟩
        simp only [Farm.markWorkersAsAvailable, Worker.mark]
        split
        · exact registered
        · exact registered
      · obtain ⟨same, i, position⟩ := aligned.loaded count loaded
        refine ⟨?_, i, congrArg ManagerPc.afterHandler position⟩
        have none := unmarked (by
          rw [show state.loaded = some count from loaded]
          exact Option.some_ne_none count)
        simp only [Farm.markWorkersAsAvailable, none, Finset.card_empty, Nat.add_zero]
        exact same
      · cases copied : state.copied with
        | false => rw [whole_of_uncopied copied, whole_uncopied, taken]
        | true =>
            obtain ⟨i, position, -⟩ := aligned.copied copied
            have here := half_eq_some.mpr ⟨position, copied⟩
            have quiet := unreported i here
            have marked : state.farm.markWorkersAsAvailable.workers i = state.farm.workers i := by
              simp only [Farm.markWorkersAsAvailable, Worker.mark, quiet, Bool.false_eq_true,
                if_false]
            rw [whole_of_half here, whole_half (congrArg ManagerPc.afterHandler position), marked,
              Farm.step]
            exact (if_pos ⟨pending, handles, unblocked⟩).trans
              (congrArg some (markWorkersAsAvailable_setWorker quiet quiet))

/-- A step of a worker. -/
theorem Aligned.worker (aligned : state.Aligned) (j : Fin n) {farm : Farm n}
    (taken : state.farm.step (.worker j) = some farm) :
    Aligned { state with farm } ∧ state.Follows (.worker j) { state with farm } := by
  obtain ⟨worker, moved, rest⟩ := Option.bind_eq_some_iff.mp taken
  obtain rfl := Option.some.inj rest
  refine ⟨⟨fun copied => ?_, aligned.loaded⟩, .inr ?_⟩
  · obtain ⟨i, position, registered⟩ := aligned.copied copied
    refine ⟨i, position, ?_⟩
    show ((state.farm.setWorker j worker).workers i).registered = true
    rw [Farm.workers_setWorker]
    split
    · rename_i here
      rw [(Situation.slot_of_step moved).1, ← here, registered]
    · exact registered
  · cases copied : state.copied with
    | false => rw [whole_of_uncopied copied, whole_uncopied, taken]
    | true =>
        obtain ⟨i, position, -⟩ := aligned.copied copied
        have writer : Farm.hasWriter (state.farm.setWorker i
              { state.farm.workers i with registered := false }) j = state.farm.hasWriter j := by
          apply hasWriter_setWorker
          rfl
        rw [whole_of_half (half_eq_some.mpr ⟨position, copied⟩), whole_half (by exact position),
          Farm.step, writer, Farm.workers_setWorker]
        by_cases here : j = i
        · rw [if_pos here, ← here, workerStep_registered, moved]
          simp [Farm.setWorker]
        · rw [if_neg here, moved]
          simp [Farm.setWorker, Function.update_comm here, Function.update_of_ne (Ne.symm here)]

/-- Every step is a step of the farm, or begins a statement. -/
theorem Aligned.step (aligned : state.Aligned) (sound : state.whole.Sound)
    (permitted : countsWhole state label) (taken : state.step label = some after) :
    after.Aligned ∧ state.Follows label after := by
  cases label with
  | manager => exact aligned.managerStep sound taken
  | sigchld =>
      obtain ⟨farm, moved, rfl⟩ := Option.map_eq_some_iff.mp taken
      exact aligned.handler permitted moved
  | worker j =>
      obtain ⟨farm, moved, rfl⟩ := Option.map_eq_some_iff.mp taken
      exact aligned.worker j moved
  | fails =>
      obtain ⟨farm, moved, rfl⟩ := Option.map_eq_some_iff.mp taken
      have between : (∀ i, state.farm.pc ≠ .register i) ∧ ∀ i, state.farm.pc ≠ .decrement i := by
        cases farmMove_of_step moved with
        | pipeFails position | forkFails position =>
            rw [position]
            exact ⟨nofun, nofun⟩
      obtain ⟨uncopied, unloaded⟩ := aligned.between between.1 between.2
      refine ⟨.of_idle uncopied unloaded, .inr ?_⟩
      rw [whole_of_uncopied uncopied, uncopied, whole_uncopied, moved]

theorem aligned_of_start {text : Text} (initial : (splitFarm n text).start state) :
    state.Aligned ∧ Farm.Initial text state.whole := by
  obtain ⟨farm, initial, rfl⟩ := initial
  rw [whole_uncopied]
  exact ⟨⟨nofun, nofun⟩, initial⟩

/-- A run in which the handler meets no statement half done is a run of whole statements. -/
theorem reachable_whole {text : Text} {allowed : Discipline (SplitFarm n) (FarmLabel n)}
    {allowed' : Discipline (Farm n) (FarmLabel n)}
    (counts : ∀ state label, allowed state label → countsWhole state label)
    (embed : ∀ state label, Aligned state → allowed state label → allowed' state.whole label)
    (reach : (splitFarm n text).Reachable allowed state) :
    state.Aligned ∧ (Multiprocessing.farm n text).Reachable allowed' state.whole := by
  refine reach.invariant
    (fun state => state.Aligned ∧ (Multiprocessing.farm n text).Reachable allowed' state.whole)
    (fun state initial => ?_) fun before label after held permitted taken => ?_
  · obtain ⟨aligned, initial⟩ := aligned_of_start initial
    exact ⟨aligned, .of_start initial⟩
  · obtain ⟨aligned, reached⟩ := held
    have sound := Farm.sound_of_reachable reached
    obtain ⟨aligned', ⟨same, -⟩ | moved⟩ := aligned.step sound (counts _ _ permitted) taken
    · exact ⟨aligned', same.symm ▸ reached⟩
    · exact ⟨aligned', reached.next (embed _ _ aligned permitted) moved⟩

/-! ## What a half slot leaves alone -/

theorem whole_cases (state : SplitFarm n) :
    state.whole = state.farm ∨ ∃ i, state.half = some i ∧ state.whole =
      state.farm.setWorker i { state.farm.workers i with registered := false } := by
  cases here : state.half with
  | none => exact .inl (by rw [whole, here])
  | some i => exact .inr ⟨i, rfl, whole_of_half here⟩

@[simp]
theorem whole_pc (state : SplitFarm n) : state.whole.pc = state.farm.pc := by
  obtain same | ⟨i, -, same⟩ := state.whole_cases
  · rw [same]
  · rw [same]
    rfl

@[simp]
theorem whole_writes (state : SplitFarm n) : state.whole.writes = state.farm.writes := by
  obtain same | ⟨i, -, same⟩ := state.whole_cases
  · rw [same]
  · rw [same]
    rfl

@[simp]
theorem whole_numWorkersAvailable (state : SplitFarm n) :
    state.whole.numWorkersAvailable = state.farm.numWorkersAvailable := by
  obtain same | ⟨i, -, same⟩ := state.whole_cases
  · rw [same]
  · rw [same]
    rfl

theorem whole_worker_of_ne {j : Fin n} (other : state.half ≠ some j) :
    state.whole.workers j = state.farm.workers j := by
  obtain same | ⟨i, here, same⟩ := state.whole_cases
  · rw [same]
  · rw [same, Farm.workers_setWorker, if_neg]
    rintro rfl
    exact other here

/-- The process of a worker and its flag do not depend on the pid in the slot. -/
theorem whole_worker (state : SplitFarm n) (j : Fin n) : ∃ registered,
    state.whole.workers j = { state.farm.workers j with registered } := by
  by_cases here : state.half = some j
  · exact ⟨false, by rw [whole_of_half here, Farm.workers_setWorker, if_pos rfl]⟩
  · exact ⟨(state.farm.workers j).registered, whole_worker_of_ne here⟩

theorem whole_marked (state : SplitFarm n) : state.whole.marked = state.farm.marked := by
  refine Finset.filter_congr fun j _ => ?_
  obtain ⟨registered, same⟩ := state.whole_worker j
  rw [same]

end SplitFarm

end Multiprocessing
end Syscore
