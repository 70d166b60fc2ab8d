import Mathlib.Data.DFinsupp.WellFounded
import Mathlib.Data.Fintype.Basic
import Mathlib.Logic.Function.Basic
import Syscore.Library.Filters
import Syscore.Library.Inevitable

/-!
# Chains of filters

Programs joined by pipes of bounded capacity. A `write` moves its bytes as the pipe has room; a
write to a pipe that nobody reads ends the writer, as `SIGPIPE` does; a `read` of an empty pipe
waits while the writer is there. The first program reads a source that is all there, the last one
writes to a sink that takes everything.
-/

namespace Syscore

variable {α σ : Type*} {n : ℕ}

/-- A process of a chain, with the bytes of the write that it is in. -/
@[ext]
structure Stage (α σ : Type*) where
  code : σ
  pending : List α := []
  live : Bool := true

/-- The processes of a chain, what waits to be read by each, and what the last one has written. -/
@[ext]
structure Chain (α σ : Type*) (n : ℕ) where
  stages : Fin n → Stage α σ
  waiting : Fin n → List α
  output : List α := []

/-- A process, and how many bytes the kernel moves for it. -/
abbrev ChainLabel (n : ℕ) := Fin n × ℕ

namespace Chain

/-- Nobody writes any more what this process reads. -/
def Closed (state : Chain α σ n) (i : Fin n) : Prop :=
  ∀ j : Fin n, j.val + 1 = i.val → (state.stages j).live = false

instance (state : Chain α σ n) (i : Fin n) : Decidable (state.Closed i) :=
  inferInstanceAs (Decidable (∀ j : Fin n, j.val + 1 = i.val → (state.stages j).live = false))

def setStage (state : Chain α σ n) (i : Fin n) (stage : Stage α σ) : Chain α σ n :=
  { state with stages := Function.update state.stages i stage }

/-- The kernel moves bytes of a write. -/
def moveStep (capacity : ℕ) (state : Chain α σ n) (i : Fin n) (count : ℕ) :
    Option (Chain α σ n) :=
  let stage := state.stages i
  let moved := state.setStage i { stage with pending := stage.pending.drop count }
  if 0 < count ∧ count ≤ stage.pending.length then
    if inside : i.val + 1 < n then
      let next : Fin n := ⟨i.val + 1, inside⟩
      if (state.waiting next).length + count ≤ capacity then
        some { moved with
          waiting := Function.update state.waiting next
            (state.waiting next ++ stage.pending.take count) }
      else
        none
    else
      some { moved with output := state.output ++ stage.pending.take count }
  else
    none

/-- The next action of a process that is not in a write. -/
def actStep (act : σ → FilterAct α σ) (state : Chain α σ n) (i : Fin n) (count : ℕ) :
    Option (Chain α σ n) :=
  let stage := state.stages i
  match act stage.code with
  | .exit => some (state.setStage i { stage with live := false })
  | .write bytes next => some (state.setStage i { stage with code := next, pending := bytes })
  | .read next =>
      if state.waiting i = [] then
        if state.Closed i then some (state.setStage i { stage with code := next [] }) else none
      else if 0 < count ∧ count ≤ (state.waiting i).length then
        some { state.setStage i { stage with code := next ((state.waiting i).take count) } with
          waiting := Function.update state.waiting i ((state.waiting i).drop count) }
      else
        none

/-- The reader of what this process writes is gone. -/
def Broken (state : Chain α σ n) (i : Fin n) : Prop :=
  ∃ j : Fin n, i.val + 1 = j.val ∧ (state.stages j).live = false

instance (state : Chain α σ n) (i : Fin n) : Decidable (state.Broken i) :=
  inferInstanceAs (Decidable (∃ j : Fin n, i.val + 1 = j.val ∧ (state.stages j).live = false))

def step (act : σ → FilterAct α σ) (capacity : ℕ) (state : Chain α σ n) :
    ChainLabel n → Option (Chain α σ n)
  | (i, count) =>
      if (state.stages i).live = false then none
      else if (state.stages i).pending = [] then state.actStep act i count
      else if state.Broken i then
        some (state.setStage i { state.stages i with live := false })
      else state.moveStep capacity i count

/-- The processes at their first actions, and the source. -/
def start (code : Fin n → σ) (source : List α) : Chain α σ n where
  stages i := { code := code i }
  waiting i := if i.val = 0 then source else []

end Chain

/-- A chain of processes over a source. -/
def chain (act : σ → FilterAct α σ) (capacity : ℕ) (code : Fin n → σ) (source : List α) :
    Machine (Chain α σ n) (ChainLabel n) where
  start state := state = .start code source
  step := Chain.step act capacity

namespace Chain

variable {act : σ → FilterAct α σ} {capacity : ℕ} {state after : Chain α σ n}

/-! ## The moves of a chain -/

/-- The steps of a chain. -/
inductive Move (act : σ → FilterAct α σ) (capacity : ℕ) (state : Chain α σ n) :
    Fin n → Chain α σ n → Prop
  | exits {i} (live : (state.stages i).live = true) (idle : (state.stages i).pending = [])
      (exit : act (state.stages i).code = .exit) :
      Move act capacity state i (state.setStage i { state.stages i with live := false })
  | writes {i bytes next} (live : (state.stages i).live = true)
      (idle : (state.stages i).pending = [])
      (write : act (state.stages i).code = .write bytes next) :
      Move act capacity state i
        (state.setStage i { state.stages i with code := next, pending := bytes })
  | ends {i next} (live : (state.stages i).live = true) (idle : (state.stages i).pending = [])
      (read : act (state.stages i).code = .read next) (none : state.waiting i = [])
      (closed : state.Closed i) :
      Move act capacity state i (state.setStage i { state.stages i with code := next [] })
  | reads {i next bytes rest} (live : (state.stages i).live = true)
      (idle : (state.stages i).pending = []) (read : act (state.stages i).code = .read next)
      (some : bytes ≠ []) (cut : state.waiting i = bytes ++ rest) :
      Move act capacity state i
        { state.setStage i { state.stages i with code := next bytes } with
          waiting := Function.update state.waiting i rest }
  | breaks {i} (live : (state.stages i).live = true) (busy : (state.stages i).pending ≠ [])
      (broken : state.Broken i) :
      Move act capacity state i (state.setStage i { state.stages i with live := false })
  | passes {i next bytes rest} (live : (state.stages i).live = true)
      (cut : (state.stages i).pending = bytes ++ rest) (some : bytes ≠ [])
      (adjacent : i.val + 1 = next.val) (reader : (state.stages next).live = true)
      (room : (state.waiting next).length + bytes.length ≤ capacity) :
      Move act capacity state i
        { state.setStage i { state.stages i with pending := rest } with
          waiting := Function.update state.waiting next (state.waiting next ++ bytes) }
  | emits {i bytes rest} (live : (state.stages i).live = true)
      (cut : (state.stages i).pending = bytes ++ rest) (some : bytes ≠ []) (last : i.val + 1 = n) :
      Move act capacity state i
        { state.setStage i { state.stages i with pending := rest } with
          output := state.output ++ bytes }

theorem take_ne_nil {list : List α} {count : ℕ} (bounds : 0 < count ∧ count ≤ list.length) :
    list.take count ≠ [] := by
  rw [← List.length_pos_iff, List.length_take]
  omega

theorem move_of_step {i : Fin n} {count : ℕ}
    (taken : state.step act capacity (i, count) = some after) :
    Move act capacity state i after := by
  rw [step] at taken
  split at taken
  · cases taken
  rename_i live
  have live := (Bool.not_eq_false _).mp live
  split at taken
  · rename_i idle
    rw [actStep] at taken
    dsimp only at taken
    split at taken
    · rename_i exit
      obtain rfl := Option.some.inj taken
      exact .exits live idle exit
    · rename_i write
      obtain rfl := Option.some.inj taken
      exact .writes live idle write
    · rename_i read
      split at taken
      · rename_i none
        split at taken
        · rename_i closed
          obtain rfl := Option.some.inj taken
          exact .ends live idle read none closed
        · cases taken
      · split at taken
        · rename_i bounds
          obtain rfl := Option.some.inj taken
          exact .reads live idle read (take_ne_nil bounds) (List.take_append_drop _ _).symm
        · cases taken
  · rename_i busy
    split at taken
    · rename_i broken
      obtain rfl := Option.some.inj taken
      exact .breaks live busy broken
    · rename_i unbroken
      rw [moveStep] at taken
      dsimp only at taken
      split at taken
      · rename_i bounds
        split at taken
        · rename_i inside
          split at taken
          · rename_i room
            obtain rfl := Option.some.inj taken
            refine .passes live (List.take_append_drop _ _).symm (take_ne_nil bounds) rfl ?_ ?_
            · exact (Bool.not_eq_false _).mp fun gone => unbroken ⟨_, rfl, gone⟩
            · rwa [List.length_take, Nat.min_eq_left bounds.2]
          · cases taken
        · rename_i outside
          obtain rfl := Option.some.inj taken
          exact .emits live (List.take_append_drop _ _).symm (take_ne_nil bounds) (by omega)
      · cases taken

/-! ## No chain is stuck -/

/-- A process in a write goes on: there is room, or nobody is left to read. -/
theorem isSome_step_of_busy (positive : 0 < capacity) {i : Fin n}
    (live : (state.stages i).live = true) (busy : (state.stages i).pending ≠ [])
    (room : ∀ j : Fin n, i.val + 1 = j.val → (state.stages j).live = true →
      state.waiting j = []) : (state.step act capacity (i, 1)).isSome = true := by
  rw [step, if_neg (by simp [live]), if_neg busy]
  by_cases broken : state.Broken i
  · rw [if_pos broken]
    rfl
  · rw [if_neg broken, moveStep]
    dsimp only
    rw [if_pos ⟨Nat.one_pos, List.length_pos_iff.mpr busy⟩]
    split
    · rename_i inside
      have reader : (state.stages ⟨i.val + 1, inside⟩).live = true :=
        (Bool.not_eq_false _).mp fun gone => broken ⟨_, rfl, gone⟩
      rw [room _ rfl reader, if_pos (by simpa using Nat.succ_le_of_lt positive)]
      rfl
    · rfl

/-- A live process whose reader is not behind can go on, or one that it waits for can. -/
theorem enabled_of_room (positive : 0 < capacity) {i : Fin n} (live : (state.stages i).live = true)
    (room : ∀ j : Fin n, i.val + 1 = j.val → (state.stages j).live = true →
      state.waiting j = []) :
    ∃ label, (state.step act capacity label).isSome = true := by
  induction size : i.val using Nat.strong_induction_on generalizing i with
  | _ size ih =>
      by_cases busy : (state.stages i).pending = []
      case neg => exact ⟨(i, 1), isSome_step_of_busy positive live busy room⟩
      by_cases none : state.waiting i = []
      case neg =>
        refine ⟨(i, 1), ?_⟩
        rw [step, if_neg (by simp [live]), if_pos busy, actStep]
        dsimp only
        split
        · rfl
        · rfl
        · rw [if_neg none, if_pos ⟨Nat.one_pos, List.length_pos_iff.mpr none⟩]
          rfl
      by_cases closed : state.Closed i
      · refine ⟨(i, 1), ?_⟩
        rw [step, if_neg (by simp [live]), if_pos busy, actStep]
        dsimp only
        split
        · rfl
        · rfl
        · rw [if_pos none, if_pos closed]
          rfl
      · simp only [Closed, not_forall] at closed
        obtain ⟨j, before, writer⟩ := closed
        refine ih j.val (by omega) ((Bool.not_eq_false _).mp writer) (fun k after _ => ?_) rfl
        rwa [show k = i from Fin.ext (by omega)]

/-- While some process is live, one can go on. -/
theorem enabled_of_live (act : σ → FilterAct α σ) (positive : 0 < capacity) {i : Fin n}
    (live : (state.stages i).live = true) :
    ∃ label, (state.step act capacity label).isSome = true := by
  induction size : n - i.val using Nat.strong_induction_on generalizing i with
  | _ size ih =>
      by_cases next : ∃ j : Fin n, i.val + 1 = j.val ∧ (state.stages j).live = true
      · obtain ⟨j, adjacent, live⟩ := next
        exact ih (n - j.val) (by omega) live rfl
      · exact enabled_of_room positive live fun j adjacent live => absurd ⟨j, adjacent, live⟩ next

/-! ## No chain goes on for ever -/

/-- What a step lowers: whether the process is live, what it can still do alone with what waits for
it, and what is left of its write. -/
def measure (state : Chain α σ n) (i : Fin n) : ℕ × (σ × List α) × ℕ :=
  ((state.stages i).live.toNat, ((state.stages i).code, state.waiting i),
    (state.stages i).pending.length)

/-- The order of the measures. -/
abbrev Lower (act : σ → FilterAct α σ) :
    ℕ × (σ × List α) × ℕ → ℕ × (σ × List α) × ℕ → Prop :=
  Prod.Lex (· < ·) (Prod.Lex (fun after before => Consumes act before after) (· < ·))

theorem wellFounded_lower (halting : Halting act) :
    WellFounded (Pi.Lex (· < ·) fun {_ : Fin n} => Lower act) :=
  Pi.Lex.wellFounded _ fun _ =>
    (Prod.lex Nat.lt_wfRel (Prod.lex ⟨_, halting⟩ Nat.lt_wfRel)).wf

@[simp]
theorem setStage_self (i : Fin n) (stage : Stage α σ) : (state.setStage i stage).stages i = stage :=
  Function.update_self ..

@[simp]
theorem setStage_of_ne {i j : Fin n} (other : j ≠ i) (stage : Stage α σ) :
    (state.setStage i stage).stages j = state.stages j :=
  Function.update_of_ne other ..

@[simp]
theorem setStage_waiting (i : Fin n) (stage : Stage α σ) :
    (state.setStage i stage).waiting = state.waiting := rfl

@[simp]
theorem setStage_output (i : Fin n) (stage : Stage α σ) :
    (state.setStage i stage).output = state.output := rfl

/-- A process moves the measures of no process before it. -/
theorem measure_of_move {i : Fin n} (move : Move act capacity state i after) {j : Fin n}
    (before : j < i) : after.measure j = state.measure j := by
  have apart : j ≠ i := before.ne
  cases move with
  | exits | writes | ends | breaks | emits => simp [measure, apart]
  | reads => simp [measure, apart]
  | passes _ _ _ adjacent =>
      have next : j ≠ _ := fun same => by
        rw [Fin.lt_def, same, ← adjacent] at before
        omega
      simp [measure, apart, Function.update_of_ne next]

theorem lower_of_move {i : Fin n} (move : Move act capacity state i after) :
    Lower act (after.measure i) (state.measure i) := by
  cases move with
  | exits live | breaks live =>
      refine .left _ _ ?_
      simp [live]
  | writes live _ write =>
      simp only [measure, setStage_self, setStage_waiting]
      exact .right _ (.left _ _ (.write write))
  | ends live _ read none =>
      simp only [measure, setStage_self, setStage_waiting, none]
      exact .right _ (.left _ _ (.ends read))
  | reads live _ read some cut =>
      simp only [measure, setStage_self, Function.update_self, cut]
      exact .right _ (.left _ _ (.chunk read some))
  | @passes next bytes rest live cut some adjacent =>
      have apart : i ≠ next := fun same => by
        have same := congrArg Fin.val same
        omega
      have positive := List.length_pos_iff.mpr some
      simp only [measure, setStage_self, Function.update_of_ne apart, cut, List.length_append]
      exact .right _ (.right _ (by omega))
  | emits live cut some =>
      have positive := List.length_pos_iff.mpr some
      simp only [measure, setStage_self, setStage_waiting, cut, List.length_append]
      exact .right _ (.right _ (by omega))

/-- A process that is over stays over. -/
theorem dead_of_move {i j : Fin n} (move : Move act capacity state i after)
    (dead : (state.stages j).live = false) : (after.stages j).live = false := by
  by_cases here : j = i
  · subst here
    cases move <;> simp_all
  · cases move <;> simpa [here] using dead

/-! ## What flows through a chain -/

/-- What a process has done. -/
structure Past (α : Type*) where
  consumed : List α := []
  ended : Bool := false
  emitted : List α := []

/-- What the processes have done accounts for every byte: a pipe holds what its writer has emitted
and its reader has not consumed. -/
structure Flows (act : σ → FilterAct α σ) (code : Fin n → σ) (source : List α)
    (past : Fin n → Past α) (state : Chain α σ n) : Prop where
  ran : ∀ i, Ran act (code i) (past i).consumed (past i).ended (past i).emitted
    (state.stages i).code
  fed : ∀ i : Fin n, i.val = 0 → source = (past i).consumed ++ state.waiting i
  link : ∀ i j : Fin n, i.val + 1 = j.val →
    (past i).emitted = (past j).consumed ++ state.waiting j ++ (state.stages i).pending
  sink : ∀ i : Fin n, i.val + 1 = n →
    (past i).emitted = state.output ++ (state.stages i).pending
  drained : ∀ i, (past i).ended = true → state.waiting i = []
  told : ∀ i j : Fin n, i.val + 1 = j.val → (past j).ended = true →
    (state.stages i).live = false ∧ (state.stages i).pending = []
  gone : ∀ i, (state.stages i).live = false →
    act (state.stages i).code = .exit ∧ (state.stages i).pending = [] ∨
      (state.stages i).pending ≠ [] ∧ state.Broken i

variable {code : Fin n → σ} {source : List α} {past : Fin n → Past α}

theorem flows_start : Flows act code source (fun _ => {}) (.start code source) where
  ran _ := .start
  fed i first := by simp [start, first]
  link i j adjacent := by simp [start, ← adjacent]
  sink _ _ := rfl
  drained _ ended := by cases ended
  told _ _ _ ended := by cases ended
  gone _ dead := by cases dead

/-- A process that ends breaks no process less. -/
theorem Broken.setStage {i j : Fin n} (broken : state.Broken j) {stage : Stage α σ}
    (kept : (state.stages i).live = false → stage.live = false) :
    (state.setStage i stage).Broken j := by
  obtain ⟨k, adjacent, dead⟩ := broken
  refine ⟨k, adjacent, ?_⟩
  by_cases same : k = i
  · rw [same, setStage_self]
    exact kept (same ▸ dead)
  · rwa [setStage_of_ne same]

namespace Flows

variable {i : Fin n}

/-- The process ends, by itself or by a signal. -/
theorem dies (flows : Flows act code source past state) (live : (state.stages i).live = true)
    (how : act (state.stages i).code = .exit ∧ (state.stages i).pending = [] ∨
      (state.stages i).pending ≠ [] ∧ state.Broken i) :
    Flows act code source past (state.setStage i { state.stages i with live := false }) := by
  have same (j : Fin n) :
      ((state.setStage i { state.stages i with live := false }).stages j).code =
        (state.stages j).code ∧
      ((state.setStage i { state.stages i with live := false }).stages j).pending =
        (state.stages j).pending := by
    by_cases here : j = i
    · subst here
      simp
    · simp [here]
  constructor
  case ran => exact fun j => (same j).1.symm ▸ flows.ran j
  case fed => exact flows.fed
  case link => exact fun j k adjacent => (same j).2.symm ▸ flows.link j k adjacent
  case sink => exact fun j last => (same j).2.symm ▸ flows.sink j last
  case drained => exact flows.drained
  case told =>
    intro j k adjacent ended
    have told := flows.told j k adjacent ended
    have apart : j ≠ i := by
      rintro rfl
      exact Bool.false_ne_true (told.1.symm.trans live)
    simpa [apart] using told
  case gone =>
    intro j dead
    rw [(same j).1, (same j).2]
    have how : act (state.stages j).code = .exit ∧ (state.stages j).pending = [] ∨
        (state.stages j).pending ≠ [] ∧ state.Broken j := by
      by_cases here : j = i
      · exact here ▸ how
      · exact flows.gone j (by simpa [here] using dead)
    exact how.imp_right fun ⟨busy, broken⟩ => ⟨busy, broken.setStage fun _ => rfl⟩

/-- The process takes its next action. -/
theorem acts (flows : Flows act code source past state) (live : (state.stages i).live = true)
    (idle : (state.stages i).pending = []) (stage : Stage α σ) (rest : List α) (now : Past α)
    (alive : stage.live = true)
    (ran : Ran act (code i) now.consumed now.ended now.emitted stage.code)
    (input : (past i).consumed ++ state.waiting i = now.consumed ++ rest)
    (emitted : now.emitted = (past i).emitted ++ stage.pending)
    (drained : now.ended = true → rest = [])
    (told : now.ended = true → ∀ j : Fin n, j.val + 1 = i.val →
      (state.stages j).live = false ∧ (state.stages j).pending = []) :
    Flows act code source (Function.update past i now)
      { state.setStage i stage with waiting := Function.update state.waiting i rest } := by
  constructor
  case ran =>
    intro j
    by_cases here : j = i
    · subst here
      simpa using ran
    · simpa [here] using flows.ran j
  case fed =>
    intro j first
    by_cases here : j = i
    · subst here
      simpa [← input] using flows.fed j first
    · simpa [here] using flows.fed j first
  case link =>
    intro j k adjacent
    have flow := flows.link j k adjacent
    by_cases here : j = i
    · subst here
      have apart : k ≠ j := by
        rintro rfl
        omega
      rw [idle, List.append_nil] at flow
      simp [apart, emitted, flow]
    · by_cases there : k = i
      · subst there
        simpa [here, ← input] using flow
      · simpa [here, there] using flow
  case sink =>
    intro j last
    have flow := flows.sink j last
    by_cases here : j = i
    · subst here
      rw [idle, List.append_nil] at flow
      simp [emitted, flow]
    · simpa [here] using flow
  case drained =>
    intro j ended
    by_cases here : j = i
    · subst here
      simpa using drained (by simpa using ended)
    · simpa [here] using flows.drained j (by simpa [here] using ended)
  case told =>
    intro j k adjacent ended
    have known : (state.stages j).live = false ∧ (state.stages j).pending = [] := by
      by_cases there : k = i
      · subst there
        exact told (by simpa using ended) j adjacent
      · exact flows.told j k adjacent (by simpa [there] using ended)
    have apart : j ≠ i := by
      rintro rfl
      exact Bool.false_ne_true (known.1.symm.trans live)
    simpa [apart] using known
  case gone =>
    intro j dead
    have apart : j ≠ i := by
      rintro rfl
      simp [alive] at dead
    have kept : (state.stages i).live = false → stage.live = false := by simp [live]
    have how := flows.gone j (by simpa [apart] using dead)
    simpa [apart] using how.imp_right fun ⟨busy, broken⟩ => ⟨busy, broken.setStage kept⟩

/-- Bytes of the write of a process go on, to where `link` or `sink` finds them. -/
theorem writes (flows : Flows act code source past state) (live : (state.stages i).live = true)
    (rest : List α) (waiting : Fin n → List α) (output : List α)
    (fed : ∀ j : Fin n, j.val = 0 → waiting j = state.waiting j)
    (link : ∀ j : Fin n, i.val + 1 = j.val →
      state.waiting j ++ (state.stages i).pending = waiting j ++ rest)
    (others : ∀ j : Fin n, i.val + 1 ≠ j.val → waiting j = state.waiting j)
    (sink : i.val + 1 = n → state.output ++ (state.stages i).pending = output ++ rest)
    (kept : i.val + 1 ≠ n → output = state.output) :
    Flows act code source past
      { state.setStage i { state.stages i with pending := rest } with waiting, output } := by
  have reading (j : Fin n) (ended : (past j).ended = true) : i.val + 1 ≠ j.val := fun adjacent =>
    Bool.false_ne_true ((flows.told i j adjacent ended).1.symm.trans live)
  constructor
  case ran =>
    intro j
    by_cases here : j = i
    · subst here
      simpa using flows.ran j
    · simpa [here] using flows.ran j
  case fed =>
    intro j first
    dsimp only
    rw [fed j first]
    exact flows.fed j first
  case link =>
    intro j k adjacent
    have flow := flows.link j k adjacent
    by_cases here : j = i
    · subst here
      rw [List.append_assoc, link k adjacent] at flow
      simpa using flow
    · have apart : i.val + 1 ≠ k.val := fun same => here (Fin.ext (by omega))
      simpa [here, others k apart] using flow
  case sink =>
    intro j last
    have flow := flows.sink j last
    by_cases here : j = i
    · subst here
      rw [sink last] at flow
      simpa using flow
    · have apart : i.val + 1 ≠ n := fun same => here (Fin.ext (by omega))
      simpa [here, kept apart] using flow
  case drained =>
    intro j ended
    dsimp only
    rw [others j (reading j ended)]
    exact flows.drained j ended
  case told =>
    intro j k adjacent ended
    have told := flows.told j k adjacent ended
    have apart : j ≠ i := by
      rintro rfl
      exact reading k ended adjacent
    simpa [apart] using told
  case gone =>
    intro j dead
    have apart : j ≠ i := by
      rintro rfl
      simp [live] at dead
    have how := flows.gone j (by simpa [apart] using dead)
    simpa [apart] using how.imp_right fun ⟨busy, broken⟩ => ⟨busy, broken.setStage id⟩

/-- Every step keeps the account. -/
theorem move (flows : Flows act code source past state) (move : Move act capacity state i after) :
    ∃ past, Flows act code source past after := by
  cases move with
  | exits live idle exit => exact ⟨past, flows.dies live (.inl ⟨exit, idle⟩)⟩
  | breaks live busy broken => exact ⟨past, flows.dies live (.inr ⟨busy, broken⟩)⟩
  | @writes bytes next live idle write =>
      have flows := flows.acts live idle { state.stages i with code := next, pending := bytes }
        (state.waiting i) { past i with emitted := (past i).emitted ++ bytes } live
        (.write (flows.ran i) write) rfl rfl (flows.drained i)
        fun ended j adjacent => flows.told j i adjacent ended
      rw [Function.update_eq_self] at flows
      exact ⟨_, flows⟩
  | @ends next live idle read none closed =>
      have flows := flows.acts live idle { state.stages i with code := next [] } (state.waiting i)
        { past i with ended := true } live (.ends (flows.ran i) read) rfl
        (by rw [idle, List.append_nil]) (fun _ => none) fun _ j adjacent => ?_
      · rw [Function.update_eq_self] at flows
        exact ⟨_, flows⟩
      · refine ⟨closed j adjacent, ?_⟩
        rcases flows.gone j (closed j adjacent) with ⟨-, done⟩ | ⟨-, k, next, dead⟩
        · exact done
        · rw [show k = i from Fin.ext (by omega), live] at dead
          cases dead
  | @reads next bytes rest live idle read some cut =>
      have unended : (past i).ended = false := by
        rw [Bool.eq_false_iff]
        intro ended
        rw [flows.drained i ended] at cut
        exact some (List.append_eq_nil_iff.mp cut.symm).1
      have ran := flows.ran i
      rw [unended] at ran
      exact ⟨_, flows.acts live idle { state.stages i with code := next bytes } rest
        { consumed := (past i).consumed ++ bytes, emitted := (past i).emitted } live
        (.chunk ran read some) (by rw [cut, List.append_assoc]) (by rw [idle, List.append_nil])
        nofun nofun⟩
  | @passes next bytes rest live cut some adjacent reader room =>
      refine ⟨past, flows.writes live rest _ state.output (fun j first => ?_) (fun j same => ?_)
        (fun j other => ?_) (fun last => ?_) fun _ => rfl⟩
      · exact Function.update_of_ne (fun same => by rw [same] at first; omega) ..
      · obtain rfl : j = next := Fin.ext (by omega)
        rw [Function.update_self, cut, List.append_assoc]
      · exact Function.update_of_ne (fun same => other (by rw [same, adjacent])) ..
      · have inside := next.isLt
        omega
  | @emits bytes rest live cut some last =>
      refine ⟨past, flows.writes live rest state.waiting (state.output ++ bytes) (fun _ _ => rfl)
        (fun j same => ?_) (fun _ _ => rfl) (fun _ => ?_) fun inner => absurd last inner⟩
      · have inside := j.isLt
        omega
      · rw [cut, List.append_assoc]

end Flows

/-- In every state that a chain comes to, every byte is accounted for. -/
theorem flows_of_reachable (reach : (chain act capacity code source).Reachable .free state) :
    ∃ past, Flows act code source past state := by
  refine reach.invariant (fun state => ∃ past, Flows act code source past state) ?_ ?_
  · rintro _ rfl
    exact ⟨_, flows_start⟩
  · rintro before ⟨i, count⟩ after ⟨past, flows⟩ - taken
    exact flows.move (move_of_step taken)

/-! ## What comes out -/

/-- What programs make of a text one after the other. -/
def through (images : Fin n → List α → List α) (source : List α) : List α :=
  (List.ofFn images).foldl (fun text image => image text) source

variable {images : Fin n → List α → List α}

namespace Flows

/-- In a chain of programs that read to the end no process is broken off. The first may do without
its input. -/
theorem exited (flows : Flows act code source past state)
    (drains : ∀ i : Fin n, i.val ≠ 0 → Drains act (code i)) {i : Fin n}
    (dead : (state.stages i).live = false) :
    act (state.stages i).code = .exit ∧ (state.stages i).pending = [] := by
  induction size : n - i.val using Nat.strong_induction_on generalizing i with
  | _ size ih =>
      rcases flows.gone i dead with exited | ⟨busy, j, adjacent, dead⟩
      · exact exited
      · have exited := ih (n - j.val) (by omega) dead rfl
        have ended := drains j (by omega) _ _ _ _ (flows.ran j) exited.1
        exact absurd (flows.told i j adjacent ended).2 busy

/-- A process that is over has consumed all that the one before it emitted. -/
theorem consumed_succ (flows : Flows act code source past state)
    (drains : ∀ i : Fin n, i.val ≠ 0 → Drains act (code i)) {i j : Fin n}
    (adjacent : i.val + 1 = j.val) (dead : (state.stages j).live = false) :
    (past j).consumed = (past i).emitted := by
  have ended := drains j (by omega) _ _ _ _ (flows.ran j) (flows.exited drains dead).1
  rw [flows.link i j adjacent, flows.drained j ended, (flows.told i j adjacent ended).2,
    List.append_nil, List.append_nil]

theorem emitted_eq (flows : Flows act code source past state)
    (finished : ∀ i, (state.stages i).live = false)
    (computes : ∀ i, Computes act (code i) (images i)) (count : ℕ) (inside : count < n) :
    (past ⟨count, inside⟩).emitted =
      ((List.ofFn images).take (count + 1)).foldl (fun text image => image text) source := by
  have drains (i : Fin n) (_ : i.val ≠ 0) : Drains act (code i) := (computes i).drains
  have image (i : Fin n) : (past i).emitted = images i (past i).consumed :=
    (computes i _ _ _ _ (flows.ran i) (flows.exited drains (finished i)).1).2
  have next (count : ℕ) (inside : count < n) :
      (List.ofFn images).take (count + 1) =
        (List.ofFn images).take count ++ [images ⟨count, inside⟩] := by
    rw [List.take_add_one, List.getElem?_eq_getElem (by simpa using inside)]
    simp
  induction count with
  | zero =>
      obtain ⟨ended, -⟩ :=
        computes ⟨0, inside⟩ _ _ _ _ (flows.ran _) (flows.exited drains (finished _)).1
      have fed := flows.fed ⟨0, inside⟩ rfl
      rw [flows.drained _ ended, List.append_nil] at fed
      rw [image, ← fed, next 0 inside]
      rfl
  | succ count ih =>
      rw [image, flows.consumed_succ drains (i := ⟨count, by omega⟩) rfl (finished _), ih,
        next _ inside,
        List.foldl_append]
      rfl

/-- What a chain writes in the end is what its programs compute one after the other. -/
theorem output_of_over (flows : Flows act code source past state) (last : 0 < n)
    (finished : ∀ i, (state.stages i).live = false)
    (computes : ∀ i, Computes act (code i) (images i)) :
    state.output = through images source := by
  have drains (i : Fin n) (_ : i.val ≠ 0) : Drains act (code i) := (computes i).drains
  have sink := flows.sink ⟨n - 1, by omega⟩ (Nat.sub_add_cancel last)
  rw [(flows.exited drains (finished _)).2, List.append_nil,
    flows.emitted_eq finished computes] at sink
  rw [through, ← sink, Nat.sub_add_cancel last, List.take_of_length_le (by simp)]

end Flows

end Chain
end Syscore
