import Syscore.Multiprocessing.Moves

/-!
# The situation of a worker

A worker goes round: it stops, the handler marks it, the manager takes it off the list, writes a
number and continues it, it reads, factors and prints, and stops again. Where it is in the round
says what is in its pipe, whether it is marked, and which of its numbers it has printed.
-/

namespace Syscore
namespace Multiprocessing

variable {n : ℕ}

/-- What a worker prints for a number. -/
def answer (num : ℤ) : Text := factored (decimalInt num) num

/-- The numbers written to a worker. -/
def received (writes : List (Fin n × ℤ)) (j : Fin n) : List ℤ :=
  writes.filterMap fun write => if write.1 = j then some write.2 else none

/-- The worker that the manager has taken off the list and not yet continued. -/
def ManagerPc.holding : ManagerPc n → Option (Fin n)
  | .decrement i | .write i | .resume i => some i
  | _ => none

/-- Whether `closeAllWorkers` has begun to close pipes. -/
def ManagerPc.closing : ManagerPc n → Bool
  | .close _ | .resumeLast _ | .waitpid _ | .done => true
  | _ => false

/-- Whether `closeAllWorkers` has continued a worker. -/
def ManagerPc.dismissed : ManagerPc n → Fin n → Bool
  | .close i, j => j < i
  | .resumeLast i, j => j < i
  | .waitpid _, _ | .done, _ => true
  | _, _ => false

/-- Before the first stop, and between a line printed and the next stop. -/
def WorkerPc.busy : WorkerPc → Bool
  | .unborn | .dup2 | .closeRead | .closeWrite | .exec | .stop => true
  | _ => false

/-- Where a worker is in its round; `numbers` are those written to it. -/
inductive Situation (pc : ManagerPc n) (num : ℤ) (j : Fin n) (numbers : List ℤ) (worker : Worker) :
    Prop
  | busy (position : worker.pc.busy = true) (free : pc.holding ≠ some j)
      (early : pc.closing = false) (unavailable : worker.available = false)
      (reported : worker.report = false) (drained : worker.pipe = [])
      (printed : worker.printed = numbers.map answer)
  | stopped (position : worker.pc = .stopped) (free : pc.holding ≠ some j)
      (early : pc.closing = false) (unavailable : worker.available = false)
      (drained : worker.pipe = []) (printed : worker.printed = numbers.map answer)
  | idle (position : worker.pc = .stopped) (free : pc.holding ≠ some j)
      (kept : pc.dismissed j = false) (available : worker.available = true)
      (reported : worker.report = false) (drained : worker.pipe = [])
      (printed : worker.printed = numbers.map answer)
  | chosen (position : worker.pc = .stopped) (held : pc = .decrement j ∨ pc = .write j)
      (unavailable : worker.available = false) (reported : worker.report = false)
      (drained : worker.pipe = []) (printed : worker.printed = numbers.map answer)
  | handed (position : worker.pc = .stopped) (held : pc = .resume j)
      (unavailable : worker.available = false) (reported : worker.report = false)
      (waiting : worker.pipe = payload num)
      (printed : worker.printed ++ [answer num] = numbers.map answer)
  | reading (last : ℤ) (position : worker.pc = .readline) (free : pc.holding ≠ some j)
      (early : pc.closing = false) (unavailable : worker.available = false)
      (reported : worker.report = false) (waiting : worker.pipe = payload last)
      (printed : worker.printed ++ [answer last] = numbers.map answer)
  | emitting (last : ℤ) (position : worker.pc = .emit (decimalInt last))
      (free : pc.holding ≠ some j) (early : pc.closing = false)
      (unavailable : worker.available = false) (reported : worker.report = false)
      (drained : worker.pipe = []) (printed : worker.printed ++ [answer last] = numbers.map answer)
  | leaving (position : worker.pc = .readline ∨ worker.pc = .exiting ∨ worker.pc = .exited)
      (free : pc.holding ≠ some j) (dismissed : pc.dismissed j = true)
      (available : worker.available = true) (reported : worker.report = false)
      (drained : worker.pipe = []) (printed : worker.printed = numbers.map answer)

namespace Situation

variable {pc pc' : ManagerPc n} {num num' : ℤ} {j : Fin n} {numbers : List ℤ}
  {worker worker' : Worker}

/-- The manager moves on without this worker. -/
theorem goes (situation : Situation pc num j numbers worker) (free : pc.holding ≠ some j)
    (free' : pc'.holding ≠ some j) (closing : pc'.closing = pc.closing)
    (dismissed : pc'.dismissed j = pc.dismissed j) (num' : ℤ) :
    Situation pc' num' j numbers worker := by
  cases situation with
  | busy position _ early unavailable reported drained printed =>
      exact .busy position free' (closing.trans early) unavailable reported drained printed
  | stopped position _ early unavailable drained printed =>
      exact .stopped position free' (closing.trans early) unavailable drained printed
  | idle position _ kept available reported drained printed =>
      exact .idle position free' (dismissed.trans kept) available reported drained printed
  | chosen _ held =>
      rcases held with rfl | rfl
      · exact absurd rfl free
      · exact absurd rfl free
  | handed _ held =>
      subst held
      exact absurd rfl free
  | reading last position _ early unavailable reported waiting printed =>
      exact .reading last position free' (closing.trans early) unavailable reported waiting printed
  | emitting last position _ early unavailable reported drained printed =>
      exact .emitting last position free' (closing.trans early) unavailable reported drained printed
  | leaving position _ gone available reported drained printed =>
      exact .leaving position free' (dismissed.trans gone) available reported drained printed

/-- What the round does not depend on may change. -/
theorem congr (situation : Situation pc num j numbers worker) (position : worker'.pc = worker.pc)
    (available : worker'.available = worker.available) (report : worker'.report = worker.report)
    (pipe : worker'.pipe = worker.pipe) (printed : worker'.printed = worker.printed) :
    Situation pc num j numbers worker' := by
  obtain ⟨registered, _, supplyfds, _, fds, _, _, _⟩ := worker'
  dsimp only at position available report pipe printed
  subst position available report pipe printed
  cases situation with
  | busy position free early unavailable reported drained printed =>
      exact .busy position free early unavailable reported drained printed
  | stopped position free early unavailable drained printed =>
      exact .stopped position free early unavailable drained printed
  | idle position free kept available reported drained printed =>
      exact .idle position free kept available reported drained printed
  | chosen position held unavailable reported drained printed =>
      exact .chosen position held unavailable reported drained printed
  | handed position held unavailable reported waiting printed =>
      exact .handed position held unavailable reported waiting printed
  | reading last position free early unavailable reported waiting printed =>
      exact .reading last position free early unavailable reported waiting printed
  | emitting last position free early unavailable reported drained printed =>
      exact .emitting last position free early unavailable reported drained printed
  | leaving position free dismissed available reported drained printed =>
      exact .leaving position free dismissed available reported drained printed

/-- The worker is forked. -/
theorem born (situation : Situation pc num j numbers worker) (unborn : worker.pc = .unborn)
    (fds : FarmTable) : Situation pc num j numbers { worker with fds, pc := .dup2 } := by
  cases situation with
  | busy _ free early unavailable reported drained printed =>
      exact .busy rfl free early unavailable reported drained printed
  | stopped position => rw [unborn] at position; cases position
  | idle position => rw [unborn] at position; cases position
  | chosen position => rw [unborn] at position; cases position
  | handed position => rw [unborn] at position; cases position
  | reading _ position => rw [unborn] at position; cases position
  | emitting _ position => rw [unborn] at position; cases position
  | leaving position =>
      rw [unborn] at position
      rcases position with position | position | position <;> cases position

/-! ## What the situation says -/

/-- A marked worker waits, or is dismissed. -/
theorem of_available (situation : Situation pc num j numbers worker)
    (available : worker.available = true) :
    pc.holding ≠ some j ∧ worker.report = false ∧ worker.pipe = [] ∧
      worker.printed = numbers.map answer ∧
      (worker.pc = .stopped ∧ pc.dismissed j = false ∨
        pc.dismissed j = true ∧
          (worker.pc = .readline ∨ worker.pc = .exiting ∨ worker.pc = .exited)) := by
  have marked : ¬ worker.available = false := by
    rw [available]
    exact Bool.noConfusion
  cases situation with
  | idle position free kept _ reported drained printed =>
      exact ⟨free, reported, drained, printed, .inl ⟨position, kept⟩⟩
  | leaving position free dismissed _ reported drained printed =>
      exact ⟨free, reported, drained, printed, .inr ⟨dismissed, position⟩⟩
  | busy _ _ _ unavailable => exact absurd unavailable marked
  | stopped _ _ _ unavailable => exact absurd unavailable marked
  | chosen _ _ unavailable => exact absurd unavailable marked
  | handed _ _ unavailable => exact absurd unavailable marked
  | reading _ _ _ _ unavailable => exact absurd unavailable marked
  | emitting _ _ _ _ unavailable => exact absurd unavailable marked

/-- A pipe holds at most one number. -/
theorem pipe_cases (situation : Situation pc num j numbers worker) :
    worker.pipe = [] ∨ ∃ last, worker.pipe = payload last := by
  cases situation with
  | busy _ _ _ _ _ drained => exact .inl drained
  | stopped _ _ _ _ drained => exact .inl drained
  | idle _ _ _ _ _ drained => exact .inl drained
  | chosen _ _ _ _ drained => exact .inl drained
  | handed _ _ _ _ waiting => exact .inr ⟨num, waiting⟩
  | reading last _ _ _ _ _ waiting => exact .inr ⟨last, waiting⟩
  | emitting _ _ _ _ _ _ drained => exact .inl drained
  | leaving _ _ _ _ _ drained => exact .inl drained

/-! ## Steps of the worker -/

/-- The line that the manager writes is read whole, and stripped of its newline. -/
theorem readline_payload (last : ℤ) : readline (payload last) = payload last := by
  obtain ⟨line, rest⟩ := cut_at (newline_notMem_decimalInt last) []
  rw [readline, payload, line, rest]
  rfl

theorem strip_payload (last : ℤ) : strip (payload last) = decimalInt last :=
  strip_decimalInt last fun char inside => by
    rw [List.mem_singleton.mp inside]
    rfl

theorem payload_ne_nil (last : ℤ) : payload last ≠ [] := by
  simp [payload]

/-- A step of a worker moves it along its round. -/
theorem step {hasWriter : Bool} (situation : Situation pc num j numbers worker)
    (taken : worker.step hasWriter = some worker') : Situation pc num j numbers worker' := by
  cases situation with
  | busy position free early unavailable reported drained printed =>
      cases workerMove_of_step taken with
      | dup2 | closeRead | closeWrite | exec =>
          exact .busy rfl free early unavailable reported drained printed
      | stop => exact .stopped rfl free early unavailable drained printed
      | _ here => rw [here] at position; cases position
  | reading last position free early unavailable reported waiting printed =>
      have whole : newline ∈ worker.pipe := by
        rw [waiting, payload]
        exact List.mem_append_right _ List.mem_cons_self
      rw [Worker.step, position] at taken
      dsimp only at taken
      rw [if_neg (fun blocks => blocks.2 whole), waiting, readline_payload,
        if_neg (payload_ne_nil last), strip_payload, if_neg (decimalInt_ne_nil last)] at taken
      obtain rfl := Option.some.inj taken
      exact .emitting last rfl free early unavailable reported List.drop_length printed
  | emitting last position free early unavailable reported drained printed =>
      rw [Worker.step, position] at taken
      dsimp only at taken
      rw [emit_decimalInt] at taken
      obtain rfl := Option.some.inj taken
      exact .busy rfl free early unavailable reported drained printed
  | leaving position free dismissed available reported drained printed =>
      cases workerMove_of_step taken with
      | ends => exact .leaving (.inr (.inl rfl)) free dismissed available reported drained printed
      | reads _ _ some => exact absurd (by rw [drained]; rfl) some
      | exits => exact .leaving (.inr (.inr rfl)) free dismissed available reported drained printed
      | _ here => rcases position with position | position | position <;> cases here ▸ position
  | stopped position | idle position | chosen position | handed position =>
      rw [Worker.step, position] at taken
      cases taken

/-- A step of a worker leaves its slot alone. -/
theorem slot_of_step {hasWriter : Bool} (taken : worker.step hasWriter = some worker') :
    worker'.registered = worker.registered ∧ worker'.available = worker.available ∧
      worker'.supplyfds = worker.supplyfds := by
  cases workerMove_of_step taken with
  | _ => exact ⟨rfl, rfl, rfl⟩

/-! ## The handler -/

/-- Nobody is dismissed before the pipes are closed. -/
theorem dismissed_of_early (early : pc.closing = false) (j : Fin n) : pc.dismissed j = false := by
  cases pc <;> first | rfl | cases early

/-- The handler marks a worker that has stopped. -/
theorem mark (situation : Situation pc num j numbers worker) :
    Situation pc num j numbers worker.mark := by
  rw [Worker.mark]
  split
  · rename_i reported
    cases situation with
    | stopped position free early unavailable drained printed =>
        cases registered : worker.registered with
        | false =>
            exact .stopped position free early (by simp [unavailable]) drained printed
        | true =>
            exact .idle position free (dismissed_of_early early j) (by simp) rfl drained printed
    | busy _ _ _ _ unreported => rw [reported] at unreported; cases unreported
    | idle _ _ _ _ unreported => rw [reported] at unreported; cases unreported
    | chosen _ _ _ unreported => rw [reported] at unreported; cases unreported
    | handed _ _ _ unreported => rw [reported] at unreported; cases unreported
    | reading _ _ _ _ _ unreported => rw [reported] at unreported; cases unreported
    | emitting _ _ _ _ _ unreported => rw [reported] at unreported; cases unreported
    | leaving _ _ _ _ unreported => rw [reported] at unreported; cases unreported
  · exact situation

/-- The handler returns to the manager. -/
theorem afterHandler (situation : Situation pc num j numbers worker) :
    Situation pc.afterHandler num j numbers worker := by
  cases pc with
  | suspend => exact situation.goes nofun (by exact nofun) (by rfl) (by rfl) num
  | suspendAll => exact situation.goes nofun (by exact nofun) (by rfl) (by rfl) num
  | _ => exact situation

/-! ## Steps of the manager -/

/-- The manager takes a worker off the list. -/
theorem take (situation : Situation (.unavailable j) num j numbers worker)
    (available : worker.available = true) :
    Situation (.decrement j) num j numbers { worker with available := false } := by
  obtain ⟨-, reported, drained, printed, ⟨position, -⟩ | ⟨dismissed, -⟩⟩ :=
    situation.of_available available
  · exact .chosen position (.inl rfl) rfl reported drained printed
  · cases dismissed

/-- A worker that the manager holds is stopped, and its pipe is empty until the number is
written. -/
theorem of_holding (situation : Situation pc num j numbers worker) (held : pc.holding = some j) :
    worker.pc = .stopped ∧ worker.available = false ∧ worker.report = false ∧
      (pc = .resume j ∧ worker.pipe = payload num ∧
          worker.printed ++ [answer num] = numbers.map answer ∨
        (pc = .decrement j ∨ pc = .write j) ∧ worker.pipe = [] ∧
          worker.printed = numbers.map answer) := by
  cases situation with
  | chosen position here unavailable reported drained printed =>
      exact ⟨position, unavailable, reported, .inr ⟨here, drained, printed⟩⟩
  | handed position here unavailable reported waiting printed =>
      exact ⟨position, unavailable, reported, .inl ⟨here, waiting, printed⟩⟩
  | busy _ free => exact absurd held free
  | stopped _ free => exact absurd held free
  | idle _ free => exact absurd held free
  | reading _ _ free => exact absurd held free
  | emitting _ _ free => exact absurd held free
  | leaving _ free => exact absurd held free

theorem counted (situation : Situation (.decrement j) num j numbers worker) :
    Situation (.write j) num j numbers worker := by
  obtain ⟨position, unavailable, reported, ⟨here, -⟩ | ⟨-, drained, printed⟩⟩ :=
    situation.of_holding rfl
  · cases here
  · exact .chosen position (.inr rfl) unavailable reported drained printed

/-- The manager writes the number. -/
theorem write (situation : Situation (.write j) num j numbers worker) :
    Situation (.resume j) num j (numbers ++ [num])
      { worker with pipe := worker.pipe ++ payload num } := by
  obtain ⟨position, unavailable, reported, ⟨here, -⟩ | ⟨-, drained, printed⟩⟩ :=
    situation.of_holding rfl
  · cases here
  · refine .handed position rfl unavailable reported ?_ ?_
    · dsimp only
      rw [drained, List.nil_append]
    · rw [printed, List.map_append, List.map_singleton]

/-- The manager continues the worker. -/
theorem resume (situation : Situation (.resume j) num j numbers worker) :
    Situation .getline num j numbers worker.resume := by
  obtain ⟨position, unavailable, reported, ⟨-, waiting, printed⟩ | ⟨here, -⟩⟩ :=
    situation.of_holding rfl
  · rw [Worker.resume, if_pos position]
    exact .reading num rfl nofun rfl unavailable rfl waiting printed
  · rcases here with here | here <;> cases here

/-- With every worker marked, the manager begins to close pipes. -/
theorem shut (situation : Situation .ignoreChildren num j numbers worker)
    (available : worker.available = true) : Situation (.close 0) num j numbers worker := by
  obtain ⟨free, reported, drained, printed, ⟨position, -⟩ | ⟨dismissed, -⟩⟩ :=
    situation.of_available available
  · exact .idle position nofun (by simp [ManagerPc.dismissed]) available reported drained printed
  · cases dismissed

/-- The manager continues the worker for the last time. -/
theorem dismiss (situation : Situation (.resumeLast j) num j numbers worker)
    (available : worker.available = true) :
    Situation (.close (j + 1)) num j numbers worker.resume := by
  obtain ⟨free, reported, drained, printed, ⟨position, -⟩ | ⟨dismissed, -⟩⟩ :=
    situation.of_available available
  · rw [Worker.resume, if_pos position]
    exact .leaving (.inl rfl) nofun (by simp [ManagerPc.dismissed]) available rfl drained printed
  · simp [ManagerPc.dismissed] at dismissed

end Situation

end Multiprocessing
end Syscore
