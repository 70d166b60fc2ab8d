import Syscore.Multiprocessing.Readiness
import Syscore.Multiprocessing.Shutdown

/-!
# Progress

If the manager hears of every stop, it is never stuck: when it waits, a stop is pending or a worker
is on its way to one. And no run goes on for ever, since the lines of stdin, the statements of the
manager and the rounds of the workers run out.
-/

namespace Syscore
namespace Multiprocessing

variable {n : ℕ} {state after : Farm n}

/-- `pipe` and `fork` succeed, and the handler consumes no stop of a worker that is not in its
slot. -/
def tidy : Discipline (Farm n) (FarmLabel n)
  | _, .fails => False
  | state, label => prompt state label

theorem prompt_of_tidy (state : Farm n) (label : FarmLabel n) (permitted : tidy state label) :
    prompt state label := by
  cases label with
  | fails => trivial
  | manager | sigchld | worker _ => exact permitted

/-! ## Where the manager waits -/

/-- The workers that `closeAllWorkers` has reaped. -/
def ManagerPc.reaped : ManagerPc n → Fin n → Bool
  | .waitpid i, j => j < i
  | .done, _ => true
  | _, _ => false

namespace Farm

/-- What the manager has seen before it waits. -/
structure Waits (state : Farm n) : Prop where
  suspend : state.pc = .suspend → state.numWorkersAvailable = 0
  suspendAll : state.pc = .suspendAll → state.numWorkersAvailable < n
  reaped : ∀ j, state.pc.reaped j = true → (state.workers j).pc = .exited

theorem Waits.managerMove (waits : state.Waits) (move : ManagerMove state after) :
    after.Waits := by
  cases move with
  | goes goes =>
      cases goes with
      | wait position none => exact ⟨fun _ => none, nofun, nofun⟩
      | waitAll position few => exact ⟨nofun, fun _ => few, nofun⟩
      | closed position outside =>
          refine ⟨nofun, nofun, fun j early => ?_⟩
          have early : j.val < 0 := of_decide_eq_true early
          exact absurd early (Nat.not_lt_zero _)
      | @reaps i position inside exited =>
          refine ⟨nofun, nofun, fun j early => ?_⟩
          have early : j.val < i + 1 := of_decide_eq_true early
          rcases Nat.lt_succ_iff_lt_or_eq.mp early with before | here
          · exact waits.reaped j (by rw [position]; exact decide_eq_true before)
          · obtain rfl : j = ⟨i, inside⟩ := Fin.ext here
            exact exited
      | _ => exact ⟨nofun, nofun, nofun⟩
  | @returns i position outside =>
      refine ⟨nofun, nofun, fun j _ => waits.reaped j ?_⟩
      rw [position]
      exact decide_eq_true (j.isLt.trans_le (not_lt.mp outside))
  | _ => exact ⟨nofun, nofun, nofun⟩

theorem Waits.step (waits : state.Waits) {label : FarmLabel n}
    (taken : state.step label = some after) : after.Waits := by
  cases farmMove_of_step taken with
  | manager move => exact waits.managerMove move
  | sigchld _ handles =>
      cases position : state.pc with
      | close _ | resumeLast _ | waitpid _ | done | failed | terminated =>
          rw [position] at handles
          cases handles
      | _ =>
          constructor <;>
            simp [markWorkersAsAvailable, position, ManagerPc.afterHandler, ManagerPc.reaped]
  | @worker i worker moved =>
      refine ⟨waits.suspend, waits.suspendAll, fun j reaped => ?_⟩
      have exited := waits.reaped j reaped
      have apart : j ≠ i := by
        rintro rfl
        rw [Worker.step, exited] at moved
        cases moved
      show ((state.setWorker i worker).workers j).pc = .exited
      rw [workers_setWorker, if_neg apart]
      exact exited
  | pipeFails | forkFails => refine ⟨?_, ?_, fun j => ?_⟩ <;> rintro ⟨⟩

theorem waits_of_reachable {text : Text} {allowed : Discipline (Farm n) (FarmLabel n)}
    (reach : (farm n text).Reachable allowed state) : state.Waits := by
  refine reach.invariant Waits (fun state initial => ?_) fun _ _ _ waits _ => waits.step
  rw [initial.fresh]
  exact ⟨nofun, nofun, nofun⟩

/-! ## Never stuck -/

/-- The manager goes on where it does not wait and is not over. -/
theorem isSome_managerStep (awake : state.pc ≠ .suspend ∧ state.pc ≠ .suspendAll)
    (reaping : ∀ i, state.pc ≠ .waitpid i)
    (running : state.pc ≠ .done ∧ state.pc ≠ .failed ∧ state.pc ≠ .terminated) :
    state.managerStep.isSome = true := by
  rw [managerStep]
  cases position : state.pc with
  | suspend => exact absurd position awake.1
  | suspendAll => exact absurd position awake.2
  | waitpid i => exact absurd position (reaping i)
  | done => exact absurd position running.1
  | failed => exact absurd position running.2.1
  | terminated => exact absurd position running.2.2
  | pipe _ | assertAvailable | scan _ | assertFound _ | close _ =>
      dsimp only
      split <;> rfl
  | getline =>
      dsimp only
      split
      · rfl
      · split
        · rfl
        · split <;> rfl
  | _ => rfl

/-- A manager that sleeps while a worker is not marked is woken up, or the worker goes on. -/
theorem wakes (sound : state.Sound) (alert : state.Alert)
    (asleep : state.pc = .suspend ∨ state.pc = .suspendAll) {j : Fin n}
    (unmarked : (state.workers j).available = false) :
    state.pending = true ∨ (state.step (.worker j)).isSome = true := by
  have shape : state.pc.holding = none ∧ ¬ state.pc.unforked j ∧ state.pc ≠ .terminated ∧
      state.pc.dismissed j = false := by
    rcases asleep with position | position
    · rw [position]
      refine ⟨rfl, id, ?_, rfl⟩
      rintro ⟨⟩
    · rw [position]
      refine ⟨rfl, id, ?_, rfl⟩
      rintro ⟨⟩
  obtain ⟨free, forked, running, kept⟩ := shape
  have marked : ¬ (state.workers j).available = true := by
    rw [unmarked]
    exact Bool.false_ne_true
  cases sound.situations j with
  | busy position =>
      refine .inr (isSome_worker ?_)
      have born := (alert j).forked running forked
      rw [Worker.step]
      cases here : (state.workers j).pc with
      | unborn => exact absurd here born
      | dup2 | closeRead | closeWrite | exec | stop => rfl
      | stopped | readline | emit _ | exiting | exited =>
          rw [here] at position
          cases position
  | stopped position =>
      have report := (alert j).stopped position unmarked (by rw [free]; rintro ⟨⟩)
      exact .inl ((alert j).pending report)
  | idle _ _ _ available => exact absurd available marked
  | chosen _ held =>
      rcases held with held | held
      · rw [held] at free
        cases free
      · rw [held] at free
        cases free
  | handed _ held =>
      rw [held] at free
      cases free
  | reading last position _ _ _ _ waiting =>
      have whole : newline ∈ (state.workers j).pipe := by
        rw [waiting, payload]
        exact List.mem_append_right _ List.mem_cons_self
      refine .inr (isSome_worker ?_)
      rw [Worker.step, position]
      dsimp only
      rw [if_neg (fun blocks => blocks.2 whole)]
      split <;> rfl
  | emitting last position =>
      refine .inr (isSome_worker ?_)
      rw [Worker.step, position]
      dsimp only
      rw [emit_decimalInt]
      rfl
  | leaving _ _ _ available => exact absurd available marked

/-- While not every worker is marked there is one that is not. -/
theorem exists_unmarked (few : state.marked.card < n) :
    ∃ j, (state.workers j).available = false := by
  by_contra all
  have every : state.marked = Finset.univ := by
    rw [Finset.eq_univ_iff_forall]
    intro j
    rw [mem_marked, ← Bool.not_eq_false]
    exact fun unmarked => all ⟨j, unmarked⟩
  rw [every, Finset.card_univ, Fintype.card_fin] at few
  exact lt_irrefl n few

/-- With at least one worker, and while no stop is lost, a farm is over or goes on. -/
theorem live {text : Text} {state : Farm (n + 1)}
    (reach : (farm (n + 1) text).Reachable tidy state) :
    state.pc = .done ∨ state.pc = .terminated ∨ state.managerStep.isSome = true ∨
      (∃ j, (state.step (.worker j)).isSome = true) ∨
      (state.pc = .suspend ∨ state.pc = .suspendAll) ∧ state.pending = true := by
  have sound := sound_of_reachable reach
  have alert := alert_of_reachable prompt_of_tidy reach
  have waits := waits_of_reachable reach
  have sleeps (asleep : state.pc = .suspend ∨ state.pc = .suspendAll)
      (few : state.marked.card < n + 1) :
      (∃ j, (state.step (.worker j)).isSome = true) ∨
        (state.pc = .suspend ∨ state.pc = .suspendAll) ∧ state.pending = true := by
    obtain ⟨j, unmarked⟩ := exists_unmarked few
    rcases wakes sound alert asleep unmarked with pending | moves
    · exact .inr ⟨asleep, pending⟩
    · exact .inl ⟨j, moves⟩
  have counted := sound.counted
  by_cases suspend : state.pc = .suspend
  · have none := waits.suspend suspend
    exact .inr (.inr (.inr (sleeps (.inl suspend) (by omega))))
  by_cases suspendAll : state.pc = .suspendAll
  · have few := waits.suspendAll suspendAll
    exact .inr (.inr (.inr (sleeps (.inr suspendAll) (by omega))))
  by_cases reaping : ∃ i, state.pc = .waitpid i
  · obtain ⟨i, position⟩ := reaping
    obtain ⟨lives, gone⟩ := shutdown_live reach.toFree position
    by_cases live : ∃ j, (state.workers j).pc ≠ .exited
    · obtain ⟨j, -, -, -, -, moves⟩ := lives live
      exact .inr (.inr (.inr (.inl ⟨j, moves⟩)))
    · exact .inr (.inr (.inl (gone (not_exists_not.mp live))))
  by_cases done : state.pc = .done
  · exact .inl done
  by_cases terminated : state.pc = .terminated
  · exact .inr (.inl terminated)
  have failed : state.pc ≠ .failed := by
    intro failed
    have promise := sound.promise
    rw [failed] at promise
    exact promise
  exact .inr (.inr (.inl (isSome_managerStep ⟨suspend, suspendAll⟩ (not_exists.mp reaping)
    ⟨done, failed, terminated⟩)))

end Farm

/-! ## Not for ever -/

/-- The steps up to the next stop, or to the exit, which count for three. -/
def WorkerPc.remaining : WorkerPc → ℤ
  | .unborn | .dup2 => 7
  | .closeRead => 6
  | .closeWrite | .readline => 5
  | .exec | .emit _ => 4
  | .stop | .exiting => 3
  | .stopped | .exited => 0

/-- The statements that the manager has left from `getline` on. -/
def reading (n lines : ℕ) : ℤ := 10 * n + 7 + (n + 18) * lines

/-- The statements that the manager has left, where `reading` are those from the next `getline`
on. -/
def ManagerPc.remaining (reading : ℤ) : ManagerPc n → ℤ
  | .pipe i => reading + 1 + 4 * (n - i : ℕ)
  | .fork i => reading + 4 * (n - i : ℕ)
  | .closeRead i => reading - 1 + 4 * (n - i : ℕ)
  | .register i => reading - 2 + 4 * (n - i : ℕ)
  | .getline => reading
  | .block => reading + 17 + n
  | .check => reading + 16 + n
  | .suspend | .unblock => reading + 15 + n
  | .assertAvailable => reading + 14 + n
  | .scan i => reading + 13 + (n - i : ℕ)
  | .assertFound _ => reading + 12
  | .unavailable _ => reading + 11
  | .decrement _ => reading + 10
  | .write _ => reading + 9
  | .resume _ => reading + 8
  | .blockAll => 10 * n + 6
  | .checkAll => 10 * n + 5
  | .suspendAll | .unblockAll => 10 * n + 4
  | .ignoreChildren => 10 * n + 3
  | .close i => n + 2 + 9 * (n - i : ℕ)
  | .resumeLast i => n + 1 + 9 * (n - i : ℕ)
  | .waitpid i => 1 + (n - i : ℕ)
  | .done | .failed | .terminated => 0

/-- What a pending signal adds: the manager may wake up once more. -/
def waking (pending : Bool) : ℤ := if pending then 2 else 0

/-- A bound on the steps that are left. -/
def Farm.remaining (state : Farm n) : ℤ :=
  state.pc.remaining (reading n state.stdin.lines.length) +
    tally (fun worker : Worker => worker.pc.remaining) state.workers + waking state.pending

theorem waking_bounds (pending : Bool) : 0 ≤ waking pending ∧ waking pending ≤ 2 := by
  cases pending <;> decide

theorem le_reading (n lines : ℕ) : 10 * (n : ℤ) + 7 ≤ reading n lines := by
  have more : 0 ≤ ((n : ℤ) + 18) * lines := Int.mul_nonneg (by omega) (by omega)
  rw [reading]
  omega

/-- A line of stdin pays for handing out its number. -/
theorem reading_succ (n lines : ℕ) : reading n (lines + 1) = reading n lines + (n + 18) := by
  rw [reading, reading, Nat.cast_succ, mul_add, mul_one, ← add_assoc]

theorem WorkerPc.remaining_nonneg (pc : WorkerPc) : 0 ≤ pc.remaining := by
  cases pc <;> simp [WorkerPc.remaining]

theorem ManagerPc.remaining_nonneg (pc : ManagerPc n) {reading : ℤ}
    (positive : 10 * n + 7 ≤ reading) :
    0 ≤ pc.remaining reading := by
  cases pc <;> simp only [ManagerPc.remaining] <;> omega

theorem Farm.remaining_nonneg (state : Farm n) : 0 ≤ state.remaining := by
  have manager := state.pc.remaining_nonneg (le_reading n state.stdin.lines.length)
  have workers := tally_nonneg (fun worker : Worker => worker.pc.remaining_nonneg) state.workers
  have signal := (waking_bounds state.pending).1
  rw [Farm.remaining]
  omega

theorem remaining_resume (worker : Worker) :
    worker.resume.pc.remaining ≤ worker.pc.remaining + 5 := by
  rw [Worker.resume]
  split
  · rename_i stopped
    rw [stopped]
    exact le_rfl
  · omega

theorem waking_or (pending news : Bool) :
    waking (pending || news) ≤ waking pending + waking news := by
  cases pending <;> cases news <;> decide

theorem remaining_workerStep {worker worker' : Worker} {hasWriter : Bool}
    (taken : worker.step hasWriter = some worker') :
    worker'.pc.remaining + waking (worker'.pc = .stopped || worker'.pc = .exited) <
      worker.pc.remaining := by
  cases workerMove_of_step taken with
  | reads position =>
      rw [position]
      dsimp only
      split <;> simp [WorkerPc.remaining, waking]
  | _ position =>
      rw [position]
      simp [WorkerPc.remaining, waking]

namespace Farm

theorem remaining_of_goes {pc : ManagerPc n} (goes : Goes state pc) (lines : ℕ) :
    pc.remaining (reading n lines) < state.pc.remaining (reading n lines) := by
  have bound := le_reading n lines
  cases goes with
  | _ position =>
      rw [position]
      simp only [ManagerPc.remaining]
      omega

/-- The manager moves on, and nothing else takes a step. -/
theorem remaining_moveOn (workers : after.workers = state.workers)
    (pending : after.pending = state.pending)
    (falls : after.pc.remaining (reading n after.stdin.lines.length) <
      state.pc.remaining (reading n state.stdin.lines.length)) :
    after.remaining < state.remaining := by
  rw [remaining, remaining, workers, pending]
  omega

/-- The manager moves on and changes a worker. -/
theorem remaining_moveOne {i : Fin n} {worker : Worker}
    (workers : after.workers = Function.update state.workers i worker)
    (falls : after.pc.remaining (reading n after.stdin.lines.length) + worker.pc.remaining +
        waking after.pending <
      state.pc.remaining (reading n state.stdin.lines.length) +
        (state.workers i).pc.remaining + waking state.pending) :
    after.remaining < state.remaining := by
  rw [remaining, remaining, workers, tally_update]
  omega

/-- A worker is continued. -/
theorem remaining_sigcont {i : Fin n} {pc : ManagerPc n}
    (falls : pc.remaining (reading n state.stdin.lines.length) + 8 ≤
      state.pc.remaining (reading n state.stdin.lines.length)) :
    remaining { state.sigcont i with pc } < state.remaining := by
  refine remaining_moveOne rfl ?_
  have resumed := remaining_resume (state.workers i)
  have wakes := waking_or state.pending (decide ((state.workers i).pc = .stopped))
  have signal := (waking_bounds (decide ((state.workers i).pc = .stopped))).2
  simp only [sigcont, setWorker]
  omega

theorem remaining_managerMove (sound : state.Sound) (move : ManagerMove state after) :
    after.remaining < state.remaining := by
  have bound := le_reading n state.stdin.lines.length
  cases move with
  | goes goes => exact remaining_moveOn rfl rfl (remaining_of_goes goes _)
  | @closeRead i position =>
      refine remaining_moveOn rfl rfl ?_
      rw [position]
      simp only [ManagerPc.remaining]
      omega
  | ends position | throws position | rejects position | noneAvailable position
  | noneFound position | decrement position | close position | returns position =>
      refine remaining_moveOn rfl rfl ?_
      rw [position]
      simp only [stop, ManagerPc.remaining]
      omega
  | takes position read whole number =>
      subst read
      refine remaining_moveOn rfl rfl ?_
      rw [position]
      cases lines : state.stdin.lines with
      | nil =>
          rw [IStream.getline_of_nil lines []] at whole
          cases whole
      | cons line later =>
          simp only [(IStream.getline_of_cons lines []).2.2, List.length_cons, reading_succ,
            ManagerPc.remaining]
          omega
  | @pipe i position inside =>
      refine remaining_moveOne rfl ?_
      rw [position]
      simp only [ManagerPc.remaining, setWorker]
      omega
  | @fork i position =>
      refine remaining_moveOne rfl ?_
      rw [position, sound.unforked i (by rw [position]; exact le_rfl)]
      simp only [ManagerPc.remaining, WorkerPc.remaining, setWorker]
      omega
  | @register i position =>
      have inside := i.isLt
      refine remaining_moveOne rfl ?_
      rw [position]
      simp only [ManagerPc.remaining, setWorker]
      omega
  | unavailable position | write position =>
      refine remaining_moveOne rfl ?_
      rw [position]
      simp only [ManagerPc.remaining, setWorker]
      omega
  | resume position =>
      refine remaining_sigcont ?_
      rw [position]
      exact le_rfl
  | @resumeLast i position =>
      have inside := i.isLt
      refine remaining_sigcont ?_
      rw [position]
      simp only [ManagerPc.remaining]
      omega

/-- Every step leaves less to do. -/
theorem remaining_step (sound : state.Sound) {label : FarmLabel n}
    (taken : state.step label = some after) : after.remaining < state.remaining := by
  cases farmMove_of_step taken with
  | manager move => exact remaining_managerMove sound move
  | sigchld pending =>
      have workers : tally (fun worker : Worker => worker.pc.remaining)
            (fun i => (state.workers i).mark) =
          tally (fun worker : Worker => worker.pc.remaining) state.workers :=
        tally_comp _ _ Worker.mark (fun worker => by rw [Worker.mark]; split <;> rfl) _
      have wakes : state.pc.afterHandler.remaining (reading n state.stdin.lines.length) ≤
          state.pc.remaining (reading n state.stdin.lines.length) + 1 := by
        cases state.pc <;> simp only [ManagerPc.afterHandler, ManagerPc.remaining] <;> omega
      have on : waking true = 2 := rfl
      have off : waking false = 0 := rfl
      rw [remaining, remaining, pending]
      simp only [markWorkersAsAvailable, workers]
      omega
  | @worker i worker moved =>
      refine remaining_moveOne rfl ?_
      have less := remaining_workerStep moved
      have wakes := waking_or state.pending (worker.pc = .stopped || worker.pc = .exited)
      simp only [setWorker]
      omega
  | pipeFails position | forkFails position =>
      have bound := le_reading n state.stdin.lines.length
      refine remaining_moveOn rfl rfl ?_
      rw [position]
      simp only [stop, ManagerPc.remaining]
      omega

end Farm

end Multiprocessing
end Syscore
