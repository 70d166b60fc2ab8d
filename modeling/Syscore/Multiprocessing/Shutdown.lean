import Mathlib.Data.Finset.Max
import Syscore.Multiprocessing.Inheritance
import Syscore.Multiprocessing.Numbers

/-!
# Shutdown

Closing the pipes in the manager does not bring most workers to the end of their input, since later
workers have inherited the write ends. The last worker that lives is at the end of its input, and so
they leave one after the other.
-/

namespace Syscore
namespace Multiprocessing

variable {n : ℕ} {state : Farm n}

theorem hasWriter_iff {j : Fin n} :
    state.hasWriter j = true ↔ state.fds.refers ⟨j, .write⟩ = true ∨
      ∃ k, (state.workers k).fds.refers ⟨j, .write⟩ = true := by
  rw [Farm.hasWriter, Bool.or_eq_true, decide_eq_true_eq]

namespace Farm

/-- Once the manager has closed the pipes, a write end is left only in a later worker that lives. -/
theorem Tracked.writer_later (tracked : state.Tracked) {j : Fin n}
    (closed : state.pc.opens j .write = false) (built : 4 ≤ (state.workers j).pc.stage)
    (writer : state.hasWriter j = true) : ∃ k, j < k ∧ (state.workers k).pc ≠ .exited := by
  rcases hasWriter_iff.mp writer with manager | ⟨k, worker⟩
  · obtain ⟨fd, cloexec, opened⟩ := Descriptors.refers_iff.mp manager
    have recorded := ((tracked.tracks fd ⟨j, .write⟩ cloexec).mp opened).2
    rw [account_of_fin, closed] at recorded
    cases recorded
  · obtain ⟨fd, cloexec, opened⟩ := Descriptors.refers_iff.mp worker
    refine ⟨k, ?_, fun gone => ?_⟩
    · rcases (tracked.wired k).kept fd _ cloexec opened with
        ⟨earlier, -⟩ | own | ⟨own, -, early⟩
      · exact earlier
      · cases (SupplyEnd.mk.inj own).2
      · have same : j = k := Fin.ext (SupplyEnd.mk.inj own).1
        rw [same] at built
        omega
    · have stage : 5 ≤ (state.workers k).pc.stage := by rw [gone]; decide
      rw [(tracked.wired k).gone (.inr stage), Descriptors.get_empty] at opened
      cases opened

/-- After `closeAllWorkers` has continued every worker, each is on its way out. -/
theorem Sound.leaving (sound : state.Sound) {i : ℕ} (position : state.pc = .waitpid i) (j : Fin n) :
    (state.workers j).pipe = [] ∧ ((state.workers j).pc = .readline ∨
      (state.workers j).pc = .exiting ∨ (state.workers j).pc = .exited) := by
  have promise := sound.promise
  rw [position] at promise
  have available := mem_marked.mp (show j ∈ state.marked from promise.symm ▸ Finset.mem_univ j)
  obtain ⟨-, -, drained, -, ⟨-, kept⟩ | ⟨-, leaving⟩⟩ := (sound.situations j).of_available available
  · rw [position] at kept
    cases kept
  · exact ⟨drained, leaving⟩

theorem isSome_worker {j : Fin n}
    (moves : ((state.workers j).step (state.hasWriter j)).isSome = true) :
    (state.step (.worker j)).isSome = true := by
  obtain ⟨worker, moved⟩ := Option.isSome_iff_exists.mp moves
  rw [Farm.step, moved]
  rfl

/-- A worker at the end of its input, or on its way out, can go on. -/
theorem isSome_step {j : Fin n} (drained : (state.workers j).pipe = [])
    (leaving : (state.workers j).pc = .readline ∨ (state.workers j).pc = .exiting)
    (eof : state.hasWriter j = false) : (state.step (.worker j)).isSome = true := by
  refine isSome_worker ?_
  rcases leaving with position | position
  · rw [Worker.step, position]
    dsimp only
    rw [eof, if_neg (fun blocks => by cases blocks.1), drained, if_pos (by rfl)]
    rfl
  · rw [Worker.step, position]
    rfl

/-- When all workers are gone, `waitpid` returns. -/
theorem isSome_waitpid {i : ℕ} (position : state.pc = .waitpid i)
    (gone : ∀ j, (state.workers j).pc = .exited) : (state.step .manager).isSome = true := by
  rw [Farm.step, Farm.managerStep, position]
  dsimp only
  split
  · rw [if_pos (gone _)]
    rfl
  · rfl

end Farm

/-- While the manager waits for its workers, the last worker that lives has no write end of its pipe
left anywhere: it is at the end of its input, or past it, and goes on. So nothing is stuck while a
worker lives, and when none does the manager goes on. -/
theorem shutdown_live {text : Text} (reach : (farm n text).Reachable .free state) {i : ℕ}
    (waiting : state.pc = .waitpid i) :
    ((∃ j, (state.workers j).pc ≠ .exited) →
      ∃ j, (state.workers j).pc ≠ .exited ∧ (∀ k, j < k → (state.workers k).pc = .exited) ∧
        state.hasWriter j = false ∧
        ((state.workers j).pc = .readline ∧ (state.workers j).pipe = [] ∨
          (state.workers j).pc = .exiting) ∧
        (state.step (.worker j)).isSome = true) ∧
    ((∀ j, (state.workers j).pc = .exited) → (state.step .manager).isSome = true) := by
  have sound := Farm.sound_of_reachable reach
  have tracked := Farm.tracked_of_reachable reach
  refine ⟨fun ⟨first, lives⟩ => ?_, Farm.isSome_waitpid waiting⟩
  -- the last of the workers that live
  have some : (Finset.univ.filter fun j => (state.workers j).pc ≠ .exited).Nonempty :=
    ⟨first, Finset.mem_filter.mpr ⟨Finset.mem_univ first, lives⟩⟩
  obtain ⟨j, live, last⟩ := Finset.exists_max_image _ id some
  have live := (Finset.mem_filter.mp live).2
  have later (k : Fin n) (above : j < k) : (state.workers k).pc = .exited := by
    by_contra lives
    exact absurd (last k (Finset.mem_filter.mpr ⟨Finset.mem_univ k, lives⟩)) (not_le.mpr above)
  obtain ⟨drained, leaving⟩ := sound.leaving waiting j
  have leaving : (state.workers j).pc = .readline ∨ (state.workers j).pc = .exiting := by
    rcases leaving with reads | exits | gone
    · exact .inl reads
    · exact .inr exits
    · exact absurd gone live
  have eof : state.hasWriter j = false := by
    rw [Bool.eq_false_iff]
    intro writer
    have built : 4 ≤ (state.workers j).pc.stage := by
      rcases leaving with position | position
      · rw [position]
        decide
      · rw [position]
        decide
    obtain ⟨k, above, lives⟩ := tracked.writer_later (by rw [waiting]; rfl) built writer
    exact lives (later k above)
  exact ⟨j, live, later, eof, leaving.imp (fun position => ⟨position, drained⟩) id,
    Farm.isSome_step drained leaving eof⟩

/-! ## Two workers without numbers -/

/-- Both workers stop and are marked, and the manager closes their pipes and continues them. -/
def twoDismissed : List (FarmLabel 2) :=
  List.replicate 12 .manager ++ List.replicate 5 (.worker 0) ++ List.replicate 5 (.worker 1) ++
  [.sigchld] ++ List.replicate 8 .manager

theorem twoDismissed_run :
    ((farm 2 []).exec .free (terminalFarm 2 []) twoDismissed).isSome = true := by
  decide +kernel

/-- Before either of them has read the end of its input. -/
def twoLeaving : Farm 2 :=
  ((farm 2 []).exec .free (terminalFarm 2 []) twoDismissed).get twoDismissed_run

/-- The first worker is held up by the second one, which is not held up. -/
theorem shutdown_live_two :
    twoLeaving.hasWriter 0 = true ∧ ∃ j, twoLeaving.hasWriter j = false := by
  have live := shutdown_live
    (.of_exec (terminalFarm_initial 2 []) twoDismissed twoDismissed_run)
    (show twoLeaving.pc = .waitpid 0 by decide +kernel)
  obtain ⟨j, -, -, eof, -⟩ := live.1 ⟨0, by decide +kernel⟩
  exact ⟨by decide +kernel, j, eof⟩

end Multiprocessing
end Syscore
