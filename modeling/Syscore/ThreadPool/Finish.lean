import Syscore.ThreadPool.Crew
import Syscore.ThreadPool.Work

/-!
# The owner gets past

When the bodies need a bounded number of steps, every step of a block leaves less to do: the owner
pays for the calls that it begins, and the pool for what it was given.
-/

namespace Syscore
namespace ThreadPool

/-! ## Bodies that have less left -/

section Less

variable {numThreads : ℕ} {Client : Type}

theorem WorkerPc.work_mono (sleepers cost : ℕ) {left left' : ℕ} (less : left' ≤ left)
    (pc : WorkerPc) : pc.work sleepers cost left' ≤ pc.work sleepers cost left := by
  cases pc with
  | running thunk call =>
      rw [WorkerPc.work, WorkerPc.work]
      omega
  | _ => exact le_rfl

theorem work_mono [Fintype Client] (cost : ℕ) {left left' : Fin numThreads → ℕ}
    (less : ∀ id, left' id ≤ left id) (state : State numThreads Client) :
    state.work cost left' ≤ state.work cost left := by
  have workers : ∑ id, (state.workers id).work (waiters Client) cost (left' id) ≤
      ∑ id, (state.workers id).work (waiters Client) cost (left id) :=
    Finset.sum_le_sum fun id _ =>
      Nat.add_le_add_left (WorkerPc.work_mono _ cost (less id) (state.workers id).pc) _
  rw [State.work, State.work]
  omega

/-- A new pool has nothing to do. -/
theorem work_construct [Fintype Client] (cost : ℕ) (left : Fin numThreads → ℕ) :
    (construct numThreads Client).work cost left = 0 := by
  have clients : ∑ _client : Client, callWork (queuedWork (waiters Client) cost) none = 0 :=
    Finset.sum_eq_zero fun _ _ => rfl
  have workers : ∑ id, ((construct numThreads Client).workers id).work (waiters Client) cost
      (left id) = 0 :=
    Finset.sum_eq_zero fun id _ => by simp [construct, Worker.work, WorkerPc.work]
  rw [State.work, workers]
  simp [construct, clients, DispatcherPc.work, DestructorPc.work]

end Less

/-! ## The work of a block -/

/-- Scheduling one thunk, and all that comes of it. -/
def thunkWork (cost : ℕ) : ℕ := queuedWork (waiters Unit) cost + 5

/-- The destructor of the block. -/
def closingWork (numThreads cost : ℕ) : ℕ :=
  destroyWork numThreads (readyWork (waiters Unit) cost) (queuedWork (waiters Unit) cost)

/-- The regions ahead of the owner, with all that they start. -/
def OwnerPc.work (numThreads thunks cost : ℕ) : OwnerPc → ℕ
  | .loop next => (thunks - next) * thunkWork cost + closingWork numThreads cost + 4
  | .schedule next => (thunks - (next + 1)) * thunkWork cost + closingWork numThreads cost + 5
  | .wait => closingWork numThreads cost + 2
  | .destroy => 1
  | .past => 0

namespace Crew

variable {numThreads : ℕ} {Shared Choice : Type}

/-- The steps that the body on a worker has left; a worker without one may get one. -/
def bodyLeft (cost : ℕ) (left : Shared → Ticket → ℕ) (crew : Crew numThreads Shared)
    (id : Fin numThreads) : ℕ :=
  (crew.pool.body id).elim cost (left crew.shared)

/-- The work of a block. -/
def work (thunks cost : ℕ) (left : Shared → Ticket → ℕ) (crew : Crew numThreads Shared) : ℕ :=
  crew.owner.work numThreads thunks cost + crew.pool.work cost (crew.bodyLeft cost left)

/-- The work of a block that begins. -/
theorem work_start (thunks cost : ℕ) (left : Shared → Ticket → ℕ) (shared : Shared) :
    (start numThreads shared).work thunks cost left =
      thunks * thunkWork cost + closingWork numThreads cost + 4 :=
  (congrArg _ (work_construct cost _)).trans (Nat.add_zero _)

variable [NeZero numThreads] {bodies : Bodies Shared Choice} {thunks cost : ℕ}
  {holds : Shared → Prop} {left : Shared → Ticket → ℕ} {crew after : Crew numThreads Shared}

omit [NeZero numThreads] in
/-- The owner and the pool move, and no body does. -/
theorem work_pool {pool : State numThreads Unit} (owner : OwnerPc)
    (same : ∀ id, pool.body id = crew.pool.body id) :
    work thunks cost left ⟨owner, pool, crew.shared⟩ =
      owner.work numThreads thunks cost + pool.work cost (crew.bodyLeft cost left) := by
  have bodies : bodyLeft cost left ⟨owner, pool, crew.shared⟩ = crew.bodyLeft cost left := by
    funext id
    rw [bodyLeft, bodyLeft, same]
  rw [work, bodies]

omit [NeZero numThreads] in
theorem bodyLeft_le (lawful : bodies.Lawful thunks cost holds left) (ok : crew.Ok bodies thunks)
    (sound : holds crew.shared) (id : Fin numThreads) : crew.bodyLeft cost left id ≤ cost := by
  rw [bodyLeft]
  cases running : crew.pool.body id with
  | none => exact le_rfl
  | some ticket => exact lawful.bounded crew.shared sound ticket (ok.lt_of_body running)

theorem work_ownerStep (cost : ℕ) (left : Shared → Ticket → ℕ)
    (taken : crew.ownerStep thunks = some after) :
    after.work thunks cost left < crew.work thunks cost left := by
  rw [Crew.ownerStep] at taken
  rw [work.eq_def thunks cost left crew]
  cases position : crew.owner with
  | loop next =>
      rw [position] at taken
      simp only at taken
      split at taken
      · rename_i more
        obtain ⟨_, moved, rfl⟩ := Option.map_eq_some_iff.mp taken
        obtain ⟨pool, called, rfl⟩ := poolStep_spec moved
        have paid := work_clientCalls cost (crew.bodyLeft cost left) called
        have one : thunks - next = thunks - (next + 1) + 1 := by omega
        rw [work_pool (.schedule next) (body_of_workers (begins_call called).2.2.2.2), paid]
        simp only [OwnerPc.work, Entry.work, one, Nat.succ_mul, thunkWork]
        omega
      · obtain ⟨_, moved, rfl⟩ := Option.map_eq_some_iff.mp taken
        obtain ⟨pool, called, rfl⟩ := poolStep_spec moved
        have paid := work_clientCalls cost (crew.bodyLeft cost left) called
        rw [work_pool .wait (body_of_workers (begins_call called).2.2.2.2), paid]
        simp only [OwnerPc.work, Entry.work]
        omega
  | schedule next =>
      rw [position] at taken
      simp only at taken
      split at taken
      · obtain rfl := Option.some.inj taken
        rw [work_pool (.loop (next + 1)) fun _ => rfl]
        simp only [OwnerPc.work]
        omega
      · obtain ⟨pool, moved, rfl⟩ := poolStep_spec taken
        have less := work_client cost (crew.bodyLeft cost left) moved
        rw [work_pool crew.owner (body_client moved), position]
        omega
  | wait =>
      rw [position] at taken
      simp only at taken
      split at taken
      · obtain ⟨_, moved, rfl⟩ := Option.map_eq_some_iff.mp taken
        obtain ⟨pool, called, rfl⟩ := poolStep_spec moved
        have paid := work_destroy cost (crew.bodyLeft cost left) called
        have workers : pool.workers = crew.pool.workers := by rw [(destroy_spec called).2]
        rw [work_pool .destroy (body_of_workers workers), paid]
        simp only [OwnerPc.work, closingWork]
        omega
      · obtain ⟨pool, moved, rfl⟩ := poolStep_spec taken
        have less := work_client cost (crew.bodyLeft cost left) moved
        rw [work_pool crew.owner (body_client moved), position]
        omega
  | destroy =>
      rw [position] at taken
      simp only at taken
      split at taken
      · obtain rfl := Option.some.inj taken
        rw [work_pool .past fun _ => rfl]
        simp only [OwnerPc.work]
        omega
      · obtain ⟨pool, moved, rfl⟩ := poolStep_spec taken
        have less := work_destructor cost (crew.bodyLeft cost left) moved
        rw [work_pool crew.owner (body_destructor moved), position]
        omega
  | past =>
      rw [position] at taken
      cases taken

theorem work_workerStep (ok : crew.Ok bodies thunks)
    (lawful : bodies.Lawful thunks cost holds left) (sound : holds crew.shared)
    {id : Fin numThreads} {choice : Choice}
    (taken : crew.workerStep bodies id choice = some after) :
    after.work thunks cost left < crew.work thunks cost left := by
  cases workerMove_of_step taken with
  | @returns ticket pool running returned moved =>
      refine Nat.add_lt_add_left (work_returns cost running (fun other apart => ?_) moved) _
      rw [bodyLeft, bodyLeft, body_worker apart moved]
  | @body ticket shared running moved =>
      have small := ok.lt_of_body running
      have falls := lawful.falls crew.shared sound ticket small choice shared moved
      have others := lawful.others crew.shared sound ticket small choice shared moved
      -- the body on this worker first, then the bodies that it touches
      let alone : Fin numThreads → ℕ :=
        Function.update (crew.bodyLeft cost left) id (left shared ticket)
      have own : crew.bodyLeft cost left id = left crew.shared ticket := by
        rw [bodyLeft, running, Option.elim_some]
      have first : crew.pool.work cost alone + crew.bodyLeft cost left id =
          crew.pool.work cost (crew.bodyLeft cost left) + alone id :=
        work_body cost running fun other apart => Function.update_of_ne apart _ _
      have here : alone id = left shared ticket := Function.update_self _ _ _
      have rest : crew.pool.work cost (bodyLeft cost left { crew with shared }) ≤
          crew.pool.work cost alone := by
        refine work_mono cost (fun other => ?_) crew.pool
        by_cases same : other = id
        · rw [same, here, bodyLeft, running, Option.elim_some]
        · rw [show alone other = crew.bodyLeft cost left other from
            Function.update_of_ne same _ _, bodyLeft, bodyLeft]
          cases crew.pool.body other with
          | none => exact le_rfl
          | some ticket => exact (others ticket).1
      rw [own, here] at first
      refine Nat.add_lt_add_left (rest.trans_lt ?_) _
      omega
  | @pool pool idle moved =>
      have less := work_worker cost (crew.bodyLeft cost left) ok.uncalled idle
        (bodyLeft_le lawful ok sound id) moved
      refine Nat.add_lt_add_left ((work_mono cost (fun other => ?_) pool).trans_lt less) _
      by_cases same : other = id
      · have full : crew.bodyLeft cost left id = cost := by rw [bodyLeft, idle, Option.elim_none]
        rw [same, full]
        exact bodyLeft_le lawful
          (ok.quiet moved (fun _ _ equal => by cases equal) (clients_worker moved ())
            (destructor_worker moved) (history_worker ok.uncalled idle moved)) sound id
      · rw [bodyLeft, bodyLeft, body_worker same moved]

/-- Every step leaves less to do. -/
theorem work_step (ok : crew.Ok bodies thunks) (lawful : bodies.Lawful thunks cost holds left)
    (sound : holds crew.shared) {mover : Mover numThreads Choice} (moves : mover.moves = true)
    (taken : crew.step bodies thunks mover = some after) :
    after.work thunks cost left < crew.work thunks cost left := by
  cases mover with
  | owner => exact work_ownerStep cost left taken
  | dispatcher =>
      obtain ⟨pool, moved, rfl⟩ := poolStep_spec taken
      rw [work_pool crew.owner (body_dispatcher moved), work]
      exact Nat.add_lt_add_left (work_dispatcher cost _ moved) _
  | worker id choice => exact work_workerStep ok lawful sound taken
  | wakeOwner | wakeDestructor => cases moves

end Crew

end ThreadPool
end Syscore
