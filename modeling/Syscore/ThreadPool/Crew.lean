import Syscore.ThreadPool.Callers
import Syscore.ThreadPool.Progress

/-!
# A pool for one block of a program

A program makes a pool, schedules thunks one after the other, waits and destroys the pool, while the
bodies of the thunks work on what they share. Past the block every body has returned and every
thread of the pool has exited; and every run gets there.
-/

namespace Syscore
namespace ThreadPool

/-- The bodies of the thunks of a program, by ticket: what they do next to what they share, as their
surroundings choose, until they return. -/
structure Bodies (Shared Choice : Type) where
  step : Shared → Ticket → Choice → Option Shared
  returned : Shared → Ticket → Bool

/-- Positions of the thread that owns the pool. -/
inductive OwnerPc
  /-- Head of the loop over the thunks. -/
  | loop (next : ℕ)
  /-- Inside `schedule()`. -/
  | schedule (next : ℕ)
  /-- Inside `wait()`. -/
  | wait
  /-- Inside `~ThreadPool()`. -/
  | destroy
  | past
  deriving DecidableEq

/-- A pool with its owner, and what the bodies share. -/
structure Crew (numThreads : ℕ) (Shared : Type) where
  owner : OwnerPc
  pool : State numThreads Unit
  shared : Shared

/-- Who moves; the last two wake without a notification. -/
inductive Mover (numThreads : ℕ) (Choice : Type)
  | owner
  | dispatcher
  | worker (id : Fin numThreads) (choice : Choice)
  | wakeOwner
  | wakeDestructor

/-- Not a wakeup without a notification. -/
def Mover.moves {numThreads : ℕ} {Choice : Type} : Mover numThreads Choice → Bool
  | .wakeOwner | .wakeDestructor => false
  | _ => true

namespace Crew

variable {numThreads : ℕ} {Shared Choice : Type}

/-- The block begins. -/
def start (numThreads : ℕ) (shared : Shared) : Crew numThreads Shared where
  owner := .loop 0
  pool := construct numThreads Unit
  shared := shared

variable [NeZero numThreads]

/-- A step of the pool. -/
def poolStep (crew : Crew numThreads Shared) (action : Action numThreads Unit) :
    Option (Crew numThreads Shared) :=
  (ThreadPool.step crew.pool action).map fun pool => { crew with pool }

/-- The next region of the owner. -/
def ownerStep (thunks : ℕ) (crew : Crew numThreads Shared) : Option (Crew numThreads Shared) :=
  match crew.owner with
  | .loop next =>
      if next < thunks then
        (crew.poolStep (.clientCalls () .schedule)).map fun crew =>
          { crew with owner := .schedule next }
      else
        (crew.poolStep (.clientCalls () .wait)).map fun crew => { crew with owner := .wait }
  | .schedule next =>
      match crew.pool.clients () with
      | none => some { crew with owner := .loop (next + 1) }
      | some _ => crew.poolStep (.client ())
  | .wait =>
      match crew.pool.clients () with
      | none => (crew.poolStep .destroy).map fun crew => { crew with owner := .destroy }
      | some _ => crew.poolStep (.client ())
  | .destroy =>
      if crew.pool.destructor = .returned then
        some { crew with owner := .past }
      else
        crew.poolStep .destructor
  | .past => none

/-- The next region of a worker: of the body that it runs, or of the pool. -/
def workerStep (bodies : Bodies Shared Choice) (crew : Crew numThreads Shared)
    (id : Fin numThreads) (choice : Choice) : Option (Crew numThreads Shared) :=
  match (crew.pool.workers id).pc with
  | .running ticket none =>
      if bodies.returned crew.shared ticket then
        crew.poolStep (.worker id)
      else
        (bodies.step crew.shared ticket choice).map fun shared => { crew with shared }
  | _ => crew.poolStep (.worker id)

/-- One step of the block. -/
def step (bodies : Bodies Shared Choice) (thunks : ℕ) (crew : Crew numThreads Shared) :
    Mover numThreads Choice → Option (Crew numThreads Shared)
  | .owner => crew.ownerStep thunks
  | .dispatcher => crew.poolStep .dispatcher
  | .worker id choice => crew.workerStep bodies id choice
  | .wakeOwner => crew.poolStep (.spuriousWake (.client ()))
  | .wakeDestructor => crew.poolStep (.spuriousWake .destructor)

end Crew

/-! ## What the owner knows -/

section Owner

variable {numThreads : ℕ}

/-- Where the owner is agrees with its calls, with the tickets given out and with the destructor. -/
def OwnerOk (thunks : ℕ) (pool : State numThreads Unit) : OwnerPc → Prop
  | .loop next =>
      pool.clients () = none ∧ pool.destructor = .idle ∧ next ≤ thunks ∧ pool.pool.issued = next
  | .schedule next =>
      pool.destructor = .idle ∧ next < thunks ∧
        (pool.clients () = some (.schedule .increment) ∧ pool.pool.issued = next ∨
          (pool.clients () = none ∨ ∃ pc, pc ≠ .increment ∧
            pool.clients () = some (.schedule pc)) ∧ pool.pool.issued = next + 1)
  | .wait =>
      pool.destructor = .idle ∧ pool.pool.issued = thunks ∧
        ((∃ pc since, pool.clients () = some (.wait pc since)) ∨
          pool.clients () = none ∧ pool.Drained)
  | .destroy =>
      pool.clients () = none ∧ pool.pool.issued = thunks ∧ pool.Drained ∧ pool.destructor ≠ .idle
  | .past =>
      pool.clients () = none ∧ pool.pool.issued = thunks ∧ pool.Drained ∧
        pool.destructor = .returned

variable {thunks : ℕ} {pool after : State numThreads Unit} {pc : OwnerPc}

/-- Steps of the other threads do not matter to the owner. -/
theorem OwnerOk.mono (ok : OwnerOk thunks pool pc)
    (clients : after.clients () = pool.clients () ∨
      after.clients () = (pool.clients ()).map Call.wake)
    (destructor : after.destructor = pool.destructor ∨
      after.destructor = pool.destructor.wake)
    (issued : after.pool.issued = pool.pool.issued)
    (completed : ∀ thunk ∈ pool.pool.completed, thunk ∈ after.pool.completed) :
    OwnerOk thunks after pc := by
  have quiet (outside : pool.clients () = none) : after.clients () = none := by
    rcases clients with same | woken
    · rw [same, outside]
    · rw [woken, outside]
      rfl
  have scheduling {position : SchedulePc} (inside : pool.clients () = some (.schedule position)) :
      after.clients () = some (.schedule position) := by
    rcases clients with same | woken
    · rw [same, inside]
    · rw [woken, inside]
      rfl
  have waiting (inside : ∃ pc since, pool.clients () = some (.wait pc since)) :
      ∃ pc since, after.clients () = some (.wait pc since) := by
    obtain ⟨pc, since, inside⟩ := inside
    rcases clients with same | woken
    · exact ⟨pc, since, by rw [same, inside]⟩
    · rw [woken, inside]
      cases pc <;> exact ⟨.check, since, rfl⟩
  have idle (before : pool.destructor = .idle) : after.destructor = .idle := by
    rcases destructor with same | woken
    · rw [same, before]
    · rw [woken, before]
      rfl
  have drained (before : pool.Drained) : after.Drained :=
    fun thunk known => completed thunk (before thunk (issued ▸ known))
  cases pc with
  | loop next =>
      obtain ⟨outside, before, bound, given⟩ := ok
      exact ⟨quiet outside, idle before, bound, issued.trans given⟩
  | schedule next =>
      obtain ⟨before, bound, ⟨counting, given⟩ | ⟨returned | ⟨pc, past, inside⟩, given⟩⟩ := ok
      · exact ⟨idle before, bound, .inl ⟨scheduling counting, issued.trans given⟩⟩
      · exact ⟨idle before, bound, .inr ⟨.inl (quiet returned), issued.trans given⟩⟩
      · exact ⟨idle before, bound, .inr ⟨.inr ⟨pc, past, scheduling inside⟩, issued.trans given⟩⟩
  | wait =>
      obtain ⟨before, given, inside | ⟨outside, done⟩⟩ := ok
      · exact ⟨idle before, issued.trans given, .inl (waiting inside)⟩
      · exact ⟨idle before, issued.trans given, .inr ⟨quiet outside, drained done⟩⟩
  | destroy =>
      obtain ⟨outside, given, done, begun⟩ := ok
      refine ⟨quiet outside, issued.trans given, drained done, ?_⟩
      rcases destructor with same | woken
      · rw [same]
        exact begun
      · rw [woken]
        cases position : pool.destructor with
        | idle => exact absurd position begun
        | _ => exact fun equal => by cases equal
  | past =>
      obtain ⟨outside, given, done, returned⟩ := ok
      refine ⟨quiet outside, issued.trans given, drained done, ?_⟩
      rcases destructor with same | woken
      · rw [same, returned]
      · rw [woken, returned]
        rfl

/-- No more tickets are given out than there are thunks. -/
theorem OwnerOk.issued_le (ok : OwnerOk thunks pool pc) : pool.pool.issued ≤ thunks := by
  cases pc with
  | loop next =>
      obtain ⟨_, _, bound, given⟩ := ok
      omega
  | schedule next =>
      obtain ⟨_, bound, ⟨_, given⟩ | ⟨_, given⟩⟩ := ok
      · omega
      · omega
  | wait => exact ok.2.1.le
  | destroy | past => exact ok.2.1.le

end Owner

/-! ## The pool while the destructor runs -/

section Destroyed

variable {numThreads : ℕ} [NeZero numThreads] {Client : Type} [DecidableEq Client]
  {state after : State numThreads Client}

/-- Only thunks take their workers into calls. -/
theorem State.Uncalled.of_outside {action : Action numThreads Client} (uncalled : state.Uncalled)
    (outside : ∀ id entry, action ≠ .thunkCalls id entry)
    (taken : ThreadPool.step state action = some after) : after.Uncalled := by
  intro id
  rcases workers_of_step taken id with same | woken | ⟨_, moved⟩ | ⟨entry, _, called, _⟩
  · rw [same]
    exact uncalled id
  · rw [woken, call_wake, uncalled id]
    rfl
  · rcases call_of_workerStep moved with ⟨_, outside⟩ | ⟨_, _, inside, _⟩
    · exact outside
    · have outside := uncalled id
      rw [inside] at outside
      cases outside
  · exact absurd called (outside id entry)

/-- The destructor gives out no ticket and returns no body. -/
theorem history_destructor (taken : step state .destructor = some after) :
    after.pool.completed = state.pool.completed ∧ after.pool.issued = state.pool.issued := by
  cases destructorMove_of_step taken <;> exact ⟨rfl, rfl⟩

theorem body_destructor (taken : step state .destructor = some after) (id : Fin numThreads) :
    after.body id = state.body id :=
  body_of_pc ((frame_destructor taken).2 id)

/-- A destructor that moves has begun. -/
theorem begun_destructor (taken : step state .destructor = some after) :
    after.destructor ≠ .idle := by
  cases destructorMove_of_step taken <;> exact fun equal => by cases equal

end Destroyed

/-! ## Every step keeps what the owner knows -/

/-- The pool keeps its invariant and no body calls it, the owner is where the pool says, and bodies
that the pool has seen return have returned. -/
structure Crew.Ok {numThreads : ℕ} {Shared Choice : Type} (bodies : Bodies Shared Choice)
    (thunks : ℕ) (crew : Crew numThreads Shared) : Prop where
  invariant : Invariant crew.pool
  uncalled : crew.pool.Uncalled
  owner : OwnerOk thunks crew.pool crew.owner
  returned : ∀ ticket ∈ crew.pool.pool.completed, bodies.returned crew.shared ticket = true

/-- The bodies keep what they rely on, can go on until they return, and have a bounded number of
steps left. -/
structure Bodies.Lawful {Shared Choice : Type} (bodies : Bodies Shared Choice) (thunks cost : ℕ)
    (holds : Shared → Prop) (left : Shared → Ticket → ℕ) : Prop where
  bounded : ∀ shared, holds shared → ∀ ticket < thunks, left shared ticket ≤ cost
  goes : ∀ shared, holds shared → ∀ ticket < thunks, bodies.returned shared ticket = false →
    ∃ choice, (bodies.step shared ticket choice).isSome = true
  keeps : ∀ shared, holds shared → ∀ ticket < thunks, ∀ choice after,
    bodies.step shared ticket choice = some after → holds after
  falls : ∀ shared, holds shared → ∀ ticket < thunks, ∀ choice after,
    bodies.step shared ticket choice = some after → left after ticket < left shared ticket
  others : ∀ shared, holds shared → ∀ ticket < thunks, ∀ choice after,
    bodies.step shared ticket choice = some after → ∀ other, left after other ≤ left shared other ∧
      (bodies.returned shared other = true → bodies.returned after other = true)

namespace Crew

variable {numThreads : ℕ} [NeZero numThreads] {Shared Choice : Type}
  {bodies : Bodies Shared Choice} {thunks cost : ℕ} {holds : Shared → Prop}
  {left : Shared → Ticket → ℕ} {crew after : Crew numThreads Shared}

omit [NeZero numThreads] in
theorem ok_start (bodies : Bodies Shared Choice) (thunks : ℕ) (shared : Shared) :
    (start numThreads shared).Ok bodies thunks where
  invariant := invariant_construct
  uncalled _ := rfl
  owner := ⟨rfl, rfl, Nat.zero_le thunks, rfl⟩
  returned _ inside := by cases inside

/-- The pool moves, and with it perhaps the owner. -/
theorem Ok.pool (ok : crew.Ok bodies thunks) {action : Action numThreads Unit}
    {pool : State numThreads Unit} {owner : OwnerPc}
    (taken : ThreadPool.step crew.pool action = some pool)
    (outside : ∀ id entry, action ≠ .thunkCalls id entry)
    (completed : pool.pool.completed = crew.pool.pool.completed)
    (known : OwnerOk thunks pool owner) : Ok bodies thunks ⟨owner, pool, crew.shared⟩ where
  invariant := ok.invariant.step taken
  uncalled := ok.uncalled.of_outside outside taken
  owner := known
  returned ticket inside := ok.returned ticket (completed ▸ inside)

/-- The pool moves, which does not matter to the owner. -/
theorem Ok.quiet (ok : crew.Ok bodies thunks) {action : Action numThreads Unit}
    {pool : State numThreads Unit} (taken : ThreadPool.step crew.pool action = some pool)
    (outside : ∀ id entry, action ≠ .thunkCalls id entry)
    (clients : pool.clients () = crew.pool.clients () ∨
      pool.clients () = (crew.pool.clients ()).map Call.wake)
    (destructor : pool.destructor = crew.pool.destructor ∨
      pool.destructor = crew.pool.destructor.wake)
    (history : pool.pool.completed = crew.pool.pool.completed ∧
      pool.pool.issued = crew.pool.pool.issued) : Ok bodies thunks { crew with pool } :=
  ok.pool taken outside history.1
    (ok.owner.mono clients destructor history.2 fun _ old => history.1 ▸ old)

theorem Ok.ownerStep (ok : crew.Ok bodies thunks) (taken : crew.ownerStep thunks = some after) :
    after.Ok bodies thunks := by
  have owner := ok.owner
  rw [Crew.ownerStep] at taken
  cases position : crew.owner with
  | loop next =>
      rw [position] at owner taken
      obtain ⟨_, idle, bound, given⟩ := owner
      simp only at taken
      split at taken
      · rename_i more
        obtain ⟨_, moved, rfl⟩ := Option.map_eq_some_iff.mp taken
        obtain ⟨pool, called, rfl⟩ := Option.map_eq_some_iff.mp moved
        refine ok.pool called (fun _ _ equal => by cases equal) ?_ ?_
        · rw [(begins_call called).2.2.2.1]
        · obtain ⟨_, inside, _, same, _⟩ := begins_call called
          obtain ⟨_, rfl⟩ := clientCalls_spec called
          exact ⟨idle, more, .inl ⟨inside, given⟩⟩
      · rename_i last
        obtain ⟨_, moved, rfl⟩ := Option.map_eq_some_iff.mp taken
        obtain ⟨pool, called, rfl⟩ := Option.map_eq_some_iff.mp moved
        refine ok.pool called (fun _ _ equal => by cases equal) ?_ ?_
        · rw [(begins_call called).2.2.2.1]
        · obtain ⟨_, inside, _, same, _⟩ := begins_call called
          obtain ⟨_, rfl⟩ := clientCalls_spec called
          exact ⟨idle, given.trans (by omega), .inl ⟨_, _, inside⟩⟩
  | schedule next =>
      rw [position] at owner taken
      obtain ⟨idle, bound, known⟩ := owner
      simp only at taken
      split at taken
      · rename_i outside
        obtain rfl := Option.some.inj taken
        rcases known with ⟨counting, _⟩ | ⟨_, given⟩
        · rw [outside] at counting
          cases counting
        · exact ⟨ok.invariant, ok.uncalled, ⟨outside, idle, bound, given⟩, ok.returned⟩
      · rename_i call inside
        obtain ⟨pool, moved, rfl⟩ := Option.map_eq_some_iff.mp taken
        refine ok.pool moved (fun _ _ equal => by cases equal) (completed_client moved) ?_
        have still : pool.destructor = .idle := (frame_client moved).1.trans idle
        show OwnerOk thunks pool crew.owner
        rw [position]
        rcases known with ⟨counting, given⟩ | ⟨returned | ⟨pc, past, later⟩, given⟩
        · obtain ⟨_, issued, next⟩ := schedule_region counting moved
          rw [if_pos rfl, given] at issued
          exact ⟨still, bound, .inr ⟨next, issued⟩⟩
        · rw [inside] at returned
          cases returned
        · obtain ⟨_, issued, next⟩ := schedule_region later moved
          rw [if_neg past, given] at issued
          exact ⟨still, bound, .inr ⟨next, issued⟩⟩
  | wait =>
      rw [position] at owner taken
      obtain ⟨idle, given, known⟩ := owner
      simp only at taken
      split at taken
      · rename_i outside
        obtain ⟨_, moved, rfl⟩ := Option.map_eq_some_iff.mp taken
        obtain ⟨pool, called, rfl⟩ := Option.map_eq_some_iff.mp moved
        obtain ⟨_, rfl⟩ := destroy_spec called
        refine ok.pool called (fun _ _ equal => by cases equal) rfl ?_
        rcases known with ⟨_, _, inside⟩ | ⟨_, drained⟩
        · rw [outside] at inside
          cases inside
        · exact ⟨outside, given, drained, fun equal => by cases equal⟩
      · rename_i call inside
        obtain ⟨pool, moved, rfl⟩ := Option.map_eq_some_iff.mp taken
        refine ok.pool moved (fun _ _ equal => by cases equal) (completed_client moved) ?_
        have still : pool.destructor = .idle := (frame_client moved).1.trans idle
        show OwnerOk thunks pool crew.owner
        rw [position]
        rcases known with ⟨pc, since, waiting⟩ | ⟨outside, _⟩
        · obtain ⟨same, next⟩ := wait_region ok.invariant waiting moved
          refine ⟨still, by rw [same, given], next.imp_left fun ⟨pc, inside⟩ => ?_⟩
          exact ⟨pc, since, inside⟩
        · rw [inside] at outside
          cases outside
  | destroy =>
      rw [position] at owner taken
      obtain ⟨outside, given, drained, begun⟩ := owner
      simp only at taken
      split at taken
      · rename_i returned
        obtain rfl := Option.some.inj taken
        exact ⟨ok.invariant, ok.uncalled, ⟨outside, given, drained, returned⟩, ok.returned⟩
      · obtain ⟨pool, moved, rfl⟩ := Option.map_eq_some_iff.mp taken
        obtain ⟨completed, issued⟩ := history_destructor moved
        refine ok.pool moved (fun _ _ equal => by cases equal) completed ?_
        show OwnerOk thunks pool crew.owner
        rw [position]
        refine ⟨by rw [(frame_destructor moved).1, outside], issued.trans given, ?_,
          begun_destructor moved⟩
        intro thunk known
        rw [completed]
        exact drained thunk (issued ▸ known)
  | past =>
      rw [position] at taken
      cases taken

omit [NeZero numThreads] in
/-- A thunk in its body is one of the program. -/
theorem Ok.lt_of_body (ok : crew.Ok bodies thunks) {id : Fin numThreads} {ticket : Ticket}
    (running : crew.pool.body id = some ticket) : ticket < thunks :=
  (ok.invariant.of_body running).1.trans_le ok.owner.issued_le

/-- What a worker does next: its body returns, its body goes on, or the pool moves. -/
inductive WorkerMove (bodies : Bodies Shared Choice) (crew : Crew numThreads Shared)
    (id : Fin numThreads) (choice : Choice) : Crew numThreads Shared → Prop
  | returns {ticket : Ticket} {pool : State numThreads Unit}
      (running : crew.pool.body id = some ticket)
      (returned : bodies.returned crew.shared ticket = true)
      (moved : ThreadPool.step crew.pool (.worker id) = some pool) :
      WorkerMove bodies crew id choice { crew with pool }
  | body {ticket : Ticket} {shared : Shared} (running : crew.pool.body id = some ticket)
      (moved : bodies.step crew.shared ticket choice = some shared) :
      WorkerMove bodies crew id choice { crew with shared }
  | pool {pool : State numThreads Unit} (idle : crew.pool.body id = none)
      (moved : ThreadPool.step crew.pool (.worker id) = some pool) :
      WorkerMove bodies crew id choice { crew with pool }

theorem workerMove_of_step {id : Fin numThreads} {choice : Choice}
    (taken : crew.workerStep bodies id choice = some after) :
    WorkerMove bodies crew id choice after := by
  rw [Crew.workerStep] at taken
  split at taken
  · rename_i ticket pc
    have running := body_eq_some.mpr pc
    split at taken
    · rename_i returned
      obtain ⟨pool, moved, rfl⟩ := Option.map_eq_some_iff.mp taken
      exact .returns running returned moved
    · obtain ⟨shared, moved, rfl⟩ := Option.map_eq_some_iff.mp taken
      exact .body running moved
  · rename_i busy
    obtain ⟨pool, moved, rfl⟩ := Option.map_eq_some_iff.mp taken
    refine .pool (Option.eq_none_iff_forall_not_mem.mpr fun ticket running => ?_) moved
    exact busy ticket (body_eq_some.mp running)

omit [NeZero numThreads] in
/-- The destructor is left alone by the workers, notifications aside. -/
theorem destructor_worker {state pool : State numThreads Unit} {id : Fin numThreads}
    (moved : ThreadPool.workerStep state id = some pool) :
    pool.destructor = state.destructor ∨ pool.destructor = state.destructor.wake := by
  rcases frame_worker moved with ⟨_, same, _⟩ | ⟨_, woken, _⟩
  · exact .inl same
  · exact .inr woken

theorem Ok.workerStep (ok : crew.Ok bodies thunks) (lawful : bodies.Lawful thunks cost holds left)
    (sound : holds crew.shared) {id : Fin numThreads} {choice : Choice}
    (taken : crew.workerStep bodies id choice = some after) :
    after.Ok bodies thunks ∧ holds after.shared := by
  cases workerMove_of_step taken with
  | @returns ticket pool running returned moved =>
      obtain ⟨completed, issued, _, clients⟩ := returns_worker running moved
      refine ⟨⟨ok.invariant.step moved, ?_, ?_, fun other inside => ?_⟩, sound⟩
      · exact ok.uncalled.of_outside (fun _ _ equal => by cases equal) moved
      · refine ok.owner.mono (.inl (by rw [clients])) (destructor_worker moved) issued
          fun thunk old => ?_
        rw [completed]
        exact List.mem_append_left _ old
      · rw [completed] at inside
        rcases List.mem_append.mp inside with old | new
        · exact ok.returned other old
        · rw [List.mem_singleton.mp new]
          exact returned
  | @body ticket shared running moved =>
      have small := ok.lt_of_body running
      have others := lawful.others crew.shared sound ticket small choice shared moved
      refine ⟨⟨ok.invariant, ok.uncalled, ok.owner, fun other inside => ?_⟩,
        lawful.keeps crew.shared sound ticket small choice shared moved⟩
      exact (others other).2 (ok.returned other inside)
  | pool idle moved =>
      exact ⟨ok.quiet moved (fun _ _ equal => by cases equal) (clients_worker moved ())
        (destructor_worker moved) (history_worker ok.uncalled idle moved), sound⟩

theorem poolStep_spec {action : Action numThreads Unit}
    (taken : crew.poolStep action = some after) :
    ∃ pool, ThreadPool.step crew.pool action = some pool ∧ after = { crew with pool } := by
  obtain ⟨pool, moved, same⟩ := Option.map_eq_some_iff.mp taken
  exact ⟨pool, moved, same.symm⟩

/-- The owner does not touch what the bodies share. -/
theorem shared_ownerStep (taken : crew.ownerStep thunks = some after) :
    after.shared = crew.shared := by
  rw [Crew.ownerStep] at taken
  split at taken
  · split at taken
    all_goals
      obtain ⟨_, moved, rfl⟩ := Option.map_eq_some_iff.mp taken
      obtain ⟨_, _, rfl⟩ := poolStep_spec moved
      rfl
  · split at taken
    · obtain rfl := Option.some.inj taken
      rfl
    · obtain ⟨_, _, rfl⟩ := poolStep_spec taken
      rfl
  · split at taken
    · obtain ⟨_, moved, rfl⟩ := Option.map_eq_some_iff.mp taken
      obtain ⟨_, _, rfl⟩ := poolStep_spec moved
      rfl
    · obtain ⟨_, _, rfl⟩ := poolStep_spec taken
      rfl
  · split at taken
    · obtain rfl := Option.some.inj taken
      rfl
    · obtain ⟨_, _, rfl⟩ := poolStep_spec taken
      rfl
  · cases taken

/-- Every step of the block keeps what is known of it. -/
theorem Ok.step (ok : crew.Ok bodies thunks) (lawful : bodies.Lawful thunks cost holds left)
    (sound : holds crew.shared) {mover : Mover numThreads Choice}
    (taken : crew.step bodies thunks mover = some after) :
    after.Ok bodies thunks ∧ holds after.shared := by
  cases mover with
  | owner => exact ⟨ok.ownerStep taken, shared_ownerStep taken ▸ sound⟩
  | dispatcher =>
      obtain ⟨pool, moved, rfl⟩ := poolStep_spec taken
      obtain ⟨clients, destructor, _⟩ := frame_dispatcher moved
      exact ⟨ok.quiet moved (fun _ _ equal => by cases equal) (.inl (by rw [clients]))
        (.inl destructor) (history_dispatcher moved), sound⟩
  | worker id choice => exact ok.workerStep lawful sound taken
  | wakeOwner =>
      obtain ⟨pool, moved, rfl⟩ := poolStep_spec taken
      have woken := Option.some.inj moved
      refine ⟨ok.quiet moved (fun _ _ equal => by cases equal) (.inr ?_) ?_ ?_, sound⟩
      · rw [← woken]
        simp
      · rw [← woken]
        exact .inl rfl
      · rw [← woken]
        exact ⟨rfl, rfl⟩
  | wakeDestructor =>
      obtain ⟨pool, moved, rfl⟩ := poolStep_spec taken
      have woken := Option.some.inj moved
      refine ⟨ok.quiet moved (fun _ _ equal => by cases equal) (.inl ?_) ?_ ?_, sound⟩
      · rw [← woken]
      · rw [← woken]
        exact .inr rfl
      · rw [← woken]
        exact ⟨rfl, rfl⟩

/-! ## Past the block -/

omit [NeZero numThreads] in
/-- Past the block every body has returned. -/
theorem Ok.returned_of_past (ok : crew.Ok bodies thunks) (past : crew.owner = .past)
    {ticket : Ticket} (small : ticket < thunks) : bodies.returned crew.shared ticket = true := by
  have owner := ok.owner
  rw [past] at owner
  obtain ⟨_, given, drained, _⟩ := owner
  exact ok.returned ticket (drained ticket (given ▸ small))

omit [NeZero numThreads] in
/-- Past the block every thread of the pool has exited. -/
theorem Ok.finished_of_past (ok : crew.Ok bodies thunks) (past : crew.owner = .past) :
    Finished crew.pool := by
  have owner := ok.owner
  rw [past] at owner
  obtain ⟨_, _, _, returned⟩ := owner
  refine ⟨returned, ok.invariant.ledger.dispatcherJoined (by rw [returned]; rfl), fun id => ?_⟩
  exact (ok.invariant.workers id).joined (by rw [returned]; exact id.isLt)

section Still

variable [Inhabited Choice] (ok : crew.Ok bodies thunks)
  (lawful : bodies.Lawful thunks cost holds left) (sound : holds crew.shared)
  (still : ∀ mover : Mover numThreads Choice, mover.moves = true →
    crew.step bodies thunks mover = none)

include ok lawful sound still in
/-- A body that has not returned can go on. -/
theorem idle_of_still (id : Fin numThreads) : crew.pool.body id = none := by
  refine Option.eq_none_iff_forall_not_mem.mpr fun ticket running => ?_
  have pc := body_eq_some.mp running
  cases returned : bodies.returned crew.shared ticket with
  | true =>
      have blocked : crew.workerStep bodies id default = none := still (.worker id default) rfl
      simp only [Crew.workerStep, pc, returned, if_true, Crew.poolStep, Option.map_eq_none_iff]
        at blocked
      rw [ThreadPool.step, ThreadPool.workerStep, pc] at blocked
      cases blocked
  | false =>
      have small := ok.lt_of_body running
      obtain ⟨choice, moves⟩ := lawful.goes crew.shared sound ticket small returned
      have blocked : crew.workerStep bodies id choice = none := still (.worker id choice) rfl
      simp only [Crew.workerStep, pc, returned, Bool.false_eq_true, if_false,
        Option.map_eq_none_iff] at blocked
      rw [blocked] at moves
      cases moves

include ok lawful sound still in
/-- Where no thread can move, the pool is stuck. -/
theorem stuck_of_still : ¬ Enabled crew.pool := by
  have owner := ok.owner
  have blocked : crew.ownerStep thunks = none := still .owner rfl
  rintro ⟨action, internal, moves⟩
  cases action with
  | dispatcher =>
      rw [Option.map_eq_none_iff.mp (still .dispatcher rfl)] at moves
      cases moves
  | worker id =>
      have blocked : crew.workerStep bodies id default = none := still (.worker id default) rfl
      have idle := idle_of_still ok lawful sound still id
      rw [Crew.workerStep] at blocked
      split at blocked
      · rename_i ticket pc
        rw [body_eq_some.mpr pc] at idle
        cases idle
      · rw [Option.map_eq_none_iff.mp blocked] at moves
        cases moves
  | client client =>
      cases inside : crew.pool.clients () with
      | none =>
          rw [ThreadPool.step, clientStep, inside] at moves
          cases moves
      | some call =>
          rw [Crew.ownerStep] at blocked
          cases position : crew.owner with
          | loop | destroy | past =>
              rw [position] at owner
              rw [owner.1] at inside
              cases inside
          | schedule | wait =>
              simp only [position, inside, Crew.poolStep, Option.map_eq_none_iff] at blocked
              rw [blocked] at moves
              cases moves
  | destructor =>
      cases position : crew.owner with
      | loop =>
          rw [position] at owner
          rw [ThreadPool.step, destructorStep, owner.2.1] at moves
          cases moves
      | schedule | wait =>
          rw [position] at owner
          rw [ThreadPool.step, destructorStep, owner.1] at moves
          cases moves
      | destroy =>
          rw [Crew.ownerStep, position] at blocked
          simp only at blocked
          split at blocked
          · cases blocked
          · rw [Option.map_eq_none_iff.mp blocked] at moves
            cases moves
      | past =>
          rw [position] at owner
          rw [ThreadPool.step, destructorStep, owner.2.2.2] at moves
          cases moves
  | thunkCalls | clientCalls | destroy | spuriousWake => cases internal

include ok lawful sound still in
/-- Where no thread can move, the owner is past the block. -/
theorem past_of_still : crew.owner = .past := by
  have owner := ok.owner
  have blocked : crew.ownerStep thunks = none := still .owner rfl
  have unwaiting : Unwaiting crew.pool := fun id pc since inside => by
    rw [ok.uncalled id] at inside
    cases inside
  have rest := parked_or_finished_of_stuck (stuck_of_still ok lawful sound still) ok.invariant
    unwaiting
  have outside (idle : crew.pool.destructor = .idle) : crew.pool.clients () = none := by
    rcases rest with parked | finished
    · exact parked.clients ()
    · rw [finished.destructor] at idle
      cases idle
  rw [Crew.ownerStep] at blocked
  cases position : crew.owner with
  | loop next =>
      rw [position] at owner
      simp only [position, Crew.poolStep, ThreadPool.step, owner.1] at blocked
      split at blocked <;> cases blocked
  | schedule next =>
      rw [position] at owner
      simp only [position, outside owner.1] at blocked
      cases blocked
  | wait =>
      rw [position] at owner
      simp only [position, outside owner.1, Crew.poolStep, ThreadPool.step, owner.1] at blocked
      cases blocked
  | destroy =>
      rw [position] at owner
      rcases rest with parked | finished
      · exact absurd parked.destructor owner.2.2.2
      · simp only [position, finished.destructor, if_true] at blocked
        cases blocked
  | past => rfl

end Still

end Crew

end ThreadPool
end Syscore
