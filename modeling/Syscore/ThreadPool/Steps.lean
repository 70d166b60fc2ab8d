import Syscore.ThreadPool.Frames
import Syscore.ThreadPool.Invariant

/-!
# Every step keeps the invariant

One lemma for each thread of the pool, and from them the invariant of every reachable state.
-/

namespace Syscore
namespace ThreadPool

variable {numThreads : ℕ} {Client : Type}

/-! ## Calls -/

namespace Ledger

variable {pool after : Pool} {dispatcher : DispatcherPc numThreads}
  {destructor : DestructorPc numThreads} {total : Account → ℤ}

theorem of_eq {total' : Account → ℤ} (ledger : Ledger pool dispatcher destructor total)
    (same : total = total') : Ledger pool dispatcher destructor total' :=
  same ▸ ledger

/-- One region of a pool call, made by any thread. -/
theorem callStep {caller : Option Ticket} {call : Call} {next : Option Call}
    (ledger : Ledger pool dispatcher destructor total)
    (step : callStep caller pool call = some (after, next)) :
    Ledger after dispatcher destructor (total - call.weight + callWeight next) := by
  rcases call with ⟨_ | thunk | thunk⟩ | ⟨pc, since⟩
  · obtain ⟨rfl, rfl⟩ := Prod.mk.inj (Option.some.inj step)
    refine (ledger.increment caller).of_eq ?_
    simp only [scheduleStep, Option.map_some, callWeight, weight_increment, weight_push]
    abel
  · obtain ⟨rfl, rfl⟩ := Prod.mk.inj (Option.some.inj step)
    refine (ledger.push thunk).of_eq ?_
    simp only [scheduleStep, Option.map_some, callWeight, weight_push, weight_signal]
    abel
  · obtain ⟨rfl, rfl⟩ := Prod.mk.inj (Option.some.inj step)
    refine ledger.signal.of_eq ?_
    simp only [scheduleStep, Option.map_none, callWeight, weight_signal]
    abel
  · obtain ⟨position, waited, same⟩ := Option.map_eq_some_iff.mp step
    obtain ⟨rfl, rfl⟩ := Prod.mk.inj same
    cases pc with
    | check =>
        rw [waitStep] at waited
        split at waited
        · obtain rfl := Option.some.inj waited
          refine ledger.of_eq ?_
          rw [weight_check, Option.map_none, callWeight]
          abel
        · rename_i pending
          obtain rfl := Option.some.inj waited
          refine ledger.sleep ?_ fun zero => absurd zero pending
          intro account awake
          rw [weight_check, Option.map_some, callWeight, weight_asleep]
          simp [charge, unit, awake.symm]
    | asleep => simp [waitStep] at waited

end Ledger

/-! ## Wakeups -/

theorem callWeight_wake (call : Option Call) {account : Account} (awake : account ≠ .sleeping) :
    callWeight (call.map Call.wake) account = callWeight call account := by
  rcases call with _ | pc | ⟨_ | _, since⟩
  · rfl
  · rfl
  · rfl
  · rw [Option.map_some, Call.wake, callWeight, callWeight, weight_check, weight_asleep]
    simp [charge, unit, awake.symm]

theorem callWeight_wake_sleeping (call : Option Call) :
    callWeight (call.map Call.wake) .sleeping = 0 := by
  rcases call with _ | ⟨_ | _ | _⟩ | ⟨_ | _, since⟩ <;> rfl

theorem weight_wake (worker : Worker) {account : Account} (awake : account ≠ .sleeping) :
    worker.wake.weight account = worker.weight account := by
  unfold Worker.wake
  split
  · rename_i thunk call pc
    have moved := weight_setPc worker (.running thunk (call.map Call.wake)) worker.ready
    have same := callWeight_wake call awake
    rw [moved, pc, weight_running, weight_running]
    simp only [Pi.add_apply, Pi.sub_apply]
    omega
  · rfl

theorem weight_sleeping (worker : Worker) :
    worker.weight .sleeping = worker.pc.weight .sleeping :=
  add_zero _

theorem weight_wake_sleeping (worker : Worker) : worker.wake.weight .sleeping = 0 := by
  rw [weight_sleeping]
  unfold Worker.wake
  split
  · rw [weight_running, callWeight_wake_sleeping]
  · rename_i other
    cases pc : worker.pc with
    | running thunk call => exact absurd pc (other thunk call)
    | _ => rfl

section Totals

variable [Fintype Client]

theorem total_notifyAll (state : State numThreads Client) {account : Account}
    (awake : account ≠ .sleeping) : state.notifyAll.total account = state.total account := by
  unfold State.total State.notifyAll
  simp only [Pi.add_apply, tally_apply]
  rw [tally_comp _ (fun call => callWeight call account) (Option.map Call.wake)
      (fun call => callWeight_wake call awake),
    tally_comp _ (fun worker => Worker.weight worker account) Worker.wake
      (fun worker => weight_wake worker awake)]

theorem total_notifyAll_sleeping (state : State numThreads Client) :
    state.notifyAll.total .sleeping = 0 := by
  unfold State.total State.notifyAll
  simp only [Pi.add_apply, tally_apply]
  rw [tally_comp _ (fun _ => 0) (Option.map Call.wake) callWeight_wake_sleeping,
    tally_comp _ (fun _ => 0) Worker.wake weight_wake_sleeping]
  simp [tally]

end Totals

/-! ## Threads -/

namespace Invariant

variable [Fintype Client] {state after : State numThreads Client}

theorem dispatcher [NeZero numThreads] (invariant : Invariant state)
    (step : dispatcherStep state = some after) : Invariant after := by
  have ledger := invariant.ledger
  have workers := invariant.workers
  cases dispatcherMove_of_step step with
  | takeQueued pc token =>
      rw [pc] at ledger
      exact invariant.setDispatcher (ledger.takeQueued token) rfl rfl
        (by simp [pc, DispatcherPc.signalsReady]) (by simp [pc, DispatcherPc.claims])
  | quitQueued pc done | quitAvailable pc done =>
      rw [pc] at ledger
      exact invariant.setDispatcher (ledger.quit rfl rfl (fun _ => rfl) done) rfl rfl
        (by simp [pc, DispatcherPc.signalsReady]) (by simp [pc, DispatcherPc.claims])
  | continueQueued pc running =>
      rw [pc] at ledger
      exact invariant.setDispatcher (ledger.continueQueued running (total_nonneg state _)) rfl rfl
        (by simp [pc, DispatcherPc.signalsReady]) (by simp [pc, DispatcherPc.claims])
  | takeAvailable pc token =>
      rw [pc] at ledger
      exact invariant.setDispatcher (ledger.takeAvailable token) rfl rfl
        (by simp [pc, DispatcherPc.signalsReady]) (by simp [pc, DispatcherPc.claims])
  | continueAvailable pc running =>
      rw [pc] at ledger
      exact invariant.setDispatcher (ledger.continueAvailable running (total_nonneg state _))
        rfl rfl (by simp [pc, DispatcherPc.signalsReady]) (by simp [pc, DispatcherPc.claims])
  | @claim id pc found =>
      rw [pc] at ledger
      have free := available_of_firstAvailable found
      have own := workers id
      rw [pc] at own
      refine setWorker state.pool _ _ ((ledger.claim id).of_eq ?_) (own.claim free) ?_
      · have slot := slotWeight_claim free (state.workers id).pc (state.workers id).ready
        unfold Worker.weight
        rw [slot]
        abel
      · intro other distinct
        have rest := workers other
        rw [pc] at rest
        exact rest.mono (fun done => done) (fun _ old => old) rfl
          (by simp [DispatcherPc.claims, unit, distinct.symm]) rfl rest.joined
  | claimNobody pc nobody =>
      rw [pc] at ledger
      obtain ⟨id, found⟩ := exists_firstAvailable (ledger.scanFinds rfl)
      rw [nobody] at found
      cases found
  | pop pc front =>
      rw [pc] at ledger
      exact invariant.setDispatcher (ledger.popTask front) rfl rfl
        (by simp [pc, DispatcherPc.signalsReady]) (by simp [pc, DispatcherPc.claims])
  | @assign id thunk pc =>
      rw [pc] at ledger
      have own := workers id
      rw [pc] at own
      refine setWorker state.pool _ _ (ledger.assign.of_eq ?_) own.assign ?_
      · have unassigned := own.unassigned (by simp [DispatcherPc.claims])
        have slot := slotWeight_assign unassigned thunk
        unfold Worker.weight
        rw [slot]
        abel
      · intro other distinct
        have rest := workers other
        rw [pc] at rest
        exact rest.mono (fun done => done) (fun _ old => old)
          (by simp [DispatcherPc.signalsReady, unit, distinct.symm])
          (by simp [DispatcherPc.claims, unit, distinct.symm]) rfl rest.joined
  | @signalReady id pc =>
      rw [pc] at ledger
      have own := workers id
      rw [pc] at own
      refine setWorker state.pool _ _ (ledger.signalReady.of_eq ?_) own.signalReady ?_
      · have same := weight_setPc (state.workers id) (state.workers id).pc
          ((state.workers id).ready + 1)
        rw [same]
        abel
      · intro other distinct
        have rest := workers other
        rw [pc] at rest
        exact rest.mono (fun done => done) (fun _ old => old)
          (by simp [DispatcherPc.signalsReady, unit, distinct.symm]) rfl rfl rest.joined

/-- A worker moves between two positions that take or keep the same tokens. -/
theorem setPc (invariant : Invariant state) (pool : Pool) {id : Fin numThreads} {pc : WorkerPc}
    {ready : ℕ}
    (ledger : Ledger pool state.dispatcher state.destructor
      (state.total - (state.workers id).pc.weight + pc.weight))
    (done : pool.done = state.pool.done) (completed : pool.completed = state.pool.completed)
    (tokens : (ready : ℤ) + pc.holdsToken =
      (state.workers id).ready + (state.workers id).pc.holdsToken)
    (publishing : pc.publishing = (state.workers id).pc.publishing)
    (running : ∀ thunk call, pc = .running thunk call →
      (state.workers id).assigned = true ∧ (state.workers id).thunk = some thunk)
    (exited : pc = .exited → state.pool.done = true) (alive : (state.workers id).pc ≠ .exited) :
    Invariant { state.setWorker id { state.workers id with pc, ready } with pool } := by
  have same := weight_setPc (state.workers id) pc ready
  refine setWorker _ state.dispatcher state.destructor (ledger.of_eq ?_) ?_ ?_
  · rw [same]
    abel
  · have own := (invariant.workers id).setPc tokens publishing running exited alive
    exact own.mono (by simp [done]) (by simp [completed]) rfl rfl rfl own.joined
  · intro other _
    have rest := invariant.workers other
    exact rest.mono (by simp [done]) (by simp [completed]) rfl rfl rfl rest.joined

theorem posted_pos {id : Fin numThreads} {thunk : Ticket}
    (pc : (state.workers id).pc = .decrement thunk) : 0 < state.total .posted := by
  have below := weight_le_total state id .posted
  rw [Worker.weight, pc, weight_decrement] at below
  simp [charge, Worker.slotWeight] at below
  omega

/-- The decrement of `outstanding`, with the notification that may follow. -/
theorem decrement {id : Fin numThreads} {thunk : Ticket} {pool : Pool}
    {before : State numThreads Client} (invariant : Invariant state)
    (pc : (state.workers id).pc = .decrement thunk)
    (pool_eq : pool =
      { state.pool with
        outstanding := state.pool.outstanding - 1
        retired := state.pool.retired ++ [thunk] })
    (before_eq : before =
      { state.setWorker id { state.workers id with pc := .ready } with pool }) :
    Invariant (if state.pool.outstanding - 1 = 0 then before.notifyAll else before) := by
  have total : before.total =
      state.total - charge .posted - charge (.postedTicket thunk) := by
    have moved := total_setWorker state id { state.workers id with pc := .ready }
    have same := weight_setPc (state.workers id) .ready (state.workers id).ready
    rw [same, pc, weight_decrement, weight_parked.1] at moved
    rw [before_eq]
    refine Eq.trans moved ?_
    abel
  have workers : ∀ other,
      WorkerLedger pool state.dispatcher state.destructor other (before.workers other) := by
    intro other
    have moved : WorkerLedger state.pool state.dispatcher state.destructor other
        (before.workers other) := by
      subst before_eq
      by_cases same : other = id
      · subst same
        simp only [State.setWorker, Function.update_self]
        exact (invariant.workers other).setPc (by simp [pc, WorkerPc.holdsToken])
          (by simp [pc, WorkerPc.publishing]) (by simp) (by simp) (by simp [pc])
      · simp only [State.setWorker, ne_eq, same, not_false_eq_true, Function.update_of_ne]
        exact invariant.workers other
    exact moved.mono (by simp [pool_eq]) (by simp [pool_eq]) rfl rfl rfl moved.joined
  have positive := posted_pos pc
  have nonneg := total_nonneg state
  have ledger := invariant.ledger
  split
  · constructor
    · have after := ledger.decrement thunk before.notifyAll.total positive
        nonneg state.destructor.alike_wake state.destructor.pastJoin_wake
        (fun account awake => by rw [total_notifyAll before awake, total])
        (fun _ => by rw [total_notifyAll_sleeping, DestructorPc.sleeping_wake]; rfl)
      subst before_eq pool_eq
      exact after
    · intro other
      have woken := (workers other).wake
      have later : WorkerLedger pool state.dispatcher state.destructor.wake other _ :=
        woken.mono (fun done => done) (fun _ old => old) rfl rfl (by simp)
          (by simpa using woken.joined)
      subst before_eq
      exact later
  · rename_i pending
    constructor
    · have after := ledger.decrement thunk before.total positive nonneg
        ⟨rfl, rfl, rfl⟩ rfl (fun account _ => by rw [total]) (fun zero => absurd zero pending)
      subst before_eq pool_eq
      exact after
    · subst before_eq
      exact workers

theorem worker {id : Fin numThreads} (invariant : Invariant state)
    (step : workerStep state id = some after) : Invariant after := by
  have ledger := invariant.ledger
  have own := invariant.workers id
  cases workerMove_of_step step with
  | takeReady pc token =>
      refine invariant.setPc state.pool (ledger.of_eq ?_) rfl rfl ?_ ?_ (by simp)
        (by simp) (by simp [pc])
      · rw [pc, weight_parked.1, weight_parked.2.1]
        abel
      · simp only [pc, WorkerPc.holdsToken]
        omega
      · simp [pc, WorkerPc.publishing]
  | quit pc done =>
      refine invariant.setPc state.pool (ledger.of_eq ?_) rfl rfl ?_ ?_ (by simp)
        (fun _ => done) (by simp [pc])
      · rw [pc, weight_parked.2.1, weight_parked.2.2]
        abel
      · simp [pc, WorkerPc.holdsToken]
      · simp [pc, WorkerPc.publishing]
  | start pc running slot =>
      have before : state.destructor.pastDone = false := ledger.doneSet.symm.trans running
      have assigned := own.assigned pc before
      refine invariant.setPc state.pool (ledger.of_eq ?_) rfl rfl ?_ ?_ ?_ (by simp)
        (by simp [pc])
      · rw [pc, weight_parked.2.1, weight_running, callWeight]
        abel
      · simp [pc, WorkerPc.holdsToken]
      · simp [pc, WorkerPc.publishing]
      · intro other call same
        obtain ⟨rfl, _⟩ := WorkerPc.running.inj same
        exact ⟨assigned, slot⟩
  | @complete thunk pc =>
      obtain ⟨assigned, slot⟩ := own.running thunk none pc
      refine setWorker _ state.dispatcher state.destructor
        ((ledger.complete thunk).of_eq ?_) (own.complete pc) ?_
      · have unslotted := slotWeight_complete assigned slot (.publish thunk)
        unfold Worker.weight
        rw [unslotted, weight_publish, pc, weight_running, callWeight]
        abel
      · intro other _
        have rest := invariant.workers other
        exact rest.mono (fun done => done) (fun _ old => List.mem_append_left _ old) rfl rfl rfl
          rest.joined
  | call pc moved =>
      obtain ⟨assigned, slot⟩ := own.running _ _ pc
      obtain ⟨done, completed⟩ := callStep_done moved
      refine invariant.setPc _ ((ledger.callStep moved).of_eq ?_) done completed ?_ ?_ ?_
        (by simp) (by simp [pc])
      · rw [pc, weight_running, weight_running, callWeight]
      · simp [pc, WorkerPc.holdsToken]
      · simp [pc, WorkerPc.publishing]
      · intro other _ same
        obtain ⟨rfl, _⟩ := WorkerPc.running.inj same
        exact ⟨assigned, slot⟩
  | @publish thunk pc =>
      obtain ⟨busy, own⟩ := own.publish pc
      refine setWorker state.pool state.dispatcher state.destructor (ledger.publish.of_eq ?_) own ?_
      · have slotted := slotWeight_publish busy (.signalAvailable thunk) (state.workers id).ready
        unfold Worker.weight
        rw [slotted, pc, weight_publish, weight_signalAvailable]
        abel
      · exact fun other _ => invariant.workers other
  | signalAvailable pc =>
      refine invariant.setPc _ (ledger.signalAvailable.of_eq ?_) rfl rfl ?_ ?_ (by simp) (by simp)
        (by simp [pc])
      · rw [pc, weight_signalAvailable, weight_decrement]
        abel
      · simp [pc, WorkerPc.holdsToken]
      · simp [pc, WorkerPc.publishing]
  | decrement pc shape => exact invariant.decrement pc rfl shape

theorem client [DecidableEq Client] {client : Client} (invariant : Invariant state)
    (step : clientStep state client = some after) : Invariant after := by
  unfold clientStep at step
  cases inside : state.clients client with
  | none => simp [inside] at step
  | some call =>
      simp only [inside] at step
      obtain ⟨⟨pool, next⟩, moved, rfl⟩ := Option.map_eq_some_iff.mp step
      obtain ⟨done, completed⟩ := callStep_done moved
      have ledger := invariant.ledger.callStep moved
      constructor
      · have total := total_setClient state client next
        rw [inside, callWeight] at total
        exact ledger.of_eq total.symm
      · intro id
        have rest := invariant.workers id
        exact rest.mono (by simp [done]) (by simp [completed]) rfl rfl rfl rest.joined

/-- A move of the destructor that signals nobody and joins nobody. -/
theorem setDestructor (invariant : Invariant state) {destructor : DestructorPc numThreads}
    (ledger : Ledger state.pool state.dispatcher destructor state.total)
    (extra : ∀ id, destructor.extraReady id = state.destructor.extraReady id)
    (joined : ∀ id : Fin numThreads, id < destructor.joined →
      id < state.destructor.joined ∨ (state.workers id).pc = .exited) :
    Invariant { state with destructor } where
  ledger := ledger
  workers id := by
    have rest := invariant.workers id
    exact rest.mono (fun done => done) (fun _ old => old) rfl rfl (extra id)
      fun past => (joined id past).elim rest.joined fun exited => exited

theorem destructor (invariant : Invariant state) (step : destructorStep state = some after) :
    Invariant after := by
  have ledger := invariant.ledger
  have nonneg := total_nonneg state .sleeping
  cases destructorMove_of_step step with
  | sleep pc pending =>
      refine invariant.setDestructor (ledger.setDestructor ?_ (by simp [DestructorPc.pastJoin])
        (fun zero => absurd zero pending) nonneg) ?_ ?_
      · rw [pc]
        exact ⟨rfl, rfl, rfl⟩
      · simp [pc, DestructorPc.extraReady]
      · simp [DestructorPc.joined]
  | drained pc zero =>
      refine invariant.setDestructor (ledger.setDestructor ?_ (by simp [DestructorPc.pastJoin])
        (fun _ => rfl) nonneg) ?_ ?_
      · rw [pc]
        exact ⟨rfl, rfl, rfl⟩
      · simp [pc, DestructorPc.extraReady]
      · simp [DestructorPc.joined]
  | setDone pc =>
      rw [pc] at ledger
      refine ⟨ledger.setDone, fun id => ?_⟩
      have rest := invariant.workers id
      rw [pc] at rest
      exact rest.mono (fun _ => rfl) (fun _ old => old) rfl rfl rfl rest.joined
  | signalQueued pc =>
      rw [pc] at ledger
      refine ⟨ledger.destructorSignalQueued, fun id => ?_⟩
      have rest := invariant.workers id
      rw [pc] at rest
      exact rest.mono (fun done => done) (fun _ old => old) rfl rfl rfl rest.joined
  | signalAvailable pc =>
      rw [pc] at ledger
      refine ⟨ledger.destructorSignalAvailable, fun id => ?_⟩
      have rest := invariant.workers id
      rw [pc] at rest
      exact rest.mono (fun done => done) (fun _ old => old) rfl rfl rfl rest.joined
  | joinDispatcher pc exited =>
      refine invariant.setDestructor (ledger.setDestructor ?_ (fun _ => exited) (fun _ => rfl)
        nonneg) ?_ ?_
      · rw [pc]
        exact ⟨rfl, rfl, rfl⟩
      · simp [pc, DestructorPc.extraReady, unit]
      · simp [DestructorPc.joined]
  | @reap index pc bound =>
      have exited := ledger.dispatcherJoined (by rw [pc]; rfl)
      refine setWorker state.pool state.dispatcher _
        ((ledger.setDestructor ?_ (fun _ => exited) (fun _ => rfl) nonneg).of_eq ?_) ?_ ?_
      · rw [pc]
        exact ⟨rfl, rfl, rfl⟩
      · have same := weight_setPc (state.workers ⟨index, bound⟩)
          (state.workers ⟨index, bound⟩).pc ((state.workers ⟨index, bound⟩).ready + 1)
        rw [same]
        abel
      · have own := invariant.workers ⟨index, bound⟩
        rw [pc] at own
        exact own.reap rfl
      · intro other distinct
        have rest := invariant.workers other
        rw [pc] at rest
        have apart : (other : ℕ) ≠ index := fun same => distinct (Fin.ext same)
        refine rest.mono (fun done => done) (fun _ old => old) rfl rfl ?_ rest.joined
        simp only [DestructorPc.extraReady, unit, Fin.le_def]
        split_ifs <;> omega
  | @reaped index pc outside =>
      have exited := ledger.dispatcherJoined (by rw [pc]; rfl)
      refine invariant.setDestructor (ledger.setDestructor ?_ (fun _ => exited) (fun _ => rfl)
        nonneg) ?_ ?_
      · rw [pc]
        exact ⟨rfl, rfl, rfl⟩
      · intro id
        have below : (id : ℕ) < index := id.isLt.trans_le (not_lt.mp outside)
        simp [pc, DestructorPc.extraReady, below]
      · intro id _
        have below : (id : ℕ) < index := id.isLt.trans_le (not_lt.mp outside)
        simp [pc, DestructorPc.joined, below]
  | @joinWorker id pc exited =>
      have finished := ledger.dispatcherJoined (by rw [pc]; rfl)
      refine invariant.setDestructor (ledger.setDestructor ?_ (fun _ => finished) (fun _ => rfl)
        nonneg) ?_ ?_
      · rw [pc]
        exact ⟨rfl, rfl, rfl⟩
      · intro other
        simp only [pc, DestructorPc.extraReady, unit, Fin.le_def]
        split_ifs <;> omega
      · intro other below
        simp only [pc, DestructorPc.joined] at below ⊢
        rcases Nat.lt_succ_iff_lt_or_eq.mp below with before | same
        · exact .inl before
        · obtain rfl := Fin.ext same
          exact .inr exited

/-- Sleepers on `allDone` wake up. -/
theorem awaken (invariant : Invariant state) (clients : Client → Option Call)
    (workers : Fin numThreads → Worker)
    (rest : ∀ account, account ≠ .sleeping →
      ({ state with clients, workers } : State numThreads Client).total account =
        state.total account)
    (fewer : ({ state with clients, workers } : State numThreads Client).total .sleeping ≤
      state.total .sleeping)
    (each : ∀ id, workers id = state.workers id ∨ workers id = (state.workers id).wake) :
    Invariant { state with clients, workers } where
  ledger := invariant.ledger.sleep rest fun zero => by
    have before := invariant.ledger.sleepers zero
    have awake := state.destructor.sleeping_nonneg
    have nonneg := total_nonneg { state with clients, workers } .sleeping
    change _ = (0 : ℤ)
    omega
  workers id := by
    rcases each id with same | woken
    · simp only [same]
      exact invariant.workers id
    · simp only [woken]
      exact (invariant.workers id).wake

theorem wake [DecidableEq Client] {waiter : Waiter numThreads Client} (invariant : Invariant state)
    (step : wakeStep state waiter = some after) : Invariant after := by
  cases waiter with
  | client client =>
      obtain rfl := Option.some.inj step
      refine invariant.awaken _ state.workers ?_ ?_ fun id => .inl rfl
      · intro account awake
        rw [total_setClient, Pi.add_apply, Pi.sub_apply, callWeight_wake _ awake]
        omega
      · rw [total_setClient, Pi.add_apply, Pi.sub_apply, callWeight_wake_sleeping]
        have nonneg := callWeight_nonneg (state.clients client) .sleeping
        omega
  | worker id =>
      obtain rfl := Option.some.inj step
      have total := total_setWorker state id (state.workers id).wake
      refine invariant.awaken state.clients _ ?_ ?_ ?_
      · intro account awake
        refine (congrFun total account).trans ?_
        rw [Pi.add_apply, Pi.sub_apply, weight_wake _ awake]
        omega
      · refine (congrFun total .sleeping).trans_le ?_
        rw [Pi.add_apply, Pi.sub_apply, weight_wake_sleeping]
        have nonneg := (state.workers id).weight_nonneg .sleeping
        omega
      · intro other
        by_cases same : other = id
        · subst same
          simp
        · simp [same]
  | destructor =>
      obtain rfl := Option.some.inj step
      refine invariant.setDestructor (invariant.ledger.setDestructor state.destructor.alike_wake ?_
        (fun _ => by simp) (total_nonneg state _)) (by simp) (by simp +contextual)
      rw [DestructorPc.pastJoin_wake]
      exact invariant.ledger.dispatcherJoined

/-- Every step keeps the invariant. -/
theorem step [NeZero numThreads] [DecidableEq Client] {action : Action numThreads Client}
    (invariant : Invariant state) (step : step state action = some after) : Invariant after := by
  cases action with
  | dispatcher => exact invariant.dispatcher step
  | worker id => exact invariant.worker step
  | client client => exact invariant.client step
  | destructor => exact invariant.destructor step
  | thunkCalls id entry =>
      obtain ⟨thunk, pc, rfl⟩ := thunkCalls_spec step
      refine invariant.setPc state.pool (invariant.ledger.of_eq ?_) rfl rfl ?_ ?_ ?_
        (by simp) (by simp [pc])
      · rw [pc, weight_running, weight_running, callWeight, callWeight, weight_begin]
        abel
      · simp [pc, WorkerPc.holdsToken]
      · simp [pc, WorkerPc.publishing]
      · intro other _ same
        obtain ⟨rfl, _⟩ := WorkerPc.running.inj same
        exact (invariant.workers id).running thunk none pc
  | clientCalls client entry =>
      obtain ⟨outside, rfl⟩ := clientCalls_spec step
      refine ⟨invariant.ledger.of_eq ?_, invariant.workers⟩
      rw [total_setClient, outside, callWeight, callWeight, weight_begin]
      abel
  | destroy =>
      obtain ⟨idle, rfl⟩ := destroy_spec step
      refine invariant.setDestructor (invariant.ledger.setDestructor ?_
        (by simp [DestructorPc.pastJoin]) (fun _ => rfl) (total_nonneg state _)) ?_ ?_
      · rw [idle]
        exact ⟨rfl, rfl, rfl⟩
      · simp [idle, DestructorPc.extraReady]
      · simp [DestructorPc.joined]
  | spuriousWake waiter => exact invariant.wake step

end Invariant

/-- The invariant holds of every reachable pool. -/
theorem invariant_of_reachable [Fintype Client] [NeZero numThreads] [DecidableEq Client]
    {state : State numThreads Client} (reach : (machine numThreads Client).Reachable .free state) :
    Invariant state := by
  refine reach.invariant Invariant ?_ ?_
  · rintro _ rfl
    exact invariant_construct
  · intro _ _ _ invariant _ step
    exact invariant.step step

end ThreadPool
end Syscore
