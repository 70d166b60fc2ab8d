import Syscore.ThreadPool.Model

/-!
# The ledger of a pool

Every thread of the pool is weighed on a few accounts: which tickets it is carrying and which
semaphore signals it still owes. The totals of these accounts, the semaphore values and the
positions of the dispatcher and the destructor satisfy the linear equations of `Ledger`, and each
worker satisfies two small equations of its own. Both are kept by every step.
-/

namespace Syscore
namespace ThreadPool

/-! ## Accounts -/

/-- What a thread is weighed on. -/
inductive Account
  /-- `schedule()` calls past their increment and before their push. -/
  | pushing
  /-- The same, for one ticket. -/
  | pushingTicket (thunk : Ticket)
  /-- `schedule()` calls past their push and before `queued.signal()`. -/
  | signalling
  /-- `wait()` calls blocked on `allDone`. -/
  | sleeping
  /-- Workers whose `available` flag is set. -/
  | available
  /-- Workers past their flag and before `availableWorkers.signal()`. -/
  | signallingAvailable
  /-- Workers whose slot holds a thunk they have not finished. -/
  | assigned
  /-- The same, for one ticket. -/
  | holding (thunk : Ticket)
  /-- Workers past their thunk and before their decrement. -/
  | posted
  /-- The same, for one ticket. -/
  | postedTicket (thunk : Ticket)
  deriving DecidableEq

/-- One if the proposition holds. -/
def unit (holds : Prop) [Decidable holds] : ℤ := if holds then 1 else 0

@[simp] theorem unit_true : unit True = 1 := rfl

@[simp] theorem unit_false : unit False = 0 := rfl

theorem unit_nonneg (holds : Prop) [Decidable holds] : 0 ≤ unit holds := by
  unfold unit
  split <;> decide

theorem unit_eq_one_iff {holds : Prop} [Decidable holds] : unit holds = 1 ↔ holds := by
  by_cases h : holds <;> simp [unit, h]

theorem unit_le_one (holds : Prop) [Decidable holds] : unit holds ≤ 1 := by
  unfold unit
  split <;> decide

/-- One ticket more is given out. -/
theorem unit_lt_succ (ticket bound : ℕ) :
    unit (ticket < bound + 1) = unit (ticket < bound) + unit (bound = ticket) := by
  unfold unit
  split_ifs <;> omega

theorem count_concat (list : List Ticket) (last ticket : Ticket) :
    ((list ++ [last]).count ticket : ℤ) = list.count ticket + unit (last = ticket) := by
  by_cases same : last = ticket <;> simp [unit, same]

theorem count_cons (list : List Ticket) (head ticket : Ticket) :
    ((head :: list).count ticket : ℤ) = list.count ticket + unit (head = ticket) := by
  by_cases same : head = ticket <;> simp [unit, same]

/-- A unit on one account. -/
def charge (account : Account) : Account → ℤ := fun other => unit (account = other)

theorem charge_apply (account other : Account) :
    charge account other = unit (account = other) := rfl

/-- The weight of a call in progress. -/
def Call.weight : Call → Account → ℤ
  | .schedule (.push _), .pushing => 1
  | .schedule (.push thunk), .pushingTicket other => unit (thunk = other)
  | .schedule (.signal _), .signalling => 1
  | .wait .asleep _, .sleeping => 1
  | _, _ => 0

/-- The weight of a thread that may be outside the pool. -/
def callWeight : Option Call → Account → ℤ
  | some call => call.weight
  | none => 0

/-- The weight of a worker's position. -/
def WorkerPc.weight : WorkerPc → Account → ℤ
  | .running _ call, account => callWeight call account
  | .signalAvailable _, .signallingAvailable => 1
  | .publish _, .posted | .signalAvailable _, .posted | .decrement _, .posted => 1
  | .publish thunk, .postedTicket other => unit (thunk = other)
  | .signalAvailable thunk, .postedTicket other => unit (thunk = other)
  | .decrement thunk, .postedTicket other => unit (thunk = other)
  | _, _ => 0

/-- The weight of a worker's slot and flag. -/
def Worker.slotWeight (worker : Worker) : Account → ℤ
  | .available => unit (worker.available = true)
  | .assigned => unit (worker.assigned = true)
  | .holding thunk => unit (worker.assigned = true ∧ worker.thunk = some thunk)
  | _ => 0

/-- The weight of a worker. -/
def Worker.weight (worker : Worker) : Account → ℤ := worker.pc.weight + worker.slotWeight

theorem Call.weight_nonneg (call : Call) (account : Account) : 0 ≤ call.weight account := by
  unfold Call.weight
  split <;> first | exact unit_nonneg _ | decide

theorem callWeight_nonneg (call : Option Call) (account : Account) :
    0 ≤ callWeight call account := by
  cases call with
  | none => exact le_refl 0
  | some call => exact call.weight_nonneg account

theorem Worker.weight_nonneg (worker : Worker) (account : Account) :
    0 ≤ worker.weight account := by
  have position : 0 ≤ worker.pc.weight account := by
    unfold WorkerPc.weight
    split <;> first | exact callWeight_nonneg _ _ | exact unit_nonneg _ | decide
  have slot : 0 ≤ worker.slotWeight account := by
    unfold Worker.slotWeight
    split <;> first | exact unit_nonneg _ | decide
  exact add_nonneg position slot

section Totals

variable {numThreads : ℕ} {Client : Type} [Fintype Client]

/-- The total of every account over all clients and workers. -/
def State.total (state : State numThreads Client) : Account → ℤ :=
  tally callWeight state.clients + tally Worker.weight state.workers

theorem total_nonneg (state : State numThreads Client) (account : Account) :
    0 ≤ state.total account := by
  unfold State.total
  rw [Pi.add_apply, tally_apply, tally_apply]
  exact add_nonneg (tally_nonneg (fun call => callWeight_nonneg call account) _)
    (tally_nonneg (fun worker => worker.weight_nonneg account) _)

theorem callWeight_le_total (state : State numThreads Client) (client : Client)
    (account : Account) : callWeight (state.clients client) account ≤ state.total account := by
  unfold State.total
  rw [Pi.add_apply, tally_apply, tally_apply]
  have below := weight_le_tally (fun call => callWeight_nonneg call account) state.clients client
  have rest := tally_nonneg (fun worker => Worker.weight_nonneg worker account) state.workers
  omega

theorem weight_le_total (state : State numThreads Client) (id : Fin numThreads)
    (account : Account) : (state.workers id).weight account ≤ state.total account := by
  unfold State.total
  rw [Pi.add_apply, tally_apply, tally_apply]
  have below :=
    weight_le_tally (fun worker => Worker.weight_nonneg worker account) state.workers id
  have rest := tally_nonneg (fun call => callWeight_nonneg call account) state.clients
  omega

@[simp]
theorem total_setWorker (state : State numThreads Client) (id : Fin numThreads)
    (worker : Worker) :
    (state.setWorker id worker).total =
      state.total - (state.workers id).weight + worker.weight := by
  unfold State.total State.setWorker
  simp only [tally_update]
  abel

theorem total_setClient [DecidableEq Client] (state : State numThreads Client) (client : Client)
    (call : Option Call) :
    ({ state with clients := Function.update state.clients client call } :
        State numThreads Client).total =
      state.total - callWeight (state.clients client) + callWeight call := by
  unfold State.total
  simp only [tally_update]
  abel

end Totals

/-! ## Positions of the dispatcher and the destructor -/

namespace DispatcherPc

variable {numThreads : ℕ}

/-- A token of `queued` is taken and its task is not popped; `exited` keeps its last token. -/
def heldQueued : DispatcherPc numThreads → ℤ
  | .checkQueued | .waitAvailable | .checkAvailable | .scan | .pop _ | .exited => 1
  | .waitQueued | .assign _ _ | .signalReady _ => 0

/-- A token of `availableWorkers` is taken and no worker is claimed. -/
def heldAvailable : DispatcherPc numThreads → ℤ
  | .checkAvailable | .scan => 1
  | _ => 0

/-- The local `thunk` holds a task. -/
def carrying : DispatcherPc numThreads → ℤ
  | .assign _ _ => 1
  | _ => 0

/-- The local `thunk` holds this task. -/
def carries (thunk : Ticket) : DispatcherPc numThreads → ℤ
  | .assign _ other => unit (other = thunk)
  | _ => 0

theorem carrying_nonneg (dispatcher : DispatcherPc numThreads) : 0 ≤ dispatcher.carrying := by
  unfold carrying
  split <;> decide

theorem carries_le (dispatcher : DispatcherPc numThreads) (thunk : Ticket) :
    0 ≤ dispatcher.carries thunk ∧ dispatcher.carries thunk ≤ dispatcher.carrying := by
  cases dispatcher with
  | assign _ other => exact ⟨unit_nonneg _, unit_le_one _⟩
  | _ => exact ⟨le_refl 0, le_refl 0⟩

/-- The dispatcher has read `done` as false since it took a token of `queued`. -/
def willPop : DispatcherPc numThreads → Bool
  | .waitAvailable | .checkAvailable | .scan | .pop _ => true
  | _ => false

/-- This worker is claimed and its slot is not written yet. -/
def claims (id : Fin numThreads) : DispatcherPc numThreads → ℤ
  | .pop other | .assign other _ => unit (other = id)
  | _ => 0

/-- The slot of this worker is written and its `ready.signal()` is due. -/
def signalsReady (id : Fin numThreads) : DispatcherPc numThreads → ℤ
  | .signalReady other => unit (other = id)
  | _ => 0

end DispatcherPc

namespace DestructorPc

variable {numThreads : ℕ}

/-- `done` is set. -/
def pastDone : DestructorPc numThreads → Bool
  | .idle | .wait _ _ | .setDone => false
  | _ => true

/-- The destructor's own `wait()` has returned. -/
def pastWait : DestructorPc numThreads → Bool
  | .idle | .wait _ _ => false
  | _ => true

/-- The destructor's extra token of `queued`. -/
def extraQueued : DestructorPc numThreads → ℤ
  | .idle | .wait _ _ | .setDone | .signalQueued => 0
  | _ => 1

/-- The destructor's extra token of `availableWorkers`. -/
def extraAvailable : DestructorPc numThreads → ℤ
  | .idle | .wait _ _ | .setDone | .signalQueued | .signalAvailable => 0
  | _ => 1

/-- `dt.join()` has returned. -/
def pastJoin : DestructorPc numThreads → Bool
  | .reap _ | .joinWorker _ | .returned => true
  | _ => false

/-- The destructor's extra token of this worker's `ready`. -/
def extraReady (id : Fin numThreads) : DestructorPc numThreads → ℤ
  | .reap index => unit (id < index)
  | .joinWorker other => unit (id ≤ other)
  | .returned => 1
  | _ => 0

/-- The number of workers joined. -/
def joined : DestructorPc numThreads → ℕ
  | .reap index => index
  | .joinWorker id => id
  | .returned => numThreads
  | _ => 0

/-- The destructor sleeps on `allDone`. -/
def sleeping : DestructorPc numThreads → ℤ
  | .wait .asleep _ => 1
  | _ => 0

theorem extraQueued_eq_zero {destructor : DestructorPc numThreads}
    (before : destructor.pastDone = false) : destructor.extraQueued = 0 := by
  cases destructor <;> simp [pastDone, extraQueued] at before ⊢

theorem extraAvailable_eq_zero {destructor : DestructorPc numThreads}
    (before : destructor.pastDone = false) : destructor.extraAvailable = 0 := by
  cases destructor <;> simp [pastDone, extraAvailable] at before ⊢

theorem extraReady_eq_zero {destructor : DestructorPc numThreads}
    (before : destructor.pastDone = false) (id : Fin numThreads) :
    destructor.extraReady id = 0 := by
  cases destructor <;> simp [pastDone, extraReady] at before ⊢

theorem extraAvailable_nonneg (destructor : DestructorPc numThreads) :
    0 ≤ destructor.extraAvailable := by
  unfold extraAvailable
  split <;> decide

theorem extraReady_nonneg (destructor : DestructorPc numThreads) (id : Fin numThreads) :
    0 ≤ destructor.extraReady id := by
  unfold extraReady
  split <;> first | exact unit_nonneg _ | decide

theorem sleeping_nonneg (destructor : DestructorPc numThreads) : 0 ≤ destructor.sleeping := by
  unfold sleeping
  split <;> decide

/-- Positions that the ledger does not tell apart, `wait()` aside. -/
structure Alike (left right : DestructorPc numThreads) : Prop where
  pastDone : left.pastDone = right.pastDone
  extraQueued : left.extraQueued = right.extraQueued
  extraAvailable : left.extraAvailable = right.extraAvailable

theorem alike_wake (destructor : DestructorPc numThreads) :
    destructor.wake.Alike destructor := by
  constructor <;> cases destructor <;> rfl

@[simp] theorem pastJoin_wake (destructor : DestructorPc numThreads) :
    destructor.wake.pastJoin = destructor.pastJoin := by
  cases destructor <;> rfl

@[simp] theorem sleeping_wake (destructor : DestructorPc numThreads) :
    destructor.wake.sleeping = 0 := by
  cases destructor <;> rfl

@[simp] theorem extraReady_wake (id : Fin numThreads) (destructor : DestructorPc numThreads) :
    destructor.wake.extraReady id = destructor.extraReady id := by
  cases destructor <;> rfl

@[simp] theorem joined_wake (destructor : DestructorPc numThreads) :
    destructor.wake.joined = destructor.joined := by
  cases destructor <;> rfl

end DestructorPc

/-! ## The ledger -/

section Ledger

variable {numThreads : ℕ}

/-- The equations between semaphore values, queue, counters, positions and account totals. -/
structure Ledger (pool : Pool) (dispatcher : DispatcherPc numThreads)
    (destructor : DestructorPc numThreads) (total : Account → ℤ) : Prop where
  queuedTokens :
    (pool.queued : ℤ) + dispatcher.heldQueued + total .signalling =
      pool.tasks.length + destructor.extraQueued
  availableTokens : dispatcher ≠ .exited →
    (pool.availableWorkers : ℤ) + dispatcher.heldAvailable + total .signallingAvailable =
      total .available + destructor.extraAvailable
  outstandingSum :
    (pool.outstanding : ℤ) =
      total .pushing + pool.tasks.length + dispatcher.carrying + total .assigned + total .posted
  retiredSum : pool.outstanding + pool.retired.length = pool.issued
  places : ∀ thunk,
    total (.pushingTicket thunk) + pool.tasks.count thunk + dispatcher.carries thunk +
        total (.holding thunk) + pool.completed.count thunk = unit (thunk < pool.issued)
  postedSum : ∀ thunk,
    (pool.completed.count thunk : ℤ) = pool.retired.count thunk + total (.postedTicket thunk)
  fifo : pool.popped ++ pool.tasks = pool.pushed
  willPop : dispatcher.willPop = true → pool.tasks ≠ []
  scanFinds : dispatcher = .scan → 0 < total .available
  doneSet : pool.done = destructor.pastDone
  dispatcherExited : dispatcher = .exited → pool.done = true
  dispatcherJoined : destructor.pastJoin = true → dispatcher = .exited
  sleepers : pool.outstanding = 0 → total .sleeping + destructor.sleeping = 0

namespace Ledger

variable {pool : Pool} {dispatcher : DispatcherPc numThreads}
  {destructor : DestructorPc numThreads} {total : Account → ℤ}

/-! ### Dispatcher -/

theorem takeQueued (ledger : Ledger pool .waitQueued destructor total) (token : 0 < pool.queued) :
    Ledger { pool with queued := pool.queued - 1 } .checkQueued destructor total :=
  { ledger with
    queuedTokens := by
      have tokens := ledger.queuedTokens
      simp only [DispatcherPc.heldQueued] at tokens ⊢
      omega
    availableTokens := fun _ => ledger.availableTokens (by simp)
    willPop := by simp [DispatcherPc.willPop]
    scanFinds := by simp
    dispatcherExited := by simp
    dispatcherJoined := fun joined => by simpa using ledger.dispatcherJoined joined }

theorem continueQueued (ledger : Ledger pool .checkQueued destructor total)
    (running : pool.done = false) (nonneg : 0 ≤ total .signalling) :
    Ledger pool .waitAvailable destructor total :=
  { ledger with
    availableTokens := fun _ => ledger.availableTokens (by simp)
    willPop := by
      -- the token was taken before the destructor's own `queued.signal()`
      have before : destructor.pastDone = false := ledger.doneSet.symm.trans running
      have tokens := ledger.queuedTokens
      rw [DestructorPc.extraQueued_eq_zero before] at tokens
      simp only [DispatcherPc.heldQueued] at tokens
      intro _ empty
      simp only [empty, List.length_nil] at tokens
      omega
    scanFinds := by simp
    dispatcherExited := by simp
    dispatcherJoined := fun joined => by simpa using ledger.dispatcherJoined joined }

/-- The dispatcher ends with a token of `queued` that it keeps. -/
theorem quit (ledger : Ledger pool dispatcher destructor total) (held : dispatcher.heldQueued = 1)
    (carrying : dispatcher.carrying = 0) (carries : ∀ thunk, dispatcher.carries thunk = 0)
    (done : pool.done = true) : Ledger pool .exited destructor total :=
  { ledger with
    queuedTokens := by
      have tokens := ledger.queuedTokens
      rw [held] at tokens
      exact tokens
    availableTokens := by simp
    outstandingSum := by
      have sum := ledger.outstandingSum
      rw [carrying] at sum
      exact sum
    places := fun thunk => by
      have place := ledger.places thunk
      rw [carries] at place
      exact place
    willPop := by simp [DispatcherPc.willPop]
    scanFinds := by simp
    dispatcherExited := fun _ => done
    dispatcherJoined := fun _ => rfl }

theorem takeAvailable (ledger : Ledger pool .waitAvailable destructor total)
    (token : 0 < pool.availableWorkers) :
    Ledger { pool with availableWorkers := pool.availableWorkers - 1 } .checkAvailable destructor
      total :=
  { ledger with
    availableTokens := fun _ => by
      have tokens := ledger.availableTokens (by simp)
      simp only [DispatcherPc.heldAvailable] at tokens ⊢
      omega
    scanFinds := by simp
    dispatcherExited := by simp
    dispatcherJoined := fun joined => by simpa using ledger.dispatcherJoined joined }

theorem continueAvailable (ledger : Ledger pool .checkAvailable destructor total)
    (running : pool.done = false) (nonneg : 0 ≤ total .signallingAvailable) :
    Ledger pool .scan destructor total :=
  { ledger with
    availableTokens := fun _ => ledger.availableTokens (by simp)
    scanFinds := fun _ => by
      have before : destructor.pastDone = false := ledger.doneSet.symm.trans running
      have tokens := ledger.availableTokens (by simp)
      rw [DestructorPc.extraAvailable_eq_zero before] at tokens
      simp only [DispatcherPc.heldAvailable] at tokens
      omega
    dispatcherExited := by simp
    dispatcherJoined := fun joined => by simpa using ledger.dispatcherJoined joined }

theorem claim (ledger : Ledger pool .scan destructor total) (id : Fin numThreads) :
    Ledger pool (.pop id) destructor (total - charge .available) :=
  { ledger with
    queuedTokens := by simpa [charge, DispatcherPc.heldQueued] using ledger.queuedTokens
    availableTokens := fun _ => by
      have tokens := ledger.availableTokens (by simp)
      simp only [DispatcherPc.heldAvailable] at tokens ⊢
      simp [charge]
      omega
    outstandingSum := by simpa [charge, DispatcherPc.carrying] using ledger.outstandingSum
    places := fun thunk => by simpa [charge, DispatcherPc.carries] using ledger.places thunk
    postedSum := fun thunk => by simpa [charge] using ledger.postedSum thunk
    scanFinds := by simp
    dispatcherExited := by simp
    dispatcherJoined := fun joined => by simpa using ledger.dispatcherJoined joined
    sleepers := fun zero => by simpa [charge] using ledger.sleepers zero }

theorem popTask {id : Fin numThreads} {thunk : Ticket} {rest : List Ticket}
    (ledger : Ledger pool (.pop id) destructor total) (front : pool.tasks = thunk :: rest) :
    Ledger { pool with tasks := rest, popped := pool.popped ++ [thunk] } (.assign id thunk)
      destructor total :=
  { ledger with
    queuedTokens := by
      have tokens := ledger.queuedTokens
      simp only [front, List.length_cons, DispatcherPc.heldQueued] at tokens ⊢
      omega
    availableTokens := fun _ => ledger.availableTokens (by simp)
    outstandingSum := by
      have sum := ledger.outstandingSum
      simp only [front, List.length_cons, DispatcherPc.carrying] at sum ⊢
      omega
    places := fun other => by
      have place := ledger.places other
      rw [front, count_cons] at place
      change _ = unit (other < pool.issued)
      simp only [DispatcherPc.carries] at place ⊢
      omega
    fifo := by simpa [front] using ledger.fifo
    willPop := by simp [DispatcherPc.willPop]
    scanFinds := by simp
    dispatcherExited := by simp
    dispatcherJoined := fun joined => by simpa using ledger.dispatcherJoined joined }

theorem assign {id : Fin numThreads} {thunk : Ticket}
    (ledger : Ledger pool (.assign id thunk) destructor total) :
    Ledger pool (.signalReady id) destructor (total + charge .assigned + charge (.holding thunk)) :=
  { ledger with
    queuedTokens := by simpa [charge, DispatcherPc.heldQueued] using ledger.queuedTokens
    availableTokens := fun _ => by
      simpa [charge, DispatcherPc.heldAvailable] using ledger.availableTokens (by simp)
    outstandingSum := by
      have sum := ledger.outstandingSum
      simp only [DispatcherPc.carrying] at sum ⊢
      simp [charge]
      omega
    places := fun other => by
      have place := ledger.places other
      simp only [DispatcherPc.carries] at place ⊢
      simp [charge]
      omega
    postedSum := fun other => by simpa [charge] using ledger.postedSum other
    willPop := by simp [DispatcherPc.willPop]
    scanFinds := by simp
    dispatcherExited := by simp
    dispatcherJoined := fun joined => by simpa using ledger.dispatcherJoined joined
    sleepers := fun zero => by simpa [charge] using ledger.sleepers zero }

theorem signalReady {id : Fin numThreads}
    (ledger : Ledger pool (.signalReady id) destructor total) :
    Ledger pool .waitQueued destructor total :=
  { ledger with
    availableTokens := fun _ => ledger.availableTokens (by simp)
    willPop := by simp [DispatcherPc.willPop]
    scanFinds := by simp
    dispatcherExited := by simp
    dispatcherJoined := fun joined => by simpa using ledger.dispatcherJoined joined }

/-! ### Workers -/

theorem complete (ledger : Ledger pool dispatcher destructor total) (thunk : Ticket) :
    Ledger { pool with completed := pool.completed ++ [thunk] } dispatcher destructor
      (total - charge .assigned - charge (.holding thunk) + charge .posted +
        charge (.postedTicket thunk)) :=
  { ledger with
    queuedTokens := by simpa [charge] using ledger.queuedTokens
    availableTokens := fun alive => by simpa [charge] using ledger.availableTokens alive
    outstandingSum := by
      have sum := ledger.outstandingSum
      simp [charge]
      omega
    places := fun other => by
      have place := ledger.places other
      change _ = unit (other < pool.issued)
      rw [count_concat]
      simp [charge]
      omega
    postedSum := fun other => by
      have sum := ledger.postedSum other
      rw [count_concat]
      simp [charge]
      omega
    scanFinds := fun scan => by simpa [charge] using ledger.scanFinds scan
    sleepers := fun zero => by simpa [charge] using ledger.sleepers zero }

theorem publish (ledger : Ledger pool dispatcher destructor total) :
    Ledger pool dispatcher destructor
      (total + charge .available + charge .signallingAvailable) :=
  { ledger with
    queuedTokens := by simpa [charge] using ledger.queuedTokens
    availableTokens := fun alive => by
      have tokens := ledger.availableTokens alive
      simp [charge]
      omega
    outstandingSum := by simpa [charge] using ledger.outstandingSum
    places := fun other => by simpa [charge] using ledger.places other
    postedSum := fun other => by simpa [charge] using ledger.postedSum other
    scanFinds := fun scan => by
      have positive := ledger.scanFinds scan
      simp [charge]
      omega
    sleepers := fun zero => by simpa [charge] using ledger.sleepers zero }

theorem signalAvailable (ledger : Ledger pool dispatcher destructor total) :
    Ledger { pool with availableWorkers := pool.availableWorkers + 1 } dispatcher destructor
      (total - charge .signallingAvailable) :=
  { ledger with
    queuedTokens := by simpa [charge] using ledger.queuedTokens
    availableTokens := fun alive => by
      have tokens := ledger.availableTokens alive
      simp [charge]
      omega
    outstandingSum := by simpa [charge] using ledger.outstandingSum
    places := fun other => by
      change _ = unit (other < pool.issued)
      simpa [charge] using ledger.places other
    postedSum := fun other => by simpa [charge] using ledger.postedSum other
    scanFinds := fun scan => by simpa [charge] using ledger.scanFinds scan
    sleepers := fun zero => by simpa [charge] using ledger.sleepers zero }

/-- The decrement; the destructor and the sleepers may be notified along with it. -/
theorem decrement {notified : DestructorPc numThreads}
    (ledger : Ledger pool dispatcher destructor total) (thunk : Ticket) (after : Account → ℤ)
    (positive : 0 < total .posted)
    (nonneg : ∀ account, 0 ≤ total account)
    (alike : notified.Alike destructor) (joined : notified.pastJoin = destructor.pastJoin)
    (rest : ∀ account, account ≠ .sleeping →
      after account = (total - charge .posted - charge (.postedTicket thunk)) account)
    (sleepers : pool.outstanding - 1 = 0 → after .sleeping + notified.sleeping = 0) :
    Ledger
      { pool with
        outstanding := pool.outstanding - 1
        retired := pool.retired ++ [thunk] } dispatcher notified after := by
  have sum := ledger.outstandingSum
  have pushing := nonneg .pushing
  have assigned := nonneg .assigned
  have carrying := dispatcher.carrying_nonneg
  refine ⟨?_, ?_, ?_, ?_, ?_, ?_, ledger.fifo, ledger.willPop, ?_, ?_,
    ledger.dispatcherExited, ?_, sleepers⟩
  · rw [alike.extraQueued, rest _ (by simp)]
    simpa [charge] using ledger.queuedTokens
  · intro alive
    rw [alike.extraAvailable, rest _ (by simp), rest _ (by simp)]
    simpa [charge] using ledger.availableTokens alive
  · rw [rest _ (by simp), rest _ (by simp), rest _ (by simp)]
    simp [charge]
    omega
  · have retired := ledger.retiredSum
    simp only [Pool.issued, List.length_append, List.length_singleton] at retired ⊢
    omega
  · intro other
    rw [rest _ (by simp), rest _ (by simp)]
    change _ = unit (other < pool.issued)
    simpa [charge] using ledger.places other
  · intro other
    have posted := ledger.postedSum other
    rw [count_concat, rest _ (by simp)]
    simp [charge]
    omega
  · intro scan
    rw [rest _ (by simp)]
    simpa [charge] using ledger.scanFinds scan
  · exact ledger.doneSet.trans alike.pastDone.symm
  · exact fun past => ledger.dispatcherJoined (joined ▸ past)

/-! ### Calls -/

theorem increment (ledger : Ledger pool dispatcher destructor total) (caller : Option Ticket) :
    Ledger
      { pool with
        outstanding := pool.outstanding + 1
        scheduledBy := pool.scheduledBy ++ [caller] } dispatcher destructor
      (total + charge .pushing + charge (.pushingTicket pool.issued)) :=
  { ledger with
    queuedTokens := by simpa [charge] using ledger.queuedTokens
    availableTokens := fun alive => by simpa [charge] using ledger.availableTokens alive
    outstandingSum := by
      have sum := ledger.outstandingSum
      simp [charge]
      omega
    retiredSum := by
      have retired := ledger.retiredSum
      simp only [Pool.issued, List.length_append, List.length_singleton] at retired ⊢
      omega
    places := fun other => by
      have place := ledger.places other
      have grown : Pool.issued
          { pool with
            outstanding := pool.outstanding + 1
            scheduledBy := pool.scheduledBy ++ [caller] } = pool.issued + 1 := by
        simp [Pool.issued]
      rw [grown, unit_lt_succ]
      simp [charge]
      omega
    postedSum := fun other => by simpa [charge] using ledger.postedSum other
    scanFinds := fun scan => by simpa [charge] using ledger.scanFinds scan
    sleepers := by simp }

theorem push (ledger : Ledger pool dispatcher destructor total) (thunk : Ticket) :
    Ledger
      { pool with tasks := pool.tasks ++ [thunk], pushed := pool.pushed ++ [thunk] }
      dispatcher destructor
      (total - charge .pushing - charge (.pushingTicket thunk) + charge .signalling) :=
  { ledger with
    queuedTokens := by
      have tokens := ledger.queuedTokens
      simp [charge]
      omega
    availableTokens := fun alive => by simpa [charge] using ledger.availableTokens alive
    outstandingSum := by
      have sum := ledger.outstandingSum
      simp [charge]
      omega
    places := fun other => by
      have place := ledger.places other
      change _ = unit (other < pool.issued)
      rw [count_concat]
      simp [charge]
      omega
    postedSum := fun other => by simpa [charge] using ledger.postedSum other
    fifo := by rw [← ledger.fifo, List.append_assoc]
    willPop := by simp
    scanFinds := fun scan => by simpa [charge] using ledger.scanFinds scan
    sleepers := fun zero => by simpa [charge] using ledger.sleepers zero }

theorem signal (ledger : Ledger pool dispatcher destructor total) :
    Ledger { pool with queued := pool.queued + 1 } dispatcher destructor
      (total - charge .signalling) :=
  { ledger with
    queuedTokens := by
      have tokens := ledger.queuedTokens
      simp [charge]
      omega
    availableTokens := fun alive => by simpa [charge] using ledger.availableTokens alive
    outstandingSum := by simpa [charge] using ledger.outstandingSum
    places := fun other => by
      change _ = unit (other < pool.issued)
      simpa [charge] using ledger.places other
    postedSum := fun other => by simpa [charge] using ledger.postedSum other
    scanFinds := fun scan => by simpa [charge] using ledger.scanFinds scan
    sleepers := fun zero => by simpa [charge] using ledger.sleepers zero }

/-- Sleepers on `allDone` come and go. -/
theorem sleep {after : Account → ℤ} (ledger : Ledger pool dispatcher destructor total)
    (rest : ∀ account, account ≠ .sleeping → after account = total account)
    (sleepers : pool.outstanding = 0 → after .sleeping + destructor.sleeping = 0) :
    Ledger pool dispatcher destructor after :=
  { ledger with
    queuedTokens := by simpa [rest] using ledger.queuedTokens
    availableTokens := fun alive => by simpa [rest] using ledger.availableTokens alive
    outstandingSum := by simpa [rest] using ledger.outstandingSum
    places := fun other => by simpa [rest] using ledger.places other
    postedSum := fun other => by simpa [rest] using ledger.postedSum other
    scanFinds := fun scan => by simpa [rest] using ledger.scanFinds scan
    sleepers := sleepers }

/-! ### Destructor -/

/-- Moves of the destructor that touch neither `done` nor a semaphore of the dispatcher. -/
theorem setDestructor {next : DestructorPc numThreads}
    (ledger : Ledger pool dispatcher destructor total) (alike : next.Alike destructor)
    (joined : next.pastJoin = true → dispatcher = .exited)
    (sleepers : pool.outstanding = 0 → next.sleeping = 0)
    (nonneg : 0 ≤ total .sleeping) :
    Ledger pool dispatcher next total :=
  { ledger with
    queuedTokens := by simpa [alike.extraQueued] using ledger.queuedTokens
    availableTokens := fun alive => by
      simpa [alike.extraAvailable] using ledger.availableTokens alive
    doneSet := ledger.doneSet.trans alike.pastDone.symm
    dispatcherJoined := joined
    sleepers := fun zero => by
      have before := ledger.sleepers zero
      have awake := destructor.sleeping_nonneg
      rw [sleepers zero]
      omega }

theorem setDone (ledger : Ledger pool dispatcher .setDone total) :
    Ledger { pool with done := true } dispatcher .signalQueued total :=
  { ledger with
    doneSet := rfl
    dispatcherExited := fun _ => rfl
    dispatcherJoined := by simp [DestructorPc.pastJoin] }

theorem destructorSignalQueued (ledger : Ledger pool dispatcher .signalQueued total) :
    Ledger { pool with queued := pool.queued + 1 } dispatcher .signalAvailable total :=
  { ledger with
    queuedTokens := by
      have tokens := ledger.queuedTokens
      simp only [DestructorPc.extraQueued] at tokens ⊢
      omega
    dispatcherJoined := by simp [DestructorPc.pastJoin] }

theorem destructorSignalAvailable (ledger : Ledger pool dispatcher .signalAvailable total) :
    Ledger { pool with availableWorkers := pool.availableWorkers + 1 } dispatcher .joinDispatcher
      total :=
  { ledger with
    availableTokens := fun alive => by
      have tokens := ledger.availableTokens alive
      simp only [DestructorPc.extraAvailable] at tokens ⊢
      omega
    dispatcherJoined := by simp [DestructorPc.pastJoin] }

end Ledger
end Ledger

end ThreadPool
end Syscore
