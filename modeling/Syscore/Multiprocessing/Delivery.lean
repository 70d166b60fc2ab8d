import Syscore.Multiprocessing.Situations

/-!
# Delivery

The counter and the marks agree at every statement, so a worker that is taken off the list is
stopped with an empty pipe: no number is written twice, and none is lost.
-/

namespace Syscore
namespace Multiprocessing

variable {n : ℕ} {state after : Farm n}

/-! ## What the manager relies on -/

/-- The workers marked available. -/
def Farm.marked (state : Farm n) : Finset (Fin n) :=
  Finset.univ.filter fun j => (state.workers j).available = true

theorem mem_marked {j : Fin n} : j ∈ state.marked ↔ (state.workers j).available = true := by
  rw [Farm.marked, Finset.mem_filter, and_iff_right (Finset.mem_univ j)]

/-- By how much the counter is ahead of the marks. -/
def ManagerPc.owing : ManagerPc n → ℕ
  | .decrement _ => 1
  | _ => 0

theorem owing_of_free {pc : ManagerPc n} (free : pc.holding = none) : pc.owing = 0 := by
  cases pc <;> first | rfl | cases free

/-- What the manager knows at a statement about the counter and the marks. -/
def Promise (pc : ManagerPc n) (numWorkersAvailable : ℕ) (marked : Finset (Fin n)) : Prop :=
  match pc with
  | .unblock | .assertAvailable => 0 < numWorkersAvailable
  | .scan i => ∃ j ∈ marked, i ≤ j.val
  | .assertFound i => ∃ j ∈ marked, i = j.val
  | .unavailable i => i ∈ marked
  | .unblockAll | .ignoreChildren | .close _ | .resumeLast _ | .waitpid _ | .done =>
      marked = Finset.univ
  | .failed => False
  | _ => True

/-- Marks and counts only grow while the manager stays at a statement. -/
theorem Promise.mono {pc : ManagerPc n} {count count' : ℕ} {marked marked' : Finset (Fin n)}
    (promise : Promise pc count marked) (more : count ≤ count') (wider : marked ⊆ marked') :
    Promise pc.afterHandler count' marked' := by
  cases pc with
  | unblock | assertAvailable => exact Nat.lt_of_lt_of_le promise more
  | scan i =>
      obtain ⟨j, inside, above⟩ := promise
      exact ⟨j, wider inside, above⟩
  | assertFound i =>
      obtain ⟨j, inside, here⟩ := promise
      exact ⟨j, wider inside, here⟩
  | unavailable i => exact wider promise
  | unblockAll | ignoreChildren | close _ | resumeLast _ | waitpid _ | done =>
      exact Finset.univ_subset_iff.mp ((Finset.univ_subset_iff.mpr promise).trans wider)
  | failed => exact promise
  | _ => trivial

/-- Workers whose slots have no pid yet. -/
def ManagerPc.unregistered : ManagerPc n → Fin n → Prop
  | .pipe i, j => i ≤ j
  | .fork i, j | .closeRead i, j | .register i, j => i ≤ j
  | _, _ => False

/-- Workers that are not forked yet. -/
def ManagerPc.unforked : ManagerPc n → Fin n → Prop
  | .pipe i, j => i ≤ j
  | .fork i, j => i ≤ j
  | .closeRead i, j | .register i, j => i < j
  | _, _ => False

/-- What holds between any two steps. -/
structure Farm.Sound (state : Farm n) : Prop where
  situations : ∀ j, Situation state.pc state.num j (received state.writes j) (state.workers j)
  counted : state.numWorkersAvailable = state.marked.card + state.pc.owing
  promise : Promise state.pc state.numWorkersAvailable state.marked
  unregistered : ∀ j, state.pc.unregistered j →
    (state.workers j).registered = false ∧ (state.workers j).available = false
  unforked : ∀ j, state.pc.unforked j → (state.workers j).pc = .unborn

namespace Farm

/-! ## Steps that leave the workers alone -/

/-- The counter agrees with the marks again where neither has changed. -/
theorem Sound.counted_of_marked (sound : state.Sound) (marked : after.marked = state.marked)
    (count : after.numWorkersAvailable = state.numWorkersAvailable)
    (owing : after.pc.owing = state.pc.owing) :
    after.numWorkersAvailable = after.marked.card + after.pc.owing := by
  rw [count, marked, owing]
  exact sound.counted

/-- The manager moves on; nothing changes for the workers. -/
theorem Sound.moveOn (sound : state.Sound) (workers : after.workers = state.workers)
    (writes : after.writes = state.writes)
    (count : after.numWorkersAvailable = state.numWorkersAvailable)
    (free : state.pc.holding = none) (free' : after.pc.holding = none)
    (closing : after.pc.closing = state.pc.closing)
    (dismissed : ∀ j, after.pc.dismissed j = state.pc.dismissed j)
    (promise : Promise after.pc state.numWorkersAvailable state.marked)
    (unregistered : ∀ j, after.pc.unregistered j → state.pc.unregistered j)
    (unforked : ∀ j, after.pc.unforked j → state.pc.unforked j) : after.Sound := by
  have marked : after.marked = state.marked := by rw [Farm.marked, workers, Farm.marked]
  constructor
  case situations =>
    intro j
    rw [workers, writes]
    exact (sound.situations j).goes (by rw [free]; nofun) (by rw [free']; nofun) closing
      (dismissed j) after.num
  case counted =>
    exact sound.counted_of_marked marked count
      ((owing_of_free free').trans (owing_of_free free).symm)
  case promise =>
    rw [count, marked]
    exact promise
  case unregistered =>
    intro j here
    rw [workers]
    exact sound.unregistered j (unregistered j here)
  case unforked =>
    intro j here
    rw [workers]
    exact sound.unforked j (unforked j here)

/-- With as many marks as workers, every worker is marked. -/
theorem Sound.all_marked (sound : state.Sound) (free : state.pc.owing = 0)
    (all : n ≤ state.numWorkersAvailable) : state.marked = Finset.univ := by
  refine Finset.eq_univ_of_card state.marked ?_
  have bound := Finset.card_le_univ state.marked
  have counted := sound.counted
  rw [Fintype.card_fin] at bound ⊢
  omega

/-- A positive counter means a marked worker. -/
theorem Sound.exists_marked (sound : state.Sound) (free : state.pc.owing = 0)
    (some : 0 < state.numWorkersAvailable) : ∃ j, j ∈ state.marked := by
  have counted := sound.counted
  exact Finset.card_pos.mp (by omega)

/-- The statements that only move on are quiet, but for the one that begins the shutdown. -/
theorem quiet_of_goes {pc : ManagerPc n} (goes : Goes state pc) (early : pc ≠ .close 0) :
    state.pc.holding = none ∧ pc.holding = none ∧ pc.closing = state.pc.closing ∧
      (∀ j, pc.dismissed j = state.pc.dismissed j) ∧ (∀ j, ¬ pc.unregistered j) ∧
      ∀ j, ¬ pc.unforked j := by
  cases goes with
  | ignoreChildren => exact absurd rfl early
  | closed position outside =>
      rw [position]
      refine ⟨rfl, rfl, rfl, fun j => ?_, fun j => id, fun j => id⟩
      have bound := j.isLt
      simp only [ManagerPc.dismissed]
      exact (decide_eq_true (by omega)).symm
  | _ position =>
      rw [position]
      exact ⟨rfl, rfl, rfl, fun j => rfl, fun j => id, fun j => id⟩

/-- What the manager relies on next. -/
theorem Sound.promise_of_goes (sound : state.Sound) {pc : ManagerPc n} (goes : Goes state pc) :
    Promise pc state.numWorkersAvailable state.marked := by
  have promise := sound.promise
  cases goes with
  | ready position some => exact Nat.pos_of_ne_zero some
  | unblock position =>
      rw [position] at promise
      exact promise
  | asserted position some =>
      obtain ⟨j, inside⟩ := sound.exists_marked (by rw [position]; rfl) some
      exact ⟨j, inside, Nat.zero_le j⟩
  | finds position inside available => exact ⟨_, mem_marked.mpr available, rfl⟩
  | skips position inside busy =>
      rw [position] at promise
      obtain ⟨j, marked, above⟩ := promise
      refine ⟨j, marked, Nat.succ_le_of_lt (lt_of_le_of_ne above ?_)⟩
      rintro rfl
      rw [mem_marked.mp marked] at busy
      cases busy
  | misses position outside =>
      rw [position] at promise
      obtain ⟨j, marked, above⟩ := promise
      exact absurd (above.trans_lt j.isLt) outside
  | found position inside =>
      rw [position] at promise
      obtain ⟨j, marked, rfl⟩ := promise
      exact marked
  | readyAll position all => exact sound.all_marked (by rw [position]; rfl) all
  | unblockAll position | ignoreChildren position | closed position _ | reaps position _ _ =>
      rw [position] at promise
      exact promise
  | _ => trivial

theorem Sound.goes (sound : state.Sound) {pc : ManagerPc n} {blocked : Bool}
    (goes : Goes state pc) : Sound { state with pc, blocked } := by
  have promise := sound.promise_of_goes goes
  by_cases early : pc = .close 0
  · subst early
    have position : state.pc = .ignoreChildren := by
      generalize pc' : ManagerPc.close 0 = pc at goes
      cases goes <;> first | assumption | cases pc'
    have all := sound.promise
    rw [position] at all
    constructor
    case situations =>
      intro j
      have situation := sound.situations j
      rw [position] at situation
      exact situation.shut (mem_marked.mp (all.symm ▸ Finset.mem_univ j))
    case counted =>
      have counted := sound.counted
      rw [position] at counted
      exact counted
    case promise => exact promise
    case unregistered => exact nofun
    case unforked => exact nofun
  · obtain ⟨free, free', closing, dismissed, registered, forked⟩ := quiet_of_goes goes early
    exact sound.moveOn rfl rfl rfl free free' closing dismissed promise
      (fun j here => absurd here (registered j)) fun j here => absurd here (forked j)

/-! ## Steps that change one worker -/

variable {i : Fin n} {worker : Worker}

theorem workers_setWorker (state : Farm n) (i : Fin n) (worker : Worker) (j : Fin n) :
    (state.setWorker i worker).workers j = if j = i then worker else state.workers j :=
  Function.update_apply state.workers i worker j

/-- Marks stay where they are. -/
theorem marked_update (workers : after.workers = Function.update state.workers i worker)
    (same : worker.available = (state.workers i).available) : after.marked = state.marked := by
  ext j
  rw [mem_marked, mem_marked, workers, Function.update_apply]
  split
  · rename_i here
    rw [same, here]
  · rfl

/-- A mark is taken away. -/
theorem marked_erase (workers : after.workers = Function.update state.workers i worker)
    (unmarked : worker.available = false) : after.marked = state.marked.erase i := by
  ext j
  rw [Finset.mem_erase, mem_marked, mem_marked, workers, Function.update_apply]
  split
  · rename_i here
    simp [unmarked, here]
  · rename_i apart
    rw [and_iff_right apart]

/-- One worker changes. -/
theorem Sound.moveOne (sound : state.Sound)
    (workers : after.workers = Function.update state.workers i worker)
    (own : Situation after.pc after.num i (received after.writes i) worker)
    (others : ∀ j, j ≠ i → Situation after.pc after.num j (received after.writes j)
      (state.workers j))
    (counted : after.numWorkersAvailable = after.marked.card + after.pc.owing)
    (promise : Promise after.pc after.numWorkersAvailable after.marked)
    (unregistered : ∀ j, after.pc.unregistered j → state.pc.unregistered j ∧
      (j = i → worker.registered = false ∧ worker.available = false))
    (unforked : ∀ j, after.pc.unforked j → state.pc.unforked j ∧
      (j = i → worker.pc = .unborn)) : after.Sound where
  situations j := by
    rw [workers, Function.update_apply]
    split
    · rename_i here
      rw [here]
      exact own
    · rename_i apart
      exact others j apart
  counted := counted
  promise := promise
  unregistered j here := by
    obtain ⟨before, changed⟩ := unregistered j here
    rw [workers, Function.update_apply]
    split
    · rename_i same
      exact changed same
    · exact sound.unregistered j before
  unforked j here := by
    obtain ⟨before, changed⟩ := unforked j here
    rw [workers, Function.update_apply]
    split
    · rename_i same
      exact changed same
    · exact sound.unforked j before

/-- While a worker is built the others go on. -/
theorem Sound.others (sound : state.Sound) (pc : ManagerPc n) (free : state.pc.holding = none)
    (free' : pc.holding = none) (closing : pc.closing = state.pc.closing)
    (dismissed : ∀ j, pc.dismissed j = state.pc.dismissed j) (j : Fin n) :
    Situation pc state.num j (received state.writes j) (state.workers j) :=
  (sound.situations j).goes (by rw [free]; nofun) (by rw [free']; nofun) closing (dismissed j) _

/-- `pipe` gives a worker its descriptors. -/
theorem Sound.pipe (sound : state.Sound) {k : ℕ} (position : state.pc = .pipe k) (inside : k < n)
    (supplyfds : ℕ × ℕ) (fds : FarmTable) :
    Sound { state.setWorker ⟨k, inside⟩ { state.workers ⟨k, inside⟩ with supplyfds } with
      fds, pc := .fork ⟨k, inside⟩ } := by
  have others := sound.others (.fork ⟨k, inside⟩) (by rw [position]; rfl) rfl
    (by rw [position]; rfl) fun j => by rw [position]; rfl
  have marked : Farm.marked { state.setWorker ⟨k, inside⟩
        { state.workers ⟨k, inside⟩ with supplyfds } with fds, pc := .fork ⟨k, inside⟩ } =
      state.marked :=
    marked_update rfl rfl
  refine sound.moveOne rfl ((others _).congr rfl rfl rfl rfl rfl) (fun j _ => others j) ?_ trivial
    (fun j here => ⟨?_, ?_⟩) (fun j here => ⟨?_, ?_⟩)
  · exact sound.counted_of_marked marked rfl (by rw [position]; rfl)
  · rw [position]
    exact here
  · rintro rfl
    exact sound.unregistered _ (by rw [position]; exact le_rfl)
  · rw [position]
    exact here
  · rintro rfl
    exact sound.unforked _ (by rw [position]; exact le_rfl)

/-- `fork` starts a worker. -/
theorem Sound.fork (sound : state.Sound) (position : state.pc = .fork i) (fds : FarmTable) :
    Sound { state.setWorker i { state.workers i with fds, pc := .dup2 } with
      pc := .closeRead i } := by
  have others := sound.others (.closeRead i) (by rw [position]; rfl) rfl
    (by rw [position]; rfl) fun j => by rw [position]; rfl
  have marked : Farm.marked { state.setWorker i { state.workers i with fds, pc := .dup2 } with
      pc := .closeRead i } = state.marked :=
    marked_update rfl rfl
  have unborn := sound.unforked i (by rw [position]; exact le_rfl)
  refine sound.moveOne rfl ((others i).born unborn fds) (fun j _ => others j) ?_ trivial
    (fun j here => ⟨?_, ?_⟩) (fun j here => ⟨?_, ?_⟩)
  · exact sound.counted_of_marked marked rfl (by rw [position]; rfl)
  · rw [position]
    exact here
  · rintro rfl
    exact sound.unregistered _ (by rw [position]; exact le_rfl)
  · rw [position]
    exact le_of_lt here
  · rintro rfl
    exact absurd here (lt_irrefl _)

/-- The slot gets the pid. -/
theorem Sound.register (sound : state.Sound) (position : state.pc = .register i) :
    Sound { state.setWorker i { state.workers i with registered := true, available := false } with
      pc := .pipe (i + 1) } := by
  have others := sound.others (.pipe (i + 1)) (by rw [position]; rfl) rfl
    (by rw [position]; rfl) fun j => by rw [position]; rfl
  have unmarked := (sound.unregistered i (by rw [position]; exact le_rfl)).2
  have marked : Farm.marked { state.setWorker i
        { state.workers i with registered := true, available := false } with
      pc := .pipe (i + 1) } = state.marked :=
    marked_update rfl unmarked.symm
  refine sound.moveOne rfl ((others i).congr rfl unmarked.symm rfl rfl rfl) (fun j _ => others j) ?_
    trivial (fun j here => ⟨?_, ?_⟩) (fun j here => ⟨?_, ?_⟩)
  · exact sound.counted_of_marked marked rfl (by rw [position]; rfl)
  · rw [position]
    exact le_of_lt (Nat.lt_of_succ_le here)
  · rintro rfl
    exact absurd here (Nat.not_succ_le_self _)
  · rw [position]
    exact Nat.lt_of_succ_le here
  · rintro rfl
    exact absurd here (Nat.not_succ_le_self _)

/-- A worker is taken off the list. -/
theorem Sound.take (sound : state.Sound) (position : state.pc = .unavailable i) :
    Sound { state.setWorker i { state.workers i with available := false } with
      pc := .decrement i } := by
  have promise := sound.promise
  rw [position] at promise
  have own := sound.situations i
  rw [position] at own
  have marked : Farm.marked { state.setWorker i { state.workers i with available := false } with
      pc := .decrement i } = state.marked.erase i :=
    marked_erase rfl rfl
  refine sound.moveOne rfl (own.take (mem_marked.mp promise)) (fun j apart => ?_) ?_ trivial nofun
    nofun
  · refine (sound.situations j).goes (by rw [position]; nofun) ?_ (by rw [position]; rfl)
      (by rw [position]; rfl) _
    exact fun held => apart (Option.some.inj held).symm
  · rw [marked]
    have counted := sound.counted
    rw [position] at counted
    rw [Finset.card_erase_of_mem promise]
    have positive := Finset.card_pos.mpr ⟨i, promise⟩
    simp only [ManagerPc.owing, Farm.setWorker] at counted ⊢
    omega

/-- The counter follows. -/
theorem Sound.decrement (sound : state.Sound) (position : state.pc = .decrement i) :
    Sound { state with numWorkersAvailable := state.numWorkersAvailable - 1, pc := .write i } where
  situations j := by
    have situation := sound.situations j
    rw [position] at situation
    by_cases here : j = i
    · subst here
      exact situation.counted
    · have apart : some i ≠ some j := fun same => here (Option.some.inj same).symm
      exact situation.goes apart (by exact apart) (by rfl) (by rfl) _
  counted := by
    have counted := sound.counted
    rw [position] at counted
    exact congrArg (· - 1) counted
  promise := trivial
  unregistered := nofun
  unforked := nofun

theorem received_append (writes : List (Fin n × ℤ)) (i : Fin n) (num : ℤ) (j : Fin n) :
    received (writes ++ [(i, num)]) j =
      received writes j ++ if i = j then [num] else [] := by
  rw [received, List.filterMap_append, received]
  split
  · rename_i here
    simp [here]
  · rename_i apart
    simp [apart]

/-- The number is written. -/
theorem Sound.write (sound : state.Sound) (position : state.pc = .write i) :
    Sound { state.setWorker i { state.workers i with
        pipe := (state.workers i).pipe ++ payload state.num } with
      writes := state.writes ++ [(i, state.num)]
      pc := .resume i } := by
  have own := sound.situations i
  rw [position] at own
  have marked : Farm.marked { state.setWorker i { state.workers i with
        pipe := (state.workers i).pipe ++ payload state.num } with
      writes := state.writes ++ [(i, state.num)]
      pc := .resume i } = state.marked :=
    marked_update rfl rfl
  refine sound.moveOne rfl ?_ (fun j apart => ?_) ?_ trivial nofun nofun
  · dsimp only
    rw [received_append, if_pos rfl]
    exact own.write
  · dsimp only
    rw [received_append, if_neg (Ne.symm apart), List.append_nil]
    have situation := sound.situations j
    rw [position] at situation
    have other : some i ≠ some j := fun same => apart (Option.some.inj same).symm
    exact situation.goes other (by exact other) (by rfl) (by rfl) _
  · exact sound.counted_of_marked marked rfl (by rw [position]; rfl)

theorem available_resume (worker : Worker) : worker.resume.available = worker.available := by
  rw [Worker.resume]
  split <;> rfl

/-- A worker is continued. -/
theorem Sound.resume (sound : state.Sound) (position : state.pc = .resume i) :
    Sound { state.sigcont i with pc := .getline } := by
  have own := sound.situations i
  rw [position] at own
  have marked : Farm.marked { state.sigcont i with pc := .getline } = state.marked :=
    marked_update rfl (available_resume _)
  refine sound.moveOne rfl own.resume (fun j apart => ?_) ?_ trivial nofun nofun
  · refine (sound.situations j).goes ?_ ?_ (by rw [position]; rfl) (by rw [position]; rfl) _
    · rw [position]
      exact fun held => apart (Option.some.inj held).symm
    · exact nofun
  · exact sound.counted_of_marked marked rfl (by rw [position]; rfl)

/-- A worker is continued for the last time. -/
theorem Sound.resumeLast (sound : state.Sound) (position : state.pc = .resumeLast i) :
    Sound { state.sigcont i with pc := .close (i + 1) } := by
  have own := sound.situations i
  rw [position] at own
  have promise := sound.promise
  rw [position] at promise
  have marked : Farm.marked { state.sigcont i with pc := .close (i + 1) } = state.marked :=
    marked_update rfl (available_resume _)
  have available := mem_marked.mp (show i ∈ state.marked from promise.symm ▸ Finset.mem_univ i)
  refine sound.moveOne rfl (own.dismiss available) (fun j apart => ?_) ?_ ?_ nofun nofun
  · refine (sound.situations j).goes (by rw [position]; nofun) ?_ (by rw [position]; rfl) ?_ _
    · exact nofun
    · have other : j.val ≠ i.val := Fin.val_ne_of_ne apart
      rw [position]
      simp only [ManagerPc.dismissed, decide_eq_decide, Fin.lt_def]
      omega
  · exact sound.counted_of_marked marked rfl (by rw [position]; rfl)
  · rw [marked]
    exact promise

/-- What is known is kept by the manager. -/
theorem Sound.managerMove (sound : state.Sound) (move : ManagerMove state after) :
    after.Sound := by
  have promise := sound.promise
  cases move with
  | goes goes => exact sound.goes goes
  | pipe position inside => exact sound.pipe position inside _ _
  | fork position => exact sound.fork position _
  | closeRead position =>
      refine sound.moveOn rfl rfl rfl (by rw [position]; rfl) rfl (by rw [position]; rfl)
        (fun j => by rw [position]; rfl) trivial (fun j here => ?_) fun j here => ?_
      · rw [position]
        exact here
      · rw [position]
        exact here
  | register position => exact sound.register position
  | ends position | throws position | rejects position | takes position =>
      exact sound.moveOn rfl rfl rfl (by rw [position]; rfl) rfl (by rw [position]; rfl)
        (fun j => by rw [position]; rfl) trivial nofun nofun
  | noneAvailable position none =>
      rw [position] at promise
      exact absurd promise none
  | noneFound position outside =>
      rw [position] at promise
      obtain ⟨j, -, rfl⟩ := promise
      exact absurd j.isLt outside
  | unavailable position => exact sound.take position
  | decrement position => exact sound.decrement position
  | write position => exact sound.write position
  | resume position => exact sound.resume position
  | close position inside =>
      rw [position] at promise
      exact sound.moveOn rfl rfl rfl (by rw [position]; rfl) rfl (by rw [position]; rfl)
        (fun j => by rw [position]; rfl) promise nofun nofun
  | resumeLast position => exact sound.resumeLast position
  | returns position outside =>
      rw [position] at promise
      exact sound.moveOn rfl rfl rfl (by rw [position]; rfl) rfl (by rw [position]; rfl)
        (fun j => by rw [position]; rfl) promise nofun nofun

/-! ## The handler and the workers -/

/-- The handler adds to the marks what it counts. -/
theorem marked_handler (state : Farm n) :
    state.markWorkersAsAvailable.marked = state.marked ∪ state.newlyAvailable ∧
      Disjoint state.marked state.newlyAvailable := by
  constructor
  · ext j
    rw [Finset.mem_union, mem_marked, mem_marked, newlyAvailable, Finset.mem_filter,
      and_iff_right (Finset.mem_univ j)]
    simp only [markWorkersAsAvailable, Worker.mark]
    obtain ⟨registered, available, _, _, _, report, _, _⟩ := state.workers j
    cases report <;> cases registered <;> cases available <;> simp
  · rw [Finset.disjoint_left]
    intro j here new
    rw [mem_marked] at here
    rw [newlyAvailable, Finset.mem_filter, here] at new
    cases new.2.2.2

theorem Sound.handler (sound : state.Sound) : state.markWorkersAsAvailable.Sound := by
  obtain ⟨marked, apart⟩ := marked_handler state
  constructor
  case situations => exact fun j => (sound.situations j).mark.afterHandler
  case counted =>
    have owing : state.pc.afterHandler.owing = state.pc.owing := by cases state.pc <;> rfl
    have counted := sound.counted
    rw [marked, Finset.card_union_of_disjoint apart]
    simp only [markWorkersAsAvailable, owing]
    omega
  case promise =>
    refine sound.promise.mono (Nat.le_add_right _ _) ?_
    rw [marked]
    exact Finset.subset_union_left
  case unregistered =>
    intro j here
    have before : state.pc.unregistered j := by
      cases position : state.pc <;> simp only [markWorkersAsAvailable, position] at here <;>
        exact here
    obtain ⟨registered, unavailable⟩ := sound.unregistered j before
    simp only [markWorkersAsAvailable, Worker.mark]
    split
    · exact ⟨registered, by simp [registered, unavailable]⟩
    · exact ⟨registered, unavailable⟩
  case unforked =>
    intro j here
    have before : state.pc.unforked j := by
      cases position : state.pc <;> simp only [markWorkersAsAvailable, position] at here <;>
        exact here
    simp only [markWorkersAsAvailable, Worker.mark]
    split
    · exact sound.unforked j before
    · exact sound.unforked j before

/-- A step of a worker. -/
theorem Sound.workerStep (sound : state.Sound)
    (taken : (state.workers i).step (state.hasWriter i) = some worker) (pending : Bool) :
    Sound { state.setWorker i worker with pending } := by
  have marked : Farm.marked { state.setWorker i worker with pending } = state.marked :=
    marked_update rfl (Situation.slot_of_step taken).2.1
  refine sound.moveOne rfl ((sound.situations i).step taken) (fun j _ => sound.situations j) ?_ ?_
    (fun j here => ⟨here, ?_⟩) fun j here => ⟨here, ?_⟩
  · exact sound.counted_of_marked marked rfl rfl
  · rw [marked]
    exact sound.promise
  · rintro rfl
    obtain ⟨registered, available, -⟩ := Situation.slot_of_step taken
    rw [registered, available]
    exact sound.unregistered j here
  · rintro rfl
    rw [Worker.step, sound.unforked j here] at taken
    cases taken

/-- Every step keeps what is known. -/
theorem Sound.step (sound : state.Sound) {label : FarmLabel n}
    (taken : state.step label = some after) : after.Sound := by
  cases farmMove_of_step taken with
  | manager move => exact sound.managerMove move
  | sigchld => exact sound.handler
  | worker moved => exact sound.workerStep moved _
  | pipeFails position | forkFails position =>
      exact sound.moveOn rfl rfl rfl (by rw [position]; rfl) rfl (by rw [position]; rfl)
        (fun j => by rw [position]; rfl) trivial nofun nofun

theorem Sound.of_initial {text : Text} (initial : state.Initial text) : state.Sound := by
  rw [initial.fresh]
  constructor
  case situations => exact fun j => .busy rfl nofun rfl rfl rfl rfl rfl
  case counted => simp [marked, ManagerPc.owing]
  case promise => trivial
  case unregistered => exact fun _ _ => ⟨rfl, rfl⟩
  case unforked => exact fun _ _ => rfl

/-- The invariant holds in every reachable state. -/
theorem sound_of_reachable {text : Text} {allowed : Discipline (Farm n) (FarmLabel n)}
    (reach : (farm n text).Reachable allowed state) : state.Sound :=
  reach.invariant Sound (fun _ => .of_initial) fun _ _ _ sound _ => sound.step

end Farm

end Multiprocessing
end Syscore
