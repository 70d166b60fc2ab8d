import Syscore.Multiprocessing.Delivery

/-!
# What workers inherit

A worker is forked while the manager has the write ends of the pipes of all workers before it, and
keeps them through `exec`. Nothing else that it inherits stays open but the read end of its own
pipe.
-/

namespace Syscore
namespace Multiprocessing

variable {n : ℕ} {state after : Farm n}

/-! ## The account of the manager -/

/-- Whether the manager has an end open. -/
def ManagerPc.opens : ManagerPc n → Fin n → Side → Bool
  | .pipe i, j, .write => j < i
  | .fork i, j, .write | .closeRead i, j, .write | .register i, j, .write => j ≤ i
  | .fork i, j, .read | .closeRead i, j, .read => j = i
  | .close i, j, .write => i ≤ j
  | .resumeLast i, j, .write => i < j
  | .waitpid _, _, _ | .done, _, _ | .failed, _, _ | .terminated, _, _ => false
  | _, _, .write => true
  | _, _, .read => false

/-- The descriptor of an end in the slot of a worker. -/
def Worker.supplyfd (worker : Worker) : Side → ℕ
  | .read => worker.supplyfds.1
  | .write => worker.supplyfds.2

/-- Where the manager has an end. -/
def Farm.account (state : Farm n) (supplyEnd : SupplyEnd) : Option ℕ :=
  if inside : supplyEnd.worker < n then
    if state.pc.opens ⟨supplyEnd.worker, inside⟩ supplyEnd.side then
      some ((state.workers ⟨supplyEnd.worker, inside⟩).supplyfd supplyEnd.side)
    else
      none
  else
    none

theorem account_of_fin (state : Farm n) (j : Fin n) (side : Side) :
    state.account ⟨j, side⟩ =
      if state.pc.opens j side then some ((state.workers j).supplyfd side) else none := by
  rw [Farm.account, dif_pos j.isLt]

/-- Two accounts agree when they agree on the pipes of the workers. -/
theorem account_ext {account : SupplyEnd → Option ℕ}
    (inside : ∀ (j : Fin n) side, state.account ⟨j, side⟩ = account ⟨j, side⟩)
    (outside : ∀ supplyEnd, ¬ supplyEnd.worker < n → account supplyEnd = none) :
    state.account = account := by
  funext supplyEnd
  by_cases here : supplyEnd.worker < n
  · exact inside ⟨supplyEnd.worker, here⟩ supplyEnd.side
  · rw [outside supplyEnd here, Farm.account, dif_neg here]

theorem account_outside (state : Farm n) {supplyEnd : SupplyEnd}
    (outside : ¬ supplyEnd.worker < n) :
    state.account supplyEnd = none := by
  rw [Farm.account, dif_neg outside]

/-- The same ends are open, where they were. -/
theorem account_congr (opens : ∀ j side, after.pc.opens j side = state.pc.opens j side)
    (fds : ∀ j, (after.workers j).supplyfds = (state.workers j).supplyfds) :
    after.account = state.account := by
  refine account_ext (fun j side => ?_) fun supplyEnd => account_outside state
  rw [account_of_fin, account_of_fin, opens]
  have same : (after.workers j).supplyfd side = (state.workers j).supplyfd side := by
    cases side <;> simp only [Worker.supplyfd, fds]
  rw [same]

/-- One end less is open. -/
theorem account_close {i : Fin n} {side : Side}
    (opens : ∀ j side', after.pc.opens j side' =
      (state.pc.opens j side' && !decide (j = i ∧ side' = side)))
    (fds : after.workers = state.workers) :
    after.account = Function.update state.account ⟨i, side⟩ none := by
  refine account_ext (fun j side' => ?_) fun supplyEnd outside => ?_
  · rw [account_of_fin, opens, fds, Function.update_apply, account_of_fin]
    by_cases same : j = i ∧ side' = side
    · obtain ⟨rfl, rfl⟩ := same
      simp
    · have apart : (⟨j, side'⟩ : SupplyEnd) ≠ ⟨i, side⟩ := by
        intro equal
        obtain ⟨number, equal⟩ := SupplyEnd.mk.inj equal
        exact same ⟨Fin.ext number, equal⟩
      rw [if_neg apart]
      simp [same]
  · rw [Function.update_apply, account_outside state outside, ite_self]

/-- The manager is gone. -/
theorem account_none (closed : ∀ j side, state.pc.opens j side = false) :
    state.account = fun _ => none := by
  refine account_ext (fun j side => ?_) fun _ _ => rfl
  rw [account_of_fin, closed]
  rfl

/-- The pipe of a new worker. -/
theorem account_pipe {k : ℕ} (position : state.pc = .pipe k) (inside : k < n)
    (supplyfds : ℕ × ℕ) (fds : FarmTable) :
    Farm.account { state.setWorker ⟨k, inside⟩ { state.workers ⟨k, inside⟩ with supplyfds } with
        fds, pc := .fork ⟨k, inside⟩ } =
      Function.update (Function.update state.account ⟨k, .read⟩ (some supplyfds.1))
        ⟨k, .write⟩ (some supplyfds.2) := by
  refine account_ext (fun j side => ?_) fun supplyEnd outside => ?_
  · rw [account_of_fin, Function.update_apply, Function.update_apply, account_of_fin, position]
    by_cases here : j = ⟨k, inside⟩
    · subst here
      cases side <;> simp [ManagerPc.opens, Worker.supplyfd, Farm.setWorker]
    · have number : j.val ≠ k := fun equal => here (Fin.ext equal)
      have order : j ≤ ⟨k, inside⟩ ↔ j.val < k := by
        rw [Fin.le_def]
        exact ⟨fun below => by change j.val ≤ k at below; omega, le_of_lt⟩
      cases side <;>
        simp [ManagerPc.opens, Farm.setWorker, here, number, Function.update_of_ne, order]
  · have apart (side : Side) : supplyEnd ≠ ⟨k, side⟩ := by
      rintro rfl
      exact outside inside
    rw [Function.update_of_ne (apart .write), Function.update_of_ne (apart .read),
      account_outside state outside]

theorem opens_of_goes {pc : ManagerPc n} (goes : Goes state pc) (j : Fin n) (side : Side) :
    pc.opens j side = state.pc.opens j side := by
  have bound := j.isLt
  cases goes with
  | spawned position outside =>
      rw [position]
      cases side with
      | read => rfl
      | write => exact (decide_eq_true (by omega)).symm
  | ignoreChildren position =>
      rw [position]
      cases side with
      | read => rfl
      | write => exact decide_eq_true (Nat.zero_le j.val)
  | closed position outside =>
      rw [position]
      cases side with
      | read => rfl
      | write => exact (decide_eq_false (by omega)).symm
  | _ position =>
      rw [position]
      cases side <;> rfl

/-! ## Workers -/

/-- How far a worker has come with its descriptors. -/
def WorkerPc.stage : WorkerPc → ℕ
  | .unborn => 0
  | .dup2 => 1
  | .closeRead => 2
  | .closeWrite => 3
  | .exited => 5
  | _ => 4

/-- What a worker has open, by how far it has come. -/
structure Wired (j : ℕ) (supplyfds : ℕ × ℕ) (fds : FarmTable) (stage : ℕ) : Prop where
  /-- What it has of pipes: write ends of earlier workers, and its own. -/
  kept : ∀ fd supplyEnd cloexec, fds.get fd = some ⟨.pipeEnd supplyEnd, cloexec⟩ →
    supplyEnd.worker < j ∧ supplyEnd.side = .write ∨ supplyEnd = ⟨j, .read⟩ ∨
      supplyEnd = ⟨j, .write⟩ ∧ fd = supplyfds.2 ∧ stage ≤ 3
  /-- It inherits every earlier write end. -/
  inherits : 1 ≤ stage → stage ≤ 4 → ∀ i < j, ∃ fd, 2 < fd ∧
    fds.get fd = some ⟨.pipeEnd ⟨i, .write⟩, false⟩
  readEnd : 1 ≤ stage → stage ≤ 2 →
    2 < supplyfds.1 ∧ fds.get supplyfds.1 = some ⟨.pipeEnd ⟨j, .read⟩, false⟩
  writeEnd : 1 ≤ stage → stage ≤ 3 →
    2 < supplyfds.2 ∧ fds.get supplyfds.2 = some ⟨.pipeEnd ⟨j, .write⟩, false⟩
  stdin : 2 ≤ stage → stage ≤ 4 → fds.get 0 = some ⟨.pipeEnd ⟨j, .read⟩, false⟩
  gone : stage = 0 ∨ 5 ≤ stage → fds = ⟨[]⟩

namespace Wired

variable {j : ℕ} {supplyfds : ℕ × ℕ} {fds : FarmTable}

/-- A process that is not there has nothing. -/
theorem empty (j : ℕ) (supplyfds : ℕ × ℕ) {stage : ℕ} (outside : stage = 0 ∨ 5 ≤ stage) :
    Wired j supplyfds ⟨[]⟩ stage where
  kept _ _ _ opened := absurd opened (by rw [Descriptors.get_empty]; nofun)
  inherits early late := absurd outside (by omega)
  readEnd early late := absurd outside (by omega)
  writeEnd early late := absurd outside (by omega)
  stdin early late := absurd outside (by omega)
  gone _ := rfl

/-- `dup2` of the read end onto stdin. -/
theorem dup2 (wired : Wired j supplyfds fds 1) :
    Wired j supplyfds (fds.duplicate supplyfds.1 0) 2 := by
  obtain ⟨highRead, readEnd⟩ := wired.readEnd (by omega) (by omega)
  obtain ⟨highWrite, writeEnd⟩ := wired.writeEnd (by omega) (by omega)
  have moved := Descriptors.get_duplicate readEnd (show supplyfds.1 ≠ 0 by omega)
  constructor
  case kept =>
    intro fd supplyEnd cloexec opened
    rw [moved fd] at opened
    split at opened
    · cases opened
      exact .inr (.inl rfl)
    · rcases wired.kept fd supplyEnd cloexec opened with earlier | own | ⟨same, here, -⟩
      · exact .inl earlier
      · exact .inr (.inl own)
      · exact .inr (.inr ⟨same, here, by omega⟩)
  case inherits =>
    intro _ _ i below
    obtain ⟨fd, high, opened⟩ := wired.inherits (by omega) (by omega) i below
    exact ⟨fd, high, by rw [moved fd, if_neg (by omega), opened]⟩
  case readEnd => exact fun _ _ => ⟨highRead, by rw [moved, if_neg (by omega), readEnd]⟩
  case writeEnd => exact fun _ _ => ⟨highWrite, by rw [moved, if_neg (by omega), writeEnd]⟩
  case stdin => exact fun _ _ => by rw [moved, if_pos rfl]
  case gone => exact fun outside => absurd outside (by omega)

/-- The worker closes an end of its own pipe: first the read end, then the write end. -/
theorem close {stage : ℕ} (wired : Wired j supplyfds fds stage) (early : 2 ≤ stage)
    (late : stage ≤ 3) {closed : ℕ} {side : Side} (high : 2 < closed)
    (here : fds.get closed = some ⟨.pipeEnd ⟨j, side⟩, false⟩)
    (first : stage = 2 → supplyfds.2 ≠ closed) (second : stage = 3 → supplyfds.2 = closed) :
    Wired j supplyfds (fds.close closed) (stage + 1) := by
  have left {fd : ℕ} (apart : fd ≠ closed) : (fds.close closed).get fd = fds.get fd := by
    rw [Descriptors.get_close, if_neg apart]
  constructor
  case kept =>
    intro fd supplyEnd cloexec opened
    rw [Descriptors.get_close] at opened
    split at opened
    · cases opened
    · rename_i apart
      rcases wired.kept fd supplyEnd cloexec opened with earlier | own | ⟨same, written, -⟩
      · exact .inl earlier
      · exact .inr (.inl own)
      · have again : stage ≠ 3 := fun last => apart (written.trans (second last))
        exact .inr (.inr ⟨same, written, by omega⟩)
  case inherits =>
    intro _ _ i below
    obtain ⟨fd, above, opened⟩ := wired.inherits (by omega) (by omega) i below
    refine ⟨fd, above, (left ?_).trans opened⟩
    rintro rfl
    rw [here] at opened
    cases opened
    exact lt_irrefl _ below
  case readEnd => exact fun _ late => absurd late (by omega)
  case writeEnd =>
    intro _ late
    obtain ⟨above, opened⟩ := wired.writeEnd (by omega) (by omega)
    exact ⟨above, (left (first (by omega))).trans opened⟩
  case stdin => exact fun _ _ => (left (by omega)).trans (wired.stdin (by omega) (by omega))
  case gone => exact fun outside => absurd outside (by omega)

theorem closeRead (wired : Wired j supplyfds fds 2) :
    Wired j supplyfds (fds.close supplyfds.1) 3 := by
  obtain ⟨high, readEnd⟩ := wired.readEnd (by omega) (by omega)
  obtain ⟨-, writeEnd⟩ := wired.writeEnd (by omega) (by omega)
  refine wired.close le_rfl (by omega) high readEnd (fun _ same => ?_) nofun
  rw [same, readEnd] at writeEnd
  cases writeEnd

theorem closeWrite (wired : Wired j supplyfds fds 3) :
    Wired j supplyfds (fds.close supplyfds.2) 4 := by
  obtain ⟨high, writeEnd⟩ := wired.writeEnd (by omega) (by omega)
  exact wired.close (by omega) le_rfl high writeEnd nofun fun _ => rfl

/-- `exec` closes nothing: no end is flagged. -/
theorem exec (wired : Wired j supplyfds fds 4) : Wired j supplyfds fds.exec 4 where
  kept fd supplyEnd cloexec opened := by
    rw [Descriptors.get_exec] at opened
    exact wired.kept fd supplyEnd cloexec (Option.filter_eq_some_iff.mp opened).1
  inherits early late i below := by
    obtain ⟨fd, high, opened⟩ := wired.inherits early late i below
    exact ⟨fd, high, by rw [Descriptors.get_exec, opened]; rfl⟩
  readEnd _ late := absurd late (by omega)
  writeEnd _ late := absurd late (by omega)
  stdin early late := by
    rw [Descriptors.get_exec, wired.stdin early late]
    rfl
  gone outside := absurd outside (by omega)

end Wired

/-- A step of a worker keeps what is known of its descriptors. -/
theorem wired_step {j : ℕ} {worker worker' : Worker} {hasWriter : Bool}
    (wired : Wired j worker.supplyfds worker.fds worker.pc.stage)
    (taken : worker.step hasWriter = some worker') :
    Wired j worker'.supplyfds worker'.fds worker'.pc.stage := by
  cases workerMove_of_step taken with
  | dup2 position =>
      rw [position] at wired
      exact wired.dup2
  | closeRead position =>
      rw [position] at wired
      exact wired.closeRead
  | closeWrite position =>
      rw [position] at wired
      exact wired.closeWrite
  | exec position =>
      rw [position] at wired
      exact wired.exec
  | reads position =>
      rw [position] at wired
      dsimp only
      split
      · exact wired
      · exact wired
  | exits => exact .empty j _ (.inr le_rfl)
  | _ position =>
      rw [position] at wired
      exact wired

/-! ## The invariant -/

/-- Whether the manager is no more. -/
def ManagerPc.isOver : ManagerPc n → Bool
  | .done | .failed | .terminated => true
  | _ => false

/-- What holds of the descriptors between any two steps. -/
structure Farm.Tracked (state : Farm n) : Prop where
  standard : state.pc.isOver = false → state.fds.Standard
  tracks : state.fds.Tracks false state.account
  wired : ∀ j : Fin n,
    Wired j (state.workers j).supplyfds (state.workers j).fds (state.workers j).pc.stage

namespace Farm

variable {i : Fin n} {worker : Worker}

/-- Every end of the manager stays open where it was. -/
theorem Tracked.moveOn (tracked : state.Tracked) (fds : after.fds = state.fds)
    (opens : ∀ j side, after.pc.opens j side = state.pc.opens j side)
    (ended : after.pc.isOver = false → state.pc.isOver = false)
    (supplyfds : ∀ j, (after.workers j).supplyfds = (state.workers j).supplyfds)
    (wired : ∀ j : Fin n,
      Wired j (after.workers j).supplyfds (after.workers j).fds (after.workers j).pc.stage) :
    after.Tracked where
  standard alive := by
    rw [fds]
    exact tracked.standard (ended alive)
  tracks := by
    rw [fds, account_congr opens supplyfds]
    exact tracked.tracks
  wired := wired

/-- One worker changes, but not its slot's descriptors. -/
theorem Tracked.moveOne (tracked : state.Tracked) (fds : after.fds = state.fds)
    (opens : ∀ j side, after.pc.opens j side = state.pc.opens j side)
    (ended : after.pc.isOver = false → state.pc.isOver = false)
    (workers : after.workers = Function.update state.workers i worker)
    (supplyfds : worker.supplyfds = (state.workers i).supplyfds)
    (wired : Wired i worker.supplyfds worker.fds worker.pc.stage) : after.Tracked := by
  refine tracked.moveOn fds opens ended (fun j => ?_) fun j => ?_
  · rw [workers, Function.update_apply]
    split
    · rename_i here
      rw [supplyfds, here]
    · rfl
  · rw [workers, Function.update_apply]
    split
    · rename_i here
      rw [here]
      exact wired
    · exact tracked.wired j

/-- The manager closes an end. -/
theorem Tracked.close (tracked : state.Tracked) (side : Side)
    (alive : state.pc.isOver = false) (recorded : state.pc.opens i side = true)
    (fds : after.fds = state.fds.close ((state.workers i).supplyfd side))
    (workers : after.workers = state.workers)
    (opens : ∀ j side', after.pc.opens j side' =
      (state.pc.opens j side' && !decide (j = i ∧ side' = side))) : after.Tracked where
  standard _ := by
    have standard := tracked.standard alive
    have here : state.account ⟨i, side⟩ = some ((state.workers i).supplyfd side) := by
      rw [account_of_fin, if_pos recorded]
    rw [fds]
    exact standard.close (standard.high tracked.tracks here)
  tracks := by
    have here : state.account ⟨i, side⟩ = some ((state.workers i).supplyfd side) := by
      rw [account_of_fin, if_pos recorded]
    rw [fds, account_close opens workers]
    exact tracked.tracks.closeEnd here
  wired := by
    rw [workers]
    exact tracked.wired

/-- The manager ends. -/
theorem Tracked.stop (tracked : state.Tracked) (ended : after.pc.isOver = true)
    (fds : after.fds = ⟨[]⟩) (workers : after.workers = state.workers) : after.Tracked where
  standard alive := by
    rw [ended] at alive
    cases alive
  tracks := by
    rw [account_none, fds]
    · refine .of_other fun fd handle cloexec => ?_
      rw [Descriptors.get_empty]
      nofun
    · intro j side
      cases position : after.pc <;> rw [position] at ended <;> first | rfl | cases ended
  wired := by
    rw [workers]
    exact tracked.wired

/-- A new pipe. -/
theorem Tracked.pipe (tracked : state.Tracked) (sound : state.Sound) {k : ℕ}
    (position : state.pc = .pipe k) (inside : k < n) :
    Tracked { state.setWorker ⟨k, inside⟩ { state.workers ⟨k, inside⟩ with
        supplyfds := (state.fds.pipe false ⟨k, .read⟩ ⟨k, .write⟩).1 } with
      fds := (state.fds.pipe false ⟨k, .read⟩ ⟨k, .write⟩).2
      pc := .fork ⟨k, inside⟩ } where
  standard _ := (tracked.standard (by rw [position]; rfl)).pipe _ _ _
  tracks := by
    have closed (side : Side) : state.account ⟨k, side⟩ = none := by
      have here := account_of_fin state ⟨k, inside⟩ side
      rw [position] at here
      rw [here]
      cases side <;> simp [ManagerPc.opens]
    rw [account_pipe position inside]
    exact tracked.tracks.pipe (closed .read) (closed .write) (by simp)
  wired j := by
    have unborn := sound.unforked ⟨k, inside⟩ (by rw [position]; exact le_rfl)
    have wired := tracked.wired ⟨k, inside⟩
    rw [unborn] at wired
    simp only [setWorker, Function.update_apply]
    split
    · rename_i here
      subst here
      dsimp only
      rw [unborn, wired.gone (.inl rfl)]
      exact .empty _ _ (.inl rfl)
    · exact tracked.wired j

/-- A worker is forked with what the manager has. -/
theorem Tracked.wired_fork (tracked : state.Tracked) (position : state.pc = .fork i) :
    Wired i (state.workers i).supplyfds state.fds 1 := by
  have standard := tracked.standard (by rw [position]; rfl)
  have account (j : Fin n) (side : Side) (opens : (ManagerPc.fork i).opens j side = true) :
      state.account ⟨j, side⟩ = some ((state.workers j).supplyfd side) := by
    rw [account_of_fin, position, if_pos opens]
  constructor
  case kept =>
    rintro fd ⟨k, side⟩ cloexec opened
    have recorded := ((tracked.tracks fd ⟨k, side⟩ cloexec).mp opened).2
    by_cases inside : k < n
    · have here := account_of_fin state ⟨k, inside⟩ side
      rw [position] at here
      rw [here] at recorded
      split at recorded
      · rename_i opens
        cases side with
        | read =>
            obtain rfl : (⟨k, inside⟩ : Fin n) = i := by simpa [ManagerPc.opens] using opens
            exact .inr (.inl rfl)
        | write =>
            have below : (⟨k, inside⟩ : Fin n) ≤ i := by simpa [ManagerPc.opens] using opens
            rcases below.lt_or_eq with earlier | rfl
            · exact .inl ⟨earlier, rfl⟩
            · exact .inr (.inr ⟨rfl, (Option.some.inj recorded).symm, by omega⟩)
      · cases recorded
    · rw [account_outside state inside] at recorded
      cases recorded
  case inherits =>
    intro _ _ k below
    have opens : (ManagerPc.fork i).opens ⟨k, below.trans i.isLt⟩ .write = true :=
      decide_eq_true (le_of_lt below)
    have recorded := account ⟨k, below.trans i.isLt⟩ .write opens
    exact ⟨_, standard.high tracked.tracks recorded, tracked.tracks.get recorded⟩
  case readEnd =>
    intro _ _
    have recorded := account i .read (decide_eq_true rfl)
    exact ⟨standard.high tracked.tracks recorded, tracked.tracks.get recorded⟩
  case writeEnd =>
    intro _ _
    have recorded := account i .write (decide_eq_true le_rfl)
    exact ⟨standard.high tracked.tracks recorded, tracked.tracks.get recorded⟩
  case stdin => exact fun early => absurd early (by omega)
  case gone => exact fun outside => absurd outside (by omega)

theorem wired_resume {j : ℕ} (wired : Wired j worker.supplyfds worker.fds worker.pc.stage) :
    Wired j worker.resume.supplyfds worker.resume.fds worker.resume.pc.stage := by
  rw [Worker.resume]
  split
  · rename_i stopped
    rw [stopped] at wired
    exact wired
  · exact wired

theorem supplyfds_resume (worker : Worker) : worker.resume.supplyfds = worker.supplyfds := by
  rw [Worker.resume]
  split <;> rfl

theorem wired_mark {j : ℕ} (wired : Wired j worker.supplyfds worker.fds worker.pc.stage) :
    Wired j worker.mark.supplyfds worker.mark.fds worker.mark.pc.stage := by
  rw [Worker.mark]
  split <;> exact wired

/-- What is known of the descriptors is kept by the manager. -/
theorem Tracked.managerMove (tracked : state.Tracked) (sound : state.Sound)
    (move : ManagerMove state after) : after.Tracked := by
  cases move with
  | goes goes =>
      refine tracked.moveOn rfl (opens_of_goes goes) (fun _ => ?_) (fun _ => rfl) tracked.wired
      cases goes with
      | _ position => rw [position]; rfl
  | pipe position inside => exact tracked.pipe sound position inside
  | fork position =>
      refine tracked.moveOne rfl (fun j side => ?_) (fun _ => by rw [position]; rfl) rfl rfl
        (tracked.wired_fork position)
      rw [position]
      cases side <;> rfl
  | closeRead position =>
      refine tracked.close .read (by rw [position]; rfl) ?_ rfl rfl fun j side => ?_
      · rw [position]
        exact decide_eq_true rfl
      · rw [position]
        cases side <;> simp [ManagerPc.opens]
  | @register i position =>
      refine tracked.moveOne rfl (fun j side => ?_) (fun _ => by rw [position]; rfl) rfl rfl
        (tracked.wired i)
      rw [position]
      cases side with
      | read => rfl
      | write => exact decide_eq_decide.mpr (Nat.lt_succ_iff.trans Fin.le_def.symm)
  | ends position | rejects position | takes position | decrement position =>
      refine tracked.moveOn rfl (fun j side => ?_) (fun _ => by rw [position]; rfl) (fun _ => rfl)
        tracked.wired
      rw [position]
      cases side <;> rfl
  | throws position => exact tracked.stop rfl rfl rfl
  | noneAvailable position => exact tracked.stop rfl rfl rfl
  | noneFound position => exact tracked.stop rfl rfl rfl
  | @unavailable i position | @write i position =>
      refine tracked.moveOne rfl (fun j side => ?_) (fun _ => by rw [position]; rfl) rfl rfl
        (tracked.wired i)
      rw [position]
      cases side <;> rfl
  | @resume i position =>
      refine tracked.moveOne rfl (fun j side => ?_) (fun _ => by rw [position]; rfl) rfl
        (supplyfds_resume _) (wired_resume (tracked.wired i))
      rw [position]
      cases side <;> rfl
  | close position inside =>
      refine tracked.close .write (by rw [position]; rfl) ?_ rfl rfl fun j side => ?_
      · rw [position]
        exact decide_eq_true le_rfl
      · rw [position]
        cases side with
        | read => rfl
        | write =>
            simp only [ManagerPc.opens, ← decide_not, ← Bool.decide_and, decide_eq_decide,
              Fin.lt_def, Fin.ext_iff, and_true]
            omega
  | @resumeLast i position =>
      refine tracked.moveOne rfl (fun j side => ?_) (fun _ => by rw [position]; rfl) rfl
        (supplyfds_resume _) (wired_resume (tracked.wired i))
      rw [position]
      cases side <;> rfl
  | returns position => exact tracked.stop rfl rfl rfl

/-- Every step keeps what is known of the descriptors. -/
theorem Tracked.step (tracked : state.Tracked) (sound : state.Sound) {label : FarmLabel n}
    (taken : state.step label = some after) : after.Tracked := by
  cases farmMove_of_step taken with
  | manager move => exact tracked.managerMove sound move
  | sigchld =>
      refine tracked.moveOn rfl (fun j side => ?_) ?_ (fun j => ?_) fun j =>
        wired_mark (tracked.wired j)
      · simp only [markWorkersAsAvailable]
        cases state.pc <;> cases side <;> rfl
      · simp only [markWorkersAsAvailable]
        cases state.pc <;> exact id
      · simp only [markWorkersAsAvailable, Worker.mark]
        split <;> rfl
  | @worker i _ moved =>
      exact tracked.moveOne rfl (fun _ _ => rfl) id rfl (Situation.slot_of_step moved).2.2
        (wired_step (tracked.wired i) moved)
  | pipeFails | forkFails => exact tracked.stop rfl rfl rfl

theorem Tracked.of_initial {text : Text} (initial : state.Initial text) : state.Tracked := by
  have fresh := initial.fresh
  have account : state.account = fun _ => none := by
    refine account_ext (fun j side => ?_) fun _ _ => rfl
    rw [account_of_fin, fresh]
    exact if_neg (by cases side <;> simp [ManagerPc.opens])
  constructor
  case standard => exact fun _ => Descriptors.standard_of_files initial.standard initial.files
  case tracks =>
    rw [account]
    exact .of_other initial.files
  case wired =>
    intro j
    rw [fresh]
    exact .empty _ _ (.inl rfl)

theorem tracked_of_reachable {text : Text} {allowed : Discipline (Farm n) (FarmLabel n)}
    (reach : (farm n text).Reachable allowed state) : state.Tracked :=
  reach.invariant_with Tracked (fun _ => sound_of_reachable) (fun _ => .of_initial)
    fun _ _ _ sound _ tracked _ => tracked.step sound

end Farm

end Multiprocessing
end Syscore
