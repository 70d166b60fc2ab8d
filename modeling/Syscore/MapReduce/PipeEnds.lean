import Syscore.MapReduce.Plumbing

/-!
# Pipe ends between concurrent calls

Whatever the threads and the children do in whatever order, once every child runs its program or is
gone no child has an end of another call's pipe.
-/

namespace Syscore
namespace MapReduce

variable {state after : Subprocesses} {number : ℕ} {call next : Call} {parent : Table}

/-! ## Closing what is open -/

/-- Closing an end leaves the standard descriptors open. -/
theorem standard_closeIfOpen {account : PipeEnd → Option ℕ} (standard : parent.Standard)
    (tracks : parent.Tracks true account) (pipeEnd : PipeEnd) :
    (closeIfOpen parent (account pipeEnd)).Standard := by
  cases recorded : account pipeEnd with
  | none => exact standard
  | some closed => exact standard.close (standard.high tracks recorded)

theorem high_of_pipe2 (standard : parent.Standard) (number : ℕ) (pipe : PipeName) :
    2 < (pipe2 parent number pipe).1.1 ∧ 2 < (pipe2 parent number pipe).1.2 :=
  standard.pipe_high true _ _

theorem tracks_closeIfOpen {account : PipeEnd → Option ℕ} (tracks : parent.Tracks true account)
    (pipeEnd : PipeEnd) :
    (closeIfOpen parent (account pipeEnd)).Tracks true (Function.update account pipeEnd none) := by
  cases recorded : account pipeEnd with
  | none =>
      rw [← recorded, Function.update_eq_self, recorded]
      exact tracks
  | some closed => exact tracks.closeEnd recorded

/-! ## What is known of a call -/

/-- How far a call has come. -/
@[simp]
def CallPc.stage : CallPc → ℕ
  | .supply => 0
  | .ingest => 1
  | .fork => 2
  | .closeSupply => 3
  | .closeIngest => 4
  | .returned => 5

structure Call.Sound (number : ℕ) (call : Call) : Prop where
  numbers : call.Numbers
  noSupply : call.pc.stage = 0 → call.supplyPipe = none
  noIngest : call.pc.stage ≤ 1 → call.ingestPipe = none
  alone : call.pc.stage ≤ 2 → call.child = none
  supplyfd : call.supplyfd ≠ none → call.pc = .returned
  ingestfd : call.ingestfd ≠ none → call.pc = .returned
  child : ∀ child, call.child = some child → Wired number call child.fds child.pc

/-- What a child may have depends on the numbers of the call alone. -/
theorem Wired.congr {fds : Table} {pc : ChildPc} (sound : Wired number call fds pc)
    (supply : next.supplyPipe = call.supplyPipe) (ingest : next.ingestPipe = call.ingestPipe) :
    Wired number next fds pc where
  kept := sound.kept
  flagged := sound.flagged
  gone := sound.gone
  supply early := supply ▸ sound.supply early
  ingest early := ingest ▸ sound.ingest early
  stdin early late := supply ▸ sound.stdin early late
  stdout early late := ingest ▸ sound.stdout early late

theorem Call.Numbers.congr (numbers : call.Numbers) (supply : next.supplyPipe = call.supplyPipe)
    (ingest : next.ingestPipe = call.ingestPipe) : next.Numbers where
  supply := supply ▸ numbers.supply
  ingest := ingest ▸ numbers.ingest
  apart := supply ▸ ingest ▸ numbers.apart

/-- A step that makes no pipe and no child. -/
theorem Call.Sound.advance (ok : call.Sound number) (supply : next.supplyPipe = call.supplyPipe)
    (ingest : next.ingestPipe = call.ingestPipe) (child : next.child = call.child)
    (later : call.pc.stage ≤ next.pc.stage)
    (supplyfd : next.supplyfd ≠ none → next.pc = .returned)
    (ingestfd : next.ingestfd ≠ none → next.pc = .returned) : next.Sound number where
  numbers := ok.numbers.congr supply ingest
  noSupply early := by rw [supply]; exact ok.noSupply (by omega)
  noIngest early := by rw [ingest]; exact ok.noIngest (by omega)
  alone early := by rw [child]; exact ok.alone (by omega)
  supplyfd := supplyfd
  ingestfd := ingestfd
  child own here := (ok.child own (child.symm.trans here)).congr supply ingest

/-- A step before the result is there. -/
theorem Call.Sound.fds_none (ok : call.Sound number) (early : call.pc.stage ≤ 4) :
    call.supplyfd = none ∧ call.ingestfd = none := by
  constructor
  · by_contra some
    rw [ok.supplyfd some] at early
    exact absurd early (by decide)
  · by_contra some
    rw [ok.ingestfd some] at early
    exact absurd early (by decide)

/-- A call before its first step. -/
theorem Call.Sound.begin (number : ℕ) (supplyChildInput supplyChildOutput : Bool) :
    Call.Sound number { supplyChildInput, supplyChildOutput } where
  numbers := ⟨nofun, nofun, nofun⟩
  noSupply _ := rfl
  noIngest _ := rfl
  alone _ := rfl
  supplyfd some := absurd rfl some
  ingestfd some := absurd rfl some
  child := nofun

/-- A child is forked with what the parent has. -/
theorem wired_fork (tracks : parent.Tracks true state.account)
    (found : state.calls[number]? = some call) (position : call.pc = .fork) :
    Wired number call parent .dupSupply := by
  constructor
  case kept =>
    intro fd pipeEnd opened
    cases ((tracks fd pipeEnd false).mp opened).1
  case flagged => exact fun late => absurd late (by decide)
  case gone => nofun
  case supply =>
    intro _ readFd writeFd pipe
    refine tracks.get ?_
    rw [account_of_call found, Call.account, position, pipe]
    rfl
  case ingest =>
    intro _ readFd writeFd pipe
    refine tracks.get ?_
    rw [account_of_call found, Call.account, position, pipe]
    rfl
  case stdin => exact fun early => absurd early (by decide)
  case stdout => exact fun early => absurd early (by decide)

/-! ## The invariant -/

/-- What holds between any two steps. -/
structure Subprocesses.Sound (state : Subprocesses) : Prop where
  standard : state.terminated = false → state.parent.Standard
  tracks : state.terminated = false → state.parent.Tracks true state.account
  ended : state.terminated = true → state.parent = ⟨[]⟩
  calls : ∀ number (call : Call), state.calls[number]? = some call → call.Sound number

namespace Subprocesses

/-- One call moves; the table of the parent follows it. -/
theorem Sound.set (sound : state.Sound) (found : state.calls[number]? = some call)
    (standard : state.terminated = false → parent.Standard) {account : PipeEnd → Option ℕ}
    (tracks : state.terminated = false → parent.Tracks true account)
    (own : ∀ pipe side, next.account pipe side = account ⟨number, pipe, side⟩)
    (others : ∀ pipeEnd, pipeEnd.call ≠ number → account pipeEnd = state.account pipeEnd)
    (ended : state.terminated = true → parent = ⟨[]⟩) (ok : next.Sound number) :
    Sound { state with parent, calls := state.calls.set number next } where
  standard := standard
  tracks alive := by
    have same : Subprocesses.account { state with parent, calls := state.calls.set number next } =
        account := by
      funext pipeEnd
      rw [account_set found]
      split
      · rename_i here
        rw [own, ← here]
      · rename_i apart
        exact (others pipeEnd apart).symm
    rw [same]
    exact tracks alive
  ended := ended
  calls other call' found' := by
    dsimp only at found'
    rw [List.getElem?_set] at found'
    split at found'
    · rename_i here
      split at found'
      · obtain rfl := Option.some.inj found'
        exact here ▸ ok
      · cases found'
    · exact sound.calls other call' found'

/-- One call moves and the table of the parent stays. -/
theorem Sound.setCall (sound : state.Sound) (found : state.calls[number]? = some call)
    (own : ∀ pipe side, next.account pipe side = call.account pipe side)
    (ok : next.Sound number) :
    Sound { state with calls := state.calls.set number next } :=
  sound.set found sound.standard sound.tracks
    (fun pipe side => (own pipe side).trans (account_of_call found pipe side).symm)
    (fun _ _ => rfl) sound.ended ok

/-! ## Steps -/

theorem update_of_call {pipe : PipeName} {side : Side} {value : Option ℕ}
    (account : PipeEnd → Option ℕ) {pipeEnd : PipeEnd} (apart : pipeEnd.call ≠ number) :
    Function.update account ⟨number, pipe, side⟩ value pipeEnd = account pipeEnd :=
  Function.update_of_ne (fun same => apart (congrArg PipeEnd.call same)) value account

/-- Every step of a call keeps what is known of it. -/
theorem Sound.call_of_step (sound : state.Sound) (alive : state.terminated = false)
    (found : state.calls[number]? = some call)
    (taken : call.step number state.parent = some (next, parent)) : next.Sound number := by
  have ok := sound.calls number call found
  have tracks := sound.tracks alive
  have standard := sound.standard alive
  rw [Call.step] at taken
  split at taken
  case h_1 position =>
    have stage : call.pc.stage = 0 := by rw [position]; rfl
    have noIngest := ok.noIngest (by omega)
    have alone := ok.alone (by omega)
    have noFds := ok.fds_none (by omega)
    split at taken
    · obtain ⟨rfl, rfl⟩ := Prod.mk.inj (Option.some.inj taken)
      constructor
      case numbers =>
        refine ⟨fun readFd writeFd pipe => ?_, fun _ _ pipe => ?_, fun _ _ _ _ _ pipe => ?_⟩
        · have high := high_of_pipe2 standard number .supply
          rw [Option.some.inj pipe] at high
          exact high
        · exact absurd (pipe.symm.trans noIngest) (Option.some_ne_none _)
        · exact absurd (pipe.symm.trans noIngest) (Option.some_ne_none _)
      case noSupply => exact fun early => absurd early (by simp)
      case noIngest => exact fun _ => noIngest
      case alone => exact fun _ => alone
      case supplyfd => exact fun some => absurd noFds.1 some
      case ingestfd => exact fun some => absurd noFds.2 some
      case child => exact fun _ here => absurd (here.symm.trans alone) (Option.some_ne_none _)
    · obtain ⟨rfl, rfl⟩ := Prod.mk.inj (Option.some.inj taken)
      exact ok.advance rfl rfl rfl (by simp [position]) (absurd noFds.1) (absurd noFds.2)
  case h_2 position =>
    have stage : call.pc.stage = 1 := by rw [position]; rfl
    have alone := ok.alone (by omega)
    have noFds := ok.fds_none (by omega)
    split at taken
    · obtain ⟨rfl, rfl⟩ := Prod.mk.inj (Option.some.inj taken)
      have recorded (side : Side) : state.account ⟨number, .supply, side⟩ =
          call.account .supply side := account_of_call found .supply side
      constructor
      case numbers =>
        refine ⟨ok.numbers.supply, fun readFd writeFd pipe => ?_,
          fun readFd writeFd readFd' writeFd' pipe pipe' => ?_⟩
        · have high := high_of_pipe2 standard number .ingest
          rw [Option.some.inj pipe] at high
          exact high
        · have written : (pipe2 state.parent number .ingest).1.2 = writeFd' :=
            congrArg Prod.snd (Option.some.inj pipe')
          have opened : call.supplyPipe = some (readFd, writeFd) := pipe
          rw [← written]
          have readEnd : state.account ⟨number, .supply, .read⟩ = some readFd := by
            rw [recorded, Call.account, position, opened]
            rfl
          have writeEnd : state.account ⟨number, .supply, .write⟩ = some writeFd := by
            rw [recorded, Call.account, position, opened]
            rfl
          exact ⟨(Descriptors.pipe_ne (tracks.get readEnd) true _ _).2,
            (Descriptors.pipe_ne (tracks.get writeEnd) true _ _).2⟩
      case noSupply => exact fun early => absurd early (by simp)
      case noIngest => exact fun early => absurd early (by simp)
      case alone => exact fun _ => alone
      case supplyfd => exact fun some => absurd noFds.1 some
      case ingestfd => exact fun some => absurd noFds.2 some
      case child => exact fun _ here => absurd (here.symm.trans alone) (Option.some_ne_none _)
    · obtain ⟨rfl, rfl⟩ := Prod.mk.inj (Option.some.inj taken)
      exact ok.advance rfl rfl rfl (by simp [position]) (absurd noFds.1) (absurd noFds.2)
  case h_3 position =>
    have stage : call.pc.stage = 2 := by rw [position]; rfl
    have noFds := ok.fds_none (by omega)
    obtain ⟨rfl, rfl⟩ := Prod.mk.inj (Option.some.inj taken)
    constructor
    case numbers => exact ok.numbers.congr rfl rfl
    case noSupply => exact fun early => absurd early (by simp)
    case noIngest => exact fun early => absurd early (by simp)
    case alone => exact fun early => absurd early (by simp)
    case supplyfd => exact fun some => absurd noFds.1 some
    case ingestfd => exact fun some => absurd noFds.2 some
    case child =>
      intro child here
      obtain rfl := Option.some.inj here
      exact (wired_fork tracks found position).congr rfl rfl
  case h_4 position =>
    have stage : call.pc.stage = 3 := by rw [position]; rfl
    have noFds := ok.fds_none (by omega)
    obtain ⟨rfl, rfl⟩ := Prod.mk.inj (Option.some.inj taken)
    exact ok.advance rfl rfl rfl (by simp [position]) (absurd noFds.1) (absurd noFds.2)
  case h_5 position =>
    obtain ⟨rfl, rfl⟩ := Prod.mk.inj (Option.some.inj taken)
    exact ok.advance rfl rfl rfl (by simp [position]) (fun _ => rfl) (fun _ => rfl)
  case h_6 => cases taken

/-- The table of the parent follows the steps of a call. -/
theorem Sound.table_of_step (sound : state.Sound) (alive : state.terminated = false)
    (found : state.calls[number]? = some call)
    (taken : call.step number state.parent = some (next, parent)) :
    parent.Standard ∧ ∃ account, parent.Tracks true account ∧
      (∀ pipe side, next.account pipe side = account ⟨number, pipe, side⟩) ∧
      ∀ pipeEnd, pipeEnd.call ≠ number → account pipeEnd = state.account pipeEnd := by
  have ok := sound.calls number call found
  have tracks := sound.tracks alive
  have standard := sound.standard alive
  have own := account_of_call found
  rw [Call.step] at taken
  split at taken
  case h_1 position =>
    have noSupply := ok.noSupply (by simp [position])
    have noIngest := ok.noIngest (by simp [position])
    split at taken
    · obtain ⟨rfl, rfl⟩ := Prod.mk.inj (Option.some.inj taken)
      refine ⟨standard.pipe _ _ _, _, tracks.pipe ?_ ?_ (by simp), fun pipe side => ?_,
        fun pipeEnd apart => (update_of_call _ apart).trans (update_of_call _ apart)⟩
      · simp [own, Call.account, position, noSupply]
      · simp [own, Call.account, position, noSupply]
      · cases pipe <;> cases side <;> simp [Call.account, own, position, pipe2]
    · obtain ⟨rfl, rfl⟩ := Prod.mk.inj (Option.some.inj taken)
      refine ⟨standard, state.account, tracks, fun pipe side => ?_, fun _ _ => rfl⟩
      cases pipe <;> cases side <;> simp [Call.account, own, position]
  case h_2 position =>
    have noIngest := ok.noIngest (by simp [position])
    split at taken
    · obtain ⟨rfl, rfl⟩ := Prod.mk.inj (Option.some.inj taken)
      refine ⟨standard.pipe _ _ _, _, tracks.pipe ?_ ?_ (by simp), fun pipe side => ?_,
        fun pipeEnd apart => (update_of_call _ apart).trans (update_of_call _ apart)⟩
      · simp [own, Call.account, position, noIngest]
      · simp [own, Call.account, position, noIngest]
      · cases pipe <;> cases side <;> simp [Call.account, own, position, pipe2]
    · obtain ⟨rfl, rfl⟩ := Prod.mk.inj (Option.some.inj taken)
      refine ⟨standard, state.account, tracks, fun pipe side => ?_, fun _ _ => rfl⟩
      cases pipe <;> cases side <;> simp [Call.account, own, position]
  case h_3 position =>
    obtain ⟨rfl, rfl⟩ := Prod.mk.inj (Option.some.inj taken)
    refine ⟨standard, state.account, tracks, fun pipe side => ?_, fun _ _ => rfl⟩
    cases pipe <;> cases side <;> simp [Call.account, own, position]
  case h_4 position =>
    obtain ⟨rfl, rfl⟩ := Prod.mk.inj (Option.some.inj taken)
    have here : call.supplyPipe.map Prod.fst = state.account ⟨number, .supply, .read⟩ := by
      simp [own, Call.account, position]
    rw [here]
    refine ⟨standard_closeIfOpen standard tracks _, _, tracks_closeIfOpen tracks _,
      fun pipe side => ?_, fun pipeEnd apart => update_of_call _ apart⟩
    cases pipe <;> cases side <;> simp [Call.account, own, position]
  case h_5 position =>
    obtain ⟨rfl, rfl⟩ := Prod.mk.inj (Option.some.inj taken)
    have here : call.ingestPipe.map Prod.snd = state.account ⟨number, .ingest, .write⟩ := by
      simp [own, Call.account, position]
    rw [here]
    refine ⟨standard_closeIfOpen standard tracks _, _, tracks_closeIfOpen tracks _,
      fun pipe side => ?_, fun pipeEnd apart => update_of_call _ apart⟩
    cases pipe <;> cases side <;> simp [Call.account, own, position]
  case h_6 => cases taken

/-- The caller closes an end. -/
theorem Sound.callerCloses (sound : state.Sound) (alive : state.terminated = false)
    (found : state.calls[number]? = some call) {fd : ℕ} (pipe : PipeName) (side : Side)
    (recorded : call.account pipe side = some fd) (ok : next.Sound number)
    (own : ∀ pipe' side', next.account pipe' side' =
      if pipe' = pipe ∧ side' = side then none else call.account pipe' side') :
    Sound { state with
      parent := state.parent.close fd
      calls := state.calls.set number next } := by
  have tracks := sound.tracks alive
  have here : state.account ⟨number, pipe, side⟩ = some fd :=
    (account_of_call found pipe side).trans recorded
  have standard :=
    standard_closeIfOpen (sound.standard alive) tracks ⟨number, pipe, side⟩
  rw [here] at standard
  refine sound.set found (fun _ => standard) (fun _ => tracks.closeEnd here) (fun pipe' side' => ?_)
    (fun pipeEnd apart => update_of_call _ apart) (fun dead => ?_) ok
  · rw [own, Function.update_apply, account_of_call found]
    simp only [PipeEnd.mk.injEq, true_and]
  · rw [alive] at dead
    cases dead

/-- A call that begins has no ends yet. -/
theorem account_append (state : Subprocesses) (supplyChildInput supplyChildOutput : Bool) :
    Subprocesses.account { state with
      calls := state.calls ++ [{ supplyChildInput, supplyChildOutput }] } = state.account := by
  funext pipeEnd
  obtain ⟨number, pipe, side⟩ := pipeEnd
  rw [Subprocesses.account, Subprocesses.account, List.getElem?_append]
  split
  · rfl
  · rename_i outside
    rw [List.getElem?_eq_none_iff.mpr (Nat.le_of_not_lt outside), List.getElem?_singleton]
    split
    · cases pipe <;> cases side <;> rfl
    · rfl

theorem Sound.begins (sound : state.Sound) (supplyChildInput supplyChildOutput : Bool) :
    Sound { state with
      calls := state.calls ++ [{ supplyChildInput, supplyChildOutput }] } where
  standard := sound.standard
  tracks alive := by
    rw [account_append]
    exact sound.tracks alive
  ended := sound.ended
  calls number call found := by
    dsimp only at found
    rw [List.getElem?_append] at found
    split at found
    · exact sound.calls number call found
    · rw [List.getElem?_singleton] at found
      split at found
      · obtain rfl := Option.some.inj found
        exact .begin number supplyChildInput supplyChildOutput
      · cases found

/-- What is known is kept by the parent. -/
theorem Sound.parentStep (sound : state.Sound) (alive : state.terminated = false)
    {label : SubprocessLabel} (taken : state.parentStep label = some after) : after.Sound := by
  have tracks := sound.tracks alive
  have standard := sound.standard alive
  cases label with
  | opens name cloexec =>
      obtain rfl := Option.some.inj taken
      exact ⟨fun _ => standard.openFile _, fun _ => tracks.openOther name cloexec,
        fun dead => absurd (alive.symm.trans dead) nofun, sound.calls⟩
  | closes fd =>
      rw [Subprocesses.parentStep] at taken
      split at taken
      · rename_i allowed
        obtain rfl := Option.some.inj taken
        refine ⟨fun _ => standard.close allowed.1,
          fun _ => tracks.closeOther fun pipeEnd here => ?_,
          fun dead => absurd (alive.symm.trans dead) nofun, sound.calls⟩
        have other := allowed.2
        rw [isOther, tracks.get here] at other
        cases other
      · cases taken
  | begins supplyChildInput supplyChildOutput =>
      obtain rfl := Option.some.inj taken
      exact sound.begins supplyChildInput supplyChildOutput
  | call number =>
      obtain ⟨call, found, taken⟩ := Option.bind_eq_some_iff.mp taken
      obtain ⟨⟨next, parent⟩, moved, taken⟩ := Option.bind_eq_some_iff.mp taken
      obtain rfl := Option.some.inj taken
      obtain ⟨standard', account, tracks', own, others⟩ := sound.table_of_step alive found moved
      exact sound.set found (fun _ => standard') (fun _ => tracks') own others
        (fun dead => absurd (alive.symm.trans dead) nofun) (sound.call_of_step alive found moved)
  | closesSupply number =>
      obtain ⟨call, found, taken⟩ := Option.bind_eq_some_iff.mp taken
      obtain ⟨fd, open', taken⟩ := Option.bind_eq_some_iff.mp taken
      obtain rfl := Option.some.inj taken
      have ok := sound.calls number call found
      have position := ok.supplyfd (by rw [open']; nofun)
      refine sound.callerCloses alive found .supply .write ?_
        (ok.advance rfl rfl rfl le_rfl (absurd rfl) ok.ingestfd) fun pipe side => ?_
      · rw [Call.account, position, open']
      · cases pipe <;> cases side <;> simp [Call.account, position]
  | closesIngest number =>
      obtain ⟨call, found, taken⟩ := Option.bind_eq_some_iff.mp taken
      obtain ⟨fd, open', taken⟩ := Option.bind_eq_some_iff.mp taken
      obtain rfl := Option.some.inj taken
      have ok := sound.calls number call found
      have position := ok.ingestfd (by rw [open']; nofun)
      refine sound.callerCloses alive found .ingest .read ?_
        (ok.advance rfl rfl rfl le_rfl ok.supplyfd (absurd rfl)) fun pipe side => ?_
      · rw [Call.account, position, open']
      · cases pipe <;> cases side <;> simp [Call.account, position]
  | terminates =>
      obtain rfl := Option.some.inj taken
      exact ⟨nofun, nofun, fun _ => rfl, sound.calls⟩
  | child number => cases taken
  | exits number => cases taken

/-- A child moves. -/
theorem Sound.setChild (sound : state.Sound) (found : state.calls[number]? = some call)
    {child child' : Child} (forked : call.child = some child)
    (wired : Wired number call child'.fds child'.pc) :
    Sound { state with calls := state.calls.set number { call with child := some child' } } := by
  have ok := sound.calls number call found
  have late : ¬ call.pc.stage ≤ 2 := fun early => by
    rw [ok.alone early] at forked
    cases forked
  refine sound.setCall found (fun _ _ => rfl) { ok with
    numbers := ok.numbers.congr rfl rfl
    alone := fun early => absurd early late
    child := fun own here => ?_ }
  obtain rfl := Option.some.inj here
  exact wired.congr rfl rfl

/-- Every step keeps what is known. -/
theorem Sound.step (sound : state.Sound) {label : SubprocessLabel}
    (taken : state.step label = some after) : after.Sound := by
  rw [Subprocesses.step.eq_def] at taken
  split at taken
  · obtain ⟨call, found, taken⟩ := Option.bind_eq_some_iff.mp taken
    obtain ⟨child, forked, taken⟩ := Option.bind_eq_some_iff.mp taken
    obtain ⟨child', moved, taken⟩ := Option.bind_eq_some_iff.mp taken
    obtain rfl := Option.some.inj taken
    have ok := sound.calls _ call found
    exact sound.setChild found forked ((ok.child child forked).step ok.numbers moved)
  · obtain ⟨call, found, taken⟩ := Option.bind_eq_some_iff.mp taken
    obtain ⟨child, forked, taken⟩ := Option.bind_eq_some_iff.mp taken
    obtain ⟨child', moved, taken⟩ := Option.bind_eq_some_iff.mp taken
    obtain rfl := Option.some.inj taken
    rw [Child.exit] at moved
    split at moved
    · cases moved
    · obtain rfl := Option.some.inj moved
      exact sound.setChild found forked (.exited _ call)
  · split at taken
    · cases taken
    · rename_i alive
      exact sound.parentStep (Bool.not_eq_true _ ▸ alive) taken

theorem Sound.of_initial (initial : state.Initial) : state.Sound where
  standard _ := Descriptors.standard_of_files initial.standard initial.files
  tracks _ := by
    have empty : state.account = fun _ => none := by
      funext pipeEnd
      rw [Subprocesses.account, initial.calls]
      rfl
    rw [empty]
    exact .of_other initial.files
  ended dead := by
    rw [initial.terminated] at dead
    cases dead
  calls number call found := by
    rw [initial.calls] at found
    cases found

/-- The invariant holds in every reachable state. -/
theorem sound_of_reachable {allowed : Discipline Subprocesses SubprocessLabel}
    (reach : subprocesses.Reachable allowed state) : state.Sound :=
  reach.invariant Sound (fun _ => .of_initial) fun _ _ _ sound _ => sound.step

/-! ## Who has which end -/

/-- The parent has an end only where its call recorded it. -/
theorem Sound.parent_holds (sound : state.Sound) {fd : ℕ} {pipeEnd : PipeEnd} {cloexec : Bool}
    (opened : state.parent.get fd = some ⟨.pipeEnd pipeEnd, cloexec⟩) :
    state.account pipeEnd = some fd := by
  cases alive : state.terminated with
  | false => exact ((sound.tracks alive fd pipeEnd cloexec).mp opened).2
  | true =>
      rw [sound.ended alive, Descriptors.get_empty] at opened
      cases opened

/-- A child that runs its program has the ends of its own call alone, as stdin and stdout. -/
theorem Sound.child_holds (sound : state.Sound) (settled : state.Settled)
    {holder fd : ℕ} {pipeEnd : PipeEnd} (holds : state.Holds (.child holder) fd pipeEnd) :
    fd = 0 ∧ pipeEnd = ⟨holder, .supply, .read⟩ ∨
      fd = 1 ∧ pipeEnd = ⟨holder, .ingest, .write⟩ := by
  obtain ⟨table, cloexec, here, opened⟩ := holds
  obtain ⟨child, forked, rfl⟩ := Option.map_eq_some_iff.mp here
  obtain ⟨call, found, forked⟩ := Option.bind_eq_some_iff.mp forked
  have wired := (sound.calls holder call found).child child forked
  have late : 7 ≤ child.pc.stage := by
    obtain position | position := settled call (List.mem_of_getElem? found) child forked
    · rw [position]
      decide
    · rw [position]
      decide
  cases cloexec with
  | true => exact absurd opened (wired.flagged late fd pipeEnd)
  | false => exact wired.kept fd pipeEnd opened

/-- Who has an end of a pipe of a call: the parent, where the call recorded it, or the child. -/
theorem Sound.holds (sound : state.Sound) (settled : state.Settled)
    (found : state.calls[number]? = some call) {process : Process} {fd : ℕ} {pipe : PipeName}
    {side : Side} (holds : state.Holds process fd ⟨number, pipe, side⟩) :
    process = .parent ∧ call.account pipe side = some fd ∨
      process = .child number ∧ (fd = 0 ∧ pipe = .supply ∧ side = .read ∨
        fd = 1 ∧ pipe = .ingest ∧ side = .write) := by
  cases process with
  | parent =>
      obtain ⟨table, cloexec, here, opened⟩ := holds
      obtain rfl := Option.some.inj here
      exact .inl ⟨rfl, (account_of_call found pipe side).symm.trans (sound.parent_holds opened)⟩
  | child holder =>
      obtain ⟨here, same⟩ | ⟨here, same⟩ := sound.child_holds settled holds
      · obtain ⟨rfl, rfl, rfl⟩ := PipeEnd.mk.inj same
        exact .inr ⟨rfl, .inl ⟨here, rfl, rfl⟩⟩
      · obtain ⟨rfl, rfl, rfl⟩ := PipeEnd.mk.inj same
        exact .inr ⟨rfl, .inr ⟨here, rfl, rfl⟩⟩

/-- A child that is gone has nothing. -/
theorem Sound.not_holds_of_exited (sound : state.Sound) (found : state.calls[number]? = some call)
    (gone : ∀ child, call.child = some child → child.pc = .exited) {fd : ℕ} {pipeEnd : PipeEnd} :
    ¬ state.Holds (.child number) fd pipeEnd := by
  rintro ⟨table, cloexec, here, opened⟩
  obtain ⟨child, forked, rfl⟩ := Option.map_eq_some_iff.mp here
  rw [found, Option.bind_some] at forked
  have wired := (sound.calls number call found).child child forked
  rw [wired.gone (gone child forked), Descriptors.get_empty] at opened
  cases opened

/-- A call keeps the read end of the supply pipe until it has closed it. -/
theorem Sound.keeps_read (sound : state.Sound) (found : state.calls[number]? = some call) {fd : ℕ}
    (recorded : call.account .supply .read = some fd) :
    call.pc = .ingest ∨ call.pc = .fork ∨ call.pc = .closeSupply := by
  have ok := sound.calls number call found
  cases position : call.pc <;> simp [Call.account, position] at recorded ⊢
  obtain ⟨writeFd, pipe⟩ := recorded
  exact absurd ((ok.noSupply (by simp [position])).symm.trans pipe) nofun

/-- A call keeps the write end of the ingest pipe until it has closed it. -/
theorem Sound.keeps_write (sound : state.Sound) (found : state.calls[number]? = some call) {fd : ℕ}
    (recorded : call.account .ingest .write = some fd) :
    call.pc = .fork ∨ call.pc = .closeSupply ∨ call.pc = .closeIngest := by
  have ok := sound.calls number call found
  cases position : call.pc <;> simp [Call.account, position] at recorded ⊢
  all_goals
    obtain ⟨readFd, pipe⟩ := recorded
    exact absurd ((ok.noIngest (by simp [position])).symm.trans pipe) nofun

end Subprocesses

/-- Once every child runs its program or is gone, each end of the pipes of a call is where it
belongs: the write end of the supply pipe in the parent, the read end of the supply pipe and the
write end of the ingest pipe at stdin and stdout of the call's own child or, until the call closes
them, in the parent. So the child reaches the end of its input when `supplyfd` is closed, and the
reader reaches the end of the output when the child is gone. -/
theorem ends_private (reach : subprocesses.Reachable .free state) (settled : state.Settled)
    (found : state.calls[number]? = some call) :
    (∀ process fd, state.Holds process fd ⟨number, .supply, .write⟩ → process = .parent) ∧
    (∀ process fd, state.Holds process fd ⟨number, .supply, .read⟩ →
      process = .child number ∧ fd = 0 ∨
      process = .parent ∧ (call.pc = .ingest ∨ call.pc = .fork ∨ call.pc = .closeSupply)) ∧
    (∀ process fd, state.Holds process fd ⟨number, .ingest, .write⟩ →
      process = .child number ∧ fd = 1 ∨
      process = .parent ∧ (call.pc = .fork ∨ call.pc = .closeSupply ∨ call.pc = .closeIngest)) ∧
    (call.pc = .returned → call.supplyfd = none → state.AtEnd number .supply) ∧
    (call.pc = .returned → (∀ child, call.child = some child → child.pc = .exited) →
      state.AtEnd number .ingest) := by
  have sound := Subprocesses.sound_of_reachable reach
  refine ⟨fun process fd holds => ?_, fun process fd holds => ?_, fun process fd holds => ?_,
    fun position closed process fd holds => ?_, fun position gone process fd holds => ?_⟩
  · obtain ⟨here, -⟩ | ⟨-, ⟨-, -, side⟩ | ⟨-, pipe, -⟩⟩ := sound.holds settled found holds
    · exact here
    · cases side
    · cases pipe
  · obtain ⟨here, recorded⟩ | ⟨here, ⟨stdin, -⟩ | ⟨-, pipe, -⟩⟩ :=
      sound.holds settled found holds
    · exact .inr ⟨here, sound.keeps_read found recorded⟩
    · exact .inl ⟨here, stdin⟩
    · cases pipe
  · obtain ⟨here, recorded⟩ | ⟨here, ⟨-, pipe, -⟩ | ⟨stdout, -⟩⟩ :=
      sound.holds settled found holds
    · exact .inr ⟨here, sound.keeps_write found recorded⟩
    · cases pipe
    · exact .inl ⟨here, stdout⟩
  · obtain ⟨-, recorded⟩ | ⟨-, ⟨-, -, side⟩ | ⟨-, pipe, -⟩⟩ := sound.holds settled found holds
    · rw [Call.account, position, closed] at recorded
      cases recorded
    · cases side
    · cases pipe
  · obtain ⟨-, recorded⟩ | ⟨rfl, -⟩ := sound.holds settled found holds
    · rw [Call.account, position] at recorded
      cases recorded
    · exact sound.not_holds_of_exited found gone holds

/-! ## Two overlapping calls -/

/-- Two threads each make a call; the second child is forked while all ends of the first call are
open, and both children run their programs before the first caller closes `supplyfd`. -/
def overlappingCalls : List SubprocessLabel :=
  [.begins true true, .begins true true, .call 0, .call 1, .call 0, .call 1, .call 1, .call 0] ++
  List.replicate 7 (.child 1) ++ List.replicate 7 (.child 0) ++
  [.call 0, .call 1, .call 0, .call 1, .closesSupply 0]

theorem terminal_initial : subprocesses.start { parent := .terminal } where
  calls := rfl
  terminated := rfl
  standard := Descriptors.terminal_standard
  files := Descriptors.terminal_files

theorem overlappingCalls_run :
    (subprocesses.exec .free { parent := .terminal } overlappingCalls).isSome = true := by
  decide +kernel

/-- After the overlapping calls. -/
def overlapped : Subprocesses :=
  (subprocesses.exec .free { parent := .terminal } overlappingCalls).get overlappingCalls_run

theorem overlapped_settled : overlapped.Settled := by
  have all : ∀ call ∈ overlapped.calls, call.child.all fun child => child.pc = .running := by
    decide +kernel
  intro call inside child forked
  have here := all call inside
  rw [forked] at here
  exact .inl (by simpa using here)

/-- The first child reaches the end of its input while the second one runs. -/
theorem ends_private_overlapping : overlapped.AtEnd 0 .supply := by
  have private' := ends_private (.of_exec terminal_initial overlappingCalls overlappingCalls_run)
    overlapped_settled
      (List.getElem?_eq_getElem (show 0 < overlapped.calls.length by decide +kernel))
  exact private'.2.2.2.1 (by decide +kernel) (by decide +kernel)

end MapReduce
end Syscore
