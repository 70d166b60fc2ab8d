import Syscore.MapReduce.Subprocess

/-!
# Whose ends are whose

Every end that the parent has is flagged close-on-exec and is where its call recorded it, so a child
keeps through `execvp` only what it moved onto its own stdin and stdout, whatever the other calls
had open when it was forked.
-/

namespace Syscore
namespace MapReduce

/-! ## The account of the parent -/

/-- Where the parent has an end of a pipe of the call. -/
def Call.account (call : Call) : PipeName → Side → Option ℕ
  | .supply, .read =>
      match call.pc with
      | .closeIngest | .returned => none
      | _ => call.supplyPipe.map Prod.fst
  | .supply, .write =>
      match call.pc with
      | .returned => call.supplyfd
      | _ => call.supplyPipe.map Prod.snd
  | .ingest, .read =>
      match call.pc with
      | .returned => call.ingestfd
      | _ => call.ingestPipe.map Prod.fst
  | .ingest, .write =>
      match call.pc with
      | .returned => none
      | _ => call.ingestPipe.map Prod.snd

/-- Where the parent has an end. -/
def Subprocesses.account (state : Subprocesses) (pipeEnd : PipeEnd) : Option ℕ :=
  state.calls[pipeEnd.call]?.bind fun call => call.account pipeEnd.pipe pipeEnd.side

variable {state after : Subprocesses} {number : ℕ} {call next : Call} {parent : Table}

theorem account_of_call (found : state.calls[number]? = some call) (pipe : PipeName) (side : Side) :
    state.account ⟨number, pipe, side⟩ = call.account pipe side := by
  rw [Subprocesses.account, found, Option.bind_some]

/-- Only the ends of the call that moves are accounted for anew. -/
theorem account_set (found : state.calls[number]? = some call) (next : Call) (parent : Table)
    (pipeEnd : PipeEnd) :
    Subprocesses.account { state with parent, calls := state.calls.set number next } pipeEnd =
      if pipeEnd.call = number then next.account pipeEnd.pipe pipeEnd.side
      else state.account pipeEnd := by
  obtain ⟨inside, -⟩ := List.getElem?_eq_some_iff.mp found
  rw [Subprocesses.account, List.getElem?_set]
  by_cases same : pipeEnd.call = number
  · rw [if_pos same.symm, if_pos same, if_pos (same ▸ inside), Option.bind_some]
  · rw [if_neg (Ne.symm same), if_neg same, Subprocesses.account]

/-! ## Children -/

/-- How far a child has come. -/
def ChildPc.stage : ChildPc → ℕ
  | .dupSupply => 0
  | .closeSupplyRead => 1
  | .closeSupplyWrite => 2
  | .dupIngest => 3
  | .closeIngestRead => 4
  | .closeIngestWrite => 5
  | .exec => 6
  | .running => 7
  | .exited => 8

/-- What a child has open, by how far it has come. -/
structure Wired (number : ℕ) (call : Call) (fds : Table) (pc : ChildPc) : Prop where
  /-- What survives `execvp` is the child's own, in its place. -/
  kept : ∀ fd pipeEnd, fds.get fd = some ⟨.pipeEnd pipeEnd, false⟩ →
    fd = 0 ∧ pipeEnd = ⟨number, .supply, .read⟩ ∨ fd = 1 ∧ pipeEnd = ⟨number, .ingest, .write⟩
  /-- After `execvp` nothing flagged is left. -/
  flagged : 7 ≤ pc.stage → ∀ fd pipeEnd,
    fds.get fd ≠ some ⟨.pipeEnd pipeEnd, true⟩
  gone : pc = .exited → fds = ⟨[]⟩
  supply : pc.stage = 0 → ∀ readFd writeFd, call.supplyPipe = some (readFd, writeFd) →
    fds.get readFd = some ⟨.pipeEnd ⟨number, .supply, .read⟩, true⟩
  ingest : pc.stage ≤ 3 → ∀ readFd writeFd, call.ingestPipe = some (readFd, writeFd) →
    fds.get writeFd = some ⟨.pipeEnd ⟨number, .ingest, .write⟩, true⟩
  stdin : 1 ≤ pc.stage → pc.stage ≤ 7 → call.supplyPipe.isSome = true →
    fds.get 0 = some ⟨.pipeEnd ⟨number, .supply, .read⟩, false⟩
  stdout : 4 ≤ pc.stage → pc.stage ≤ 7 → call.ingestPipe.isSome = true →
    fds.get 1 = some ⟨.pipeEnd ⟨number, .ingest, .write⟩, false⟩

/-- The numbers that `pipe2` gave. -/
structure Call.Numbers (call : Call) : Prop where
  supply : ∀ readFd writeFd, call.supplyPipe = some (readFd, writeFd) → 2 < readFd ∧ 2 < writeFd
  ingest : ∀ readFd writeFd, call.ingestPipe = some (readFd, writeFd) → 2 < readFd ∧ 2 < writeFd
  apart : ∀ readFd writeFd readFd' writeFd', call.supplyPipe = some (readFd, writeFd) →
    call.ingestPipe = some (readFd', writeFd') → writeFd' ≠ readFd ∧ writeFd' ≠ writeFd

/-- Closing one of the numbers. -/
theorem get_closeIfOpen_of_ne {table : Table} {number : Option ℕ} {fd : ℕ}
    (apart : ∀ closed, number = some closed → fd ≠ closed) :
    (closeIfOpen table number).get fd = table.get fd := by
  cases number with
  | none => rfl
  | some closed => rw [closeIfOpen, Descriptors.get_close, if_neg (apart closed rfl)]

/-- Closing adds nothing. -/
theorem get_of_get_closeIfOpen {table : Table} {number : Option ℕ} {fd : ℕ}
    {file : Flagged (OpenFile PipeEnd)} (opened : (closeIfOpen table number).get fd = some file) :
    table.get fd = some file := by
  cases number with
  | none => exact opened
  | some closed =>
      rw [closeIfOpen, Descriptors.get_close] at opened
      split at opened
      · cases opened
      · exact opened

/-- A child that closes a descriptor which it needs no more. -/
theorem Wired.close {fds : Table} {pc : ChildPc} (sound : Wired number call fds pc)
    {closed : Option ℕ} {later : ChildPc}
    (order : pc.stage < later.stage) (bound : later.stage < 7)
    (past : pc.stage ≠ 0)
    (between : 4 ≤ later.stage → 4 ≤ pc.stage)
    (own : ∀ fd, closed = some fd → 2 < fd ∧
      (later.stage ≤ 3 → ∀ readFd writeFd, call.ingestPipe = some (readFd, writeFd) →
        writeFd ≠ fd)) :
    Wired number call (closeIfOpen fds closed) later where
  kept fd pipeEnd opened := sound.kept fd pipeEnd (get_of_get_closeIfOpen opened)
  flagged late := absurd late (by omega)
  gone here := by
    rw [here] at bound
    exact absurd bound (by decide)
  supply early := absurd early (by omega)
  ingest early readFd writeFd pipe := by
    rw [get_closeIfOpen_of_ne fun fd here => (own fd here).2 early readFd writeFd pipe]
    exact sound.ingest (by omega) readFd writeFd pipe
  stdin _ _ pipe := by
    rw [get_closeIfOpen_of_ne fun fd here => by have := (own fd here).1; omega]
    exact sound.stdin (by omega) (by omega) pipe
  stdout late _ pipe := by
    rw [get_closeIfOpen_of_ne fun fd here => by have := (own fd here).1; omega]
    exact sound.stdout (between late) (by omega) pipe

theorem Wired.moveSupply {fds : Table} {pc : ChildPc} (sound : Wired number call fds pc)
    (numbers : call.Numbers) (position : pc = .dupSupply) {readFd writeFd : ℕ}
    (pipe : call.supplyPipe = some (readFd, writeFd)) :
    Wired number call (fds.duplicate readFd 0) .closeSupplyRead := by
  have stage : pc.stage = 0 := by rw [position]; rfl
  have high := (numbers.supply readFd writeFd pipe).1
  have moved := Descriptors.get_duplicate (sound.supply stage readFd writeFd pipe)
    (show readFd ≠ 0 by omega)
  constructor
  case kept =>
    intro fd pipeEnd opened
    rw [moved fd] at opened
    split at opened
    · rename_i here
      cases opened
      exact .inl ⟨here, rfl⟩
    · exact sound.kept fd pipeEnd opened
  case flagged => exact fun late => absurd late (by decide)
  case gone => nofun
  case supply => exact fun early => absurd early (by decide)
  case ingest =>
    intro _ readFd' writeFd' pipe'
    have high' := (numbers.ingest readFd' writeFd' pipe').2
    rw [moved writeFd', if_neg (by omega)]
    exact sound.ingest (by omega) readFd' writeFd' pipe'
  case stdin => exact fun _ _ _ => by rw [moved 0, if_pos rfl]
  case stdout => exact fun late => absurd late (by decide)

theorem Wired.moveIngest {fds : Table} {pc : ChildPc} (sound : Wired number call fds pc)
    (numbers : call.Numbers) (position : pc = .dupIngest) {readFd writeFd : ℕ}
    (pipe : call.ingestPipe = some (readFd, writeFd)) :
    Wired number call (fds.duplicate writeFd 1) .closeIngestRead := by
  have stage : pc.stage = 3 := by rw [position]; rfl
  have high := (numbers.ingest readFd writeFd pipe).2
  have moved := Descriptors.get_duplicate (sound.ingest stage.le readFd writeFd pipe)
    (show writeFd ≠ 1 by omega)
  constructor
  case kept =>
    intro fd pipeEnd opened
    rw [moved fd] at opened
    split at opened
    · rename_i here
      cases opened
      exact .inr ⟨here, rfl⟩
    · exact sound.kept fd pipeEnd opened
  case flagged => exact fun late => absurd late (by decide)
  case gone => nofun
  case supply => exact fun early => absurd early (by decide)
  case ingest => exact fun early => absurd early (by decide)
  case stdin =>
    intro _ _ pipe'
    rw [moved 0, if_neg (by decide)]
    exact sound.stdin (by omega) (by omega) pipe'
  case stdout => exact fun _ _ _ => by rw [moved 1, if_pos rfl]

theorem Wired.exec {fds : Table} {pc : ChildPc} (sound : Wired number call fds pc)
    (position : pc = .exec) :
    Wired number call (fds.exec) .running := by
  have stage : pc.stage = 6 := by rw [position]; rfl
  constructor
  case kept =>
    intro fd pipeEnd opened
    rw [Descriptors.get_exec] at opened
    exact sound.kept fd pipeEnd (Option.filter_eq_some_iff.mp opened).1
  case flagged =>
    intro _ fd pipeEnd opened
    rw [Descriptors.get_exec] at opened
    exact absurd (Option.filter_eq_some_iff.mp opened).2 (by simp)
  case gone => nofun
  case supply => exact fun early => absurd early (by decide)
  case ingest => exact fun early => absurd early (by decide)
  case stdin =>
    intro _ _ pipe
    rw [Descriptors.get_exec, sound.stdin (by omega) (by omega) pipe]
    rfl
  case stdout =>
    intro _ _ pipe
    rw [Descriptors.get_exec, sound.stdout (by omega) (by omega) pipe]
    rfl

/-- A child that skips the pipe it was not asked for. -/
theorem Wired.skip {fds : Table} {pc : ChildPc} (sound : Wired number call fds pc)
    (skipped : pc = .dupSupply ∧ call.supplyPipe = none ∨
      pc = .dupIngest ∧ call.ingestPipe = none) {later : ChildPc}
    (order : later = if pc = .dupSupply then .dupIngest else .exec) :
    Wired number call fds later := by
  subst order
  obtain ⟨position, absent⟩ | ⟨position, absent⟩ := skipped
  · have stage : pc.stage = 0 := by rw [position]; rfl
    rw [if_pos position]
    exact { sound with
      flagged := fun late => absurd late (by decide)
      gone := nofun
      supply := fun early => absurd early (by decide)
      ingest := fun _ => sound.ingest (by omega)
      stdin := fun _ _ pipe => by rw [absent] at pipe; cases pipe
      stdout := fun late => absurd late (by decide) }
  · have stage : pc.stage = 3 := by rw [position]; rfl
    rw [if_neg (by rw [position]; decide)]
    exact { sound with
      flagged := fun late => absurd late (by decide)
      gone := nofun
      supply := fun early => absurd early (by decide)
      ingest := fun early => absurd early (by decide)
      stdin := fun _ _ => sound.stdin (by omega) (by omega)
      stdout := fun _ _ pipe => by rw [absent] at pipe; cases pipe }

/-- Every step of a child keeps what is known of it. -/
theorem Wired.step {child child' : Child}
    (sound : Wired number call child.fds child.pc)
    (numbers : call.Numbers) (taken : child.step call = some child') :
    Wired number call child'.fds child'.pc := by
  unfold Child.step at taken
  split at taken
  case h_1 position =>
    split at taken
    · rename_i pipe
      obtain rfl := Option.some.inj taken
      exact sound.moveSupply numbers position pipe
    · rename_i absent
      obtain rfl := Option.some.inj taken
      exact sound.skip (.inl ⟨position, absent⟩) (by rw [if_pos position])
  case h_2 position =>
    obtain rfl := Option.some.inj taken
    dsimp only
    have stage : child.pc.stage = 1 := by rw [position]; rfl
    refine sound.close (by rw [stage]; decide) (by decide) (by omega)
      (fun late => absurd late (by decide)) fun fd closed => ?_
    obtain ⟨⟨readFd, writeFd⟩, pipe, rfl⟩ := Option.map_eq_some_iff.mp closed
    exact ⟨(numbers.supply readFd writeFd pipe).1, fun _ readFd' writeFd' pipe' =>
      (numbers.apart readFd writeFd readFd' writeFd' pipe pipe').1⟩
  case h_3 position =>
    obtain rfl := Option.some.inj taken
    dsimp only
    have stage : child.pc.stage = 2 := by rw [position]; rfl
    refine sound.close (by rw [stage]; decide) (by decide) (by omega)
      (fun late => absurd late (by decide)) fun fd closed => ?_
    obtain ⟨⟨readFd, writeFd⟩, pipe, rfl⟩ := Option.map_eq_some_iff.mp closed
    exact ⟨(numbers.supply readFd writeFd pipe).2, fun _ readFd' writeFd' pipe' =>
      (numbers.apart readFd writeFd readFd' writeFd' pipe pipe').2⟩
  case h_4 position =>
    split at taken
    · rename_i pipe
      obtain rfl := Option.some.inj taken
      exact sound.moveIngest numbers position pipe
    · rename_i absent
      obtain rfl := Option.some.inj taken
      exact sound.skip (.inr ⟨position, absent⟩) (by rw [if_neg (by rw [position]; decide)])
  case h_5 position =>
    obtain rfl := Option.some.inj taken
    dsimp only
    have stage : child.pc.stage = 4 := by rw [position]; rfl
    refine sound.close (by rw [stage]; decide) (by decide) (by omega)
      (fun _ => stage.ge) fun fd closed => ?_
    obtain ⟨⟨readFd, writeFd⟩, pipe, rfl⟩ := Option.map_eq_some_iff.mp closed
    exact ⟨(numbers.ingest readFd writeFd pipe).1, fun early => absurd early (by decide)⟩
  case h_6 position =>
    obtain rfl := Option.some.inj taken
    dsimp only
    have stage : child.pc.stage = 5 := by rw [position]; rfl
    refine sound.close (by rw [stage]; decide) (by decide) (by omega)
      (fun _ => by omega) fun fd closed => ?_
    obtain ⟨⟨readFd, writeFd⟩, pipe, rfl⟩ := Option.map_eq_some_iff.mp closed
    exact ⟨(numbers.ingest readFd writeFd pipe).2, fun early => absurd early (by decide)⟩
  case h_7 position =>
    obtain rfl := Option.some.inj taken
    exact sound.exec position
  all_goals cases taken

/-- An ended process has nothing open. -/
theorem Wired.exited (number : ℕ) (call : Call) :
    Wired number call ⟨[]⟩ .exited where
  kept _ _ opened := absurd opened (by rw [Descriptors.get_empty]; nofun)
  flagged _ _ _ opened := absurd opened (by rw [Descriptors.get_empty]; nofun)
  gone _ := rfl
  supply early := absurd early (by decide)
  ingest early := absurd early (by decide)
  stdin _ late := absurd late (by decide)
  stdout _ late := absurd late (by decide)

end MapReduce
end Syscore
