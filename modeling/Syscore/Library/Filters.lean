import Mathlib.Data.List.Basic
import Mathlib.Order.WellFounded

/-!
# Filters

Programs that read their stdin and write their stdout. One function says what a program in each of
its states does next, so a program is a state. What a program has done is told apart from how its
input was cut into reads: `Ran` forgets the cuts, and `Computes` holds for all of them.
-/

namespace Syscore

variable {α σ : Type*}

/-- The next action of a program. -/
inductive FilterAct (α σ : Type*)
  /-- `read`, with what follows each chunk. The empty chunk is the end of the input. -/
  | read (next : List α → σ)
  /-- `write`. -/
  | write (bytes : List α) (next : σ)
  | exit

/-- A program has consumed some input, perhaps to its end, and begun to write some output. -/
inductive Ran (act : σ → FilterAct α σ) (code : σ) : List α → Bool → List α → σ → Prop
  | start : Ran act code [] false [] code
  | chunk {consumed emitted bytes : List α} {now : σ} {next : List α → σ}
      (ran : Ran act code consumed false emitted now) (reads : act now = .read next)
      (some : bytes ≠ []) : Ran act code (consumed ++ bytes) false emitted (next bytes)
  | ends {consumed emitted : List α} {ended : Bool} {now : σ} {next : List α → σ}
      (ran : Ran act code consumed ended emitted now) (reads : act now = .read next) :
      Ran act code consumed true emitted (next [])
  | write {consumed emitted bytes : List α} {ended : Bool} {now next : σ}
      (ran : Ran act code consumed ended emitted now) (writes : act now = .write bytes next) :
      Ran act code consumed ended (emitted ++ bytes) next

/-- The program exits only after it has read to the end of its input. -/
def Drains (act : σ → FilterAct α σ) (code : σ) : Prop :=
  ∀ consumed ended emitted now, Ran act code consumed ended emitted now → act now = .exit →
    ended = true

/-- However its input is cut, the program reads all of it before it exits, and writes the image. -/
def Computes (act : σ → FilterAct α σ) (code : σ) (image : List α → List α) : Prop :=
  ∀ consumed ended emitted now, Ran act code consumed ended emitted now → act now = .exit →
    ended = true ∧ emitted = image consumed

theorem Computes.drains {act : σ → FilterAct α σ} {code : σ} {image : List α → List α}
    (computes : Computes act code image) : Drains act code :=
  fun consumed ended emitted now ran exits => (computes consumed ended emitted now ran exits).1

/-- A step of a program alone with what is left of its input. -/
inductive Consumes (act : σ → FilterAct α σ) : σ × List α → σ × List α → Prop
  | chunk {now : σ} {next : List α → σ} {bytes rest : List α} (reads : act now = .read next)
      (some : bytes ≠ []) : Consumes act (now, bytes ++ rest) (next bytes, rest)
  | ends {now : σ} {next : List α → σ} (reads : act now = .read next) :
      Consumes act (now, []) (next [], [])
  | write {now next : σ} {bytes rest : List α} (writes : act now = .write bytes next) :
      Consumes act (now, rest) (next, rest)

/-- Every program comes to its exit on every finite input. -/
def Halting (act : σ → FilterAct α σ) : Prop :=
  WellFounded fun after before => Consumes act before after

/-- The variant rule for `Halting`. -/
theorem halting_of_measure {act : σ → FilterAct α σ} (measure : σ × List α → ℕ)
    (falls : ∀ before after, Consumes act before after → measure after < measure before) :
    Halting act :=
  Subrelation.wf (fun step => falls _ _ step) (InvImage.wf measure Nat.lt_wfRel.wf)

/-! ## Programs among others -/

/-- The same action with the states named otherwise. -/
def FilterAct.map {τ : Type*} (embed : σ → τ) : FilterAct α σ → FilterAct α τ
  | .read next => .read fun bytes => embed (next bytes)
  | .write bytes next => .write bytes (embed next)
  | .exit => .exit

namespace FilterAct

variable {τ : Type*} {embed : σ → τ} {action : FilterAct α σ}

theorem of_map_read {next' : List α → τ} (reads : action.map embed = .read next') :
    ∃ next, action = .read next ∧ next' = fun bytes => embed (next bytes) := by
  cases action with
  | read next => exact ⟨next, rfl, (FilterAct.read.inj reads).symm⟩
  | write _ _ | exit => cases reads

theorem of_map_write {bytes : List α} {next' : τ} (writes : action.map embed = .write bytes next') :
    ∃ next, action = .write bytes next ∧ next' = embed next := by
  cases action with
  | write _ next =>
      obtain ⟨rfl, rfl⟩ := FilterAct.write.inj writes
      exact ⟨next, rfl, rfl⟩
  | read _ | exit => cases writes

theorem of_map_exit (exits : action.map embed = .exit) : action = .exit := by
  cases action with
  | exit => rfl
  | read _ | write _ _ => cases exits

end FilterAct

section Embedded

variable {τ : Type*} {act : σ → FilterAct α σ} {act' : τ → FilterAct α τ} {embed : σ → τ}
  {code : σ}

theorem Ran.of_map (same : ∀ code, act' (embed code) = (act code).map embed)
    {consumed emitted : List α} {ended : Bool} {now' : τ}
    (ran : Ran act' (embed code) consumed ended emitted now') :
    ∃ now, now' = embed now ∧ Ran act code consumed ended emitted now := by
  induction ran with
  | start => exact ⟨code, rfl, .start⟩
  | chunk _ reads some ih =>
      obtain ⟨now, rfl, ran⟩ := ih
      obtain ⟨next, read, rfl⟩ := FilterAct.of_map_read ((same now).symm.trans reads)
      exact ⟨_, rfl, .chunk ran read some⟩
  | ends _ reads ih =>
      obtain ⟨now, rfl, ran⟩ := ih
      obtain ⟨next, read, rfl⟩ := FilterAct.of_map_read ((same now).symm.trans reads)
      exact ⟨_, rfl, .ends ran read⟩
  | write _ writes ih =>
      obtain ⟨now, rfl, ran⟩ := ih
      obtain ⟨next, write, rfl⟩ := FilterAct.of_map_write ((same now).symm.trans writes)
      exact ⟨_, rfl, .write ran write⟩

theorem Computes.map {image : List α → List α} (computes : Computes act code image)
    (same : ∀ code, act' (embed code) = (act code).map embed) :
    Computes act' (embed code) image := by
  intro consumed ended emitted now' ran exits
  obtain ⟨now, rfl, alone⟩ := ran.of_map same
  exact computes consumed ended emitted now alone
    (FilterAct.of_map_exit ((same now).symm.trans exits))

theorem Consumes.of_map (same : ∀ code, act' (embed code) = (act code).map embed)
    {rest : List α} {after : τ × List α} (step : Consumes act' (embed code, rest) after) :
    ∃ now rest', after = (embed now, rest') ∧ Consumes act (code, rest) (now, rest') := by
  cases step with
  | chunk reads some =>
      obtain ⟨next, read, rfl⟩ := FilterAct.of_map_read ((same code).symm.trans reads)
      exact ⟨_, _, rfl, .chunk read some⟩
  | ends reads =>
      obtain ⟨next, read, rfl⟩ := FilterAct.of_map_read ((same code).symm.trans reads)
      exact ⟨_, _, rfl, .ends read⟩
  | write writes =>
      obtain ⟨next, write, rfl⟩ := FilterAct.of_map_write ((same code).symm.trans writes)
      exact ⟨_, _, rfl, .write write⟩

/-- A program halts among others as it does alone. -/
theorem Halting.acc_map (halting : Halting act)
    (same : ∀ code, act' (embed code) = (act code).map embed) (code : σ) (rest : List α) :
    Acc (fun after before => Consumes act' before after) (embed code, rest) := by
  induction config : (code, rest) using halting.induction generalizing code rest with
  | _ config ih =>
      refine ⟨_, fun after step => ?_⟩
      obtain ⟨now, rest', rfl, alone⟩ := step.of_map same
      exact ih (now, rest') (config ▸ alone) now rest' rfl

end Embedded

/-! ## Scanners -/

/-- A program that looks at one byte after the other and keeps a state. -/
structure Scanner (α S : Type*) where
  step : S → α → S × List α
  /-- What it writes at the end of its input. -/
  final : S → List α

inductive ScannerCode (α S : Type*)
  | reading (state : S)
  | writing (bytes : List α) (state : S)
  | finishing (bytes : List α)
  | done

namespace Scanner

variable {S : Type*} (scanner : Scanner α S)

/-- The state after some bytes, and what is written for them. -/
def scan (state : S) : List α → S × List α
  | [] => (state, [])
  | byte :: rest =>
      let here := scanner.step state byte
      let later := scan here.1 rest
      (later.1, here.2 ++ later.2)

/-- What a whole text comes to. -/
def image (state : S) (text : List α) : List α :=
  (scanner.scan state text).2 ++ scanner.final (scanner.scan state text).1

theorem scan_append (state : S) (front back : List α) :
    scanner.scan state (front ++ back) =
      ((scanner.scan (scanner.scan state front).1 back).1,
        (scanner.scan state front).2 ++ (scanner.scan (scanner.scan state front).1 back).2) := by
  induction front generalizing state with
  | nil => rfl
  | cons byte front ih => simp only [List.cons_append, scan, ih, List.append_assoc]

/-- What is written for a chunk goes out before the next is read. -/
def act : ScannerCode α S → FilterAct α (ScannerCode α S)
  | .reading state => .read fun bytes =>
      if bytes = [] then .finishing (scanner.final state)
      else .writing (scanner.scan state bytes).2 (scanner.scan state bytes).1
  | .writing bytes state => .write bytes (.reading state)
  | .finishing bytes => .write bytes .done
  | .done => .exit

/-- What a scanner has written and what it is about to write. -/
def Owes (start : S) (consumed : List α) (ended : Bool) (emitted : List α) :
    ScannerCode α S → Prop
  | .reading state => scanner.scan start consumed = (state, emitted)
  | .writing bytes state => scanner.scan start consumed = (state, emitted ++ bytes)
  | .finishing bytes => ended = true ∧ scanner.image start consumed = emitted ++ bytes
  | .done => ended = true ∧ scanner.image start consumed = emitted

variable {scanner} {start : S}

theorem owes_of_ran {consumed emitted : List α} {ended : Bool} {now : ScannerCode α S}
    (ran : Ran scanner.act (.reading start) consumed ended emitted now) :
    scanner.Owes start consumed ended emitted now := by
  induction ran with
  | start => rfl
  | @chunk _ _ bytes now next ran reads some ih =>
      cases now with
      | reading state =>
          obtain rfl := FilterAct.read.inj reads
          beta_reduce
          rw [if_neg some]
          have scanned : scanner.scan start _ = _ := ih
          rw [Owes, scan_append, scanned]
      | writing _ _ | finishing _ | done => cases reads
  | @ends _ _ _ now next ran reads ih =>
      cases now with
      | reading state =>
          obtain rfl := FilterAct.read.inj reads
          beta_reduce
          rw [if_pos rfl]
          have scanned : scanner.scan start _ = _ := ih
          exact ⟨rfl, by rw [image, scanned]⟩
      | writing _ _ | finishing _ | done => cases reads
  | @write _ _ _ _ now next ran writes ih =>
      cases now with
      | writing bytes state | finishing bytes =>
          obtain ⟨rfl, rfl⟩ := FilterAct.write.inj writes
          exact ih
      | reading _ | done => cases writes

theorem computes (scanner : Scanner α S) (start : S) :
    Computes scanner.act (.reading start) (scanner.image start) := by
  intro consumed ended emitted now ran exits
  cases now with
  | done =>
      obtain ⟨told, same⟩ := owes_of_ran ran
      exact ⟨told, same.symm⟩
  | reading _ | writing _ _ | finishing _ => cases exits

theorem halting (scanner : Scanner α S) : Halting scanner.act := by
  refine halting_of_measure (fun
    | (.reading _, rest) => 2 * rest.length + 2
    | (.writing _ _, rest) => 2 * rest.length + 3
    | (.finishing _, _) => 1
    | (.done, _) => 0) fun before after step => ?_
  cases step with
  | @chunk now next bytes rest reads some =>
      cases now with
      | reading state =>
          obtain rfl := FilterAct.read.inj reads
          have positive := List.length_pos_iff.mpr some
          beta_reduce
          rw [if_neg some]
          simp only [List.length_append]
          omega
      | writing _ _ | finishing _ | done => cases reads
  | @ends now next reads =>
      cases now with
      | reading state =>
          obtain rfl := FilterAct.read.inj reads
          beta_reduce
          rw [if_pos rfl]
          exact Nat.one_lt_two
      | writing _ _ | finishing _ | done => cases reads
  | @write now next bytes rest writes =>
      cases now with
      | writing _ _ | finishing _ =>
          obtain ⟨-, rfl⟩ := FilterAct.write.inj writes
          exact Nat.lt_succ_self _
      | reading _ | done => cases writes

end Scanner

end Syscore
