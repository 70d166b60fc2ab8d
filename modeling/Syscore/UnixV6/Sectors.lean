import Mathlib.Data.List.GetD
import Syscore.Library.Inevitable
import Syscore.UnixV6.Mkfs

/-!
# Sectors of a file

`diskimg_readsector` and `diskimg_writesector` on the file behind the descriptor, where `read` and
`write` may move fewer bytes than they are asked for or be interrupted. The other modules see a disk
as a function from offsets to bytes, zero beyond the end of the file, on which a sector is read and
written at once; a session of sector calls comes to the same.
-/

namespace Syscore
namespace UnixV6

/-- A call of one of the two functions. -/
inductive SectorCall
  | read (sectorNum : ℕ)
  | write (sectorNum : ℕ) (buf : Sector)

namespace SectorCall

/-- What the call does to a disk whose sectors are read and written at once. -/
def image (image : Image) : SectorCall → Image
  | read _ => image
  | write sectorNum buf => diskimgWritesector image sectorNum buf

/-- What the call leaves in the buffer. -/
def result (image : Image) : SectorCall → Sector
  | read sectorNum => diskimgReadsector image sectorNum
  | write _ buf => buf

/-- The disk after some calls, and their buffers. -/
def run (disk : Image) : List SectorCall → Image × List Sector
  | [] => (disk, [])
  | call :: calls =>
      let later := run (call.image disk) calls
      (later.1, call.result disk :: later.2)

theorem run_append (disk : Image) (first second : List SectorCall) :
    run disk (first ++ second) =
      ((run (run disk first).1 second).1,
        (run disk first).2 ++ (run (run disk first).1 second).2) := by
  induction first generalizing disk with
  | nil => rfl
  | cons call first ih => simp only [List.cons_append, run, ih]

end SectorCall

/-- Where a call is. -/
inductive SectorPc
  /-- Between two calls. -/
  | idle
  /-- In the loop of `diskimg_readsector`, with the bytes up to `total`. -/
  | reading (sectorNum : ℕ) (p : List UInt8)
  /-- In the loop of `diskimg_writesector`. -/
  | writing (sectorNum : ℕ) (buf : Sector) (total : ℕ)

/-- The file behind the descriptor, its offset, and a program that makes sector calls. -/
structure DiskSession where
  contents : List UInt8
  offset : ℕ
  calls : List SectorCall
  pc : SectorPc := .idle
  /-- The buffers after the calls that have returned. -/
  results : List Sector := []

/-- What a system call answers. -/
inductive SectorAnswer
  /-- `lseek`, at the start of a call. -/
  | lseek
  /-- `read` or `write` moves `n` bytes. -/
  | bytes (n : ℕ)
  /-- `EINTR`. -/
  | interrupted

namespace DiskSession

/-- The file after a `write` at an offset; a gap is filled with zeros. -/
def overwrite (contents : List UInt8) (offset : ℕ) (bytes : List UInt8) : List UInt8 :=
  (contents ++ List.replicate (offset - contents.length) 0).take offset ++ bytes ++
    contents.drop (offset + bytes.length)

/-- The bytes of a buffer as a sector; `memset` zeroes what has not been read. -/
def sectorOf (p : List UInt8) : Sector := fun index => p.getD index 0

/-- A session goes on as the system calls answer; `none` for answers that no kernel gives. -/
def step (state : DiskSession) : SectorAnswer → Option DiskSession
  | .lseek =>
      match state.pc, state.calls with
      | .idle, .read sectorNum :: calls =>
          some { state with
            offset := sectorNum * sectorSize, calls, pc := .reading sectorNum [] }
      | .idle, .write sectorNum buf :: calls =>
          some { state with
            offset := sectorNum * sectorSize, calls, pc := .writing sectorNum buf 0 }
      | _, _ => none
  | .bytes n =>
      match state.pc with
      | .idle => none
      | .reading sectorNum p =>
          if n ≤ sectorSize - p.length ∧ n ≤ state.contents.length - state.offset then
            if n = 0 then
              if state.contents.length ≤ state.offset then
                some { state with pc := .idle, results := state.results ++ [sectorOf p] }
              else
                none
            else
              let p := p ++ (state.contents.drop state.offset).take n
              if p.length < sectorSize then
                some { state with offset := state.offset + n, pc := .reading sectorNum p }
              else
                some { state with
                  offset := state.offset + n
                  pc := .idle
                  results := state.results ++ [sectorOf p] }
          else
            none
      | .writing sectorNum buf total =>
          if 0 < n ∧ n ≤ sectorSize - total then
            let moved := ((List.ofFn buf).drop total).take n
            let contents := overwrite state.contents state.offset moved
            if total + n < sectorSize then
              some { state with
                contents
                offset := state.offset + n
                pc := .writing sectorNum buf (total + n) }
            else
              some { state with
                contents
                offset := state.offset + n
                pc := .idle
                results := state.results ++ [buf] }
          else
            none
  | .interrupted =>
      match state.pc with
      | .idle => none
      | .reading _ _ | .writing _ _ _ => some state

/-- The disk that the other modules see. -/
def image (contents : List UInt8) : Image := fun offset => contents.getD offset 0

end DiskSession

/-- A session over a file. -/
def diskSession (contents : List UInt8) (calls : List SectorCall) :
    Machine DiskSession SectorAnswer where
  start state := ∃ offset, state = { contents, offset, calls }
  step := DiskSession.step

/-- No call is interrupted. -/
def Uninterrupted : Discipline DiskSession SectorAnswer := fun _ answer => answer ≠ .interrupted

namespace DiskSession

variable {contents : List UInt8} {calls : List SectorCall} {state after : DiskSession}

/-! ## Parts of sectors -/

theorem image_overwrite (contents bytes : List UInt8) (offset o : ℕ) :
    image (overwrite contents offset bytes) o =
      if offset ≤ o ∧ o < offset + bytes.length then bytes.getD (o - offset) 0
      else image contents o := by
  have front : ((contents ++ List.replicate (offset - contents.length) 0).take offset).length =
      offset := by
    rw [List.length_take, List.length_append, List.length_replicate]
    omega
  simp only [image, overwrite, List.getD_eq_getElem?_getD]
  by_cases before : o < offset
  · rw [if_neg (by omega), List.append_assoc, List.getElem?_append_left (by rwa [front]),
      List.getElem?_take_of_lt before, List.getElem?_append]
    split
    · rfl
    · rename_i outside
      rw [List.getElem?_replicate_of_lt (by omega),
        List.getElem?_eq_none (Nat.le_of_not_lt outside)]
      rfl
  · by_cases inside : o < offset + bytes.length
    · rw [if_pos ⟨Nat.le_of_not_lt before, inside⟩, List.getElem?_append_left (by
        rw [List.length_append, front]
        exact inside), List.getElem?_append_right (by rw [front]; exact Nat.le_of_not_lt before),
        front]
    · rw [if_neg (by omega), List.getElem?_append_right (by
        rw [List.length_append, front]
        exact Nat.le_of_not_lt inside), List.length_append, front, List.getElem?_drop,
        Nat.add_sub_cancel' (Nat.le_of_not_lt inside)]

/-- A disk with the first bytes of a sector written. -/
def partly (disk : Image) (sectorNum : ℕ) (buf : Sector) (total : ℕ) : Image := fun o =>
  if sectorNum * sectorSize ≤ o ∧ o < sectorNum * sectorSize + total then
    (List.ofFn buf).getD (o - sectorNum * sectorSize) 0
  else disk o

theorem partly_zero (disk : Image) (sectorNum : ℕ) (buf : Sector) :
    partly disk sectorNum buf 0 = disk := by
  funext o
  rw [partly, if_neg (by omega)]

theorem partly_whole (disk : Image) (sectorNum : ℕ) (buf : Sector) :
    partly disk sectorNum buf sectorSize = diskimgWritesector disk sectorNum buf := by
  funext o
  have place : (sectorNum * sectorSize ≤ o ∧ o < sectorNum * sectorSize + sectorSize) ↔
      o / sectorSize = sectorNum := by
    rw [Nat.div_eq_iff (show 0 < sectorSize by decide)]
    change _ ↔ sectorNum * 512 ≤ o ∧ o ≤ sectorNum * 512 + 512 - 1
    change sectorNum * 512 ≤ o ∧ o < sectorNum * 512 + 512 ↔ _
    omega
  rw [partly, diskimgWritesector]
  by_cases inside : o / sectorSize = sectorNum
  · rw [if_pos (place.mpr inside), if_pos inside]
    have low : o - sectorNum * sectorSize = o % sectorSize := by
      rw [← inside, Nat.mod_eq_sub_div_mul]
    rw [low, List.getD_eq_getElem _ _ (by
      rw [List.length_ofFn]
      exact Nat.mod_lt o (by decide)), List.getElem_ofFn]
  · rw [if_neg (mt place.mp inside), if_neg inside]

theorem partly_more {disk : Image} {sectorNum total n : ℕ} {buf : Sector}
    (room : n ≤ sectorSize - total) {contents : List UInt8}
    (same : image contents = partly disk sectorNum buf total) :
    image (overwrite contents (sectorNum * sectorSize + total)
        (((List.ofFn buf).drop total).take n)) = partly disk sectorNum buf (total + n) := by
  have length : (((List.ofFn buf).drop total).take n).length = n := by
    rw [List.length_take, List.length_drop, List.length_ofFn]
    exact Nat.min_eq_left room
  funext o
  rw [image_overwrite, length, same, partly, partly]
  clear same length room
  generalize sectorNum * sectorSize = base
  by_cases moved : base + total ≤ o ∧ o < base + total + n
  · have place : total + (o - (base + total)) = o - base := by omega
    rw [if_pos moved, if_pos (by omega), List.getD_eq_getElem?_getD, List.getD_eq_getElem?_getD,
      List.getElem?_take_of_lt (by omega), List.getElem?_drop, place]
  · rw [if_neg moved]
    by_cases early : base ≤ o ∧ o < base + total
    · rw [if_pos early, if_pos (by omega)]
    · rw [if_neg early, if_neg (by omega)]

/-- The bytes that a read has got so far are those of the sector. -/
def ReadSoFar (disk : Image) (sectorNum : ℕ) (p : List UInt8) : Prop :=
  ∀ k < p.length, p.getD k 0 = disk (sectorNum * sectorSize + k)

theorem ReadSoFar.more {sectorNum n : ℕ} {p : List UInt8}
    (soFar : ReadSoFar (image contents) sectorNum p) :
    ReadSoFar (image contents) sectorNum
      (p ++ (contents.drop (sectorNum * sectorSize + p.length)).take n) := by
  intro k inside
  by_cases old : k < p.length
  · rw [List.getD_append _ _ _ _ old]
    exact soFar k old
  · rw [List.getD_append_right _ _ _ _ (Nat.le_of_not_lt old), image, List.getD_eq_getElem?_getD,
      List.getD_eq_getElem?_getD]
    rw [List.length_append, List.length_take] at inside
    have place : sectorNum * sectorSize + p.length + (k - p.length) =
        sectorNum * sectorSize + k := by
      rw [Nat.add_assoc, Nat.add_sub_cancel' (Nat.le_of_not_lt old)]
    rw [List.getElem?_take_of_lt (by omega), List.getElem?_drop, place]

/-- A read that is complete, or at the end of the file, has the sector. -/
theorem ReadSoFar.sectorOf_eq {sectorNum : ℕ} {p : List UInt8}
    (soFar : ReadSoFar (image contents) sectorNum p)
    (enough : sectorSize ≤ p.length ∨ contents.length ≤ sectorNum * sectorSize + p.length) :
    sectorOf p = diskimgReadsector (image contents) sectorNum := by
  funext index
  rw [sectorOf, diskimgReadsector]
  by_cases inside : index.val < p.length
  · exact soFar index inside
  · have bound := index.isLt
    rw [List.getD_eq_default _ _ (Nat.le_of_not_lt inside), image,
      List.getD_eq_default _ _ (by omega)]

/-! ## Every session -/

/-- The call that is under way. -/
def current : SectorPc → List SectorCall
  | .idle => []
  | .reading sectorNum _ => [.read sectorNum]
  | .writing sectorNum buf _ => [.write sectorNum buf]

/-- The file agrees with the disk that the calls so far have left. -/
def Agrees (disk : Image) (state : DiskSession) : Prop :=
  match state.pc with
  | .idle => image state.contents = disk
  | .reading sectorNum p =>
      image state.contents = disk ∧ state.offset = sectorNum * sectorSize + p.length ∧
        ReadSoFar disk sectorNum p ∧ p.length < sectorSize
  | .writing sectorNum buf total =>
      image state.contents = partly disk sectorNum buf total ∧
        state.offset = sectorNum * sectorSize + total ∧ total < sectorSize

/-- The calls that have returned have done what they do to a disk of whole sectors. -/
def Refines (contents : List UInt8) (calls : List SectorCall) (state : DiskSession) : Prop :=
  ∃ done, calls = done ++ current state.pc ++ state.calls ∧
    state.results = (SectorCall.run (image contents) done).2 ∧
    Agrees (SectorCall.run (image contents) done).1 state

theorem refines_start (contents : List UInt8) (calls : List SectorCall) (offset : ℕ) :
    Refines contents calls { contents, offset, calls } :=
  ⟨[], rfl, rfl, rfl⟩

/-- A call returns. -/
theorem Refines.returns {done rest : List SectorCall} {call : SectorCall} {next : List UInt8}
    {offset : ℕ} {results : List Sector} (parts : calls = done ++ [call] ++ rest)
    (earlier : results = (SectorCall.run (image contents) done).2)
    (same : image next = call.image (SectorCall.run (image contents) done).1) :
    Refines contents calls
      { contents := next
        offset
        calls := rest
        results := results ++ [call.result (SectorCall.run (image contents) done).1] } := by
  refine ⟨done ++ [call], by rw [parts]; exact (List.append_nil _).symm ▸ rfl, ?_, ?_⟩
  · rw [SectorCall.run_append, earlier]
    rfl
  · rw [SectorCall.run_append]
    exact same

theorem Refines.step (refines : Refines contents calls state) {answer : SectorAnswer}
    (taken : state.step answer = some after) : Refines contents calls after := by
  obtain ⟨done, parts, results, agrees⟩ := refines
  unfold Agrees at agrees
  cases answer with
  | lseek =>
      unfold DiskSession.step at taken
      dsimp only at taken
      split at taken
      · rename_i sectorNum rest pc queue
        rw [pc, queue] at parts
        rw [pc] at agrees
        obtain rfl := Option.some.inj taken
        exact ⟨done, by simpa [current] using parts, results, agrees,
          (Nat.add_zero _).symm, nofun, Nat.zero_lt_succ 511⟩
      · rename_i sectorNum buf rest pc queue
        rw [pc, queue] at parts
        rw [pc] at agrees
        obtain rfl := Option.some.inj taken
        exact ⟨done, by simpa [current] using parts, results,
          agrees.trans (partly_zero _ _ _).symm, (Nat.add_zero _).symm, Nat.zero_lt_succ 511⟩
      · cases taken
  | interrupted =>
      unfold DiskSession.step at taken
      dsimp only at taken
      split at taken
      · cases taken
      all_goals
        rename_i pc
        obtain rfl := Option.some.inj taken
        refine ⟨done, parts, results, ?_⟩
        unfold Agrees
        exact agrees
  | bytes n =>
      unfold DiskSession.step at taken
      dsimp only at taken
      split at taken
      · cases taken
      · rename_i sectorNum p pc
        rw [pc] at parts agrees
        obtain ⟨same, place, soFar, short⟩ := agrees
        split at taken
        · rename_i bounds
          split at taken
          · rename_i zero
            split at taken
            · rename_i ends
              obtain rfl := Option.some.inj taken
              have whole := (same.symm ▸ soFar).sectorOf_eq (.inr (place ▸ ends))
              rw [whole, same]
              exact .returns parts results same
            · cases taken
          · have later := (same.symm ▸ soFar).more (n := n)
            rw [← place, same] at later
            split at taken
            · rename_i more
              obtain rfl := Option.some.inj taken
              refine ⟨done, parts, results, same, ?_, later, more⟩
              rw [List.length_append, List.length_take, List.length_drop,
                Nat.min_eq_left bounds.2, place, Nat.add_assoc]
            · rename_i full
              obtain rfl := Option.some.inj taken
              have whole := (same.symm ▸ later).sectorOf_eq (.inl (Nat.le_of_not_lt full))
              rw [whole, same]
              exact .returns parts results same
        · cases taken
      · rename_i sectorNum buf total pc
        rw [pc] at parts agrees
        obtain ⟨same, place, short⟩ := agrees
        split at taken
        · rename_i bounds
          have moved := partly_more bounds.2 same
          rw [← place] at moved
          split at taken
          · rename_i more
            obtain rfl := Option.some.inj taken
            exact ⟨done, parts, results, moved, by rw [place, Nat.add_assoc], more⟩
          · rename_i full
            obtain rfl := Option.some.inj taken
            have all : total + n = sectorSize := by
              have most := bounds.2
              omega
            rw [all, partly_whole] at moved
            exact .returns parts results moved
        · cases taken

theorem refines_of_reachable (reach : (diskSession contents calls).Reachable .free state) :
    Refines contents calls state := by
  refine reach.invariant (Refines contents calls) ?_ ?_
  · rintro _ ⟨offset, rfl⟩
    exact refines_start contents calls offset
  · exact fun _ _ _ refines _ taken => refines.step taken

/-- What a session has left to do. -/
def left (state : DiskSession) : ℕ :=
  (sectorSize + 1) * state.calls.length + match state.pc with
    | .idle => 0
    | .reading _ p => sectorSize - p.length
    | .writing _ _ total => sectorSize - total

theorem left_of_step (refines : Refines contents calls state) {answer : SectorAnswer}
    (answered : answer ≠ .interrupted) (taken : state.step answer = some after) :
    after.left < state.left := by
  obtain ⟨done, -, -, agrees⟩ := refines
  unfold Agrees at agrees
  unfold left
  cases answer with
  | interrupted => exact absurd rfl answered
  | lseek =>
      unfold DiskSession.step at taken
      dsimp only at taken
      split at taken
      · rename_i pc queue
        obtain rfl := Option.some.inj taken
        rw [pc, queue]
        simp only [List.length_cons, List.length_nil, sectorSize]
        omega
      · rename_i pc queue
        obtain rfl := Option.some.inj taken
        rw [pc, queue]
        simp only [List.length_cons, sectorSize]
        omega
      · cases taken
  | bytes n =>
      unfold DiskSession.step at taken
      dsimp only at taken
      split at taken
      · cases taken
      · rename_i sectorNum p pc
        rw [pc] at agrees
        have short := agrees.2.2.2
        split at taken
        · rename_i bounds
          split at taken
          · split at taken
            · obtain rfl := Option.some.inj taken
              dsimp only
              omega
            · cases taken
          · split at taken
            · obtain rfl := Option.some.inj taken
              simp only [List.length_append, List.length_take, List.length_drop]
              omega
            · obtain rfl := Option.some.inj taken
              dsimp only
              omega
        · cases taken
      · rename_i sectorNum buf total pc
        rw [pc] at agrees
        have short := agrees.2.2
        split at taken
        · split at taken
          · obtain rfl := Option.some.inj taken
            dsimp only
            omega
          · obtain rfl := Option.some.inj taken
            dsimp only
            omega
        · cases taken

/-- A session with something left to do can go on without an interruption. -/
theorem exists_step (refines : Refines contents calls state)
    (more : state.pc ≠ .idle ∨ state.calls ≠ []) :
    ∃ answer, answer ≠ .interrupted ∧ (state.step answer).isSome = true := by
  obtain ⟨done, -, -, agrees⟩ := refines
  unfold Agrees at agrees
  cases pc : state.pc with
  | idle =>
      refine ⟨.lseek, nofun, ?_⟩
      rw [step, pc]
      cases queue : state.calls with
      | nil => exact absurd queue (more.resolve_left fun busy => busy pc)
      | cons call rest => cases call <;> rfl
  | reading sectorNum p =>
      rw [pc] at agrees
      have short := agrees.2.2.2
      by_cases ends : state.contents.length ≤ state.offset
      · refine ⟨.bytes 0, nofun, ?_⟩
        rw [step, pc]
        dsimp only
        rw [if_pos ⟨Nat.zero_le _, Nat.zero_le _⟩, if_pos rfl, if_pos ends]
        rfl
      · refine ⟨.bytes 1, nofun, ?_⟩
        rw [step, pc]
        dsimp only
        rw [if_pos ⟨by omega, by omega⟩, if_neg one_ne_zero]
        split <;> rfl
  | writing sectorNum buf total =>
      rw [pc] at agrees
      have short := agrees.2.2
      refine ⟨.bytes 1, nofun, ?_⟩
      rw [step, pc]
      dsimp only
      rw [if_pos ⟨Nat.one_pos, by omega⟩]
      split <;> rfl

end DiskSession

open DiskSession in
/-- However `read` and `write` cut the sectors, a session does to the file what it does to a disk of
whole sectors, at every point up to the part of a sector that is under way; and it comes to its end
unless it is interrupted for ever. -/
theorem sectors_refine {contents : List UInt8} {calls : List SectorCall} {state : DiskSession}
    (reach : (diskSession contents calls).Reachable .free state) :
    Refines contents calls state ∧
      (diskSession contents calls).Inevitable Uninterrupted
        (fun last => last.results = (SectorCall.run (image contents) calls).2 ∧
          image last.contents = (SectorCall.run (image contents) calls).1) state := by
  have refines := refines_of_reachable reach
  refine ⟨refines, Machine.inevitable_of_measure left (fun state refines => ?_)
    (fun before after (refines : Refines contents calls before) step => ?_) refines⟩
  · by_cases more : state.pc ≠ .idle ∨ state.calls ≠ []
    · obtain ⟨answer, answered, moves⟩ := exists_step refines more
      obtain ⟨next, taken⟩ := Option.isSome_iff_exists.mp moves
      exact .inr ⟨next, answer, answered, taken⟩
    · obtain ⟨idle, none⟩ := not_or.mp more
      obtain ⟨done, parts, results, agrees⟩ := refines
      rw [not_ne_iff.mp idle, not_ne_iff.mp none, current, List.append_nil,
        List.append_nil] at parts
      unfold Agrees at agrees
      rw [not_ne_iff.mp idle] at agrees
      rw [parts]
      exact .inl ⟨results, agrees⟩
  · obtain ⟨answer, answered, taken⟩ := step
    exact ⟨refines.step taken, left_of_step refines answered taken⟩

/-- A write past the end of a short file, then a read of what was there. -/
def gapCalls : List SectorCall := [.write 1 fun _ => 7, .read 0]

theorem sectors_refine_gap :
    ∃ last, (diskSession [1, 2, 3] gapCalls).Reachable .free last ∧
      last.results.map (fun buf => [buf 0, buf 2, buf 3]) = [[7, 7, 7], [1, 3, 0]] ∧
      DiskSession.image last.contents 511 = 0 ∧ DiskSession.image last.contents 512 = 7 := by
  have start : (diskSession [1, 2, 3] gapCalls).Reachable .free
      { contents := [1, 2, 3], offset := 0, calls := gapCalls } := .of_start ⟨0, rfl⟩
  obtain ⟨-, ends⟩ := sectors_refine start
  obtain ⟨last, leads, results, contents⟩ := ends.exists_leads
  refine ⟨last, start.trans (leads.mono fun _ _ _ => trivial), ?_, ?_, ?_⟩
  · rw [results]
    decide +kernel
  · rw [contents]
    decide +kernel
  · rw [contents]
    decide +kernel

end UnixV6
end Syscore
