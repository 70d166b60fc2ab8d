import Syscore.UnixV6.Mkfs

/-!
# What the writer leaves in the blocks

The loops of `make_file` write fresh blocks only. This file follows them: which blocks they fill,
which pointers they record, and that every block allocated before is left alone.
-/

namespace Syscore
namespace UnixV6

/-! ## Sectors -/

theorem readsector_writesector (image : Image) (sec other : ℕ) (buf : Sector) :
    diskimgReadsector (diskimgWritesector image sec buf) other =
      if other = sec then buf else diskimgReadsector image other := by
  funext index
  have inside := index.isLt
  have quotient : (other * sectorSize + index) / sectorSize = other := by
    rw [Nat.mul_comm, Nat.mul_add_div (by decide), Nat.div_eq_of_lt inside, add_zero]
  have remainder : (other * sectorSize + index) % sectorSize = index := by
    rw [Nat.mul_comm, Nat.mul_add_mod, Nat.mod_eq_of_lt inside]
  unfold diskimgReadsector diskimgWritesector
  simp only [quotient, remainder]
  split <;> rfl

namespace Mkfs

variable {fs later : Mkfs}

theorem readsector_wsector (fs : Mkfs) (sec other : ℕ) (buf : Sector) :
    diskimgReadsector (fs.wsector sec buf).image other =
      if other = sec then buf else diskimgReadsector fs.image other :=
  readsector_writesector fs.image sec other buf

/-- Later stages keep every block that was allocated before. -/
structure Extends (fs later : Mkfs) : Prop where
  nextData : fs.nextData ≤ later.nextData
  kept : ∀ sec < fs.nextData, diskimgReadsector later.image sec = diskimgReadsector fs.image sec

theorem Extends.refl (fs : Mkfs) : fs.Extends fs := ⟨le_rfl, fun _ _ => rfl⟩

theorem Extends.trans {last : Mkfs} (first : fs.Extends later) (second : later.Extends last) :
    fs.Extends last where
  nextData := first.nextData.trans second.nextData
  kept sec old := by
    rw [second.kept sec (old.trans_le first.nextData), first.kept sec old]

/-- Write a fresh block. -/
def push (fs : Mkfs) (buf : Sector) : Mkfs := fs.allocData.2.wsector fs.allocData.1 buf

@[simp]
theorem nextData_push (fs : Mkfs) (buf : Sector) : (fs.push buf).nextData = fs.nextData + 1 := rfl

theorem readsector_push (fs : Mkfs) (buf : Sector) :
    diskimgReadsector (fs.push buf).image fs.nextData = buf := by
  unfold push
  rw [readsector_wsector]
  exact if_pos rfl

theorem extends_push (fs : Mkfs) (buf : Sector) : fs.Extends (fs.push buf) where
  nextData := Nat.le_succ _
  kept sec old := by
    unfold push
    rw [readsector_wsector]
    exact if_neg (Nat.ne_of_lt old)

/-- Blocks `first, first + 1, …` hold the contents from block `from` on. -/
def HoldsRun (later : Mkfs) (data : List UInt8) (first offset count : ℕ) : Prop :=
  ∀ k < count, diskimgReadsector later.image (first + k) = dataBlock data (offset + k)

theorem HoldsRun.extend {data : List UInt8} {first offset count : ℕ}
    (holds : fs.HoldsRun data first offset count) (old : first + count ≤ fs.nextData)
    (grown : fs.Extends later) : later.HoldsRun data first offset count := by
  intro k inside
  rw [grown.kept (first + k) (by omega), holds k inside]

/-- The next block of the contents goes into the next fresh block. -/
theorem HoldsRun.push {data : List UInt8} {first offset count : ℕ}
    (holds : fs.HoldsRun data first offset count) (next : first + count = fs.nextData) :
    (fs.push (dataBlock data (offset + count))).HoldsRun data first offset (count + 1) := by
  intro k inside
  rcases Nat.lt_succ_iff_lt_or_eq.mp inside with before | rfl
  · exact holds.extend next.le (extends_push fs _) k before
  · rw [next, readsector_push]

end Mkfs

/-! ## Pointers -/

theorem toNat_ofNat_of_lt {value : ℕ} (fits : value < 65536) :
    (UInt16.ofNat value).toNat = value := by
  simpa using Nat.mod_eq_of_lt fits

theorem addr_setAddr (inode : Inode) (slot d other : ℕ) (inside : slot < 8) (fits : d < 65536) :
    (inode.setAddr slot d).addr other = if other = slot then d else inode.addr other := by
  unfold Inode.addr Inode.setAddr
  split
  · simp only
    split
    · exact toNat_ofNat_of_lt fits
    · rfl
  · rename_i outside
    rw [if_neg (by omega)]

/-- A pointer block reads back as its array. -/
theorem indirectPtr_ptrsBlock (ptrs : ℕ → UInt16) {index : ℕ} (inside : index < ptrsPerBlock) :
    indirectPtr (ptrsBlock ptrs) index = (ptrs index).toNat := by
  have bound : index < 256 := inside
  have low : 2 * index < 512 := by omega
  have high : 2 * index + 1 < 512 := by omega
  unfold indirectPtr
  rw [u16At_bytes (ptrs index)]
  · simp [Sector.byte, ptrsBlock, low]
  · have half : (2 * index + 1) / 2 = index := by omega
    have odd : (2 * index + 1) % 2 = 1 := by omega
    simp [Sector.byte, ptrsBlock, high, half, odd]

/-! ## The loop over direct blocks -/

/-- What the loop over direct blocks has done after `count` rounds. -/
structure DirectLoop (fs : Mkfs) (inode : Inode) (data : List UInt8) (count : ℕ)
    (state : Mkfs × Inode) : Prop where
  grown : fs.Extends state.1
  nextData : state.1.nextData = fs.nextData + count
  blocks : state.1.HoldsRun data fs.nextData 0 count
  addr : state.1.nextData ≤ 65536 → ∀ slot,
    state.2.addr slot = if slot < count then fs.nextData + slot else inode.addr slot
  mode : state.2.iMode = inode.iMode
  size : inodeGetsize state.2 = inodeGetsize inode

theorem directLoop (fs : Mkfs) (inode : Inode) (data : List UInt8) {count : ℕ} (few : count ≤ 8) :
    DirectLoop fs inode data count
      ((List.range count).foldl (Mkfs.directStep data) (fs, inode)) := by
  induction count with
  | zero =>
      exact ⟨.refl fs, rfl, fun k inside => absurd inside (Nat.not_lt_zero k), by simp, rfl, rfl⟩
  | succ count ih =>
      have ih := ih (by omega)
      rw [List.range_succ, List.foldl_append, List.foldl_cons, List.foldl_nil]
      generalize (List.range count).foldl (Mkfs.directStep data) (fs, inode) = state at ih
      obtain ⟨middle, changed⟩ := state
      have next := ih.nextData
      refine ⟨ih.grown.trans (Mkfs.extends_push middle _), ?_, ?_, ?_, ih.mode, ih.size⟩
      · exact congrArg (· + 1) next
      · have holds := ih.blocks.push next.symm
        rwa [Nat.zero_add] at holds
      · intro fits slot
        have fits : middle.nextData + 1 ≤ 65536 := fits
        have before := ih.addr (by simp only; omega) slot
        have set := addr_setAddr changed count middle.nextData slot (by omega) (by omega)
        refine set.trans ?_
        simp only at before next
        rw [before]
        split_ifs <;> omega

/-! ## The loops over indirect blocks -/

/-- What the inner loop has done after `count` rounds. -/
structure InnerLoop (fs : Mkfs) (data : List UInt8) (written count : ℕ)
    (state : Mkfs × (ℕ → UInt16) × ℕ) : Prop where
  grown : fs.Extends state.1
  nextData : state.1.nextData = fs.nextData + count
  blocks : state.1.HoldsRun data fs.nextData written count
  ptrs : state.1.nextData ≤ 65536 → ∀ k,
    (state.2.1 k).toNat = if k < count then fs.nextData + k else 0
  written : state.2.2 = written + count

theorem innerLoop (fs : Mkfs) (data : List UInt8) (written count : ℕ) :
    InnerLoop fs data written count
      ((List.range count).foldl (Mkfs.indirectStep data) (fs, fun _ => 0, written)) := by
  induction count with
  | zero => exact ⟨.refl fs, rfl, fun k inside => absurd inside (Nat.not_lt_zero k), by simp, rfl⟩
  | succ count ih =>
      rw [List.range_succ, List.foldl_append, List.foldl_cons, List.foldl_nil]
      generalize (List.range count).foldl (Mkfs.indirectStep data) (fs, fun _ => 0, written) = state
        at ih
      obtain ⟨middle, ptrs, position⟩ := state
      have next := ih.nextData
      obtain rfl : position = written + count := ih.written
      refine ⟨ih.grown.trans (Mkfs.extends_push middle _), congrArg (· + 1) next,
        ih.blocks.push next.symm, ?_, rfl⟩
      intro fits k
      have fits : middle.nextData + 1 ≤ 65536 := fits
      have before := ih.ptrs (by simp only; omega) k
      simp only [Mkfs.indirectStep, Mkfs.allocData] at before next ⊢
      split_ifs with same inside inside
      · rw [toNat_ofNat_of_lt (by omega)]
        omega
      · omega
      · rw [before, if_pos (by omega)]
      · rw [before, if_neg (by omega)]

/-- Slot `slot` of a large block map leads to the blocks `256 * slot, …` below `nblocks`. -/
structure MapsGroup (fs later : Mkfs) (data : List UInt8) (nblocks slot indblk : ℕ) : Prop where
  fresh : fs.nextData ≤ indblk ∧ indblk < later.nextData
  blocks : ∀ k < ptrsPerBlock, ptrsPerBlock * slot + k < nblocks →
    fs.nextData ≤ indirectPtr (diskimgReadsector later.image indblk) k ∧
      indirectPtr (diskimgReadsector later.image indblk) k < later.nextData ∧
      diskimgReadsector later.image (indirectPtr (diskimgReadsector later.image indblk) k) =
        dataBlock data (ptrsPerBlock * slot + k)
  beyond : ∀ k < ptrsPerBlock, nblocks ≤ ptrsPerBlock * slot + k →
    indirectPtr (diskimgReadsector later.image indblk) k = 0

theorem MapsGroup.extend {fs later last : Mkfs} {data : List UInt8} {nblocks slot indblk : ℕ}
    (maps : MapsGroup fs later data nblocks slot indblk) (grown : later.Extends last) :
    MapsGroup fs last data nblocks slot indblk := by
  have same := grown.kept indblk maps.fresh.2
  refine ⟨⟨maps.fresh.1, maps.fresh.2.trans_le grown.nextData⟩, ?_, ?_⟩
  · intro k inside used
    obtain ⟨above, below, block⟩ := maps.blocks k inside used
    rw [same, grown.kept _ below]
    exact ⟨above, below.trans_le grown.nextData, block⟩
  · intro k inside unused
    rw [same]
    exact maps.beyond k inside unused

/-- What the outer loop has done after `count` rounds. -/
structure LargeLoop (fs : Mkfs) (inode : Inode) (data : List UInt8) (nblocks count : ℕ)
    (state : Mkfs.LargeState) : Prop where
  grown : fs.Extends state.fs
  remaining : state.remaining = nblocks - ptrsPerBlock * count
  written : state.written = min nblocks (ptrsPerBlock * count)
  groups : state.fs.nextData ≤ 65536 → ∀ slot < count, ptrsPerBlock * slot < nblocks →
    MapsGroup fs state.fs data nblocks slot (state.inode.addr slot)
  empty : state.fs.nextData ≤ 65536 → ∀ slot, (count ≤ slot ∨ nblocks ≤ ptrsPerBlock * slot) →
    state.inode.addr slot = inode.addr slot
  mode : state.inode.iMode = inode.iMode
  size : inodeGetsize state.inode = inodeGetsize inode

/-- One group: its blocks, then the block of their pointers. -/
theorem mapsGroup_of_inner {fs middle : Mkfs} {data : List UInt8} {nblocks slot here : ℕ}
    {state : Mkfs × (ℕ → UInt16) × ℕ} (grown : fs.Extends middle)
    (inner : InnerLoop middle data (256 * slot) here state)
    (here_eq : here = min (nblocks - 256 * slot) 256) (more : 256 * slot < nblocks)
    (fits : (state.1.push (ptrsBlock state.2.1)).nextData ≤ 65536) :
    MapsGroup fs (state.1.push (ptrsBlock state.2.1)) data nblocks slot state.1.nextData := by
  have old := grown.nextData
  have next := inner.nextData
  have small : state.1.nextData + 1 ≤ 65536 := fits
  have block := Mkfs.readsector_push state.1 (ptrsBlock state.2.1)
  have ptrs := inner.ptrs (by omega)
  refine ⟨⟨by omega, Nat.lt_succ_self _⟩, ?_, ?_⟩
  · intro k inside used
    have bound : k < 256 := inside
    have used : 256 * slot + k < nblocks := used
    rw [block, indirectPtr_ptrsBlock _ inside, ptrs k, if_pos (by omega), Mkfs.nextData_push]
    refine ⟨by omega, by omega, ?_⟩
    have holds := inner.blocks.extend next.ge (Mkfs.extends_push state.1 (ptrsBlock state.2.1))
    exact holds k (by omega)
  · intro k inside unused
    have bound : k < 256 := inside
    have unused : nblocks ≤ 256 * slot + k := unused
    rw [block, indirectPtr_ptrsBlock _ inside, ptrs k, if_neg (by omega)]

theorem largeLoop (fs : Mkfs) (inode : Inode) (data : List UInt8) (nblocks : ℕ) {count : ℕ}
    (few : count ≤ 7) :
    LargeLoop fs inode data nblocks count
      ((List.range count).foldl (Mkfs.largeStep data) ⟨fs, inode, nblocks, 0⟩) := by
  induction count with
  | zero =>
      exact ⟨.refl fs, by simp, by simp, fun _ slot inside => absurd inside (Nat.not_lt_zero slot),
        fun _ _ _ => rfl, rfl, rfl⟩
  | succ count ih =>
      have ih := ih (by omega)
      rw [List.range_succ, List.foldl_append, List.foldl_cons, List.foldl_nil]
      generalize (List.range count).foldl (Mkfs.largeStep data) ⟨fs, inode, nblocks, 0⟩ = state
        at ih
      obtain ⟨middle, changed, remaining, written⟩ := state
      obtain rfl : remaining = nblocks - 256 * count := ih.remaining
      obtain rfl : written = min nblocks (256 * count) := ih.written
      unfold Mkfs.largeStep
      by_cases more : 0 < nblocks - 256 * count
      · simp only [more, if_true]
        have from_eq : min nblocks (256 * count) = 256 * count := by omega
        generalize here_eq : (if nblocks - 256 * count < 256 then nblocks - 256 * count else 256) =
          here
        have here_min : here = min (nblocks - 256 * count) 256 := by
          rw [← here_eq]
          split_ifs <;> omega
        rw [from_eq]
        have inner := innerLoop middle data (256 * count) here
        generalize (List.range here).foldl (Mkfs.indirectStep data)
          (middle, fun _ => 0, 256 * count) = state at inner
        obtain ⟨filled, ptrs, position⟩ := state
        obtain rfl : position = 256 * count + here := inner.written
        have grown := inner.grown.trans (Mkfs.extends_push filled (ptrsBlock ptrs))
        have monotone : middle.nextData ≤ filled.nextData + 1 := grown.nextData
        refine ⟨ih.grown.trans grown, ?_, ?_, ?_, ?_, ih.mode, ih.size⟩
        · change nblocks - 256 * count - here = nblocks - 256 * (count + 1)
          omega
        · change 256 * count + here = min nblocks (256 * (count + 1))
          omega
        · intro fits slot inside used
          have fits : filled.nextData + 1 ≤ 65536 := fits
          have used : 256 * slot < nblocks := used
          have set := addr_setAddr changed count filled.nextData slot (by omega) (by omega)
          rcases Nat.lt_succ_iff_lt_or_eq.mp inside with before | rfl
          · rw [if_neg (by omega)] at set
            have maps := ih.groups (monotone.trans fits) slot before used
            exact set ▸ maps.extend grown
          · rw [if_pos rfl] at set
            exact set ▸ mapsGroup_of_inner ih.grown inner here_min (by omega) fits
        · intro fits slot outside
          have fits : filled.nextData + 1 ≤ 65536 := fits
          have outside : count + 1 ≤ slot ∨ nblocks ≤ 256 * slot := outside
          have set := addr_setAddr changed count filled.nextData slot (by omega) (by omega)
          rw [if_neg (by omega)] at set
          refine set.trans (ih.empty (monotone.trans fits) slot ?_)
          change count ≤ slot ∨ nblocks ≤ 256 * slot
          omega
      · simp only [more, if_false]
        refine ⟨ih.grown, ?_, ?_, ?_, ?_, ih.mode, ih.size⟩
        · change nblocks - 256 * count = nblocks - 256 * (count + 1)
          omega
        · change min nblocks (256 * count) = min nblocks (256 * (count + 1))
          omega
        · intro fits slot inside used
          have used : 256 * slot < nblocks := used
          exact ih.groups fits slot (by omega) used
        · intro fits slot outside
          have outside : count + 1 ≤ slot ∨ nblocks ≤ 256 * slot := outside
          refine ih.empty fits slot ?_
          change count ≤ slot ∨ nblocks ≤ 256 * slot
          omega

end UnixV6
end Syscore
