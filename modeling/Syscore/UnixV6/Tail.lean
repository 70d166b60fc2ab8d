import Syscore.UnixV6.Blocks

/-!
# The byte count of a block

`file_getblock` tells a full block from the last one, but not the last block from those behind the
end of the file: there it trusts the block map.
-/

namespace Syscore
namespace UnixV6

/-- The bytes of a file of this size in a block; behind the end of the file the number is
negative. -/
def bytesInBlock (size : ℕ) (blockNum : ℤ) : ℤ := min sectorSize (size - sectorSize * blockNum)

/-- What `file_getblock` reports is the number of the file's bytes in the block, and nothing is
reported for a block at or behind the end of the file. -/
def HonestCount (image : Image) (inumber blockNum : ℤ) : Prop :=
  ∀ inode valid block, inodeIget image inumber = some inode →
    fileGetblock image inumber blockNum = some (valid, block) →
      (valid : ℤ) = bytesInBlock (inodeGetsize inode) blockNum ∧
        ((inodeGetsize inode : ℤ) ≤ sectorSize * blockNum → ¬ 0 < valid)

/-- A block that the block map leads to begins before the end of the file. -/
def MapWithinSize (image : Image) (inumber blockNum : ℤ) : Prop :=
  ∀ inode sector, inodeIget image inumber = some inode →
    inodeIndexlookup image inode blockNum = some sector → sector ≠ 0 →
      sectorSize * blockNum < inodeGetsize inode

/-- The number that `file_getblock` computes from the size. -/
def validBytes (size : ℕ) (blockNum : ℤ) : ℕ :=
  if blockNum < (size / sectorSize : ℕ) then sectorSize
  else if size % sectorSize = 0 then sectorSize else size % sectorSize

/-- What `file_getblock` returns, in terms of the inode and the block map. -/
theorem fileGetblock_eq_some_iff {image : Image} {inumber blockNum : ℤ} {inode : Inode}
    (found : inodeIget image inumber = some inode) {valid : ℕ} {block : Sector} :
    fileGetblock image inumber blockNum = some (valid, block) ↔
      ∃ sector, inodeIndexlookup image inode blockNum = some sector ∧ sector ≠ 0 ∧
        valid = validBytes (inodeGetsize inode) blockNum ∧
          block = diskimgReadsector image sector := by
  rw [fileGetblock, found]
  cases mapped : inodeIndexlookup image inode blockNum with
  | none => simp [mapped]
  | some sector =>
      by_cases hole : sector = 0
      · simp [mapped, hole]
      · simp [mapped, hole, validBytes, eq_comm]

theorem validBytes_pos (size : ℕ) (blockNum : ℤ) : 0 < validBytes size blockNum := by
  simp only [validBytes, sectorSize]
  split_ifs <;> omega

/-- Before the end of the file the number is right. -/
theorem validBytes_eq {size : ℕ} {blockNum : ℤ} (before : sectorSize * blockNum < size) :
    (validBytes size blockNum : ℤ) = bytesInBlock size blockNum := by
  simp only [sectorSize] at before
  simp only [validBytes, bytesInBlock, sectorSize]
  split_ifs <;> omega

/-- The count is honest just when the block map does not lead behind the end of the file. -/
theorem getblock_honest_iff (image : Image) (inumber blockNum : ℤ) :
    HonestCount image inumber blockNum ↔ MapWithinSize image inumber blockNum := by
  constructor
  · intro honest inode sector found mapped present
    have returned := (fileGetblock_eq_some_iff found).mpr ⟨sector, mapped, present, rfl, rfl⟩
    have positive := validBytes_pos (inodeGetsize inode) blockNum
    by_contra behind
    exact (honest inode _ _ found returned).2 (not_lt.mp behind) positive
  · intro within inode valid block found returned
    obtain ⟨sector, mapped, present, rfl, _⟩ := (fileGetblock_eq_some_iff found).mp returned
    have before := within inode sector found mapped present
    exact ⟨validBytes_eq before, fun behind => absurd before (not_lt.mpr behind)⟩

/-- An image whose first inode is an empty file with a pointer to block 6 left in its map. -/
def stalePointer : Image := fun offset => if offset = 2 * sectorSize + 8 then 6 else 0

/-- Of the empty file 512 bytes are reported. -/
theorem getblock_stalePointer :
    (inodeIget stalePointer 1).map inodeGetsize = some 0 ∧
      (fileGetblock stalePointer 1 0).map Prod.fst = some 512 ∧ ¬ HonestCount stalePointer 1 0 := by
  have empty : (inodeIget stalePointer 1).map inodeGetsize = some 0 := by decide +kernel
  have reported : (fileGetblock stalePointer 1 0).map Prod.fst = some 512 := by decide +kernel
  refine ⟨empty, reported, fun honest => ?_⟩
  obtain ⟨inode, found, size⟩ := Option.map_eq_some_iff.mp empty
  obtain ⟨⟨valid, block⟩, returned, positive⟩ := Option.map_eq_some_iff.mp reported
  have none := (honest inode valid block found returned).2
  simp only at positive
  rw [size, positive] at none
  exact none (by decide) (by decide)

end UnixV6
end Syscore
