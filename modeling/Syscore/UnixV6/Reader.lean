import Mathlib.Tactic.FinCases
import Syscore.Library.Bytes

/-!
# Reading a V6 image

The on-disk records of `unixfilesystem.h` and the reader built on them: `diskimg_readsector`,
`inode_iget`, `inode_getsize`, `inode_indexlookup` and `file_getblock`. An image is its byte at
every offset, with zeros past the end of the file: that is what `diskimg_readsector` hands out. A
`-1` is `none`.
-/

namespace Syscore
namespace UnixV6

/-- `DISKIMG_SECTOR_SIZE`. -/
abbrev sectorSize : ℕ := 512

/-- `INODE_SIZE`. -/
abbrev inodeSize : ℕ := 32

/-- `INODES_PER_BLOCK`. -/
abbrev inodesPerBlock : ℕ := sectorSize / inodeSize

/-- `INODE_START_SECTOR`. -/
abbrev inodeStartSector : ℕ := 2

/-- `PTRS_PER_BLOCK`. -/
abbrev ptrsPerBlock : ℕ := sectorSize / 2

/-- `IALLOC`. -/
def ialloc : UInt16 := 0o100000

/-- `IFDIR`. -/
def ifdir : UInt16 := 0o040000

/-- `ILARG`. -/
def ilarg : UInt16 := 0o010000

/-- One block of an image. -/
abbrev Sector := Fin sectorSize → UInt8

/-- A disk image. -/
abbrev Image := ℕ → UInt8

/-- `struct inode`. -/
structure Inode where
  iMode : UInt16
  iNlink : UInt8
  iUid : UInt8
  iGid : UInt8
  /-- The high 8 bits of the size. -/
  iSize0 : UInt8
  /-- The low 16 bits of the size. -/
  iSize1 : UInt16
  /-- The block map, direct or indirect. -/
  iAddr : Fin 8 → UInt16
  iAtime : Fin 2 → UInt16
  iMtime : Fin 2 → UInt16

/-- A `uint16_t` in memory. -/
def u16Bytes (value : UInt16) : List UInt8 := leBytes 2 value.toNat

/-- The `uint16_t` at an offset of a buffer. -/
def u16At (raw : ℕ → UInt8) (offset : ℕ) : UInt16 :=
  UInt16.ofNat (leValue [raw offset, raw (offset + 1)])

namespace Inode

/-- The 32 bytes of a packed `struct inode`. -/
def bytes (inode : Inode) : List UInt8 :=
  u16Bytes inode.iMode ++ [inode.iNlink, inode.iUid, inode.iGid, inode.iSize0] ++
    u16Bytes inode.iSize1 ++ (List.ofFn inode.iAddr).flatMap u16Bytes ++
    (List.ofFn inode.iAtime).flatMap u16Bytes ++ (List.ofFn inode.iMtime).flatMap u16Bytes

/-- The `struct inode` at the start of a buffer. -/
def ofBytes (raw : ℕ → UInt8) : Inode where
  iMode := u16At raw 0
  iNlink := raw 2
  iUid := raw 3
  iGid := raw 4
  iSize0 := raw 5
  iSize1 := u16At raw 6
  iAddr slot := u16At raw (8 + 2 * slot)
  iAtime half := u16At raw (24 + 2 * half)
  iMtime half := u16At raw (28 + 2 * half)

end Inode

/-- The byte of a sector at an offset, for the views of a sector as an array of records. -/
def Sector.byte (sector : Sector) (offset : ℕ) : UInt8 :=
  if inside : offset < sectorSize then sector ⟨offset, inside⟩ else 0

/-- `diskimg_readsector`. -/
def diskimgReadsector (image : Image) (sectorNum : ℕ) : Sector :=
  fun index => image (sectorNum * sectorSize + index)

/-- `inode_iget`. -/
def inodeIget (image : Image) (inumber : ℤ) : Option Inode :=
  if inumber < 1 then
    none
  else
    let index := (inumber - 1).toNat
    let sector := inodeStartSector + index / inodesPerBlock
    let within := index % inodesPerBlock
    let block := diskimgReadsector image sector
    some (.ofBytes fun offset => block.byte (within * inodeSize + offset))

/-- `inode_getsize`. -/
def inodeGetsize (inode : Inode) : ℕ := inode.iSize0.toNat <<< 16 ||| inode.iSize1.toNat

/-- Pointer number `index` of an indirect block. -/
def indirectPtr (sector : Sector) (index : ℕ) : ℕ := (u16At sector.byte (2 * index)).toNat

/-- The block map slot `index` of an inode. -/
def Inode.addr (inode : Inode) (index : ℕ) : ℕ :=
  if inside : index < 8 then (inode.iAddr ⟨index, inside⟩).toNat else 0

/-- `inode_indexlookup`. -/
def inodeIndexlookup (image : Image) (inode : Inode) (blockNum : ℤ) : Option ℕ :=
  if blockNum < 0 then
    none
  else
    let blockNum := blockNum.toNat
    if inode.iMode &&& ilarg = 0 then
      if 8 ≤ blockNum then none else some (inode.addr blockNum)
    else if blockNum < 7 * ptrsPerBlock then
      let idx := blockNum / ptrsPerBlock
      let off := blockNum % ptrsPerBlock
      if inode.addr idx = 0 then
        none
      else
        some (indirectPtr (diskimgReadsector image (inode.addr idx)) off)
    else
      let d := blockNum - 7 * ptrsPerBlock
      let firstIdx := d / ptrsPerBlock
      let secondIdx := d % ptrsPerBlock
      if ptrsPerBlock ≤ firstIdx then
        none
      else if inode.addr 7 = 0 then
        none
      else
        let l1 := indirectPtr (diskimgReadsector image (inode.addr 7)) firstIdx
        if l1 = 0 then
          none
        else
          some (indirectPtr (diskimgReadsector image l1) secondIdx)

/-- `file_getblock`: the number of valid bytes and the block. -/
def fileGetblock (image : Image) (inumber blockNum : ℤ) : Option (ℕ × Sector) :=
  match inodeIget image inumber with
  | none => none
  | some inode =>
      match inodeIndexlookup image inode blockNum with
      | none => none
      | some sector =>
          if sector = 0 then
            none
          else
            let size := inodeGetsize inode
            let fullBlocks := size / sectorSize
            let tail := size % sectorSize
            let valid :=
              if blockNum < fullBlocks then sectorSize
              else if tail = 0 then sectorSize else tail
            some (valid, diskimgReadsector image sector)

/-! ## Records in memory -/

theorem Sector.byte_of_lt (sector : Sector) {offset : ℕ} (inside : offset < sectorSize) :
    sector.byte offset = sector ⟨offset, inside⟩ :=
  dif_pos inside

theorem u16At_bytes (value : UInt16) (raw : ℕ → UInt8) (offset : ℕ)
    (low : raw offset = (u16Bytes value).getD 0 0)
    (high : raw (offset + 1) = (u16Bytes value).getD 1 0) : u16At raw offset = value := by
  have both : [raw offset, raw (offset + 1)] = u16Bytes value := by
    rw [low, high]
    rfl
  have fits : value.toNat < 256 ^ 2 := value.toNat_lt
  unfold u16At
  rw [both, u16Bytes, leValue_leBytes_of_lt fits, UInt16.ofNat_toNat]

@[simp]
theorem length_u16Bytes (value : UInt16) : (u16Bytes value).length = 2 := length_leBytes 2 _

/-- A packed inode reads back as itself. -/
theorem Inode.ofBytes_bytes (inode : Inode) :
    Inode.ofBytes (fun offset => inode.bytes.getD offset 0) = inode := by
  have addr : ∀ slot : Fin 8,
      u16At (fun offset => inode.bytes.getD offset 0) (8 + 2 * slot) = inode.iAddr slot := by
    intro slot
    fin_cases slot <;> exact u16At_bytes _ _ _ rfl rfl
  have atime : ∀ half : Fin 2,
      u16At (fun offset => inode.bytes.getD offset 0) (24 + 2 * half) = inode.iAtime half := by
    intro half
    fin_cases half <;> exact u16At_bytes _ _ _ rfl rfl
  have mtime : ∀ half : Fin 2,
      u16At (fun offset => inode.bytes.getD offset 0) (28 + 2 * half) = inode.iMtime half := by
    intro half
    fin_cases half <;> exact u16At_bytes _ _ _ rfl rfl
  have mode : u16At (fun offset => inode.bytes.getD offset 0) 0 = inode.iMode :=
    u16At_bytes _ _ _ rfl rfl
  have size1 : u16At (fun offset => inode.bytes.getD offset 0) 6 = inode.iSize1 :=
    u16At_bytes _ _ _ rfl rfl
  unfold Inode.ofBytes
  rw [mode, size1, funext addr, funext atime, funext mtime]
  rfl

end UnixV6
end Syscore
