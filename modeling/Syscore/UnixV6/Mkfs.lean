import Syscore.UnixV6.Reader

/-!
# Building a V6 image

The writer of `mkfs_v6.c`: the bump allocator of data blocks, `put_inode`, `make_file` and
`make_dir`.
-/

namespace Syscore
namespace UnixV6

/-- `NUM_INODE_BLOCKS`. -/
abbrev numInodeBlocks : ℕ := 4

/-- `DATA_START`. -/
abbrev dataStart : ℕ := inodeStartSector + numInodeBlocks

/-- `MAX_COMPONENT_LENGTH`. -/
abbrev maxComponentLength : ℕ := 14

/-- `struct direntv6`. -/
structure Direntv6 where
  dInumber : UInt16
  dName : Fin maxComponentLength → UInt8

/-- The 16 bytes of a packed `struct direntv6`. -/
def Direntv6.bytes (entry : Direntv6) : List UInt8 :=
  u16Bytes entry.dInumber ++ List.ofFn entry.dName

/-- `strncpy(d_name, name, MAX_COMPONENT_LENGTH)`: copied up to the NUL and padded with NULs. -/
def strncpyName (name : List UInt8) : Fin maxComponentLength → UInt8 :=
  fun index => (name.takeWhile (· ≠ 0)).getD index 0

/-- The image under construction: `g_fd`, `g_nextData` and `g_maxBlock`. -/
structure Mkfs where
  image : Image
  nextData : ℕ
  maxBlock : ℕ

/-- `diskimg_writesector`. -/
def diskimgWritesector (image : Image) (sectorNum : ℕ) (buf : Sector) : Image :=
  fun offset =>
    if offset / sectorSize = sectorNum then
      buf ⟨offset % sectorSize, Nat.mod_lt _ (by decide)⟩
    else
      image offset

namespace Mkfs

/-- `wsector`. -/
def wsector (fs : Mkfs) (sec : ℕ) (buf : Sector) : Mkfs :=
  { fs with
    image := diskimgWritesector fs.image sec buf
    maxBlock := if fs.maxBlock < sec then sec else fs.maxBlock }

/-- `alloc_data`, with its side effect. -/
def allocData (fs : Mkfs) : ℕ × Mkfs := (fs.nextData, { fs with nextData := fs.nextData + 1 })

/-- `put_inode`. -/
def putInode (fs : Mkfs) (inumber : ℕ) (inode : Inode) : Mkfs :=
  let index := inumber - 1
  let sector := inodeStartSector + index / inodesPerBlock
  let within := index % inodesPerBlock
  let raw := diskimgReadsector fs.image sector
  fs.wsector sector fun offset =>
    if offset / inodeSize = within then inode.bytes.getD (offset % inodeSize) 0 else raw offset

end Mkfs

/-- An inode after `memset(&in, 0, sizeof in)`. -/
def Inode.zero : Inode where
  iMode := 0
  iNlink := 0
  iUid := 0
  iGid := 0
  iSize0 := 0
  iSize1 := 0
  iAddr _ := 0
  iAtime _ := 0
  iMtime _ := 0

/-- `set_size`. -/
def setSize (inode : Inode) (size : ℕ) : Inode :=
  { inode with
    iSize0 := UInt8.ofNat (size >>> 16 &&& 0xff)
    iSize1 := UInt16.ofNat (size &&& 0xffff) }

/-- `in.i_addr[slot] = d`. -/
def Inode.setAddr (inode : Inode) (slot d : ℕ) : Inode :=
  { inode with
    iAddr := fun other => if other.val = slot then UInt16.ofNat d else inode.iAddr other }

/-- The buffer for block `b` of a file: the chunk of the contents, padded with zeros. -/
def dataBlock (data : List UInt8) (b : ℕ) : Sector :=
  let chunk := min (data.length - b * sectorSize) sectorSize
  fun offset => if offset < chunk then data.getD (b * sectorSize + offset) 0 else 0

/-- An array of pointers as a block. -/
def ptrsBlock (ptrs : ℕ → UInt16) : Sector :=
  fun offset => (u16Bytes (ptrs (offset / 2))).getD (offset % 2) 0

/-- The bytes that `make_dir` lays out: `.`, `..` and the entries. -/
def direntBytes (inumber parentInumber : ℕ) (entries : List Direntv6) : List UInt8 :=
  ({ dInumber := UInt16.ofNat inumber, dName := strncpyName [46] } ::
    { dInumber := UInt16.ofNat parentInumber, dName := strncpyName [46, 46] } ::
    entries).flatMap Direntv6.bytes

namespace Mkfs

/-- One round of the loop of `make_file` over direct blocks. -/
def directStep (data : List UInt8) (state : Mkfs × Inode) (b : ℕ) : Mkfs × Inode :=
  let (d, fs) := state.1.allocData
  (fs.wsector d (dataBlock data b), state.2.setAddr b d)

/-- One round of the inner loop of `make_file`: `ptrs[j]` and `written`. -/
def indirectStep (data : List UInt8) (state : Mkfs × (ℕ → UInt16) × ℕ) (j : ℕ) :
    Mkfs × (ℕ → UInt16) × ℕ :=
  let (fs, ptrs, written) := state
  let (d, fs) := fs.allocData
  (fs.wsector d (dataBlock data written),
    fun other => if other = j then UInt16.ofNat d else ptrs other, written + 1)

/-- The state of the outer loop of `make_file`. -/
structure LargeState where
  fs : Mkfs
  inode : Inode
  remaining : ℕ
  written : ℕ

/-- One round of the outer loop of `make_file`, skipped when nothing remains. -/
def largeStep (data : List UInt8) (state : LargeState) (idx : ℕ) : LargeState :=
  if 0 < state.remaining then
    let here := if state.remaining < ptrsPerBlock then state.remaining else ptrsPerBlock
    let (fs, ptrs, written) :=
      (List.range here).foldl (indirectStep data) (state.fs, fun _ => 0, state.written)
    let (indblk, fs) := fs.allocData
    { fs := fs.wsector indblk (ptrsBlock ptrs)
      inode := state.inode.setAddr idx indblk
      remaining := state.remaining - here
      written }
  else
    state

/-- `make_file`. -/
def makeFile (fs : Mkfs) (inumber : ℕ) (data : List UInt8) : Mkfs :=
  let size := data.length
  let inode := setSize { Inode.zero with iMode := ialloc, iNlink := 1 } size
  let nblocks := (size + sectorSize - 1) / sectorSize
  if nblocks ≤ 8 then
    let (fs, inode) := (List.range nblocks).foldl (directStep data) (fs, inode)
    fs.putInode inumber inode
  else
    let inode := { inode with iMode := inode.iMode ||| ilarg }
    let done := (List.range 7).foldl (largeStep data) ⟨fs, inode, nblocks, 0⟩
    done.fs.putInode inumber done.inode

/-- `make_dir`; more than 30 entries would overrun its buffer. -/
def makeDir (fs : Mkfs) (inumber parentInumber : ℕ) (entries : List Direntv6) : Mkfs :=
  let total := entries.length + 2
  let size := total * 16
  let buf : Sector := fun offset => (direntBytes inumber parentInumber entries).getD offset 0
  let (d, fs) := fs.allocData
  let fs := fs.wsector d buf
  let inode := setSize { Inode.zero with iMode := ialloc ||| ifdir, iNlink := 2 } size
  fs.putInode inumber (inode.setAddr 0 d)

/-- The image that `main` starts from: blocks `0..DATA_START-1` zeroed. -/
def start (image : Image) : Mkfs :=
  (List.range dataStart).foldl (fun fs b => fs.wsector b fun _ => 0)
    { image, nextData := dataStart, maxBlock := 0 }

/-- A call of one of the three writers. -/
inductive Op
  | makeFile (inumber : ℕ) (data : List UInt8)
  | makeDir (inumber parentInumber : ℕ) (entries : List Direntv6)
  | putInode (inumber : ℕ) (inode : Inode)

/-- The inode that a call writes. -/
def Op.inumber : Op → ℕ
  | .makeFile inumber _ | .makeDir inumber _ _ | .putInode inumber _ => inumber

/-- Make one call. -/
def apply (fs : Mkfs) : Op → Mkfs
  | .makeFile inumber data => fs.makeFile inumber data
  | .makeDir inumber parentInumber entries => fs.makeDir inumber parentInumber entries
  | .putInode inumber inode => fs.putInode inumber inode

/-- Make a sequence of calls. -/
def run (fs : Mkfs) (ops : List Op) : Mkfs := ops.foldl apply fs

end Mkfs

end UnixV6
end Syscore
