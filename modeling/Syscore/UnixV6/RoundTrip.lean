import Mathlib.Algebra.Group.Action.Defs
import Mathlib.Data.List.GetD
import Syscore.UnixV6.Blocks

/-!
# What is written is read back

A file stored by `make_file` reads back as it was written, and no later call of a writer for another
inode changes what is read.
-/

namespace Syscore
namespace UnixV6

/-! ## Inode slots -/

theorem u16At_congr {raw raw' : ℕ → UInt8} {offset : ℕ} (low : raw offset = raw' offset)
    (high : raw (offset + 1) = raw' (offset + 1)) : u16At raw offset = u16At raw' offset := by
  unfold u16At
  rw [low, high]

/-- Only the first 32 bytes of a buffer make its inode. -/
theorem ofBytes_congr {raw raw' : ℕ → UInt8}
    (same : ∀ offset < inodeSize, raw offset = raw' offset) :
    Inode.ofBytes raw = Inode.ofBytes raw' := by
  have half (offset : ℕ) (inside : offset + 1 < 32) : u16At raw offset = u16At raw' offset :=
    u16At_congr (same offset (Nat.lt_of_succ_lt inside)) (same (offset + 1) inside)
  have addr : (fun slot : Fin 8 => u16At raw (8 + 2 * slot)) =
      fun slot : Fin 8 => u16At raw' (8 + 2 * slot) :=
    funext fun slot => half _ (by omega)
  have atime : (fun index : Fin 2 => u16At raw (24 + 2 * index)) =
      fun index : Fin 2 => u16At raw' (24 + 2 * index) :=
    funext fun index => half _ (by omega)
  have mtime : (fun index : Fin 2 => u16At raw (28 + 2 * index)) =
      fun index : Fin 2 => u16At raw' (28 + 2 * index) :=
    funext fun index => half _ (by omega)
  unfold Inode.ofBytes
  rw [half 0 (by omega), half 6 (by omega), addr, atime, mtime, same 2 (by decide),
    same 3 (by decide), same 4 (by decide), same 5 (by decide)]

/-- The sector that holds an inode. -/
def inodeSector (inumber : ℕ) : ℕ := inodeStartSector + (inumber - 1) / inodesPerBlock

theorem inodeSector_lt {inumber : ℕ} (small : inumber ≤ 64) : inodeSector inumber < dataStart := by
  change 2 + (inumber - 1) / 16 < 6
  omega

theorem inodeIget_of_pos (image : Image) {inumber : ℕ} (positive : 1 ≤ inumber) :
    inodeIget image inumber =
      some (.ofBytes fun offset => (diskimgReadsector image (inodeSector inumber)).byte
        ((inumber - 1) % inodesPerBlock * inodeSize + offset)) := by
  have index : ((inumber : ℤ) - 1).toNat = inumber - 1 := by omega
  unfold inodeIget
  rw [if_neg (by omega), index]
  rfl

theorem inodeIget_congr {image image' : Image} {inumber : ℕ} (positive : 1 ≤ inumber)
    (same : diskimgReadsector image' (inodeSector inumber) =
      diskimgReadsector image (inodeSector inumber)) :
    inodeIget image' inumber = inodeIget image inumber := by
  rw [inodeIget_of_pos image' positive, inodeIget_of_pos image positive, same]

theorem readsector_putInode (fs : Mkfs) (inumber sec : ℕ) (inode : Inode) :
    diskimgReadsector (fs.putInode inumber inode).image sec =
      if sec = inodeSector inumber then
        fun offset : Fin sectorSize =>
          if (offset : ℕ) / inodeSize = (inumber - 1) % inodesPerBlock then
            inode.bytes.getD ((offset : ℕ) % inodeSize) 0
          else
            diskimgReadsector fs.image (inodeSector inumber) offset
      else
        diskimgReadsector fs.image sec :=
  Mkfs.readsector_wsector fs (inodeSector inumber) sec _

/-- `put_inode` writes its own slot. -/
theorem inodeIget_putInode (fs : Mkfs) {inumber : ℕ} (inode : Inode) (positive : 1 ≤ inumber) :
    inodeIget (fs.putInode inumber inode).image inumber = some inode := by
  rw [inodeIget_of_pos _ positive, readsector_putInode, if_pos rfl]
  refine congrArg some (Eq.trans (ofBytes_congr ?_) inode.ofBytes_bytes)
  intro offset inside
  have inside : offset < 32 := inside
  have bound : (inumber - 1) % 16 * 32 + offset < 512 := by omega
  have quotient : ((inumber - 1) % 16 * 32 + offset) / 32 = (inumber - 1) % 16 := by omega
  have remainder : ((inumber - 1) % 16 * 32 + offset) % 32 = offset := by omega
  refine (Sector.byte_of_lt _ bound).trans ((if_pos quotient).trans ?_)
  exact congrArg (inode.bytes.getD · 0) remainder

/-- `put_inode` writes no other slot. -/
theorem inodeIget_putInode_of_ne (fs : Mkfs) {inumber other : ℕ} (inode : Inode)
    (positive : 1 ≤ inumber) (positive' : 1 ≤ other) (distinct : other ≠ inumber) :
    inodeIget (fs.putInode inumber inode).image other = inodeIget fs.image other := by
  by_cases same : inodeSector other = inodeSector inumber
  · rw [inodeIget_of_pos _ positive', inodeIget_of_pos _ positive', readsector_putInode,
      if_pos same, same]
    refine congrArg some (ofBytes_congr ?_)
    intro offset inside
    have inside : offset < 32 := inside
    have sector : 2 + (other - 1) / 16 = 2 + (inumber - 1) / 16 := same
    have bound : (other - 1) % 16 * 32 + offset < 512 := by omega
    have quotient : ((other - 1) % 16 * 32 + offset) / 32 ≠ (inumber - 1) % 16 := by omega
    refine (Sector.byte_of_lt _ bound).trans ((if_neg quotient).trans ?_)
    exact (Sector.byte_of_lt _ bound).symm
  · exact inodeIget_congr positive' (by rw [readsector_putInode, if_neg same])

/-! ## Frames -/

/-- A call for one inode keeps the other inodes and every block in use. -/
structure Keeps (fs later : Mkfs) (inumber : ℕ) : Prop where
  nextData : fs.nextData ≤ later.nextData
  blocks : ∀ sec, dataStart ≤ sec → sec < fs.nextData →
    diskimgReadsector later.image sec = diskimgReadsector fs.image sec
  slots : ∀ other, 1 ≤ other → other ≤ 64 → other ≠ inumber →
    inodeIget later.image other = inodeIget fs.image other

theorem keeps_putInode {fs middle : Mkfs} {inumber : ℕ} (inode : Inode)
    (grown : fs.Extends middle) (formatted : dataStart ≤ fs.nextData) (positive : 1 ≤ inumber)
    (small : inumber ≤ 64) : Keeps fs (middle.putInode inumber inode) inumber where
  nextData := grown.nextData
  blocks sec data used := by
    have apart : sec ≠ inodeSector inumber := by
      have below := inodeSector_lt small
      omega
    rw [readsector_putInode, if_neg apart, grown.kept sec used]
  slots other positive' small' distinct := by
    have below := inodeSector_lt small'
    rw [inodeIget_putInode_of_ne middle inode positive positive' distinct]
    exact inodeIget_congr positive' (grown.kept _ (below.trans_le formatted))

/-- The number of blocks of a file. -/
def blockCount (data : List UInt8) : ℕ := (data.length + sectorSize - 1) / sectorSize

/-- An inode whose block map leads to the blocks of some contents. -/
structure Stored (fs : Mkfs) (inumber : ℕ) (inode : Inode) (data : List UInt8) : Prop where
  slot : inodeIget fs.image inumber = some inode
  size : inodeGetsize inode = data.length
  blocks : ∀ b < blockCount data, ∃ d, inodeIndexlookup fs.image inode (b : ℕ) = some d ∧
    dataStart ≤ d ∧ d < fs.nextData ∧ diskimgReadsector fs.image d = dataBlock data b
  beyond : ∀ b : ℤ, b < 0 ∨ (blockCount data : ℤ) ≤ b →
    inodeIndexlookup fs.image inode b = none ∨ inodeIndexlookup fs.image inode b = some 0
  pointers : inode.iMode &&& ilarg ≠ 0 → inode.addr 7 = 0 ∧
    ∀ slot < 7, inode.addr slot = 0 ∨ (dataStart ≤ inode.addr slot ∧ inode.addr slot < fs.nextData)

/-- The block map reads the indirect blocks only. -/
theorem indexlookup_congr {image image' : Image} {inode : Inode}
    (pointers : inode.iMode &&& ilarg ≠ 0 → inode.addr 7 = 0 ∧ ∀ slot < 7, inode.addr slot = 0 ∨
      diskimgReadsector image' (inode.addr slot) = diskimgReadsector image (inode.addr slot))
    (b : ℤ) : inodeIndexlookup image' inode b = inodeIndexlookup image inode b := by
  unfold inodeIndexlookup
  by_cases small : inode.iMode &&& ilarg = 0
  · simp only [small, if_true]
  · obtain ⟨top, slots⟩ := pointers small
    simp only [small, if_false, top, if_true]
    by_cases negative : b < 0
    · simp only [negative, if_true]
    · simp only [negative, if_false]
      by_cases single : b.toNat < 7 * ptrsPerBlock
      · have single' : b.toNat < 7 * 256 := single
        have slot : b.toNat / ptrsPerBlock < 7 := by
          change b.toNat / 256 < 7
          omega
        simp only [single, if_true]
        rcases slots _ slot with zero | same
        · rw [if_pos zero, if_pos zero]
        · rw [same]
      · simp only [single, if_false]

/-- A stored file survives every call for another inode. -/
theorem Stored.keep {fs later : Mkfs} {inumber : ℕ} {inode : Inode} {data : List UInt8}
    (stored : Stored fs inumber inode data) (nextData : fs.nextData ≤ later.nextData)
    (kept : ∀ sec, dataStart ≤ sec → sec < fs.nextData →
      diskimgReadsector later.image sec = diskimgReadsector fs.image sec)
    (slot : inodeIget later.image inumber = inodeIget fs.image inumber) :
    Stored later inumber inode data := by
  have lookup : ∀ b, inodeIndexlookup later.image inode b = inodeIndexlookup fs.image inode b := by
    refine indexlookup_congr fun large => ?_
    obtain ⟨top, slots⟩ := stored.pointers large
    refine ⟨top, fun slot inside => ?_⟩
    rcases slots slot inside with zero | ⟨data, used⟩
    · exact .inl zero
    · exact .inr (kept _ data used)
  refine ⟨slot.trans stored.slot, stored.size, ?_, ?_, ?_⟩
  · intro b inside
    obtain ⟨d, found, data, used, block⟩ := stored.blocks b inside
    exact ⟨d, (lookup b).trans found, data, used.trans_le nextData, (kept d data used).trans block⟩
  · intro b outside
    rw [lookup b]
    exact stored.beyond b outside
  · intro large
    obtain ⟨top, slots⟩ := stored.pointers large
    refine ⟨top, fun slot inside => ?_⟩
    rcases slots slot inside with zero | ⟨data, used⟩
    · exact .inl zero
    · exact .inr ⟨data, used.trans_le nextData⟩

/-! ## The writers -/

/-- `set_size` and `inode_getsize` split and join 24 bits. -/
theorem getsize_setSize (inode : Inode) {size : ℕ} (fits : size < 2 ^ 24) :
    inodeGetsize (setSize inode size) = size := by
  have high : (UInt8.ofNat (size >>> 16 &&& 0xff)).toNat = size / 2 ^ 16 := by
    rw [Nat.shiftRight_eq_div_pow, show (0xff : ℕ) = 2 ^ 8 - 1 from rfl,
      Nat.and_two_pow_sub_one_eq_mod]
    simp
    omega
  have low : (UInt16.ofNat (size &&& 0xffff)).toNat = size % 2 ^ 16 := by
    rw [show (0xffff : ℕ) = 2 ^ 16 - 1 from rfl, Nat.and_two_pow_sub_one_eq_mod]
    simp
  unfold inodeGetsize setSize
  simp only [high, low]
  rw [← Nat.shiftLeft_add_eq_or_of_lt (Nat.mod_lt _ (by decide)), Nat.shiftLeft_eq]
  exact Nat.div_add_mod' size (2 ^ 16)

theorem addr_setSize_zero (mode : UInt16) (nlink : UInt8) (size slot : ℕ) :
    (setSize { Inode.zero with iMode := mode, iNlink := nlink } size).addr slot = 0 := by
  unfold Inode.addr
  split <;> rfl

/-- A small block map. -/
theorem indexlookup_small {inode : Inode} (image : Image) (small : inode.iMode &&& ilarg = 0)
    (b : ℤ) : inodeIndexlookup image inode b =
      if b < 0 ∨ 8 ≤ b then none else some (inode.addr b.toNat) := by
  unfold inodeIndexlookup
  by_cases negative : b < 0
  · simp [negative]
  · by_cases beyond : 8 ≤ b
    · have beyond' : 8 ≤ b.toNat := by omega
      simp [negative, small, beyond, beyond']
    · have inside : ¬ 8 ≤ b.toNat := by omega
      simp [negative, small, beyond, inside]

/-- A large block map without double indirection. -/
theorem indexlookup_large {inode : Inode} (image : Image) (large : inode.iMode &&& ilarg ≠ 0)
    (top : inode.addr 7 = 0) (b : ℤ) : inodeIndexlookup image inode b =
      if b < 0 ∨ 7 * ptrsPerBlock ≤ b ∨ inode.addr (b.toNat / ptrsPerBlock) = 0 then
        none
      else
        some (indirectPtr (diskimgReadsector image (inode.addr (b.toNat / ptrsPerBlock)))
          (b.toNat % ptrsPerBlock)) := by
  unfold inodeIndexlookup
  simp only [large, if_false, top, if_true]
  by_cases negative : b < 0
  · simp [negative]
  · by_cases beyond : (7 * ptrsPerBlock : ℤ) ≤ b
    · have outside : ¬ b.toNat < 7 * ptrsPerBlock := by omega
      simp only [negative, beyond, outside, if_false, ite_self, true_or, or_true, if_true]
    · have inside : b.toNat < 7 * ptrsPerBlock := by omega
      simp only [negative, beyond, inside, if_true, if_false, false_or]

theorem stored_putInode {middle : Mkfs} {inode : Inode} {data : List UInt8} {inumber : ℕ}
    (positive : 1 ≤ inumber) (small : inumber ≤ 64) (size : inodeGetsize inode = data.length)
    (blocks : ∀ b < blockCount data, ∃ d, inodeIndexlookup middle.image inode (b : ℕ) = some d ∧
      dataStart ≤ d ∧ d < middle.nextData ∧ diskimgReadsector middle.image d = dataBlock data b)
    (beyond : ∀ b : ℤ, b < 0 ∨ (blockCount data : ℤ) ≤ b →
      inodeIndexlookup middle.image inode b = none ∨ inodeIndexlookup middle.image inode b = some 0)
    (pointers : inode.iMode &&& ilarg ≠ 0 → inode.addr 7 = 0 ∧ ∀ slot < 7, inode.addr slot = 0 ∨
      (dataStart ≤ inode.addr slot ∧ inode.addr slot < middle.nextData)) :
    Stored (middle.putInode inumber inode) inumber inode data := by
  have kept : ∀ sec, dataStart ≤ sec →
      diskimgReadsector (middle.putInode inumber inode).image sec =
        diskimgReadsector middle.image sec := by
    intro sec data
    have below := inodeSector_lt small
    rw [readsector_putInode, if_neg (by omega)]
  have lookup : ∀ b, inodeIndexlookup (middle.putInode inumber inode).image inode b =
      inodeIndexlookup middle.image inode b := by
    refine indexlookup_congr fun large => ?_
    obtain ⟨top, slots⟩ := pointers large
    refine ⟨top, fun slot inside => ?_⟩
    rcases slots slot inside with zero | ⟨data, _⟩
    · exact .inl zero
    · exact .inr (kept _ data)
  refine ⟨inodeIget_putInode middle inode positive, size, ?_, ?_, pointers⟩
  · intro b inside
    obtain ⟨d, found, data, used, block⟩ := blocks b inside
    exact ⟨d, (lookup b).trans found, data, used, (kept d data).trans block⟩
  · intro b outside
    rw [lookup b]
    exact beyond b outside

/-- The largest file that `make_file` lays out. -/
abbrev maxFileSize : ℕ := 7 * 256 * 512

section MakeFile

variable {fs : Mkfs} {inumber : ℕ} {data : List UInt8}

/-- `make_file` as one of its two loops and a `put_inode`. -/
theorem makeFile_eq (fs : Mkfs) (inumber : ℕ) (data : List UInt8) :
    fs.makeFile inumber data =
      if blockCount data ≤ 8 then
        let state := (List.range (blockCount data)).foldl (Mkfs.directStep data)
          (fs, setSize { Inode.zero with iMode := ialloc, iNlink := 1 } data.length)
        state.1.putInode inumber state.2
      else
        let state := (List.range 7).foldl (Mkfs.largeStep data)
          ⟨fs, setSize { Inode.zero with iMode := ialloc ||| ilarg, iNlink := 1 } data.length,
            blockCount data, 0⟩
        state.fs.putInode inumber state.inode :=
  rfl

theorem keeps_makeFile (formatted : dataStart ≤ fs.nextData) (positive : 1 ≤ inumber)
    (small : inumber ≤ 64) : Keeps fs (fs.makeFile inumber data) inumber := by
  rw [makeFile_eq]
  split
  · rename_i few
    exact keeps_putInode _ (directLoop fs _ data few).grown formatted positive small
  · exact keeps_putInode _ (largeLoop fs _ data _ le_rfl).grown formatted positive small

theorem stored_makeFile (formatted : dataStart ≤ fs.nextData) (positive : 1 ≤ inumber)
    (small : inumber ≤ 64) (short : data.length ≤ maxFileSize)
    (fits : (fs.makeFile inumber data).nextData ≤ 65536) :
    ∃ inode, Stored (fs.makeFile inumber data) inumber inode data := by
  have size : data.length < 2 ^ 24 := by
    have bound : data.length ≤ 7 * 256 * 512 := short
    omega
  have formatted : 6 ≤ fs.nextData := formatted
  rw [makeFile_eq] at fits ⊢
  split at fits
  · rename_i few
    rw [if_pos few]
    have loop :=
      directLoop fs (setSize { Inode.zero with iMode := ialloc, iNlink := 1 } data.length)
      data few
    generalize (List.range (blockCount data)).foldl (Mkfs.directStep data)
      (fs, setSize { Inode.zero with iMode := ialloc, iNlink := 1 } data.length) = state
      at loop fits
    have fits : state.1.nextData ≤ 65536 := fits
    have next := loop.nextData
    have mode : state.2.iMode &&& ilarg = 0 := by
      rw [loop.mode]
      change ialloc &&& ilarg = 0
      decide
    have addr := loop.addr fits
    refine ⟨state.2, stored_putInode positive small (loop.size.trans (getsize_setSize _ size)) ?_ ?_
      fun large => absurd mode large⟩
    · intro b inside
      have block := loop.blocks b inside
      rw [Nat.zero_add] at block
      refine ⟨fs.nextData + b, ?_, by change 6 ≤ _; omega, by omega, block⟩
      rw [indexlookup_small _ mode, if_neg (by omega), Int.toNat_natCast, addr b, if_pos inside]
    · intro b outside
      rw [indexlookup_small _ mode]
      split
      · exact .inl rfl
      · rename_i direct
        rw [addr, if_neg (by omega), addr_setSize_zero]
        exact .inr rfl
  · rename_i many
    rw [if_neg many]
    have loop := largeLoop fs
      (setSize { Inode.zero with iMode := ialloc ||| ilarg, iNlink := 1 } data.length) data
      (blockCount data) (le_refl 7)
    generalize (List.range 7).foldl (Mkfs.largeStep data) _ = state at loop fits
    have fits : state.fs.nextData ≤ 65536 := fits
    have mode : state.inode.iMode &&& ilarg ≠ 0 := by
      rw [loop.mode]
      change (ialloc ||| ilarg) &&& ilarg ≠ 0
      decide
    have count : blockCount data ≤ 1792 := by
      have bound : data.length ≤ 7 * 256 * 512 := short
      change (data.length + 512 - 1) / 512 ≤ 1792
      omega
    have groups : ∀ slot < 7, 256 * slot < blockCount data →
        MapsGroup fs state.fs data (blockCount data) slot (state.inode.addr slot) :=
      loop.groups fits
    have empty : ∀ slot, (7 ≤ slot ∨ blockCount data ≤ 256 * slot) → state.inode.addr slot = 0 := by
      intro slot outside
      rw [loop.empty fits slot outside, addr_setSize_zero]
    have top : state.inode.addr 7 = 0 := empty 7 (.inl le_rfl)
    have lookup := indexlookup_large state.fs.image mode top
    have pointer : ∀ slot < 7, state.inode.addr slot = 0 ∨
        (6 ≤ state.inode.addr slot ∧ state.inode.addr slot < state.fs.nextData) := by
      intro slot inside
      by_cases used : 256 * slot < blockCount data
      · have fresh := (groups slot inside used).fresh
        exact .inr ⟨formatted.trans fresh.1, fresh.2⟩
      · exact .inl (empty slot (.inr (not_lt.mp used)))
    refine ⟨state.inode, stored_putInode positive small (loop.size.trans (getsize_setSize _ size))
      ?_ ?_ fun _ => ⟨top, pointer⟩⟩
    · intro b inside
      have slot : b / 256 < 7 := by omega
      have maps := groups (b / 256) slot (by omega)
      have whole : 256 * (b / 256) + b % 256 = b := Nat.div_add_mod b 256
      have remainder : b % 256 < 256 := Nat.mod_lt _ (by decide)
      obtain ⟨above, below, block⟩ := maps.blocks (b % 256) remainder
        (by change 256 * (b / 256) + b % 256 < _; omega)
      have nonzero : state.inode.addr (b / 256) ≠ 0 := by
        have fresh := maps.fresh.1
        omega
      have single : ¬ ((b : ℤ) < 0 ∨ 7 * (ptrsPerBlock : ℤ) ≤ b ∨
          state.inode.addr ((b : ℤ).toNat / ptrsPerBlock) = 0) := by
        rintro (negative | beyond | zero)
        · omega
        · have beyond : (1792 : ℤ) ≤ b := beyond
          omega
        · exact nonzero zero
      exact ⟨_, (lookup b).trans (if_neg single), formatted.trans above, below,
        block.trans (congrArg (dataBlock data) whole)⟩
    · intro b outside
      rw [lookup]
      split
      · exact .inl rfl
      · rename_i single
        have bound : ¬ (1792 : ℤ) ≤ b := fun beyond => single (.inr (.inl beyond))
        have used : 256 * (b.toNat / 256) < blockCount data := by
          by_contra unused
          exact single (.inr (.inr (empty _ (.inr (not_lt.mp unused)))))
        have slot : b.toNat / 256 < 7 := by omega
        have maps := groups _ slot used
        have negative : ¬ b < 0 := fun negative => single (.inl negative)
        have zero := maps.beyond (b.toNat % 256) (Nat.mod_lt _ (by decide))
          (by change _ ≤ 256 * (b.toNat / 256) + b.toNat % 256; omega)
        exact .inr (congrArg some zero)

end MakeFile

section MakeDir

variable {fs : Mkfs} {inumber parentInumber : ℕ} {entries : List Direntv6}

theorem length_direntBytes (inumber parentInumber : ℕ) (entries : List Direntv6) :
    (direntBytes inumber parentInumber entries).length = (entries.length + 2) * 16 := by
  have each (entry : Direntv6) : entry.bytes.length = 16 := by simp [Direntv6.bytes]
  unfold direntBytes
  rw [List.length_flatMap]
  simp only [each, List.map_const', List.sum_replicate, List.length_cons, smul_eq_mul]

/-- `make_dir` as a `put_inode` after one fresh block. -/
theorem makeDir_eq (fs : Mkfs) (inumber parentInumber : ℕ) (entries : List Direntv6) :
    fs.makeDir inumber parentInumber entries =
      (fs.push fun offset => (direntBytes inumber parentInumber entries).getD offset 0).putInode
        inumber ((setSize { Inode.zero with iMode := ialloc ||| ifdir, iNlink := 2 }
          ((entries.length + 2) * 16)).setAddr 0 fs.nextData) :=
  rfl

theorem keeps_makeDir (formatted : dataStart ≤ fs.nextData) (positive : 1 ≤ inumber)
    (small : inumber ≤ 64) : Keeps fs (fs.makeDir inumber parentInumber entries) inumber := by
  rw [makeDir_eq]
  exact keeps_putInode _ (Mkfs.extends_push fs _) formatted positive small

theorem stored_makeDir (formatted : dataStart ≤ fs.nextData) (positive : 1 ≤ inumber)
    (small : inumber ≤ 64) (short : entries.length ≤ 30)
    (fits : (fs.makeDir inumber parentInumber entries).nextData ≤ 65536) :
    ∃ inode, Stored (fs.makeDir inumber parentInumber entries) inumber inode
      (direntBytes inumber parentInumber entries) := by
  have length := length_direntBytes inumber parentInumber entries
  have count : blockCount (direntBytes inumber parentInumber entries) = 1 := by
    unfold blockCount
    rw [length]
    change ((entries.length + 2) * 16 + 512 - 1) / 512 = 1
    omega
  have buffer : (fun offset : Fin sectorSize =>
        (direntBytes inumber parentInumber entries).getD offset 0) =
      dataBlock (direntBytes inumber parentInumber entries) 0 := by
    funext offset
    have inside : (offset : ℕ) < 512 := offset.isLt
    unfold dataBlock
    simp only [Nat.zero_mul, Nat.sub_zero, Nat.zero_add]
    split
    · rfl
    · rename_i outside
      have outside : ¬ (offset : ℕ) < min _ 512 := outside
      exact List.getD_eq_default _ _ (by omega)
  rw [makeDir_eq, buffer] at fits ⊢
  have fits : fs.nextData + 1 ≤ 65536 := fits
  have formatted : 6 ≤ fs.nextData := formatted
  generalize node_eq : (setSize { Inode.zero with iMode := ialloc ||| ifdir, iNlink := 2 }
    ((entries.length + 2) * 16)).setAddr 0 fs.nextData = inode
  have mode : inode.iMode &&& ilarg = 0 := by
    rw [← node_eq]
    change (ialloc ||| ifdir) &&& ilarg = 0
    decide
  have size : inodeGetsize inode = (direntBytes inumber parentInumber entries).length := by
    rw [← node_eq, length]
    exact getsize_setSize { Inode.zero with iMode := ialloc ||| ifdir, iNlink := 2 } (by omega)
  have addr : ∀ slot, inode.addr slot = if slot = 0 then fs.nextData else 0 := by
    intro slot
    rw [← node_eq, addr_setAddr _ 0 fs.nextData slot (by omega) (by omega), addr_setSize_zero]
  refine ⟨inode, stored_putInode positive small size ?_ ?_ fun large => absurd mode large⟩
  · intro b inside
    obtain rfl : b = 0 := by omega
    refine ⟨fs.nextData, ?_, formatted, Nat.lt_succ_self _, Mkfs.readsector_push fs _⟩
    rw [indexlookup_small _ mode, if_neg (by omega), Int.toNat_natCast, addr 0, if_pos rfl]
  · intro b outside
    rw [indexlookup_small _ mode]
    split
    · exact .inl rfl
    · rename_i direct
      rw [addr, if_neg (by omega)]
      exact .inr rfl

end MakeDir

/-! ## Reading back -/

/-- What `file_getblock` returns for a stored file. -/
theorem fileGetblock_of_stored {fs : Mkfs} {inumber : ℕ} {inode : Inode} {data : List UInt8}
    (stored : Stored fs inumber inode data) (b : ℤ) :
    fileGetblock fs.image inumber b =
      if 0 ≤ b ∧ b < blockCount data then
        some (min sectorSize (data.length - sectorSize * b.toNat), dataBlock data b.toNat)
      else
        none := by
  unfold fileGetblock
  simp only [stored.slot]
  by_cases inside : 0 ≤ b ∧ b < blockCount data
  · rw [if_pos inside]
    obtain ⟨b, rfl⟩ := Int.eq_ofNat_of_zero_le inside.1
    have used : b < blockCount data := by omega
    have used' : b < (data.length + 512 - 1) / 512 := used
    obtain ⟨d, found, above, _, block⟩ := stored.blocks b used
    have above : 6 ≤ d := above
    have nonzero : d ≠ 0 := by omega
    have valid : (if (b : ℤ) < ((data.length / 512 : ℕ) : ℤ) then 512
        else if data.length % 512 = 0 then 512 else data.length % 512) =
        min 512 (data.length - 512 * b) := by
      split_ifs <;> omega
    simp only [found, nonzero, if_false, stored.size, block, Int.toNat_natCast]
    exact congrArg (fun valid => some (valid, dataBlock data b)) valid
  · rw [if_neg inside]
    rcases stored.beyond b (by omega) with missing | zero
    · simp only [missing]
    · simp only [zero, if_true]

/-- Read the blocks `0..ceil(size / 512) - 1` and join their valid prefixes. -/
def readFile (image : Image) (inumber : ℤ) (size : ℕ) : Option (List UInt8) :=
  ((List.range ((size + sectorSize - 1) / sectorSize)).mapM fun b : ℕ =>
    (fileGetblock image inumber b).map fun (valid, buf) => (List.ofFn buf).take valid).map
      List.flatten

/-- Consecutive slices of a list make up the list. -/
theorem flatten_slices {α : Type*} (list : List α) (width count : ℕ) :
    ((List.range count).map fun b => (list.drop (width * b)).take width).flatten =
      list.take (width * count) := by
  induction count with
  | zero => simp
  | succ count ih =>
      rw [List.range_succ, List.map_append, List.flatten_append, ih, Nat.mul_succ, List.take_add]
      simp

theorem take_dataBlock (data : List UInt8) (b : ℕ) :
    (List.ofFn (dataBlock data b)).take (min sectorSize (data.length - sectorSize * b)) =
      (data.drop (sectorSize * b)).take sectorSize := by
  apply List.ext_getElem
  · simp only [List.length_take, List.length_ofFn, List.length_drop]
    change min (min 512 (data.length - 512 * b)) 512 = min 512 (data.length - 512 * b)
    omega
  · intro index inside _
    simp only [List.length_take, List.length_ofFn] at inside
    have inside : index < min (min 512 (data.length - 512 * b)) 512 := inside
    have chunk : index < min (data.length - b * 512) 512 := by omega
    have bound : b * 512 + index < data.length := by omega
    simp only [List.getElem_take, List.getElem_ofFn, List.getElem_drop]
    refine (if_pos chunk).trans ((List.getD_eq_getElem _ _ bound).trans ?_)
    congr 1
    exact congrArg (· + index) (Nat.mul_comm b 512)

/-- A stored file reads back. -/
theorem readFile_of_stored {fs : Mkfs} {inumber : ℕ} {inode : Inode} {data : List UInt8}
    (stored : Stored fs inumber inode data) :
    readFile fs.image inumber data.length = some data := by
  unfold readFile
  have each : ∀ b ∈ List.range ((data.length + sectorSize - 1) / sectorSize),
      ((fileGetblock fs.image inumber (b : ℕ)).map fun (valid, buf) =>
        (List.ofFn buf).take valid) = some ((data.drop (sectorSize * b)).take sectorSize) := by
    intro b inside
    have inside : b < blockCount data := List.mem_range.mp inside
    rw [fileGetblock_of_stored stored, if_pos ⟨by omega, by omega⟩]
    simp only [Option.map_some, Int.toNat_natCast]
    rw [take_dataBlock]
  rw [mapM_eq_some each, Option.map_some, flatten_slices]
  refine congrArg some (List.take_of_length_le ?_)
  change data.length ≤ 512 * ((data.length + 512 - 1) / 512)
  omega

/-! ## Sequences of calls -/

namespace Mkfs

/-- What the callers of the writers promise. -/
def Op.Allowed : Op → Prop
  | .makeFile inumber data => (1 ≤ inumber ∧ inumber ≤ 64) ∧ data.length ≤ maxFileSize
  | .makeDir inumber _ entries => (1 ≤ inumber ∧ inumber ≤ 64) ∧ entries.length ≤ 30
  | .putInode inumber _ => 1 ≤ inumber ∧ inumber ≤ 64

/-- The contents that a call stores behind its inode. -/
def Op.contents : Op → Option (List UInt8)
  | .makeFile _ data => some data
  | .makeDir inumber parentInumber entries => some (direntBytes inumber parentInumber entries)
  | .putInode _ _ => none

theorem Op.Allowed.inumber {op : Op} (allowed : op.Allowed) :
    1 ≤ op.inumber ∧ op.inumber ≤ 64 := by
  cases op with
  | makeFile => exact allowed.1
  | makeDir => exact allowed.1
  | putInode => exact allowed

variable {fs : Mkfs} {op : Op} {ops : List Op}

theorem keeps_apply (formatted : dataStart ≤ fs.nextData) (positive : 1 ≤ op.inumber)
    (small : op.inumber ≤ 64) : Keeps fs (fs.apply op) op.inumber := by
  cases op with
  | makeFile inumber data => exact keeps_makeFile formatted positive small
  | makeDir inumber parentInumber entries => exact keeps_makeDir formatted positive small
  | putInode inumber inode => exact keeps_putInode inode (.refl fs) formatted positive small

theorem stored_apply {data : List UInt8} (formatted : dataStart ≤ fs.nextData)
    (allowed : op.Allowed) (contents : op.contents = some data)
    (fits : (fs.apply op).nextData ≤ 65536) :
    ∃ inode, Stored (fs.apply op) op.inumber inode data := by
  obtain ⟨positive, small⟩ := allowed.inumber
  cases op with
  | makeFile inumber data =>
      obtain rfl := Option.some.inj contents
      exact stored_makeFile formatted positive small allowed.2 fits
  | makeDir inumber parentInumber entries =>
      obtain rfl := Option.some.inj contents
      exact stored_makeDir formatted positive small allowed.2 fits
  | putInode inumber inode => cases contents

/-- A sequence of calls keeps every block in use and the inodes that it does not name. -/
theorem keeps_run (fs : Mkfs) (ops : List Op) (formatted : dataStart ≤ fs.nextData)
    (inodes : ∀ op ∈ ops, 1 ≤ op.inumber ∧ op.inumber ≤ 64) :
    fs.nextData ≤ (fs.run ops).nextData ∧
      (∀ sec, dataStart ≤ sec → sec < fs.nextData →
        diskimgReadsector (fs.run ops).image sec = diskimgReadsector fs.image sec) ∧
      ∀ other, 1 ≤ other → other ≤ 64 → other ∉ ops.map Op.inumber →
        inodeIget (fs.run ops).image other = inodeIget fs.image other := by
  induction ops generalizing fs with
  | nil => exact ⟨le_rfl, fun _ _ _ => rfl, fun _ _ _ _ => rfl⟩
  | cons op ops ih =>
      obtain ⟨positive, small⟩ := inodes op List.mem_cons_self
      have keeps := keeps_apply formatted positive small
      obtain ⟨nextData, blocks, slots⟩ := ih (fs.apply op)
        (formatted.trans keeps.nextData) fun other inside =>
          inodes other (List.mem_cons_of_mem op inside)
      refine ⟨keeps.nextData.trans nextData, ?_, ?_⟩
      · intro sec data used
        exact (blocks sec data (used.trans_le keeps.nextData)).trans (keeps.blocks sec data used)
      · intro other positive small absent
        obtain ⟨distinct, rest⟩ := not_or.mp (mt List.mem_cons.mpr absent)
        exact (slots other positive small rest).trans (keeps.slots other positive small distinct)

theorem run_append (fs : Mkfs) (first second : List Op) :
    fs.run (first ++ second) = (fs.run first).run second :=
  List.foldl_append

/-- A call of a sequence, in the state it starts from, and what the calls after it keep. -/
theorem run_split (formatted : dataStart ≤ fs.nextData)
    (inodes : ∀ op ∈ ops, 1 ≤ op.inumber ∧ op.inumber ≤ 64)
    (distinct : (ops.map Op.inumber).Nodup) (inside : op ∈ ops) :
    ∃ before after, ops = before ++ op :: after ∧ dataStart ≤ (fs.run before).nextData ∧
      ((fs.run before).apply op).nextData ≤ (fs.run ops).nextData ∧
      (∀ sec, dataStart ≤ sec → sec < ((fs.run before).apply op).nextData →
        diskimgReadsector (fs.run ops).image sec =
          diskimgReadsector ((fs.run before).apply op).image sec) ∧
      inodeIget (fs.run ops).image op.inumber =
        inodeIget ((fs.run before).apply op).image op.inumber := by
  obtain ⟨before, after, rfl⟩ := List.append_of_mem inside
  have early := keeps_run fs before formatted fun other inside =>
    inodes other (List.mem_append_left _ inside)
  obtain ⟨positive, small⟩ := inodes op inside
  have ready : dataStart ≤ (fs.run before).nextData := formatted.trans early.1
  have keeps := keeps_apply ready positive small
  obtain ⟨nextData, blocks, slots⟩ := keeps_run ((fs.run before).apply op) after
    (ready.trans keeps.nextData) fun other inside =>
      inodes other (List.mem_append_right _ (List.mem_cons_of_mem op inside))
  have whole : fs.run (before ++ op :: after) = ((fs.run before).apply op).run after :=
    run_append fs before (op :: after)
  have absent : op.inumber ∉ after.map Op.inumber := by
    rw [List.map_append, List.map_cons] at distinct
    exact (List.nodup_cons.mp distinct.of_append_right).1
  rw [whole]
  exact ⟨before, after, rfl, ready, nextData, blocks, slots _ positive small absent⟩

/-- Whatever a sequence of calls has stored is there at its end. -/
theorem stored_run {data : List UInt8} (formatted : dataStart ≤ fs.nextData)
    (allowed : ∀ op ∈ ops, op.Allowed) (distinct : (ops.map Op.inumber).Nodup)
    (fits : (fs.run ops).nextData ≤ 65536) (inside : op ∈ ops)
    (contents : op.contents = some data) :
    ∃ inode, Stored (fs.run ops) op.inumber inode data := by
  obtain ⟨before, _, _, ready, nextData, blocks, slot⟩ :=
    run_split formatted (fun op inside => (allowed op inside).inumber) distinct inside
  obtain ⟨inode, stored⟩ :=
    stored_apply ready (allowed op inside) contents (nextData.trans fits)
  exact ⟨inode, stored.keep nextData blocks slot⟩

end Mkfs

/-- The reader undoes the writer at every point of a sequence of calls, and no later call changes
what it reads. -/
theorem mkfs_reads_back (image : Image) (done later : List Mkfs.Op)
    (allowed : ∀ op ∈ done ++ later, op.Allowed)
    (distinct : ((done ++ later).map Mkfs.Op.inumber).Nodup)
    (fits : ((Mkfs.start image).run (done ++ later)).nextData ≤ 65536) :
    (∀ (inumber : ℕ) (data : List UInt8), .makeFile inumber data ∈ done →
      ∃ inode, inodeIget ((Mkfs.start image).run done).image inumber = some inode ∧
        inodeGetsize inode = data.length ∧
        readFile ((Mkfs.start image).run done).image inumber (inodeGetsize inode) = some data) ∧
    ∀ op ∈ done,
      inodeIget ((Mkfs.start image).run (done ++ later)).image op.inumber =
          inodeIget ((Mkfs.start image).run done).image op.inumber ∧
        (op.contents.isSome = true → ∀ blockNum,
          fileGetblock ((Mkfs.start image).run (done ++ later)).image op.inumber blockNum =
            fileGetblock ((Mkfs.start image).run done).image op.inumber blockNum) := by
  have formatted : dataStart ≤ (Mkfs.start image).nextData := le_rfl
  have early : ∀ op ∈ done, op.Allowed := fun op inside =>
    allowed op (List.mem_append_left _ inside)
  have ready := (Mkfs.keeps_run _ done formatted fun op inside => (early op inside).inumber).1
  have keeps := Mkfs.keeps_run ((Mkfs.start image).run done) later ready
    fun op inside => (allowed op (List.mem_append_right _ inside)).inumber
  rw [← Mkfs.run_append] at keeps
  have distinct' := distinct
  rw [List.map_append] at distinct'
  have stored : ∀ op ∈ done, ∀ data, op.contents = some data →
      ∃ inode, Stored ((Mkfs.start image).run done) op.inumber inode data := fun op inside _ =>
    Mkfs.stored_run formatted early distinct'.of_append_left (keeps.1.trans fits) inside
  constructor
  · intro inumber data inside
    obtain ⟨inode, stored⟩ := stored _ inside data rfl
    refine ⟨inode, stored.slot, stored.size, ?_⟩
    rw [stored.size]
    exact readFile_of_stored stored
  · intro op inside
    have own := (early op inside).inumber
    have absent : op.inumber ∉ later.map Mkfs.Op.inumber := fun again =>
      List.disjoint_of_nodup_append distinct' (List.mem_map_of_mem inside) again
    have slot := keeps.2.2 op.inumber own.1 own.2 absent
    refine ⟨slot, fun some_contents blockNum => ?_⟩
    obtain ⟨data, contents⟩ := Option.isSome_iff_exists.mp some_contents
    obtain ⟨inode, stored⟩ := stored op inside data contents
    rw [fileGetblock_of_stored stored, fileGetblock_of_stored (stored.keep keeps.1 keeps.2.1 slot)]

/-- A file of nine blocks. -/
def nineBlocks : List UInt8 := List.replicate 4097 65

theorem mkfs_reads_back_nineBlocks :
    ∃ inode, inodeIget ((Mkfs.start fun _ => 255).run [.makeFile 2 nineBlocks]).image 2 =
        some inode ∧
      inodeGetsize inode = 4097 ∧
      readFile ((Mkfs.start fun _ => 255).run [.makeFile 2 nineBlocks]).image 2 4097 =
        some nineBlocks ∧
      inodeIget ((Mkfs.start fun _ => 255).run
        [.makeFile 2 nineBlocks, .makeDir 1 1 [], .putInode 3 .zero]).image 2 = some inode := by
  have length : nineBlocks.length = 4097 := List.length_replicate
  obtain ⟨files, frame⟩ := mkfs_reads_back (fun _ => 255) [.makeFile 2 nineBlocks]
    [.makeDir 1 1 [], .putInode 3 .zero]
    (by simp [Mkfs.Op.Allowed, length, maxFileSize]) (by decide) (by decide +kernel)
  obtain ⟨inode, slot, size, read⟩ := files 2 nineBlocks List.mem_cons_self
  rw [length] at size
  rw [size] at read
  obtain ⟨same, _⟩ := frame (.makeFile 2 nineBlocks) List.mem_cons_self
  exact ⟨inode, slot, size, read, same.trans slot⟩

end UnixV6
end Syscore
