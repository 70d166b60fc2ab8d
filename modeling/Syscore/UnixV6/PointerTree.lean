import Mathlib.Data.List.FinRange
import Syscore.Library.Rows
import Syscore.UnixV6.RoundTrip

/-!
# The pointer tree of a file

The block map of a large file is a tree: seven indirect blocks and one doubly indirect one. Its leaf
slots, in order, are the blocks of the file.
-/

namespace Syscore
namespace UnixV6

/-! ## The tree -/

/-- A leaf slot, by the way to it from the inode. -/
inductive Leaf where
  /-- A slot of the block behind one of `i_addr[0..6]`. -/
  | single (idx : Fin 7) (off : Fin ptrsPerBlock)
  /-- A slot of a block behind a slot of the block behind `i_addr[7]`. -/
  | double (firstIdx secondIdx : Fin ptrsPerBlock)
  deriving DecidableEq

/-- The leaf slots in order: 256 under each of `i_addr[0..6]`, then 256 times 256 under
`i_addr[7]`. -/
def traversal : List Leaf :=
  ((List.finRange 7).flatMap fun idx => (List.finRange ptrsPerBlock).map (.single idx)) ++
    (List.finRange ptrsPerBlock).flatMap fun firstIdx =>
      (List.finRange ptrsPerBlock).map (.double firstIdx)

/-- An element of one of the two arrays that `inode_indexlookup` reads. -/
inductive ArrayRead where
  /-- `i_addr[index]`. -/
  | addr (index : ℤ)
  /-- `indirect[index]`. -/
  | indirect (index : ℤ)
  deriving DecidableEq

/-- The element is one of the array. -/
def ArrayRead.InBounds : ArrayRead → Prop
  | addr index => 0 ≤ index ∧ index < 8
  | indirect index => 0 ≤ index ∧ index < ptrsPerBlock

namespace Leaf

/-- The number of the leaf slot in the traversal. -/
def position : Leaf → ℕ
  | single idx off => idx * ptrsPerBlock + off
  | double firstIdx secondIdx => 7 * ptrsPerBlock + (firstIdx * ptrsPerBlock + secondIdx)

variable (image : Image) (inode : Inode)

/-- The indirect blocks on the way to the slot are there. -/
def Reached : Leaf → Prop
  | single idx _ => inode.addr idx ≠ 0
  | double firstIdx _ =>
      inode.addr 7 ≠ 0 ∧ indirectPtr (diskimgReadsector image (inode.addr 7)) firstIdx ≠ 0

/-- The pointer that the slot holds. -/
def pointer : Leaf → ℕ
  | single idx off => indirectPtr (diskimgReadsector image (inode.addr idx)) off
  | double firstIdx secondIdx =>
      indirectPtr (diskimgReadsector image
        (indirectPtr (diskimgReadsector image (inode.addr 7)) firstIdx)) secondIdx

/-- The array elements on the way to the slot: a pointer to a block is tested, then followed. -/
def reads : Leaf → List ArrayRead
  | single idx off => [.addr idx, .addr idx, .indirect off]
  | double firstIdx secondIdx => [.addr 7, .addr 7, .indirect firstIdx, .indirect secondIdx]

end Leaf

/-- `inode_indexlookup` with the array elements that it reads. -/
def indexlookupReads (image : Image) (inode : Inode) (blockNum : ℤ) : Option ℕ × List ArrayRead :=
  if blockNum < 0 then
    (none, [])
  else if inode.iMode &&& ilarg = 0 then
    if 8 ≤ blockNum then (none, []) else (some (inode.addr blockNum.toNat), [.addr blockNum])
  else if blockNum < 7 * ptrsPerBlock then
    let idx := blockNum.tdiv ptrsPerBlock
    let off := blockNum.tmod ptrsPerBlock
    if inode.addr idx.toNat = 0 then
      (none, [.addr idx])
    else
      let indirect := diskimgReadsector image (inode.addr idx.toNat)
      (some (indirectPtr indirect off.toNat), [.addr idx, .addr idx, .indirect off])
  else
    let d := blockNum - 7 * ptrsPerBlock
    let firstIdx := d.tdiv ptrsPerBlock
    let secondIdx := d.tmod ptrsPerBlock
    if ptrsPerBlock ≤ firstIdx then
      (none, [])
    else if inode.addr 7 = 0 then
      (none, [.addr 7])
    else
      let l1 := indirectPtr (diskimgReadsector image (inode.addr 7)) firstIdx.toNat
      if l1 = 0 then
        (none, [.addr 7, .addr 7, .indirect firstIdx])
      else
        let indirect := diskimgReadsector image l1
        (some (indirectPtr indirect secondIdx.toNat),
          [.addr 7, .addr 7, .indirect firstIdx, .indirect secondIdx])

/-! ## The traversal -/

theorem getElem?_finRange (n index : ℕ) :
    (List.finRange n)[index]? = if inside : index < n then some ⟨index, inside⟩ else none := by
  split
  · rename_i inside
    rw [List.getElem?_eq_getElem (by rwa [List.length_finRange]), List.getElem_finRange]
    rfl
  · rename_i outside
    rw [List.getElem?_eq_none (by rw [List.length_finRange]; exact not_lt.mp outside)]

/-- The row and the column of an entry of a table with 256 columns. -/
theorem divMod_entry (row : ℕ) (column : Fin ptrsPerBlock) :
    (row * ptrsPerBlock + column) / ptrsPerBlock = row ∧
      (row * ptrsPerBlock + column) % ptrsPerBlock = column := by
  have positive : 0 < ptrsPerBlock := by decide
  constructor
  · rw [Nat.add_comm, Nat.add_mul_div_right _ _ positive, Nat.div_eq_of_lt column.isLt,
      Nat.zero_add]
  · rw [Nat.add_comm, Nat.add_mul_mod_self_right, Nat.mod_eq_of_lt column.isLt]

/-- A table of leaf slots with 256 columns. -/
theorem getElem?_table (rows : ℕ) (slot : Fin rows → Fin ptrsPerBlock → Leaf) (index : ℕ)
    (leaf : Leaf) :
    ((List.finRange rows).flatMap fun first =>
      (List.finRange ptrsPerBlock).map (slot first))[index]?
        = some leaf ↔
      ∃ first second, slot first second = leaf ∧ first * ptrsPerBlock + second = index := by
  have positive : 0 < ptrsPerBlock := by decide
  have even : ∀ first ∈ List.finRange rows,
      ((List.finRange ptrsPerBlock).map (slot first)).length = ptrsPerBlock := fun first _ => by
    rw [List.length_map, List.length_finRange]
  rw [getElem?_flatMap_rows positive even, getElem?_finRange]
  have column : index % ptrsPerBlock < ptrsPerBlock := Nat.mod_lt index positive
  constructor
  · intro found
    split at found
    · rename_i inside
      rw [Option.bind_some, List.getElem?_map, getElem?_finRange, dif_pos column] at found
      exact ⟨⟨_, inside⟩, ⟨_, column⟩, Option.some.inj found, Nat.div_add_mod' index ptrsPerBlock⟩
    · cases found
  · rintro ⟨first, second, rfl, rfl⟩
    obtain ⟨quotient, remainder⟩ := divMod_entry first second
    rw [quotient, remainder, dif_pos first.isLt, Option.bind_some, List.getElem?_map,
      getElem?_finRange, dif_pos second.isLt]
    rfl

theorem length_table (rows : ℕ) (slot : Fin rows → Fin ptrsPerBlock → Leaf) :
    ((List.finRange rows).flatMap fun first =>
      (List.finRange ptrsPerBlock).map (slot first)).length = rows * ptrsPerBlock := by
  have even : ∀ first ∈ List.finRange rows,
      ((List.finRange ptrsPerBlock).map (slot first)).length = ptrsPerBlock := fun first _ => by
    rw [List.length_map, List.length_finRange]
  rw [length_flatMap_rows even, List.length_finRange]

theorem length_traversal : traversal.length = 7 * ptrsPerBlock + ptrsPerBlock * ptrsPerBlock := by
  rw [traversal, List.length_append, length_table, length_table]

theorem position_single_lt (idx : Fin 7) (off : Fin ptrsPerBlock) :
    (Leaf.single idx off).position < 7 * ptrsPerBlock := by
  have row : (idx : ℕ) < 7 := idx.isLt
  have column : (off : ℕ) < 256 := off.isLt
  change (idx : ℕ) * 256 + off < 7 * 256
  omega

/-- The slot at a position of the traversal. -/
theorem getElem?_traversal (index : ℕ) (leaf : Leaf) :
    traversal[index]? = some leaf ↔ leaf.position = index := by
  have length := length_table 7 Leaf.single
  rw [traversal]
  by_cases first : index < 7 * ptrsPerBlock
  · rw [List.getElem?_append_left (length.symm ▸ first), getElem?_table]
    constructor
    · rintro ⟨idx, off, rfl, place⟩
      exact place
    · intro place
      cases leaf with
      | single idx off => exact ⟨idx, off, rfl, place⟩
      | double firstIdx secondIdx =>
          exact absurd first (not_lt.mpr (place ▸ Nat.le_add_right _ _))
  · have later : 7 * ptrsPerBlock ≤ index := not_lt.mp first
    rw [List.getElem?_append_right (length.symm ▸ later), length, getElem?_table]
    constructor
    · rintro ⟨firstIdx, secondIdx, rfl, place⟩
      exact (congrArg (7 * ptrsPerBlock + ·) place).trans (Nat.add_sub_cancel' later)
    · intro place
      cases leaf with
      | single idx off => exact absurd (place ▸ position_single_lt idx off) first
      | double firstIdx secondIdx =>
          exact ⟨firstIdx, secondIdx, rfl, (Nat.sub_eq_of_eq_add' place.symm).symm⟩

/-! ## The lookup -/

section Lookup

variable (image : Image) (inode : Inode)

/-- The reads are those of `inode_indexlookup`. -/
theorem indexlookupReads_fst (blockNum : ℤ) :
    (indexlookupReads image inode blockNum).1 = inodeIndexlookup image inode blockNum := by
  rw [indexlookupReads, inodeIndexlookup]
  by_cases negative : blockNum < 0
  · rw [if_pos negative, if_pos negative]
  · obtain ⟨block, rfl⟩ := Int.eq_ofNat_of_zero_le (not_lt.mp negative)
    rw [if_neg negative, if_neg negative]
    by_cases small : inode.iMode &&& ilarg = 0
    · rw [if_pos small]
      simp only [Int.toNat_natCast, if_pos small]
      split_ifs with first second <;> first | rfl | omega
    · rw [if_neg small]
      simp only [Int.toNat_natCast, if_neg small]
      by_cases first : block < 7 * ptrsPerBlock
      · have first' : (block : ℤ) < 7 * ptrsPerBlock := by omega
        simp only [if_pos first, if_pos first', ← Int.ofNat_tdiv, ← Int.ofNat_tmod,
          Int.toNat_natCast]
        split_ifs <;> rfl
      · have later : ¬ (block : ℤ) < 7 * ptrsPerBlock := by omega
        obtain ⟨d, rfl⟩ := Nat.exists_eq_add_of_le (not_lt.mp first)
        have shift : ((7 * ptrsPerBlock + d : ℕ) : ℤ) - 7 * ptrsPerBlock = d := by omega
        simp only [if_neg first, if_neg later, shift, ← Int.ofNat_tdiv, ← Int.ofNat_tmod,
          Int.toNat_natCast, Nat.add_sub_cancel_left, Nat.cast_le]
        split_ifs <;> rfl

variable {image inode}

/-- The lookup of a leaf slot goes the way to it and returns its pointer. -/
theorem indexlookupReads_position (large : inode.iMode &&& ilarg ≠ 0) {leaf : Leaf}
    (reached : leaf.Reached image inode) :
    indexlookupReads image inode leaf.position =
      (some (leaf.pointer image inode), leaf.reads) := by
  have nonneg : ¬ (leaf.position : ℤ) < 0 := by omega
  rw [indexlookupReads, if_neg nonneg, if_neg large]
  cases leaf with
  | single idx off =>
      have first : ((Leaf.single idx off).position : ℤ) < 7 * ptrsPerBlock := by
        exact_mod_cast position_single_lt idx off
      obtain ⟨quotient, remainder⟩ := divMod_entry idx off
      rw [if_pos first]
      simp only [Leaf.position, ← Int.ofNat_tdiv, ← Int.ofNat_tmod, quotient, remainder,
        Int.toNat_natCast]
      exact if_neg reached
  | double firstIdx secondIdx =>
      have later : ¬ ((Leaf.double firstIdx secondIdx).position : ℤ) < 7 * ptrsPerBlock := by
        exact_mod_cast not_lt.mpr (Nat.le_add_right _ _)
      obtain ⟨quotient, remainder⟩ := divMod_entry (firstIdx : ℕ) secondIdx
      have inside : ¬ ((ptrsPerBlock : ℕ) : ℤ) ≤ ((firstIdx : ℕ) : ℤ) := by
        exact_mod_cast not_le.mpr firstIdx.isLt
      rw [if_neg later]
      simp only [Leaf.position, Nat.cast_add, Nat.cast_mul, Nat.cast_ofNat, add_sub_cancel_left]
      simp only [← Nat.cast_mul, ← Nat.cast_add, ← Int.ofNat_tdiv, ← Int.ofNat_tmod, quotient,
        remainder, Int.toNat_natCast]
      rw [if_neg inside, if_neg reached.1, if_neg reached.2]
      rfl

/-- Whatever the block number, only elements of the arrays are read. -/
theorem inBounds_of_mem_reads (blockNum : ℤ) :
    ∀ read ∈ (indexlookupReads image inode blockNum).2, read.InBounds := by
  rw [indexlookupReads]
  by_cases negative : blockNum < 0
  · rw [if_pos negative]
    exact List.forall_mem_nil _
  · obtain ⟨block, rfl⟩ := Int.eq_ofNat_of_zero_le (not_lt.mp negative)
    have slot : ∀ index : ℕ, ArrayRead.InBounds (.indirect (index % 256 : ℕ)) := fun index => by
      change (0 : ℤ) ≤ (index % 256 : ℕ) ∧ ((index % 256 : ℕ) : ℤ) < 256
      omega
    rw [if_neg negative]
    by_cases small : inode.iMode &&& ilarg = 0
    · rw [if_pos small]
      split_ifs with beyond
      · exact List.forall_mem_nil _
      · exact List.forall_mem_singleton.mpr ⟨Int.natCast_nonneg block, not_le.mp beyond⟩
    · rw [if_neg small]
      by_cases first : (block : ℤ) < 7 * ptrsPerBlock
      · have idx : ArrayRead.InBounds (.addr (block / 256 : ℕ)) := by
          have first : (block : ℤ) < 7 * 256 := first
          change (0 : ℤ) ≤ (block / 256 : ℕ) ∧ ((block / 256 : ℕ) : ℤ) < 8
          omega
        rw [if_pos first]
        simp only [← Int.ofNat_tdiv, ← Int.ofNat_tmod]
        split_ifs
        · exact List.forall_mem_singleton.mpr idx
        · exact List.forall_mem_cons.mpr ⟨idx, List.forall_mem_cons.mpr
            ⟨idx, List.forall_mem_singleton.mpr (slot block)⟩⟩
      · have later : 7 * ptrsPerBlock ≤ block := by omega
        obtain ⟨d, rfl⟩ := Nat.exists_eq_add_of_le later
        have shift : ((7 * ptrsPerBlock + d : ℕ) : ℤ) - 7 * ptrsPerBlock = d := by omega
        have top : ArrayRead.InBounds (.addr 7) := ⟨by decide, by decide⟩
        rw [if_neg first]
        simp only [shift, ← Int.ofNat_tdiv, ← Int.ofNat_tmod]
        split_ifs with beyond
        · exact List.forall_mem_nil _
        · exact List.forall_mem_singleton.mpr top
        all_goals
          have firstIdx : ArrayRead.InBounds (.indirect (d / ptrsPerBlock : ℕ)) :=
            ⟨Int.natCast_nonneg _, not_le.mp beyond⟩
        · exact List.forall_mem_cons.mpr ⟨top, List.forall_mem_cons.mpr
            ⟨top, List.forall_mem_singleton.mpr firstIdx⟩⟩
        · exact List.forall_mem_cons.mpr ⟨top, List.forall_mem_cons.mpr
            ⟨top, List.forall_mem_cons.mpr
              ⟨firstIdx, List.forall_mem_singleton.mpr (slot d)⟩⟩⟩

/-- Behind the last leaf slot there is nothing. -/
theorem indexlookup_outside (large : inode.iMode &&& ilarg ≠ 0) {blockNum : ℤ}
    (outside : blockNum < 0 ∨ traversal.length ≤ blockNum) :
    inodeIndexlookup image inode blockNum = none := by
  rw [inodeIndexlookup]
  rcases outside with negative | behind
  · rw [if_pos negative]
  · rw [length_traversal] at behind
    obtain ⟨block, rfl⟩ := Int.eq_ofNat_of_zero_le ((Int.natCast_nonneg _).trans behind)
    have behind : 7 * 256 + 256 * 256 ≤ block := by exact_mod_cast behind
    have later : ¬ block < 7 * ptrsPerBlock := by
      change ¬ block < 7 * 256
      omega
    have beyond : ptrsPerBlock ≤ (block - 7 * ptrsPerBlock) / ptrsPerBlock := by
      change 256 ≤ (block - 7 * 256) / 256
      omega
    rw [if_neg (by omega)]
    simp only [Int.toNat_natCast, if_neg large, if_neg later, if_pos beyond]

/-- A small block map has no slots but the eight of the inode. -/
theorem indexlookup_small_outside (small : inode.iMode &&& ilarg = 0) {blockNum : ℤ}
    (outside : blockNum < 0 ∨ 8 ≤ blockNum) : inodeIndexlookup image inode blockNum = none := by
  rw [indexlookup_small image small, if_pos outside]

end Lookup

/-- The block map leads to the leaf slots one to one, through elements of the arrays only, and to
nothing outside the tree. -/
theorem indexlookup_traversal (image : Image) (inode : Inode) :
    (inode.iMode &&& ilarg ≠ 0 →
      (∀ (blockNum : ℕ) (inside : blockNum < traversal.length),
        traversal[blockNum].Reached image inode →
          inodeIndexlookup image inode blockNum = some (traversal[blockNum].pointer image inode) ∧
            (indexlookupReads image inode blockNum).2 = traversal[blockNum].reads) ∧
      ∀ blockNum : ℤ, blockNum < 0 ∨ 7 * 256 + 256 * 256 ≤ blockNum →
        inodeIndexlookup image inode blockNum = none) ∧
    (inode.iMode &&& ilarg = 0 → ∀ blockNum : ℤ, blockNum < 0 ∨ 8 ≤ blockNum →
      inodeIndexlookup image inode blockNum = none) ∧
    traversal.length = 7 * 256 + 256 * 256 ∧
    (∀ leaf : Leaf, ∃! blockNum : ℕ, traversal[blockNum]? = some leaf) ∧
    ∀ blockNum : ℤ,
      (indexlookupReads image inode blockNum).1 = inodeIndexlookup image inode blockNum ∧
        ∀ read ∈ (indexlookupReads image inode blockNum).2, read.InBounds := by
  refine ⟨fun large => ⟨?_, fun blockNum outside => ?_⟩, fun small blockNum outside => ?_,
    length_traversal, fun leaf => ?_, fun blockNum => ?_⟩
  · intro blockNum inside reached
    have place := (getElem?_traversal blockNum _).mp (List.getElem?_eq_getElem inside)
    have path := indexlookupReads_position large reached
    rw [place] at path
    rw [← indexlookupReads_fst, path]
    exact ⟨rfl, rfl⟩
  · exact indexlookup_outside large (by rwa [length_traversal])
  · exact indexlookup_small_outside small outside
  · refine ⟨leaf.position, (getElem?_traversal _ leaf).mpr rfl, fun blockNum place => ?_⟩
    exact ((getElem?_traversal blockNum leaf).mp place).symm
  · exact ⟨indexlookupReads_fst image inode blockNum, inBounds_of_mem_reads blockNum⟩

/-- A large file all of whose pointers lead to block 257. -/
def everySlot : Inode := { Inode.zero with iMode := ilarg, iAddr := fun _ => 257 }

/-- The last column of a table. -/
def lastColumn : Fin ptrsPerBlock := ⟨255, by decide⟩

theorem indexlookup_traversal_everySlot :
    inodeIndexlookup (fun _ => 1) everySlot 67327 = some 257 ∧
      (∃! blockNum : ℕ, traversal[blockNum]? = some (.double lastColumn lastColumn)) ∧
      inodeIndexlookup (fun _ => 1) everySlot 67328 = none ∧
      inodeIndexlookup (fun _ => 1) Inode.zero 8 = none := by
  obtain ⟨large, _, length, unique, _⟩ := indexlookup_traversal (fun _ => 1) everySlot
  obtain ⟨_, small, _⟩ := indexlookup_traversal (fun _ => 1) Inode.zero
  obtain ⟨inside, outside⟩ := large (by decide)
  have bound : 67327 < traversal.length := by
    rw [length]
    decide
  have last : (Leaf.double lastColumn lastColumn).position = 67327 := by decide
  have place : traversal[67327] = .double lastColumn lastColumn :=
    Option.some.inj ((List.getElem?_eq_getElem bound).symm.trans
      ((getElem?_traversal 67327 _).mpr last))
  have found := inside 67327 bound
  rw [place] at found
  exact ⟨(found ⟨by decide, by decide +kernel⟩).1.trans (by decide +kernel), unique _,
    outside 67328 (.inr (by decide)), small (by decide) 8 (.inr (by decide))⟩

end UnixV6
end Syscore
