import Syscore.UnixV6.Pathname
import Syscore.UnixV6.Tail

/-!
# The first match in a directory

What `directory_findname` finds on an arbitrary image, where the blocks of a directory may be
missing and its size need not be a multiple of anything.
-/

namespace Syscore
namespace UnixV6

/-! ## The records of a directory -/

/-- `sizeof(struct direntv6)`. -/
abbrev direntSize : ℕ := 16

/-- The records of a block. -/
abbrev direntsPerBlock : ℕ := sectorSize / direntSize

/-- Block number `b` of a file, if it can be read. -/
def blockAt (image : Image) (inode : Inode) (b : ℕ) : Option Sector :=
  match inodeIndexlookup image inode b with
  | none => none
  | some sector => if sector = 0 then none else some (diskimgReadsector image sector)

/-- Record number `k` of the blocks of a directory in order, if its block can be read. -/
def recordAt (image : Image) (inode : Inode) (k : ℕ) : Option Direntv6 :=
  (blockAt image inode (k / direntsPerBlock)).map (direntAt · (k % direntsPerBlock))

/-- The entry is in use, and its name equals `name` up to the first NUL or 14 bytes. -/
def Direntv6.Matches (entry : Direntv6) (name : List UInt8) : Prop :=
  entry.dInumber ≠ 0 ∧
    (List.ofFn entry.dName).takeWhile (· ≠ 0) = name.take maxComponentLength

/-- Record number `k` is the first match from block `start` on, and every block from there up to its
own can be read. -/
structure FirstMatch (image : Image) (inode : Inode) (name : List UInt8) (start k : ℕ)
    (entry : Direntv6) : Prop where
  from_start : direntsPerBlock * start ≤ k
  inside : k < inodeGetsize inode / direntSize
  readable : ∀ b, start ≤ b → b ≤ k / direntsPerBlock → (blockAt image inode b).isSome = true
  record : recordAt image inode k = some entry
  live : entry.Matches name
  first : ∀ j, direntsPerBlock * start ≤ j → j < k → ∀ other, recordAt image inode j = some other →
    ¬ other.Matches name

/-! ## The loops with the records that they examine -/

/-- The loop of `directory_findname` over the entries of a block, with the entries it examines. -/
def findInEntries (name : List UInt8) (buf : Sector) : List ℕ → Option Direntv6 × List ℕ
  | [] => (none, [])
  | e :: entries =>
      if (direntAt buf e).named name then
        (some (direntAt buf e), [e])
      else
        let (found, examined) := findInEntries name buf entries
        (found, e :: examined)

/-- The loop over the blocks, with the blocks and entries it examines. -/
def findExamined (image : Image) (dirinumber : ℤ) (name : List UInt8) :
    List ℕ → Option Direntv6 × List (ℕ × ℕ)
  | [] => (none, [])
  | b :: blocks =>
      match fileGetblock image dirinumber b with
      | none => (none, [])
      | some (valid, buf) =>
          let nents := valid / direntSize
          match findInEntries name buf (List.range nents) with
          | (some entry, examined) => (some entry, examined.map (b, ·))
          | (none, examined) =>
              let (found, later) := findExamined image dirinumber name blocks
              (found, examined.map (b, ·) ++ later)

/-- `directory_findname` with the records it examines: the block and the entry within it. -/
def directoryExamined (image : Image) (name : List UInt8) (dirinumber : ℤ) :
    Option Direntv6 × List (ℕ × ℕ) :=
  match inodeIget image dirinumber with
  | none => (none, [])
  | some inode =>
      if inode.iMode &&& ifmt ≠ ifdir then
        (none, [])
      else
        let size := inodeGetsize inode
        let numBlocks := (size + sectorSize - 1) / sectorSize
        findExamined image dirinumber name (List.range numBlocks)

theorem findInEntries_fst (name : List UInt8) (buf : Sector) (entries : List ℕ) :
    (findInEntries name buf entries).1 = (entries.map (direntAt buf)).find? (·.named name) := by
  induction entries with
  | nil => rfl
  | cons e entries ih =>
      rw [findInEntries, List.map_cons, List.find?_cons]
      by_cases hit : (direntAt buf e).named name = true
      · rw [if_pos hit, hit]
      · rw [if_neg hit, Bool.eq_false_of_not_eq_true hit]
        exact ih

theorem mem_findInEntries {name : List UInt8} {buf : Sector} {entries : List ℕ} {e : ℕ}
    (examined : e ∈ (findInEntries name buf entries).2) : e ∈ entries := by
  induction entries with
  | nil => exact examined
  | cons first entries ih =>
      rw [findInEntries] at examined
      split at examined
      · exact List.mem_singleton.mp examined ▸ List.mem_cons_self
      · rcases List.mem_cons.mp examined with rfl | later
        · exact List.mem_cons_self
        · exact List.mem_cons_of_mem first (ih later)

theorem findExamined_fst (image : Image) (dirinumber : ℤ) (name : List UInt8) (blocks : List ℕ) :
    (findExamined image dirinumber name blocks).1 = findInBlocks image dirinumber name blocks := by
  induction blocks with
  | nil => rfl
  | cons b blocks ih =>
      rw [findExamined, findInBlocks]
      cases fileGetblock image dirinumber b with
      | none => rfl
      | some read =>
          have entries := findInEntries_fst name read.2 (List.range (read.1 / direntSize))
          cases scanned : findInEntries name read.2 (List.range (read.1 / direntSize)) with
          | mk found examined =>
              rw [scanned] at entries
              cases found with
              | some entry => simp only [scanned, ← entries]
              | none => simp only [scanned, ← entries, ih]

theorem directoryExamined_fst (image : Image) (name : List UInt8) (dirinumber : ℤ) :
    (directoryExamined image name dirinumber).1 = directoryFindname image name dirinumber := by
  rw [directoryExamined, directoryFindname]
  cases inodeIget image dirinumber with
  | none => rfl
  | some inode =>
      by_cases other : inode.iMode &&& ifmt ≠ ifdir
      · simp only [if_pos other]
      · simp only [if_neg other]
        exact findExamined_fst image dirinumber name _

/-- An examined record lies in a block that was read, before the count that came with it. -/
theorem mem_findExamined {image : Image} {dirinumber : ℤ} {name : List UInt8} {blocks : List ℕ}
    {b e : ℕ} (examined : (b, e) ∈ (findExamined image dirinumber name blocks).2) :
    b ∈ blocks ∧ ∃ valid buf, fileGetblock image dirinumber b = some (valid, buf) ∧
      e < valid / direntSize := by
  induction blocks with
  | nil => cases examined
  | cons first blocks ih =>
      rw [findExamined] at examined
      cases read : fileGetblock image dirinumber first with
      | none =>
          rw [read] at examined
          cases examined
      | some block =>
          obtain ⟨valid, buf⟩ := block
          rw [read] at examined
          have here : ∀ {found numbers}, findInEntries name buf (List.range (valid / direntSize)) =
              (found, numbers) → (b, e) ∈ numbers.map (first, ·) →
                b ∈ first :: blocks ∧ ∃ valid buf,
                  fileGetblock image dirinumber b = some (valid, buf) ∧ e < valid / direntSize := by
            intro found numbers scanned inside
            obtain ⟨number, listed, same⟩ := List.mem_map.mp inside
            obtain ⟨rfl, rfl⟩ := Prod.mk.inj same
            have inside :
                number ∈ (findInEntries name buf (List.range (valid / direntSize))).2 := by
              rw [scanned]
              exact listed
            exact ⟨List.mem_cons_self, valid, buf, read,
              List.mem_range.mp (mem_findInEntries inside)⟩
          simp only at examined
          split at examined
          · rename_i scanned
            exact here scanned examined
          · rename_i scanned
            rcases List.mem_append.mp examined with inside | later
            · exact here scanned inside
            · obtain ⟨member, rest⟩ := ih later
              exact ⟨List.mem_cons_of_mem first member, rest⟩

/-! ## The first match -/

theorem named_iff {entry : Direntv6} {name : List UInt8} (nulFree : 0 ∉ name) :
    entry.named name = true ↔ entry.Matches name := by
  rw [Direntv6.named, Bool.and_eq_true, decide_eq_true_iff, beq_iff_eq,
    strncmp_field (List.length_ofFn) nulFree, Direntv6.Matches]

/-- A block of the directory holds as many of its records as `file_getblock` says. -/
theorem entries_of_block {size b : ℕ} (inside : b < (size + sectorSize - 1) / sectorSize) :
    validBytes size b / direntSize =
      min direntsPerBlock (size / direntSize - direntsPerBlock * b) := by
  have inside : b < (size + 512 - 1) / 512 := inside
  change (if (b : ℤ) < (size / 512 : ℕ) then 512
    else if size % 512 = 0 then 512 else size % 512) / 16 = min 32 (size / 16 - 32 * b)
  split_ifs <;> omega

section FirstMatch

variable {image : Image} {dirinumber : ℤ} {inode : Inode} {name : List UInt8}

theorem fileGetblock_of_blockAt (found : inodeIget image dirinumber = some inode) (b : ℕ) :
    fileGetblock image dirinumber b =
      (blockAt image inode b).map fun buf => (validBytes (inodeGetsize inode) b, buf) := by
  rw [fileGetblock, found, blockAt]
  cases mapped : inodeIndexlookup image inode b with
  | none => simp only [mapped, Option.map_none]
  | some sector =>
      simp only [mapped]
      split
      · rfl
      · rfl

/-- The first match within a block. -/
theorem find?_entries (nulFree : 0 ∉ name) (buf : Sector) (nents : ℕ) (entry : Direntv6) :
    ((List.range nents).map (direntAt buf)).find? (·.named name) = some entry ↔
      ∃ e < nents, direntAt buf e = entry ∧ entry.Matches name ∧
        ∀ e' < e, ¬ (direntAt buf e').Matches name := by
  rw [List.find?_map, Option.map_eq_some_iff]
  simp only [List.find?_range_eq_some, Function.comp_apply, named_iff nulFree, List.mem_range,
    Bool.not_eq_true', ← Bool.not_eq_true]
  constructor
  · rintro ⟨e, ⟨live, inside, first⟩, rfl⟩
    exact ⟨e, inside, rfl, live, first⟩
  · rintro ⟨e, inside, rfl, live, first⟩
    exact ⟨e, ⟨live, inside, first⟩, rfl⟩

theorem recordAt_add {start e : ℕ} {buf : Sector} (block : blockAt image inode start = some buf)
    (inside : e < direntsPerBlock) :
    recordAt image inode (direntsPerBlock * start + e) = some (direntAt buf e) := by
  have positive : 0 < direntsPerBlock := by decide
  rw [recordAt, Nat.mul_add_div positive, Nat.div_eq_of_lt inside, Nat.add_zero, Nat.mul_add_mod,
    Nat.mod_eq_of_lt inside, block]
  rfl

/-- The first match from a block on is in the block, or there is none in the block and it is the
first match from the next block on. -/
theorem firstMatch_step {start k : ℕ} {buf : Sector} {entry : Direntv6}
    (block : blockAt image inode start = some buf) :
    FirstMatch image inode name start k entry ↔
      (∃ e < min direntsPerBlock (inodeGetsize inode / direntSize - direntsPerBlock * start),
        k = direntsPerBlock * start + e ∧ direntAt buf e = entry ∧ entry.Matches name ∧
          ∀ e' < e, ¬ (direntAt buf e').Matches name) ∨
      (∀ e < min direntsPerBlock (inodeGetsize inode / direntSize - direntsPerBlock * start),
        ¬ (direntAt buf e).Matches name) ∧ FirstMatch image inode name (start + 1) k entry := by
  have next : direntsPerBlock * (start + 1) = direntsPerBlock * start + direntsPerBlock :=
    Nat.mul_succ direntsPerBlock start
  have own : ∀ j, direntsPerBlock * start ≤ j → ¬ direntsPerBlock * (start + 1) ≤ j →
      ∃ e < direntsPerBlock, j = direntsPerBlock * start + e := by
    intro j from_start before
    obtain ⟨e, rfl⟩ := Nat.exists_eq_add_of_le from_start
    exact ⟨e, by omega, rfl⟩
  constructor
  · intro hit
    have inside := hit.inside
    by_cases later : direntsPerBlock * (start + 1) ≤ k
    · right
      refine ⟨fun e bound live => ?_, ?_⟩
      · have bound := (lt_min_iff.mp bound).1
        exact hit.first (direntsPerBlock * start + e) (by omega) (by omega) _
          (recordAt_add block bound) live
      · exact ⟨later, inside, fun b next => hit.readable b (by omega), hit.record, hit.live,
          fun j next => hit.first j (by omega)⟩
    · left
      obtain ⟨e, bound, rfl⟩ := own k hit.from_start later
      have record := hit.record
      rw [recordAt_add block bound] at record
      refine ⟨e, lt_min bound (by omega), rfl, Option.some.inj record, hit.live, ?_⟩
      intro e' earlier
      exact hit.first (direntsPerBlock * start + e') (by omega) (by omega) _
        (recordAt_add block (earlier.trans bound))
  · rintro (⟨e, inside, rfl, rfl, live, first⟩ | ⟨free, hit⟩)
    · obtain ⟨bound, inside⟩ := lt_min_iff.mp inside
      have quotient : (direntsPerBlock * start + e) / direntsPerBlock = start := by
        rw [Nat.mul_add_div (by decide), Nat.div_eq_of_lt bound, Nat.add_zero]
      refine ⟨by omega, by omega, ?_, recordAt_add block bound, live, ?_⟩
      · intro b from_start upto
        obtain rfl := le_antisymm from_start (quotient ▸ upto)
        rw [block]
        rfl
      · intro j from_start earlier other record
        obtain ⟨e', bound', rfl⟩ := own j from_start (by omega)
        rw [recordAt_add block bound'] at record
        exact Option.some.inj record ▸ first e' (by omega)
    · have after := hit.from_start
      have inside := hit.inside
      refine ⟨by omega, inside, ?_, hit.record, hit.live, ?_⟩
      · intro b from_start upto
        rcases Nat.eq_or_lt_of_le from_start with rfl | next
        · rw [block]
          rfl
        · exact hit.readable b next upto
      · intro j from_start earlier other record
        by_cases later : direntsPerBlock * (start + 1) ≤ j
        · exact hit.first j later earlier other record
        · obtain ⟨e', bound', rfl⟩ := own j from_start later
          rw [recordAt_add block bound'] at record
          exact Option.some.inj record ▸ free e' (lt_min bound' (by omega))

/-- The search from a block on. -/
theorem findInBlocks_range' (found : inodeIget image dirinumber = some inode) (nulFree : 0 ∉ name)
    (entry : Direntv6) {start count : ℕ}
    (all : start + count = (inodeGetsize inode + sectorSize - 1) / sectorSize) :
    findInBlocks image dirinumber name (List.range' start count) = some entry ↔
      ∃ k, FirstMatch image inode name start k entry := by
  induction count generalizing start with
  | zero =>
      refine iff_of_false (Option.some_ne_none entry).symm ?_
      rintro ⟨k, hit⟩
      have behind : start = (inodeGetsize inode + 512 - 1) / 512 := all
      have after : 32 * start ≤ k := hit.from_start
      have inside : k < inodeGetsize inode / 16 := hit.inside
      omega
  | succ count ih =>
      have before : start < (inodeGetsize inode + sectorSize - 1) / sectorSize := by omega
      rw [List.range'_succ, findInBlocks, fileGetblock_of_blockAt found]
      cases block : blockAt image inode start with
      | none =>
          refine iff_of_false (Option.some_ne_none entry).symm ?_
          rintro ⟨k, hit⟩
          have own : start ≤ k / direntsPerBlock :=
            (Nat.le_div_iff_mul_le (by decide)).mpr (Nat.mul_comm .. ▸ hit.from_start)
          have readable := hit.readable start le_rfl own
          rw [block] at readable
          cases readable
      | some buf =>
          have next := @ih (start + 1) (by omega)
          have hit := find?_entries nulFree buf
            (min direntsPerBlock (inodeGetsize inode / direntSize - direntsPerBlock * start))
          simp only [Option.map_some, entries_of_block before, firstMatch_step block]
          split
          · rename_i other scanned
            constructor
            · rintro ⟨⟩
              obtain ⟨e, inside, same, live, first⟩ := (hit entry).mp scanned
              exact ⟨direntsPerBlock * start + e, .inl ⟨e, inside, rfl, same, live, first⟩⟩
            · rintro ⟨k, ⟨e, inside, _, own⟩ | ⟨free, _⟩⟩
              · exact scanned.symm.trans ((hit entry).mpr ⟨e, inside, own⟩)
              · obtain ⟨e, inside, same, live, _⟩ := (hit other).mp scanned
                exact absurd (same ▸ live) (free e inside)
          · rename_i scanned
            rw [next]
            constructor
            · rintro ⟨k, later⟩
              refine ⟨k, .inr ⟨fun e inside live => ?_, later⟩⟩
              have member : direntAt buf e ∈ (List.range (min direntsPerBlock
                  (inodeGetsize inode / direntSize - direntsPerBlock * start))).map
                (direntAt buf) :=
                List.mem_map_of_mem (List.mem_range.mpr inside)
              exact List.find?_eq_none.mp scanned _ member ((named_iff nulFree).mpr live)
            · rintro ⟨k, ⟨e, inside, _, own⟩ | ⟨_, later⟩⟩
              · have stops := (hit entry).mpr ⟨e, inside, own⟩
                exact absurd (scanned.symm.trans stops) (Option.some_ne_none entry).symm
              · exact ⟨k, later⟩

end FirstMatch

/-- In a directory of any size and block map, `directory_findname` returns the first match, if all
blocks up to it can be read, and looks at no record behind the size. -/
theorem directory_findname_first (image : Image) (name : List UInt8) (dirinumber : ℤ)
    {inode : Inode} (found : inodeIget image dirinumber = some inode)
    (directory : inode.iMode &&& ifmt = ifdir) (nulFree : 0 ∉ name) :
    (∀ entry, directoryFindname image name dirinumber = some entry ↔
      ∃ k, FirstMatch image inode name 0 k entry) ∧
    (directoryExamined image name dirinumber).1 = directoryFindname image name dirinumber ∧
    ∀ b e, (b, e) ∈ (directoryExamined image name dirinumber).2 →
      e < direntsPerBlock ∧ direntsPerBlock * b + e < inodeGetsize inode / direntSize := by
  refine ⟨fun entry => ?_, directoryExamined_fst image name dirinumber, fun b e examined => ?_⟩
  · rw [directoryFindname, found]
    simp only [ne_eq, directory, not_true_eq_false, if_false]
    rw [List.range_eq_range']
    exact findInBlocks_range' found nulFree entry (Nat.zero_add _)
  · rw [directoryExamined, found] at examined
    simp only [ne_eq, directory, not_true_eq_false, if_false] at examined
    obtain ⟨member, valid, buf, read, inside⟩ := mem_findExamined examined
    rw [fileGetblock_of_blockAt found] at read
    obtain ⟨_, _, same⟩ := Option.map_eq_some_iff.mp read
    rw [← (Prod.mk.inj same).1, entries_of_block (List.mem_range.mp member)] at inside
    have bounds := lt_min_iff.mp inside
    exact ⟨bounds.1, by omega⟩

/-- A directory of 33 records: 32 free ones, and in its second block the entry `ab`. -/
def secondBlock : Image
  | 1025 => 0x40
  | 1030 => 16
  | 1031 => 2
  | 1032 => 6
  | 1034 => 7
  | 3584 => 5
  | 3586 => 97
  | 3587 => 98
  | _ => 0

theorem directory_findname_first_secondBlock :
    ∃ inode, inodeIget secondBlock 1 = some inode ∧ ∃ entry, entry.dInumber = 5 ∧
      directoryFindname secondBlock [97, 98] 1 = some entry ∧
        ∃ k, FirstMatch secondBlock inode [97, 98] 0 k entry := by
  have mode : (inodeIget secondBlock 1).map (·.iMode &&& ifmt) = some ifdir := by decide +kernel
  have result : (directoryFindname secondBlock [97, 98] 1).map (·.dInumber) = some 5 := by
    decide +kernel
  obtain ⟨inode, found, directory⟩ := Option.map_eq_some_iff.mp mode
  obtain ⟨entry, returned, inumber⟩ := Option.map_eq_some_iff.mp result
  obtain ⟨first, _⟩ := directory_findname_first secondBlock [97, 98] 1 found directory (by decide)
  exact ⟨inode, found, entry, inumber, returned, (first entry).mp returned⟩

end UnixV6
end Syscore
