import Syscore.UnixV6.Lookup
import Syscore.UnixV6.TreeDump

/-!
# The dump of a built image

`diskimageaccess` on an image that `mkfs_v6` has built from a tree: a line for each node, a
directory before what it holds, and for each file the checksum of its contents. Only the paths are
not always whole: `char child[512]` cuts them.
-/

namespace Syscore
namespace UnixV6

namespace Node

mutual

/-- How deep a tree is. -/
def height : Node → ℕ
  | file _ _ => 0
  | dir _ entries => heights entries + 1

@[inherit_doc height]
def heights : List (Name × Node) → ℕ
  | [] => 0
  | (_, node) :: entries => max node.height (heights entries)

end

theorem height_le_heights {entries : List (Name × Node)} {entry : Name × Node}
    (inside : entry ∈ entries) : entry.2.height ≤ heights entries := by
  induction entries with
  | nil => cases inside
  | cons head entries ih =>
      obtain ⟨name, node⟩ := head
      rw [heights]
      rcases List.mem_cons.mp inside with rfl | inside
      · exact le_max_left _ _
      · exact (ih inside).trans (le_max_right _ _)

end Node

namespace Dump

mutual

/-- A line for each node of a tree. -/
def listing (path : List UInt8) : Node → List Line
  | .file inumber data =>
      [.file path inumber data.length data.length (data.foldl fold 5381)]
  | .dir inumber entries =>
      .dir path inumber (direntSize * (entries.length + 2)) :: listings path entries

/-- The lines of what a directory holds, in its order. -/
def listings (path : List UInt8) : List (Name × Node) → List Line
  | [] => []
  | (name, node) :: entries =>
      listing (childPath path name.text) node ++ listings path entries

end

theorem listings_eq (path : List UInt8) (entries : List (Name × Node)) :
    listings path entries =
      (entries.map fun entry => listing (childPath path entry.1.text) entry.2).flatten := by
  induction entries with
  | nil => rfl
  | cons head entries ih =>
      obtain ⟨name, node⟩ := head
      rw [listings, ih, List.map_cons, List.flatten_cons]

/-! ## Files -/

/-- The loop over the blocks of a stored file folds its contents. -/
theorem readBlocks_of_stored {fs : Mkfs} {inumber : ℕ} {inode : Inode} {data : List UInt8}
    (stored : Stored fs inumber inode data) {blocks : List ℕ}
    (within : ∀ b ∈ blocks, b < blockCount data) (h : UInt64) (totalRead : ℕ) :
    readBlocks fs.image inumber blocks h totalRead =
      let bytes := (blocks.map fun b => (data.drop (sectorSize * b)).take sectorSize).flatten
      ([], totalRead + bytes.length, bytes.foldl fold h) := by
  induction blocks generalizing h totalRead with
  | nil => rfl
  | cons b blocks ih =>
      have inside := within b List.mem_cons_self
      rw [readBlocks, fileGetblock_of_stored stored, if_pos ⟨by omega, by omega⟩]
      dsimp only
      rw [Int.toNat_natCast, take_dataBlock,
        ih fun other inside => within other (List.mem_cons_of_mem b inside)]
      have valid : min sectorSize (data.length - sectorSize * b) =
          ((data.drop (sectorSize * b)).take sectorSize).length := by
        rw [List.length_take, List.length_drop]
      simp only [valid, List.map_cons, List.flatten_cons, List.foldl_append, List.length_append,
        Nat.add_assoc]

theorem walk_of_file {fs : Mkfs} {inumber : ℕ} {inode : Inode} {data : List UInt8}
    (stored : Stored fs inumber inode data) (mode : inode.iMode &&& ifmt ≠ ifdir)
    (fuel : ℕ) (path : List UInt8) :
    walk fs.image (fuel + 1) inumber path = some (listing path (.file inumber data)) := by
  have whole := readBlocks_of_stored stored
    (fun b inside => List.mem_range.mp inside : ∀ b ∈ List.range (blockCount data), _) 5381 0
  have all : data.take (sectorSize * blockCount data) = data := by
    refine List.take_of_length_le ?_
    change data.length ≤ 512 * ((data.length + 512 - 1) / 512)
    omega
  simp only [flatten_slices, all, Nat.zero_add] at whole
  rw [walk, stored.slot]
  dsimp only
  unfold blockCount at whole
  rw [if_neg mode, stored.size, whole]
  rfl

/-! ## Directories -/

/-- The name that `mkent` has stored. -/
theorem nameOf_mkent (inumber : ℕ) {name : List UInt8} (nulFree : 0 ∉ name)
    (short : name.length ≤ maxComponentLength) : nameOf (mkent inumber name) = name := by
  have each : ∀ byte ∈ name, decide (byte ≠ 0) = true := fun byte inside =>
    decide_eq_true fun zero => nulFree (zero ▸ inside)
  rw [nameOf, mkent, ofFn_strncpyName nulFree short, List.takeWhile_append_of_pos each]
  cases maxComponentLength - name.length with
  | zero => exact List.append_nil name
  | succ count => exact List.append_nil name

theorem followed_mkent {inumber : ℕ} (positive : 1 ≤ inumber) (small : inumber ≤ 64)
    (name : Name) : followed (mkent inumber name.text) = true := by
  have used : (mkent inumber name.text).dInumber ≠ 0 := by
    intro zero
    have value : (mkent inumber name.text).dInumber.toNat = inumber :=
      toNat_ofNat_of_lt (by omega)
    rw [zero] at value
    exact absurd value (by simp; omega)
  rw [followed, nameOf_mkent inumber name.nulFree name.short]
  simp [used, name.notDot, name.notDotDot]

/-- The entries of a stored directory that the dump follows: all but `.` and `..`. -/
theorem entries_of_stored {fs : Mkfs} {inumber parentInumber : ℕ} {inode : Inode}
    {records : List Direntv6} (short : records.length ≤ 30)
    (all : ∀ entry ∈ records, followed entry = true)
    (stored : Stored fs inumber inode (direntBytes inumber parentInumber records)) :
    entries fs.image inumber 1 = records := by
  have length := length_direntBytes inumber parentInumber records
  have count : (blockCount (direntBytes inumber parentInumber records) : ℤ) = 1 := by
    unfold blockCount
    rw [length]
    exact congrArg Nat.cast (show ((records.length + 2) * 16 + 512 - 1) / 512 = 1 by omega)
  have valid : min sectorSize ((records.length + 2) * 16 - sectorSize * 0) / direntSize =
      records.length + 2 := by
    change min 512 ((records.length + 2) * 16 - 512 * 0) / 16 = records.length + 2
    omega
  have whole : (List.range (records.length + 2)).map
      (direntAt (dataBlock (direntBytes inumber parentInumber records) 0)) =
        mkent inumber [46] :: mkent parentInumber [46, 46] :: records :=
    map_direntAt (by simp only [List.length_cons]; omega)
  have dot : ¬ followed (mkent inumber [46]) = true := by
    rw [followed, nameOf_mkent inumber (by decide) (by decide)]
    simp
  have dotdot : ¬ followed (mkent parentInumber [46, 46]) = true := by
    rw [followed, nameOf_mkent parentInumber (by decide) (by decide)]
    simp
  simp only [entries, List.range_one, List.pure_def, List.bind_eq_flatMap, List.flatMap_cons,
    List.flatMap_nil, List.append_nil, Nat.cast_zero]
  rw [fileGetblock_of_stored stored, count, if_pos ⟨le_rfl, zero_lt_one⟩, length, Int.toNat_zero]
  dsimp only
  rw [valid, whole, List.filter_cons_of_neg dot, List.filter_cons_of_neg dotdot,
    List.filter_eq_self.mpr all]

theorem walk_of_dir {fs : Mkfs} {inumber parentInumber : ℕ} {inode : Inode}
    {children : List (Name × Node)} (short : children.length ≤ 30)
    (members : ∀ entry ∈ children, 1 ≤ entry.2.inumber ∧ entry.2.inumber ≤ 64)
    (stored : Stored fs inumber inode (direntBytes inumber parentInumber
      (children.map fun (name, node) => mkent node.inumber name.text)))
    (mode : inode.iMode &&& ifmt = ifdir) (fuel : ℕ) (path : List UInt8)
    (each : ∀ entry ∈ children, walk fs.image fuel entry.2.inumber (childPath path entry.1.text) =
      some (listing (childPath path entry.1.text) entry.2)) :
    walk fs.image (fuel + 1) inumber path = some (listing path (.dir inumber children)) := by
  have length := length_direntBytes inumber parentInumber
    (children.map fun (name, node) => mkent node.inumber name.text)
  rw [List.length_map] at length
  have count : ((children.length + 2) * 16 + sectorSize - 1) / sectorSize = 1 := by
    change ((children.length + 2) * 16 + 512 - 1) / 512 = 1
    omega
  have all : ∀ record ∈ children.map fun (name, node) => mkent node.inumber name.text,
      followed record = true := by
    intro record inside
    obtain ⟨entry, member, rfl⟩ := List.mem_map.mp inside
    exact followed_mkent (members entry member).1 (members entry member).2 entry.1
  have calls : (children.map fun (name, node) => mkent node.inumber name.text).mapM
      (fun record => walk fs.image fuel record.dInumber.toNat (childPath path (nameOf record))) =
        some (children.map fun entry => listing (childPath path entry.1.text) entry.2) := by
    rw [List.mapM_map]
    refine mapM_eq_some fun entry member => ?_
    have number : (mkent entry.2.inumber entry.1.text).dInumber.toNat = entry.2.inumber :=
      toNat_ofNat_of_lt (by have := members entry member; omega)
    rw [Function.comp_apply, number, nameOf_mkent _ entry.1.nulFree entry.1.short]
    exact each entry member
  rw [walk, stored.slot]
  dsimp only
  rw [if_pos mode, stored.size, length, count,
    entries_of_stored ((List.length_map _).trans_le short) all stored, calls, Option.map_some,
    listing, listings_eq, Nat.mul_comm]

/-! ## Trees -/

section Built

variable {fs : Mkfs} {ops : List Mkfs.Op} (formatted : dataStart ≤ fs.nextData)
  (allowed : ∀ op ∈ ops, op.Allowed) (distinct : (ops.map Mkfs.Op.inumber).Nodup)
  (fits : (fs.run ops).nextData ≤ 65536)

include formatted allowed distinct fits in
/-- The dump of a subtree, with a bound that its height stays below. -/
theorem walk_of_placed (fuel : ℕ) {ancestors : List Node} {node : Node}
    (placed : Placed ops ancestors node) (enough : node.height < fuel) (path : List UInt8) :
    walk (fs.run ops).image fuel node.inumber path = some (listing path node) := by
  have inodes : ∀ op ∈ ops, 1 ≤ op.inumber ∧ op.inumber ≤ 64 := fun op inside =>
    (allowed op inside).inumber
  induction fuel generalizing ancestors node path with
  | zero => exact absurd enough (Nat.not_lt_zero _)
  | succ fuel ih =>
      obtain ⟨wellFormed, calls⟩ := placed.own
      cases node with
      | file inumber data =>
          have inside : Mkfs.Op.makeFile inumber data ∈ ops := calls (List.mem_singleton.mpr rfl)
          obtain ⟨before, _, _, ready, nextData, blocks, slot⟩ :=
            Mkfs.run_split formatted inodes distinct inside
          obtain ⟨inode, stored⟩ :=
            Mkfs.stored_apply ready (allowed _ inside) rfl (nextData.trans fits)
          obtain ⟨same, own, mode⟩ := slot_makeFile (fs.run before) (inodes _ inside).1 data
          obtain rfl : inode = same := Option.some.inj (stored.slot.symm.trans own)
          exact walk_of_file (stored.keep nextData blocks slot) mode fuel path
      | dir inumber children =>
          have short :
              (children.map fun (name, node) => mkent node.inumber name.text).length ≤ 30 :=
            (List.length_map _).le.trans wellFormed.1
          rw [Node.calls] at calls
          have inside := calls List.mem_cons_self
          have below (entry : Name × Node) (member : entry ∈ children) :
              entry.2.calls inumber ⊆ ops := fun op call =>
            calls (List.mem_cons_of_mem _ (Node.calls_subset_allCalls member call))
          have members (entry : Name × Node) (member : entry ∈ children) :
              1 ≤ entry.2.inumber ∧ entry.2.inumber ≤ 64 := by
            obtain ⟨op, call, number⟩ := entry.2.exists_call inumber
            exact number ▸ inodes op (below entry member call)
          have own := inodes _ inside
          obtain ⟨before, _, _, ready, nextData, blocks, slot⟩ :=
            Mkfs.run_split formatted inodes distinct inside
          have room : (fs.run before).nextData < 65536 := nextData.trans fits
          obtain ⟨inode, stored, mode⟩ := slot_makeDir ready own.1 own.2 short room
          refine walk_of_dir wellFormed.1 members (stored.keep nextData blocks slot) mode fuel path
            fun entry member => ?_
          have inner : Placed ops (.dir inumber children :: ancestors) entry.2 :=
            ⟨⟨Node.allWellFormed_iff.mp wellFormed.2.2 entry member, below entry member⟩, placed⟩
          have shallow := Node.height_le_heights member
          rw [Node.height] at enough
          exact ih inner (by omega) _

end Built

/-- The dump of an image built from a tree lists the tree. -/
theorem walk_lists (image : Image) (root : Node) (ops : List Mkfs.Op)
    (wellFormed : root.WellFormed) (isRoot : root.inumber = rootIno)
    (built : ops.Perm (root.calls rootIno)) (distinct : (ops.map Mkfs.Op.inumber).Nodup)
    (allowed : ∀ op ∈ ops, op.Allowed) (fits : ((Mkfs.start image).run ops).nextData ≤ 65536)
    (fuel : ℕ) (enough : root.height < fuel) :
    walk ((Mkfs.start image).run ops).image fuel rootIno [slash] =
      some (listing [slash] root) := by
  have placed : Placed ops [] root := ⟨isRoot, wellFormed, built.symm.subset⟩
  have formatted : dataStart ≤ (Mkfs.start image).nextData := le_rfl
  have listed := walk_of_placed formatted allowed distinct fits fuel placed enough [slash]
  rwa [isRoot] at listed

theorem walk_lists_nested :
    let root := Node.dir 1 [(letter 0, .dir 3 [(letter 1, .file 2 [104, 105])])]
    walk ((Mkfs.start fun _ => 255).run (root.calls 1)).image 3 1 [47] =
      some [.dir [47] 1 48, .dir [47, 97] 3 48, .file [47, 97, 47, 98] 2 2 2 5863446] := by
  have listed := walk_lists (fun _ => 255)
    (.dir 1 [(letter 0, .dir 3 [(letter 1, .file 2 [104, 105])])]) _
    (by simp [Node.WellFormed, Node.AllWellFormed]) rfl (List.Perm.refl _) (by decide)
    (by simp [Node.calls, Node.allCalls, Mkfs.Op.Allowed, Node.inumber, maxFileSize])
    (by decide +kernel) 3 (by decide)
  exact listed.trans (by decide +kernel)

end Dump
end UnixV6
end Syscore
