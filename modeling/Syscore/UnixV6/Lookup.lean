import Mathlib.Data.List.Find
import Mathlib.Data.List.TakeWhile
import Syscore.Library.Stream
import Syscore.UnixV6.Pathname
import Syscore.UnixV6.RoundTrip

/-!
# Paths lead to the nodes they name

A path looked up on an image that was built from a tree reaches the node that the path reaches in
the tree.
-/

namespace Syscore
namespace UnixV6

/-! ## Directory blocks -/

/-- Record number `e` of a block of records. -/
theorem byte_dataBlock {entries : List Direntv6} {e : ℕ} (inside : e < entries.length)
    (short : entries.length ≤ 32) {index : ℕ} (inside' : index < 16) :
    (dataBlock (entries.flatMap Direntv6.bytes) 0).byte (16 * e + index) =
      entries[e].bytes.getD index 0 := by
  have each : ∀ entry ∈ entries, entry.bytes.length = 16 := by simp [Direntv6.bytes]
  have length := length_flatMap each
  have bound : 16 * e + index < 512 := by omega
  have own := each entries[e] (List.getElem_mem inside)
  rw [Sector.byte_of_lt _ bound]
  unfold dataBlock
  simp only [Nat.zero_mul, Nat.sub_zero, Nat.zero_add]
  have chunk : 16 * e + index < min (entries.flatMap Direntv6.bytes).length 512 := by omega
  rw [if_pos chunk, List.getD_eq_getElem?_getD, ← List.getElem?_drop, drop_flatMap each,
    List.drop_eq_getElem_cons inside, List.flatMap_cons, List.getElem?_append_left (by omega),
    List.getD_eq_getElem?_getD]

theorem direntAt_dataBlock {entries : List Direntv6} {e : ℕ} (inside : e < entries.length)
    (short : entries.length ≤ 32) :
    direntAt (dataBlock (entries.flatMap Direntv6.bytes) 0) e = entries[e] := by
  have byte {index : ℕ} (inside' : index < 16) := byte_dataBlock inside short inside'
  have number : u16At (dataBlock (entries.flatMap Direntv6.bytes) 0).byte (16 * e) =
      entries[e].dInumber :=
    u16At_bytes _ _ _ (byte (by omega : 0 < 16)) (byte (by omega : 1 < 16))
  have name : (fun index : Fin maxComponentLength =>
      (dataBlock (entries.flatMap Direntv6.bytes) 0).byte (16 * e + 2 + index)) =
        entries[e].dName := by
    funext index
    have inside' : (index : ℕ) < 14 := index.isLt
    rw [Nat.add_assoc, byte (by omega), Direntv6.bytes, List.getD_append_right _ _ _ _ (by simp),
      length_u16Bytes, Nat.add_sub_cancel_left, List.getD_eq_getElem _ _ (by simp),
      List.getElem_ofFn]
  unfold direntAt
  rw [number, name]

theorem map_direntAt {entries : List Direntv6} (short : entries.length ≤ 32) :
    (List.range entries.length).map
      (direntAt (dataBlock (entries.flatMap Direntv6.bytes) 0)) = entries := by
  apply List.ext_getElem
  · simp
  · intro e _ inside
    rw [List.getElem_map, List.getElem_range, direntAt_dataBlock inside short]

/-- `mkent` stores a name padded with NULs. -/
theorem ofFn_strncpyName {name : List UInt8} (nulFree : 0 ∉ name)
    (short : name.length ≤ maxComponentLength) :
    List.ofFn (strncpyName name) = name ++ List.replicate (maxComponentLength - name.length) 0 := by
  have whole : name.takeWhile (· ≠ 0) = name :=
    List.takeWhile_eq_self_iff.mpr fun byte inside =>
      decide_eq_true fun zero => nulFree (zero ▸ inside)
  apply List.ext_getElem
  · simp only [List.length_ofFn, List.length_append, List.length_replicate]
    omega
  · intro index inside inside'
    rw [List.getElem_ofFn, strncpyName, whole]
    by_cases before : index < name.length
    · rw [List.getElem_append_left before, List.getD_eq_getElem _ _ before]
    · rw [List.getElem_append_right (not_lt.mp before), List.getElem_replicate,
        List.getD_eq_default _ _ (not_lt.mp before)]

theorem named_mkent {inumber : ℕ} {name word : List UInt8} (positive : 1 ≤ inumber)
    (small : inumber ≤ 64) (nulFree : 0 ∉ name) (short : name.length ≤ maxComponentLength)
    (nulFree' : 0 ∉ word) (short' : word.length ≤ maxComponentLength) :
    (mkent inumber name).named word = decide (name = word) := by
  have used : UInt16.ofNat inumber ≠ 0 := by
    intro zero
    have value := congrArg UInt16.toNat zero
    rw [toNat_ofNat_of_lt (by omega)] at value
    exact absurd value (by simp; omega)
  rw [Bool.eq_iff_iff, Direntv6.named, mkent, ofFn_strncpyName nulFree short]
  simp only [used, ne_eq, not_false_eq_true, decide_true, Bool.true_and, beq_iff_eq,
    decide_eq_true_eq]
  exact strncmp_padded nulFree nulFree' short short'

/-! ## Inodes of nodes -/

/-- `make_file` leaves an inode that is not a directory. -/
theorem slot_makeFile (fs : Mkfs) {inumber : ℕ} (positive : 1 ≤ inumber) (data : List UInt8) :
    ∃ inode, inodeIget (fs.makeFile inumber data).image inumber = some inode ∧
      inode.iMode &&& ifmt ≠ ifdir := by
  rw [makeFile_eq]
  split
  · rename_i few
    refine ⟨_, inodeIget_putInode _ _ positive, ?_⟩
    rw [(directLoop fs _ data few).mode]
    change ialloc &&& ifmt ≠ ifdir
    decide
  · refine ⟨_, inodeIget_putInode _ _ positive, ?_⟩
    rw [(largeLoop fs _ data (blockCount data) le_rfl).mode]
    change (ialloc ||| ilarg) &&& ifmt ≠ ifdir
    decide

/-- `make_dir` leaves a directory that holds its entries. -/
theorem slot_makeDir {fs : Mkfs} {inumber parentInumber : ℕ} {entries : List Direntv6}
    (formatted : dataStart ≤ fs.nextData) (positive : 1 ≤ inumber) (small : inumber ≤ 64)
    (short : entries.length ≤ 30) (fits : fs.nextData < 65536) :
    ∃ inode, Stored (fs.makeDir inumber parentInumber entries) inumber inode
      (direntBytes inumber parentInumber entries) ∧ inode.iMode &&& ifmt = ifdir := by
  obtain ⟨inode, stored⟩ :=
    @stored_makeDir fs inumber parentInumber entries formatted positive small short fits
  refine ⟨inode, stored, ?_⟩
  have slot := stored.slot
  rw [makeDir_eq, inodeIget_putInode _ _ positive] at slot
  rw [← Option.some.inj slot]
  change (ialloc ||| ifdir) &&& ifmt = ifdir
  decide

/-- Looking a name up in something that is no directory. -/
theorem directoryFindname_of_file {image : Image} {inumber : ℕ} {inode : Inode}
    (slot : inodeIget image inumber = some inode) (mode : inode.iMode &&& ifmt ≠ ifdir)
    (name : List UInt8) : directoryFindname image name inumber = none := by
  unfold directoryFindname
  simp only [slot]
  exact if_pos mode

/-- Looking a name up in a directory: `.`, `..` and the entries in order. -/
theorem directoryFindname_of_stored {fs : Mkfs} {inumber parentInumber : ℕ} {inode : Inode}
    {entries : List Direntv6} (short : entries.length ≤ 30)
    (stored : Stored fs inumber inode (direntBytes inumber parentInumber entries))
    (mode : inode.iMode &&& ifmt = ifdir) (name : List UInt8) :
    directoryFindname fs.image name inumber =
      (mkent inumber [46] :: mkent parentInumber [46, 46] :: entries).find? (·.named name) := by
  have length := length_direntBytes inumber parentInumber entries
  have count : ((entries.length + 2) * 16 + 512 - 1) / 512 = 1 := by omega
  have count' : (blockCount (direntBytes inumber parentInumber entries) : ℤ) = 1 := by
    unfold blockCount
    rw [length]
    exact congrArg Nat.cast count
  have valid : min sectorSize ((entries.length + 2) * 16 - sectorSize * 0) / 16 =
      entries.length + 2 := by
    change min 512 ((entries.length + 2) * 16 - 512 * 0) / 16 = entries.length + 2
    omega
  have whole : (List.range (entries.length + 2)).map
      (direntAt (dataBlock (direntBytes inumber parentInumber entries) 0)) =
        mkent inumber [46] :: mkent parentInumber [46, 46] :: entries :=
    map_direntAt (by simp only [List.length_cons]; omega)
  unfold directoryFindname
  simp only [stored.slot, mode, ne_eq, not_true, if_false, stored.size, length]
  rw [count, List.range_one, findInBlocks, fileGetblock_of_stored stored, count', length]
  simp only [Nat.cast_zero, le_refl, zero_lt_one, and_self, if_true, Int.toNat_zero]
  rw [valid, whole]
  cases List.find? _ _ with
  | none => rfl
  | some entry => rfl

/-! ## Trees and their calls -/

namespace Node

/-- Every node has a call of its own. -/
theorem exists_call (parentInumber : ℕ) (node : Node) :
    ∃ op ∈ node.calls parentInumber, op.inumber = node.inumber := by
  cases node with
  | file inumber data => exact ⟨_, List.mem_singleton.mpr rfl, rfl⟩
  | dir inumber entries =>
      rw [calls]
      exact ⟨_, List.mem_cons_self, rfl⟩

theorem calls_subset_allCalls {parentInumber : ℕ} {entries : List (Name × Node)}
    {entry : Name × Node} (inside : entry ∈ entries) :
    entry.2.calls parentInumber ⊆ allCalls parentInumber entries := by
  induction entries with
  | nil => cases inside
  | cons head entries ih =>
      obtain ⟨name, node⟩ := head
      rw [allCalls]
      rcases List.mem_cons.mp inside with rfl | inside
      · exact List.subset_append_left _ _
      · exact List.Subset.trans (ih inside) (List.subset_append_right _ _)

theorem allWellFormed_iff {entries : List (Name × Node)} :
    AllWellFormed entries ↔ ∀ entry ∈ entries, entry.2.WellFormed := by
  induction entries with
  | nil => simp [AllWellFormed]
  | cons head entries ih =>
      obtain ⟨name, node⟩ := head
      rw [AllWellFormed, ih, List.forall_mem_cons]

end Node

/-- A node whose calls, and those of the directories above it, are among some calls. -/
def Placed (ops : List Mkfs.Op) : List Node → Node → Prop
  | [], node => node.inumber = rootIno ∧ node.WellFormed ∧ node.calls rootIno ⊆ ops
  | parent :: ancestors, node =>
      (node.WellFormed ∧ node.calls parent.inumber ⊆ ops) ∧ Placed ops ancestors parent

/-- The inumber that `..` of a node leads to. -/
def parentInumber : List Node → ℕ
  | [] => rootIno
  | parent :: _ => parent.inumber

theorem Placed.own {ops : List Mkfs.Op} {ancestors : List Node} {node : Node}
    (placed : Placed ops ancestors node) :
    node.WellFormed ∧ node.calls (parentInumber ancestors) ⊆ ops := by
  cases ancestors with
  | nil => exact placed.2
  | cons parent ancestors => exact placed.1

theorem Placed.inumber {ops : List Mkfs.Op} {ancestors : List Node} {node : Node}
    (placed : Placed ops ancestors node)
    (inodes : ∀ op ∈ ops, 1 ≤ op.inumber ∧ op.inumber ≤ 64) :
    1 ≤ node.inumber ∧ node.inumber ≤ 64 := by
  obtain ⟨op, call, number⟩ := node.exists_call (UnixV6.parentInumber ancestors)
  exact number ▸ inodes op (placed.own.2 call)

theorem Placed.parentInumber {ops : List Mkfs.Op} {ancestors : List Node} {node : Node}
    (placed : Placed ops ancestors node)
    (inodes : ∀ op ∈ ops, 1 ≤ op.inumber ∧ op.inumber ≤ 64) :
    1 ≤ parentInumber ancestors ∧ parentInumber ancestors ≤ 64 := by
  cases ancestors with
  | nil => exact ⟨le_rfl, by decide⟩
  | cons parent ancestors => exact placed.2.inumber inodes

/-- The first entry with a name, in the directory that `make_dir` lays out. -/
theorem find_entries {inumber parentInumber : ℕ} {entries : List (Name × Node)}
    {word : List UInt8} (own : 1 ≤ inumber ∧ inumber ≤ 64)
    (parent : 1 ≤ parentInumber ∧ parentInumber ≤ 64)
    (members : ∀ entry ∈ entries, 1 ≤ entry.2.inumber ∧ entry.2.inumber ≤ 64)
    (nulFree : 0 ∉ word) (short : word.length ≤ maxComponentLength) :
    ((mkent inumber [46] :: mkent parentInumber [46, 46] ::
        entries.map fun (name, node) => mkent node.inumber name.text).find?
          (·.named word)).map (·.dInumber.toNat) =
      if word = [46] then some inumber
      else if word = [46, 46] then some parentInumber
      else (entries.find? fun entry => entry.1.text = word).map (·.2.inumber) := by
  have number {inumber : ℕ} (small : inumber ≤ 64) (name : List UInt8) :
      (mkent inumber name).dInumber.toNat = inumber := toNat_ofNat_of_lt (by omega)
  rw [List.find?_cons, named_mkent own.1 own.2 (by decide) (by decide) nulFree short]
  by_cases dot : [46] = word
  · simp only [dot, decide_true, if_true, Option.map_some, number own.2]
  · rw [List.find?_cons, named_mkent parent.1 parent.2 (by decide) (by decide) nulFree short,
      if_neg (Ne.symm dot)]
    by_cases dotdot : [46, 46] = word
    · simp only [dot, dotdot, decide_true, decide_false, if_true, Option.map_some, number parent.2]
    · have same : ∀ entry ∈ entries,
          ((·.named word) ∘ fun (name, node) => mkent node.inumber name.text) entry =
            decide (entry.1.text = word) := fun entry inside =>
        named_mkent (members entry inside).1 (members entry inside).2 entry.1.nulFree
          entry.1.short nulFree short
      simp only [dot, dotdot, decide_false]
      rw [if_neg (Ne.symm dotdot), List.find?_map, Option.map_map, List.find?_congr same]
      cases found : entries.find? fun entry => entry.1.text = word with
      | none => rfl
      | some entry =>
          exact congrArg some (number (members entry (List.mem_of_find?_eq_some found)).2 _)

/-! ## The calls as a whole -/

theorem mem_dirBlocks (fs : Mkfs) (before after : List Mkfs.Op) (inumber parentInumber : ℕ)
    (entries : List Direntv6) :
    (fs.run before).nextData ∈
      fs.dirBlocks (before ++ .makeDir inumber parentInumber entries :: after) := by
  induction before generalizing fs with
  | nil => exact List.mem_cons_self
  | cons op before ih =>
      cases op with
      | makeDir => exact List.mem_cons_of_mem _ (ih _)
      | makeFile => exact ih _
      | putInode => exact ih _

section Built

variable {fs : Mkfs} {ops : List Mkfs.Op}

/-- What a step of a lookup does, for one component of a path. -/
theorem directoryFindname_step (formatted : dataStart ≤ fs.nextData)
    (inodes : ∀ op ∈ ops, 1 ≤ op.inumber ∧ op.inumber ≤ 64)
    (distinct : (ops.map Mkfs.Op.inumber).Nodup) (fits : ∀ d ∈ fs.dirBlocks ops, d < 65536)
    {ancestors : List Node} {node : Node} (placed : Placed ops ancestors node)
    {component : List UInt8} (nulFree : 0 ∉ component) :
    (directoryFindname (fs.run ops).image (component.take maxComponentLength)
        node.inumber).map (·.dInumber.toNat) =
      (Position.step ⟨ancestors, node⟩ component).map (·.node.inumber) := by
  obtain ⟨wellFormed, calls⟩ := placed.own
  cases node with
  | file inumber data =>
      have inside : Mkfs.Op.makeFile inumber data ∈ ops := calls (List.mem_singleton.mpr rfl)
      obtain ⟨before, _, _, _, _, _, slot⟩ := Mkfs.run_split formatted inodes distinct inside
      obtain ⟨inode, own, mode⟩ :=
        slot_makeFile (fs.run before) (inodes _ inside).1 data
      have missing := directoryFindname_of_file (slot.trans own) mode
        (component.take maxComponentLength)
      exact congrArg (Option.map (·.dInumber.toNat)) missing
  | dir inumber entries =>
      have short : (entries.map fun (name, node) => mkent node.inumber name.text).length ≤ 30 :=
        (List.length_map _).le.trans wellFormed.1
      rw [Node.calls] at calls
      have inside := calls List.mem_cons_self
      have members : ∀ entry ∈ entries, 1 ≤ entry.2.inumber ∧ entry.2.inumber ≤ 64 := by
        intro entry member
        obtain ⟨op, call, number⟩ := entry.2.exists_call inumber
        exact number ▸ inodes op
          (calls (List.mem_cons_of_mem _ (Node.calls_subset_allCalls member call)))
      have own := inodes _ inside
      obtain ⟨before, after, rfl, ready, nextData, blocks, slot⟩ :=
        Mkfs.run_split formatted inodes distinct inside
      have room := fits _ (mem_dirBlocks fs before after _ _ _)
      obtain ⟨inode, stored, mode⟩ :=
        slot_makeDir ready own.1 own.2 short room
      have found := directoryFindname_of_stored short (stored.keep nextData blocks slot) mode
        (component.take maxComponentLength)
      refine (congrArg (Option.map (·.dInumber.toNat)) found).trans ?_
      have nulFree' : 0 ∉ component.take maxComponentLength := fun inside =>
        nulFree (List.mem_of_mem_take inside)
      rw [find_entries own (placed.parentInumber inodes) members nulFree'
        (List.length_take_le _ _)]
      unfold Position.step
      simp only
      split_ifs with dot dotdot
      · rfl
      · cases ancestors with
        | nil => exact congrArg some placed.1.symm
        | cons parent ancestors => rfl
      · rw [Option.map_map]
        rfl

/-- A step of the walk stays within the tree. -/
theorem Placed.step {position next : Position}
    (placed : Placed ops position.ancestors position.node) {component : List UInt8}
    (step : position.step component = some next) : Placed ops next.ancestors next.node := by
  obtain ⟨ancestors, node⟩ := position
  unfold Position.step at step
  cases node with
  | file => cases step
  | dir inumber entries =>
      simp only at step
      split_ifs at step with dot dotdot
      · obtain rfl := Option.some.inj step
        exact placed
      · cases ancestors with
        | nil =>
            obtain rfl := Option.some.inj step
            exact placed
        | cons parent ancestors =>
            obtain rfl := Option.some.inj step
            exact placed.2
      · obtain ⟨entry, found, rfl⟩ := Option.map_eq_some_iff.mp step
        have inside := List.mem_of_find?_eq_some found
        obtain ⟨wellFormed, calls⟩ := placed.own
        have below : entry.2.calls inumber ⊆ ops := fun op call =>
          calls (List.mem_cons_of_mem _ (Node.calls_subset_allCalls inside call))
        exact ⟨⟨Node.allWellFormed_iff.mp wellFormed.2.2 entry inside, below⟩, placed⟩

/-! ## Paths -/

theorem components_slash (p : List UInt8) : components (slash :: p) = components p := by
  unfold components
  rw [List.splitOnP_cons_eq_if_modifyHead, if_pos (decide_eq_true rfl)]
  rfl

theorem components_dropWhile (p : List UInt8) :
    components (p.dropWhile (· = slash)) = components p := by
  induction p with
  | nil => rfl
  | cons char p ih =>
      by_cases slashed : char = slash
      · subst slashed
        have drop : (slash :: p).dropWhile (· = slash) = p.dropWhile (· = slash) :=
          List.dropWhile_cons_of_pos (decide_eq_true rfl)
        rw [drop, ih, components_slash]
      · have drop : (char :: p).dropWhile (· = slash) = char :: p :=
          List.dropWhile_cons_of_neg (mt of_decide_eq_true slashed)
        rw [drop]

theorem not_slash_of_notMem {word : List UInt8} (free : slash ∉ word) :
    ∀ char ∈ word, decide (char = slash) = false :=
  fun _ inside => decide_eq_false fun equal => free (equal ▸ inside)

/-- The first component of a path that does not start with a slash. -/
theorem components_eq_cons {p rest : List UInt8} {first : UInt8} (shape : p = first :: rest)
    (kept : first ≠ slash) :
    components p = p.takeWhile (· ≠ slash) :: components (p.dropWhile (· ≠ slash)) := by
  by_cases found : slash ∈ p
  · obtain ⟨word, tail, rfl, free⟩ := List.eq_append_cons_of_mem found
    obtain ⟨taken, dropped⟩ := cut_at free tail
    have nonempty : decide (word ≠ []) = true := by
      refine decide_eq_true fun empty => ?_
      rw [empty, List.nil_append] at shape
      exact kept (List.cons.inj shape).1.symm
    rw [taken, dropped, components_slash]
    unfold components
    rw [List.splitOnP_append_cons_of_forall_mem (not_slash_of_notMem free) slash
      (decide_eq_true rfl)]
    exact List.filter_cons_of_pos nonempty
  · have all : ∀ char ∈ p, decide (char ≠ slash) = true := fun _ inside =>
      decide_eq_true fun equal => found (equal ▸ inside)
    have nonempty : decide (p ≠ []) = true :=
      decide_eq_true (shape ▸ List.cons_ne_nil first rest)
    rw [List.takeWhile_eq_self_iff.mpr all, List.dropWhile_eq_nil_iff.mpr all]
    unfold components
    rw [List.splitOnP_eq_singleton (not_slash_of_notMem found)]
    exact List.filter_cons_of_pos nonempty

/-- The lookup of a path that starts at a node of the tree. -/
theorem lookupFrom_eq (formatted : dataStart ≤ fs.nextData)
    (inodes : ∀ op ∈ ops, 1 ≤ op.inumber ∧ op.inumber ≤ 64)
    (distinct : (ops.map Mkfs.Op.inumber).Nodup) (fits : ∀ d ∈ fs.dirBlocks ops, d < 65536)
    {position : Position} (placed : Placed ops position.ancestors position.node)
    {p : List UInt8} (nulFree : 0 ∉ p) :
    lookupFrom (fs.run ops).image position.node.inumber p =
      ((components p).foldlM Position.step position).map (·.node.inumber) := by
  induction length : p.length using Nat.strong_induction_on generalizing p position with
  | _ count ih =>
      subst length
      rw [lookupFrom, ← components_dropWhile]
      cases shape : p.dropWhile (· = slash) with
      | nil => rfl
      | cons first rest =>
          have nonempty : p.dropWhile (· = slash) ≠ [] := shape ▸ List.cons_ne_nil first rest
          have kept := head_ne_slash shape
          have shorter := length_dropWhile_slash nonempty
          have clean : 0 ∉ p.dropWhile (· = slash) := fun inside =>
            nulFree ((List.dropWhile_sublist _).subset inside)
          rw [shape] at shorter clean
          have own : 0 ∉ (first :: rest).takeWhile (· ≠ slash) := fun inside =>
            clean ((List.takeWhile_sublist _).subset inside)
          have later : 0 ∉ (first :: rest).dropWhile (· ≠ slash) := fun inside =>
            clean ((List.dropWhile_sublist _).subset inside)
          have step := directoryFindname_step formatted inodes distinct fits placed own
          rw [components_eq_cons rfl kept, List.foldlM_cons]
          simp only [reduceCtorEq, if_false]
          cases found : position.step ((first :: rest).takeWhile (· ≠ slash)) with
          | none =>
              rw [found, Option.map_none, Option.map_eq_none_iff] at step
              rw [step]
              rfl
          | some next =>
              rw [found, Option.map_some] at step
              obtain ⟨entry, known, number⟩ := Option.map_eq_some_iff.mp step
              have rest_eq := ih _ shorter (placed.step found) later rfl
              rw [known]
              simp only [number]
              exact rest_eq

end Built

/-- A lookup on an image built from a tree walks the tree. -/
theorem pathname_lookup_walks (image : Image) (root : Node) (ops : List Mkfs.Op)
    (wellFormed : root.WellFormed) (isRoot : root.inumber = rootIno)
    (built : ops.Perm (root.calls rootIno)) (distinct : (ops.map Mkfs.Op.inumber).Nodup)
    (inodes : ∀ op ∈ ops, 1 ≤ op.inumber ∧ op.inumber ≤ 64)
    (fits : ∀ d ∈ (Mkfs.start image).dirBlocks ops, d < 65536)
    (pathname : List UInt8) (absolute : pathname.head? = some slash) (nulFree : 0 ∉ pathname) :
    pathnameLookup ((Mkfs.start image).run ops).image pathname =
      (walk root pathname).map (·.node.inumber) := by
  have formatted : dataStart ≤ (Mkfs.start image).nextData := le_rfl
  have placed : Placed ops [] root := ⟨isRoot, wellFormed, built.symm.subset⟩
  have found : lookupFrom ((Mkfs.start image).run ops).image (Position.mk [] root).node.inumber
      pathname = _ := lookupFrom_eq formatted inodes distinct fits placed nulFree
  rw [pathnameLookup, if_pos absolute, walk, ← found, isRoot]

/-- The names `a`, `b` and so on. -/
def letter (index : Fin 26) : Name where
  text := [UInt8.ofNat (97 + index)]
  nonempty := List.cons_ne_nil _ _
  short := Nat.succ_le_succ (Nat.zero_le 13)
  noSlash := by revert index; decide
  nulFree := by revert index; decide
  notDot := by revert index; decide
  notDotDot := by revert index; decide

theorem pathname_lookup_walks_nested :
    let root := Node.dir 1 [(letter 0, .dir 3 [(letter 1, .file 2 [104, 105])])]
    let image := ((Mkfs.start fun _ => 255).run (root.calls 1)).image
    (pathnameLookup image [47, 47, 97, 47, 46, 46, 47, 97, 47, 98, 47] = some 2) ∧
      pathnameLookup image [47, 97, 47, 98, 47, 98] = none := by
  have agrees := pathname_lookup_walks (fun _ => 255)
    (.dir 1 [(letter 0, .dir 3 [(letter 1, .file 2 [104, 105])])]) _
    (by simp [Node.WellFormed, Node.AllWellFormed]) rfl (List.Perm.refl _) (by decide) (by decide)
    (by decide +kernel)
  exact ⟨(agrees [47, 47, 97, 47, 46, 46, 47, 97, 47, 98, 47] rfl (by decide)).trans (by decide),
    (agrees [47, 97, 47, 98, 47, 98] rfl (by decide)).trans (by decide)⟩

/-! ## More than 65536 blocks -/

/-- The blocks that a call allocates. -/
def Mkfs.Op.blocks : Mkfs.Op → ℕ
  | .makeFile _ data =>
      if blockCount data ≤ 8 then blockCount data
      else min (blockCount data) (256 * 7) + min 7 ((blockCount data + 255) / 256)
  | .makeDir _ _ _ => 1
  | .putInode _ _ => 0

/-- Every indirect block counts as well as the blocks it points to. -/
theorem nextData_largeLoop (fs : Mkfs) (inode : Inode) (data : List UInt8) (nblocks : ℕ) {count : ℕ}
    (few : count ≤ 7) :
    ((List.range count).foldl (Mkfs.largeStep data) ⟨fs, inode, nblocks, 0⟩).fs.nextData =
      fs.nextData + (min nblocks (256 * count) + min count ((nblocks + 255) / 256)) := by
  induction count with
  | zero => simp
  | succ count ih =>
      have ih := ih (by omega)
      have remaining := (largeLoop fs inode data nblocks (Nat.le_of_succ_le few)).remaining
      rw [List.range_succ, List.foldl_append, List.foldl_cons, List.foldl_nil]
      generalize (List.range count).foldl (Mkfs.largeStep data) ⟨fs, inode, nblocks, 0⟩ = state
        at ih remaining
      have remaining : state.remaining = nblocks - 256 * count := remaining
      unfold Mkfs.largeStep
      by_cases more : 0 < state.remaining
      · have inner := (innerLoop state.fs data state.written
          (if state.remaining < ptrsPerBlock then state.remaining else ptrsPerBlock)).nextData
        have here : (if state.remaining < ptrsPerBlock then state.remaining else ptrsPerBlock) =
            min (nblocks - 256 * count) 256 := by
          rw [remaining]
          change (if nblocks - 256 * count < 256 then nblocks - 256 * count else 256) = _
          split_ifs <;> omega
        rw [here] at inner
        rw [if_pos more, here]
        refine (congrArg (· + 1) inner).trans ?_
        rw [ih]
        omega
      · rw [if_neg more, ih]
        omega

theorem nextData_putInode (fs : Mkfs) (inumber : ℕ) (inode : Inode) :
    (fs.putInode inumber inode).nextData = fs.nextData :=
  rfl

theorem nextData_makeFile (fs : Mkfs) (inumber : ℕ) (data : List UInt8) :
    (fs.makeFile inumber data).nextData =
      fs.nextData + (Mkfs.Op.makeFile inumber data).blocks := by
  rw [makeFile_eq, Mkfs.Op.blocks]
  by_cases few : blockCount data ≤ 8
  · rw [if_pos few, if_pos few]
    exact (directLoop fs _ data few).nextData
  · rw [if_neg few, if_neg few]
    simp only [nextData_putInode]
    rw [nextData_largeLoop fs _ data (blockCount data) (le_refl 7)]

theorem nextData_run (fs : Mkfs) (ops : List Mkfs.Op) :
    (fs.run ops).nextData = fs.nextData + (ops.map Mkfs.Op.blocks).sum := by
  induction ops generalizing fs with
  | nil => rfl
  | cons op ops ih =>
      have own : (fs.apply op).nextData = fs.nextData + op.blocks := by
        cases op with
        | makeFile inumber data => exact nextData_makeFile fs inumber data
        | makeDir => rfl
        | putInode => rfl
      rw [List.map_cons, List.sum_cons, ← Nat.add_assoc, ← own]
      exact ih (fs.apply op)

/-- A directory written to block 65536 is lost: the block number is 0 in 16 bits. -/
theorem directoryFindname_wrapped {fs : Mkfs} {inumber parentInumber : ℕ} {entries : List Direntv6}
    (positive : 1 ≤ inumber) (wraps : fs.nextData = 65536) (name : List UInt8) :
    directoryFindname (fs.makeDir inumber parentInumber entries).image name inumber = none := by
  have slot := inodeIget_putInode
    (fs.push fun offset => (direntBytes inumber parentInumber entries).getD offset 0)
    ((setSize { Inode.zero with iMode := ialloc ||| ifdir, iNlink := 2 }
      ((entries.length + 2) * 16)).setAddr 0 fs.nextData) positive
  rw [← makeDir_eq] at slot
  generalize node_eq : (setSize { Inode.zero with iMode := ialloc ||| ifdir, iNlink := 2 }
    ((entries.length + 2) * 16)).setAddr 0 fs.nextData = inode at slot
  have mode : inode.iMode &&& ilarg = 0 := by
    rw [← node_eq]
    change (ialloc ||| ifdir) &&& ilarg = 0
    decide
  have addr (index : ℕ) : inode.addr index = 0 := by
    rw [← node_eq, wraps]
    unfold Inode.addr Inode.setAddr
    split_ifs with inside
    · simp only
      split_ifs <;> rfl
    · rfl
  have missing (b : ℤ) :
      fileGetblock (fs.makeDir inumber parentInumber entries).image inumber b = none := by
    unfold fileGetblock
    simp only [slot]
    rw [indexlookup_small _ mode]
    by_cases outside : b < 0 ∨ 8 ≤ b
    · rw [if_pos outside]
    · rw [if_neg outside]
      simp only [addr, if_true]
  unfold directoryFindname
  simp only [slot]
  split_ifs
  · rfl
  · cases List.range _ with
    | nil => rfl
    | cons b blocks =>
        rw [findInBlocks]
        simp only [missing]

theorem lookupFrom_eq_none {image : Image} {curinumber : ℕ} {p : List UInt8}
    (more : p.dropWhile (· = slash) ≠ [])
    (missing : ∀ name, directoryFindname image name curinumber = none) :
    lookupFrom image curinumber p = none := by
  rw [lookupFrom]
  simp only [more, if_false, missing]

theorem allCalls_files {α : Type*} (list : List α) (name : α → Name) (number : α → ℕ)
    (data : List UInt8) (parentInumber : ℕ) :
    Node.allCalls parentInumber (list.map fun item => (name item, .file (number item) data)) =
      list.map fun item => .makeFile (number item) data := by
  induction list with
  | nil => rfl
  | cons item list ih => exact congrArg (Mkfs.Op.makeFile (number item) data :: ·) ih

theorem blockCount_of_length {data : List UInt8} {count : ℕ} (length : data.length = count * 512) :
    blockCount data = count := by
  unfold blockCount
  rw [length]
  change (count * 512 + 512 - 1) / 512 = count
  omega

/-- A root directory with 37 copies of a file in two of its three directories. -/
def crowdedEntries (data : List UInt8) : List (Name × Node) :=
  [(letter 0, .dir 2 ((List.finRange 26).map fun index : Fin 26 =>
      (letter index, .file (5 + index) data))),
    (letter 1, .dir 3 ((List.finRange 11).map fun index : Fin 11 =>
      (letter (index.castLE (by decide)), .file (31 + index) data))),
    (letter 2, .dir 4 [])]

/-- The calls for this tree, its root last. -/
def crowdedOps (data : List UInt8) : List Mkfs.Op :=
  Node.allCalls 1 (crowdedEntries data) ++
    [.makeDir 1 1 ((crowdedEntries data).map fun (name, node) => mkent node.inumber name.text)]

/-- A file of 1764 blocks. -/
def longFile : List UInt8 := List.replicate (1764 * 512) 0

theorem length_longFile : longFile.length = 1764 * 512 := by
  unfold longFile
  exact List.length_replicate

theorem crowded_wellFormed : (Node.dir 1 (crowdedEntries longFile)).WellFormed := by
  refine ⟨by decide, by decide, ?_⟩
  unfold crowdedEntries
  simp only [Node.AllWellFormed, Node.WellFormed]
  simp only [Node.allWellFormed_iff, List.forall_mem_map, Node.WellFormed]
  exact ⟨⟨by decide, by decide, fun _ _ => trivial⟩, ⟨by decide, by decide, fun _ _ => trivial⟩,
    ⟨by decide, by decide, by simp⟩, trivial⟩

/-- With files of 1764 blocks the root directory is block 65536. -/
theorem crowded_full (image : Image) {data : List UInt8} (length : data.length = 1764 * 512) :
    ((Mkfs.start image).run (Node.allCalls 1 (crowdedEntries data))).nextData = 65536 := by
  have own (inumber : ℕ) : (Mkfs.Op.makeFile inumber data).blocks = 1771 := by
    rw [Mkfs.Op.blocks, blockCount_of_length length]
    rfl
  have files {count : ℕ} (number : Fin count → ℕ) : (List.map (Mkfs.Op.blocks ∘ fun index =>
      Mkfs.Op.makeFile (number index) data) (List.finRange count)).sum = count * 1771 := by
    simp [Function.comp_def, own]
  have first : (Mkfs.start image).nextData = 6 := rfl
  rw [nextData_run, first]
  simp only [crowdedEntries, Node.allCalls, Node.calls, allCalls_files, List.map_append,
    List.map_cons, List.map_map, List.sum_append, List.sum_cons, List.map_nil, List.sum_nil, files,
    Mkfs.Op.blocks]
  decide

theorem pathname_lookup_wraps :
    (Node.dir 1 (crowdedEntries longFile)).WellFormed ∧
      (crowdedOps longFile).Perm ((Node.dir 1 (crowdedEntries longFile)).calls rootIno) ∧
      ((crowdedOps longFile).map Mkfs.Op.inumber).Nodup ∧
      (∀ op ∈ crowdedOps longFile, 1 ≤ op.inumber ∧ op.inumber ≤ 64) ∧
      pathnameLookup ((Mkfs.start fun _ => 0).run (crowdedOps longFile)).image [47, 46] = none ∧
      (walk (.dir 1 (crowdedEntries longFile)) [47, 46]).map (·.node.inumber) = some 1 := by
  refine ⟨crowded_wellFormed, List.perm_append_singleton _ _, by decide +kernel,
    by decide +kernel, ?_, by decide⟩
  rw [crowdedOps, Mkfs.run_append, pathnameLookup]
  refine (if_pos rfl).trans (lookupFrom_eq_none (by decide) ?_)
  exact directoryFindname_wrapped le_rfl (crowded_full _ length_longFile)

end UnixV6
end Syscore
