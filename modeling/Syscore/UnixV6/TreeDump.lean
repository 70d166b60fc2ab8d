import Syscore.Library.Cycles
import Syscore.UnixV6.Directory

/-!
# Dumping the tree

The recursion of `diskimageaccess` over a V6 image. It follows every entry of a directory but `.`
and `..`, and keeps no record of where it has been.
-/

namespace Syscore
namespace UnixV6
namespace Dump

/-- What is printed, a line each. -/
inductive Line where
  /-- `  <bad inode %d>` -/
  | badInode (inumber : ℤ)
  /-- `DIR   %-24s (inode %d, %d bytes)` -/
  | dir (path : List UInt8) (inumber : ℤ) (size : ℕ)
  /-- `  <read error blk %d>` -/
  | readError (blk : ℕ)
  /-- `FILE  %-24s (inode %d, %d bytes, read %d, cksum %lu)` -/
  | file (path : List UInt8) (inumber : ℤ) (size totalRead : ℕ) (cksum : UInt64)
  deriving DecidableEq

/-- The copy of `d_name` with a terminator, as a string. -/
def nameOf (entry : Direntv6) : List UInt8 := (List.ofFn entry.dName).takeWhile (· ≠ 0)

/-- The entries that the recursion follows. -/
def followed (entry : Direntv6) : Bool :=
  entry.dInumber ≠ 0 && nameOf entry ≠ [46] && nameOf entry ≠ [46, 46]

/-- The path of a child, cut to what `char child[512]` holds. -/
def childPath (path name : List UInt8) : List UInt8 :=
  (path ++ (if path = [slash] then [] else [slash]) ++ name).take 511

/-- The entries of a directory in the order of the two loops, less those skipped by `continue`. -/
def entries (image : Image) (inumber : ℤ) (nblocks : ℕ) : List Direntv6 :=
  (List.range nblocks).flatMap fun b =>
    match fileGetblock image inumber b with
    | none => []
    | some (valid, buf) =>
        let n := valid / direntSize
        ((List.range n).map (direntAt buf)).filter followed

/-- One byte of the checksum. -/
def fold (h : UInt64) (byte : UInt8) : UInt64 := ((h <<< 5) + h) + byte.toUInt64

/-- The loop over the blocks of a file: the read error if there is one, the byte count and the
checksum. -/
def readBlocks (image : Image) (inumber : ℤ) : List ℕ → UInt64 → ℕ → List Line × ℕ × UInt64
  | [], h, totalRead => ([], totalRead, h)
  | b :: blocks, h, totalRead =>
      match fileGetblock image inumber b with
      | none => ([.readError b], totalRead, h)
      | some (valid, buf) =>
          readBlocks image inumber blocks (((List.ofFn buf).take valid).foldl fold h)
            (totalRead + valid)

/-- `walk`, with a bound on the depth of the recursion; `none` when the bound is too small. -/
def walk (image : Image) : ℕ → ℤ → List UInt8 → Option (List Line)
  | 0, _, _ => none
  | fuel + 1, inumber, path =>
      match inodeIget image inumber with
      | none => some [.badInode inumber]
      | some inode =>
          let size := inodeGetsize inode
          let nblocks := (size + sectorSize - 1) / sectorSize
          if inode.iMode &&& ifmt = ifdir then
            ((entries image inumber nblocks).mapM fun entry =>
              walk image fuel entry.dInumber.toNat (childPath path (nameOf entry))).map
                fun subtrees => .dir path inumber size :: subtrees.flatten
          else
            let (errors, totalRead, h) := readBlocks image inumber (List.range nblocks) 5381 0
            some (errors ++ [.file path inumber size totalRead h])

/-- `walk` returns. -/
def Returns (image : Image) (inumber : ℤ) (path : List UInt8) : Prop :=
  ∃ fuel, (walk image fuel inumber path).isSome = true

/-- A directory has an entry for the child other than `.` and `..`. -/
def Child (image : Image) (parent child : UInt16) : Prop :=
  ∃ inode, inodeIget image parent.toNat = some inode ∧ inode.iMode &&& ifmt = ifdir ∧
    ∃ entry ∈ entries image parent.toNat ((inodeGetsize inode + sectorSize - 1) / sectorSize),
      entry.dInumber = child

/-! ## How deep the recursion goes -/

/-- A loop of calls returns just when each call does. -/
theorem isSome_mapM {α β : Type*} (call : α → Option β) (list : List α) :
    (list.mapM call).isSome = true ↔ ∀ item ∈ list, (call item).isSome = true := by
  induction list with
  | nil => exact iff_of_true rfl (List.forall_mem_nil _)
  | cons item list ih =>
      rw [List.mapM_cons, List.forall_mem_cons, ← ih]
      cases call item with
      | none => exact iff_of_false Bool.noConfusion fun both => Bool.noConfusion both.1
      | some result =>
          cases list.mapM call with
          | none => exact iff_of_false Bool.noConfusion fun both => Bool.noConfusion both.2
          | some results => exact iff_of_true rfl ⟨rfl, rfl⟩

/-- A call of `walk` returns when the recursive calls that it makes do. -/
theorem isSome_walk_succ (image : Image) (fuel : ℕ) (inumber : UInt16) (path : List UInt8) :
    (walk image (fuel + 1) inumber.toNat path).isSome = true ↔
      ∀ inode, inodeIget image inumber.toNat = some inode → inode.iMode &&& ifmt = ifdir →
        ∀ entry ∈ entries image inumber.toNat
            ((inodeGetsize inode + sectorSize - 1) / sectorSize),
          (walk image fuel entry.dInumber.toNat (childPath path (nameOf entry))).isSome = true := by
  rw [walk]
  cases found : inodeIget image inumber.toNat with
  | none => exact iff_of_true rfl fun inode other => nomatch other
  | some inode =>
      simp only [Option.some.injEq, forall_eq']
      by_cases directory : inode.iMode &&& ifmt = ifdir
      · rw [if_pos directory, Option.isSome_map, isSome_mapM]
        exact ⟨fun each _ => each, fun each => each directory⟩
      · rw [if_neg directory]
        exact iff_of_true rfl fun other => absurd other directory

theorem walk_mono {image : Image} {fuel more : ℕ} (enough : fuel ≤ more) {inumber : UInt16}
    {path : List UInt8} (returns : (walk image fuel inumber.toNat path).isSome = true) :
    (walk image more inumber.toNat path).isSome = true := by
  induction fuel generalizing more inumber path with
  | zero => exact Bool.noConfusion returns
  | succ fuel ih =>
      obtain ⟨more, rfl⟩ := Nat.exists_eq_add_of_le enough
      rw [Nat.add_right_comm, isSome_walk_succ]
      intro inode found directory entry inside
      exact ih (Nat.le_add_right fuel more)
        ((isSome_walk_succ image fuel inumber path).mp returns inode found directory entry inside)

/-- One bound serves all entries of a directory. -/
theorem exists_bound {image : Image} (path : List UInt8) {list : List Direntv6}
    (each : ∀ entry ∈ list, Returns image entry.dInumber.toNat (childPath path (nameOf entry))) :
    ∃ fuel, ∀ entry ∈ list,
      (walk image fuel entry.dInumber.toNat (childPath path (nameOf entry))).isSome = true := by
  induction list with
  | nil => exact ⟨0, List.forall_mem_nil _⟩
  | cons entry list ih =>
      obtain ⟨own, returns⟩ := each entry List.mem_cons_self
      obtain ⟨rest, others⟩ := ih fun other inside => each other (List.mem_cons_of_mem entry inside)
      refine ⟨max own rest, List.forall_mem_cons.mpr ⟨walk_mono (le_max_left _ _) returns, ?_⟩⟩
      exact fun other inside => walk_mono (le_max_right _ _) (others other inside)

theorem returns_iff_acc (image : Image) (inumber : UInt16) (path : List UInt8) :
    Returns image inumber.toNat path ↔ Acc (flip (Child image)) inumber := by
  constructor
  · rintro ⟨fuel, returns⟩
    induction fuel generalizing inumber path with
    | zero => exact Bool.noConfusion returns
    | succ fuel ih =>
        refine Acc.intro inumber ?_
        rintro _ ⟨inode, found, directory, entry, inside, rfl⟩
        exact ih _ _ ((isSome_walk_succ image fuel inumber path).mp returns inode found directory
          entry inside)
  · intro ends
    induction ends generalizing path with
    | intro inumber _ ih =>
        cases found : inodeIget image inumber.toNat with
        | none =>
            refine ⟨1, (isSome_walk_succ image 0 inumber path).mpr fun inode other => ?_⟩
            exact nomatch found.symm.trans other
        | some inode =>
            by_cases directory : inode.iMode &&& ifmt = ifdir
            · obtain ⟨fuel, returns⟩ := exists_bound path fun entry inside =>
                ih entry.dInumber ⟨inode, found, directory, entry, inside, rfl⟩
                  (childPath path (nameOf entry))
              refine ⟨fuel + 1, (isSome_walk_succ image fuel inumber path).mpr ?_⟩
              intro other same _
              obtain rfl := Option.some.inj (found.symm.trans same)
              exact returns
            · refine ⟨1, (isSome_walk_succ image 0 inumber path).mpr ?_⟩
              intro other same other_directory
              obtain rfl := Option.some.inj (found.symm.trans same)
              exact absurd other_directory directory

theorem finite_inumbers : Finite UInt16 :=
  Finite.of_injective UInt16.toFin fun _ _ => UInt16.toFin_inj.mp

/-- On a stack without a bound the dump returns just when no directory within its reach is below
itself. -/
theorem walk_returns_iff (image : Image) :
    Returns image rootIno [slash] ↔ ¬ ReachesCycle (Child image) 1 := by
  have finite := finite_inumbers
  exact (returns_iff_acc image 1 [slash]).trans acc_iff_not_reachesCycle

/-- A root directory whose only entry `a` is the root directory. -/
def selfEntry : Image
  | 1025 => 0x40
  | 1030 => 16
  | 1032 => 6
  | 3072 => 1
  | 3074 => 97
  | _ => 0

theorem walk_selfEntry : ¬ Returns selfEntry rootIno [slash] := by
  have mode :
      (inodeIget selfEntry 1).map (fun inode => (inode.iMode &&& ifmt, inodeGetsize inode)) =
      some (ifdir, 16) := by decide +kernel
  have listed : (entries selfEntry 1 1).map (·.dInumber) = [1] := by decide +kernel
  obtain ⟨inode, found, read⟩ := Option.map_eq_some_iff.mp mode
  obtain ⟨directory, size⟩ := Prod.mk.inj read
  obtain ⟨entry, inside, inumber⟩ := List.mem_map.mp (listed ▸ List.mem_singleton_self 1)
  have loop : Child selfEntry 1 1 := by
    refine ⟨inode, found, directory, entry, ?_, inumber⟩
    rw [size]
    exact inside
  intro returns
  exact not_cycle_of_acc ((returns_iff_acc selfEntry 1 [slash]).mp returns) (.single loop)

end Dump
end UnixV6
end Syscore
