import Syscore.Library.CString
import Syscore.UnixV6.Mkfs

/-!
# Names and paths on a V6 image

`directory_findname` and `pathname_lookup` on an image, and trees of directories and files: the
calls that build a tree, and the walk along a path.
-/

namespace Syscore
namespace UnixV6

/-! ## The reader -/

/-- `ROOTINO`. -/
abbrev rootIno : ℕ := 1

/-- `IFMT`. -/
def ifmt : UInt16 := 0o060000

/-- Entry number `e` of a block seen as an array of `struct direntv6`. -/
def direntAt (buf : Sector) (e : ℕ) : Direntv6 where
  dInumber := u16At buf.byte (16 * e)
  dName index := buf.byte (16 * e + 2 + index)

/-- The test of an entry: it is in use, and `strncmp(d_name, name, MAX_COMPONENT_LENGTH) == 0`. -/
def Direntv6.named (entry : Direntv6) (name : List UInt8) : Bool :=
  entry.dInumber ≠ 0 &&
    strncmp maxComponentLength (List.ofFn entry.dName) (name ++ [0]) == some .eq

/-- The loop of `directory_findname` over the blocks. -/
def findInBlocks (image : Image) (dirinumber : ℤ) (name : List UInt8) : List ℕ → Option Direntv6
  | [] => none
  | b :: blocks =>
      match fileGetblock image dirinumber b with
      | none => none
      | some (valid, buf) =>
          let nents := valid / 16
          match ((List.range nents).map (direntAt buf)).find? (·.named name) with
          | some entry => some entry
          | none => findInBlocks image dirinumber name blocks

/-- `directory_findname`. -/
def directoryFindname (image : Image) (name : List UInt8) (dirinumber : ℤ) : Option Direntv6 :=
  match inodeIget image dirinumber with
  | none => none
  | some inode =>
      if inode.iMode &&& ifmt ≠ ifdir then
        none
      else
        let size := inodeGetsize inode
        let numBlocks := (size + sectorSize - 1) / sectorSize
        findInBlocks image dirinumber name (List.range numBlocks)

/-- The slash. -/
def slash : UInt8 := 47

theorem head_ne_slash {p rest : List UInt8} {first : UInt8}
    (shape : p.dropWhile (· = slash) = first :: rest) : first ≠ slash := by
  have stops := List.head?_dropWhile_not (fun char => decide (char = slash)) p
  rw [shape] at stops
  simpa using stops

theorem length_dropWhile_slash {p : List UInt8} (nonempty : p.dropWhile (· = slash) ≠ []) :
    ((p.dropWhile (· = slash)).dropWhile (· ≠ slash)).length < p.length := by
  have shorter := (p.dropWhile_sublist (· = slash)).length_le
  obtain ⟨first, rest, shape⟩ := List.exists_cons_of_ne_nil nonempty
  have drop : (first :: rest).dropWhile (· ≠ slash) = rest.dropWhile (· ≠ slash) :=
    List.dropWhile_cons_of_pos (decide_eq_true (head_ne_slash shape))
  have less := (rest.dropWhile_sublist fun char => decide (char ≠ slash)).length_le
  rw [shape] at shorter ⊢
  rw [drop]
  exact (Nat.lt_succ_of_le less).trans_le shorter

/-- The loop of `pathname_lookup`, from the position `p` on. -/
def lookupFrom (image : Image) (curinumber : ℕ) (p : List UInt8) : Option ℕ :=
  let p' := p.dropWhile (· = slash)
  if p' = [] then
    some curinumber
  else
    let component := (p'.takeWhile (· ≠ slash)).take maxComponentLength
    match directoryFindname image component curinumber with
    | none => none
    | some entry => lookupFrom image entry.dInumber.toNat (p'.dropWhile (· ≠ slash))
termination_by p.length
decreasing_by exact length_dropWhile_slash ‹_›

/-- `pathname_lookup` of a string: the bytes before its terminator. -/
def pathnameLookup (image : Image) (pathname : List UInt8) : Option ℕ :=
  if pathname.head? = some slash then lookupFrom image rootIno pathname else none

/-! ## Trees -/

/-- A name that a directory can hold. -/
structure Name where
  text : List UInt8
  nonempty : text ≠ []
  short : text.length ≤ maxComponentLength
  noSlash : slash ∉ text
  nulFree : 0 ∉ text
  notDot : text ≠ [46]
  notDotDot : text ≠ [46, 46]

/-- A file with its contents, or a directory with its entries. -/
inductive Node where
  | file (inumber : ℕ) (data : List UInt8)
  | dir (inumber : ℕ) (entries : List (Name × Node))

/-- `mkent`. -/
def mkent (inumber : ℕ) (name : List UInt8) : Direntv6 where
  dInumber := UInt16.ofNat inumber
  dName := strncpyName name

namespace Node

/-- The inumber of a node. -/
def inumber : Node → ℕ
  | file inumber _ => inumber
  | dir inumber _ => inumber

mutual

/-- Names within a directory are distinct, and a directory has at most 30 entries. -/
def WellFormed : Node → Prop
  | file _ _ => True
  | dir _ entries =>
      entries.length ≤ 30 ∧ (entries.map fun entry => entry.1.text).Nodup ∧ AllWellFormed entries

@[inherit_doc WellFormed]
def AllWellFormed : List (Name × Node) → Prop
  | [] => True
  | (_, node) :: entries => node.WellFormed ∧ AllWellFormed entries

end

mutual

/-- The calls that build a tree whose root has this parent. -/
def calls (parentInumber : ℕ) : Node → List Mkfs.Op
  | file inumber data => [.makeFile inumber data]
  | dir inumber entries =>
      .makeDir inumber parentInumber
        (entries.map fun (name, node) => mkent node.inumber name.text) :: allCalls inumber entries

@[inherit_doc calls]
def allCalls (parentInumber : ℕ) : List (Name × Node) → List Mkfs.Op
  | [] => []
  | (_, node) :: entries => node.calls parentInumber ++ allCalls parentInumber entries

end

end Node

/-- The blocks that a sequence of calls allocates to directories. -/
def Mkfs.dirBlocks (fs : Mkfs) : List Mkfs.Op → List ℕ
  | [] => []
  | op@(.makeDir _ _ _) :: ops => fs.nextData :: (fs.apply op).dirBlocks ops
  | op :: ops => (fs.apply op).dirBlocks ops

/-- A node of a tree with the directories above it, the nearest first. -/
structure Position where
  ancestors : List Node
  node : Node

/-- One component of a path: only its first 14 bytes count, and `..` of the root is the root. -/
def Position.step (position : Position) (component : List UInt8) : Option Position :=
  match position.node with
  | .file _ _ => none
  | .dir _ entries =>
      let name := component.take maxComponentLength
      if name = [46] then
        some position
      else if name = [46, 46] then
        match position.ancestors with
        | [] => some position
        | parent :: ancestors => some ⟨ancestors, parent⟩
      else
        (entries.find? fun entry => entry.1.text = name).map fun entry =>
          ⟨position.node :: position.ancestors, entry.2⟩

/-- The components of a path: repeated and trailing slashes do not count. -/
def components (pathname : List UInt8) : List (List UInt8) :=
  (pathname.splitOnP (· = slash)).filter (· ≠ [])

/-- Walk a tree component by component from its root. -/
def walk (root : Node) (pathname : List UInt8) : Option Position :=
  (components pathname).foldlM Position.step ⟨[], root⟩

end UnixV6
end Syscore
