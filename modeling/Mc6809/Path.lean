import Mc6809.Text.Quoted

/-!
# File names

The parts of a file name are what stands between slashes; empty parts and single dots do not count.
-/

namespace Mc6809.Path

/-- The parts of a file name. -/
def parts (name : String) : List String :=
  ((name.toList.splitOn '/').map String.ofList).filter fun p => p ≠ "" ∧ p ≠ "."

/-- The slashes that a file name starts with: two stay two, and more are one. -/
def root (name : String) : String :=
  match name.toList with
  | '/' :: '/' :: '/' :: _ => "/"
  | '/' :: '/' :: _ => "//"
  | '/' :: _ => "/"
  | _ => ""

/-- A file name without superfluous slashes and dots. -/
def normalize (name : String) : String :=
  let text := root name ++ "/".intercalate (parts name)
  if text = "" then "." else text

/-- The last part of a name without its extension. A dot at the start or at the end makes no extension. -/
def stem (part : String) : String :=
  let (extension, before) := part.toList.reverse.span (· ≠ '.')
  match before with
  | '.' :: b :: bs => if extension = [] then part else String.ofList (b :: bs).reverse
  | _ => part

/-- A file name with another extension. -/
def withExtension (name extension : String) : String :=
  match (parts name).reverse with
  | [] => normalize name
  | last :: before => root name ++ "/".intercalate (before.reverse ++ [stem last ++ extension])

end Mc6809.Path
