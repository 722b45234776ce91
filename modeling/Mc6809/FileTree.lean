import Mc6809.Path

/-!
# File trees

The files that a command can see, by the places they are at, what it may do with them, and the ways in which an
access can fail. A place is the list of the names on the way to it.
-/

namespace Mc6809

/-- What can be done with a place: a file can be read and written, a folder can be read, gone through, and given
new files. -/
inductive Access where
  | read
  | write
  | search
  deriving DecidableEq, Repr

/-- Files with their contents, further folders, and what is not permitted. -/
structure FileTree where
  files : List (List String × List UInt8) := []
  folders : List (List String) := []
  denied : List (Access × List String) := []

/-- What a name stands for. -/
inductive Entry where
  | file (bytes : List UInt8)
  | folder
  deriving DecidableEq, Repr

/-- Why a file cannot be reached. -/
inductive FileFault where
  | missing
  | denied
  | notFolder
  | isFolder
  | tooLong
  deriving DecidableEq, Repr

def FileFault.message (f : FileFault) (name : String) : String :=
  let reason := match f with
    | missing => "[Errno 2] No such file or directory: "
    | denied => "[Errno 13] Permission denied: "
    | notFolder => "[Errno 20] Not a directory: "
    | isFolder => "[Errno 21] Is a directory: "
    | tooLong => "[Errno 36] File name too long: "
  reason ++ Text.quoted name

namespace FileTree

/-- The place that all names with a slash in front start from. -/
def top : List String := ["/"]

/-- Whether a place is where names start or a folder around it. -/
def isAround (place : List String) : Bool :=
  place = top || place.all (· = "..")

/-- What a place holds. A file makes all the folders above it exist, and the folders around the tree exist, too.
-/
def entry? (t : FileTree) (place : List String) : Option Entry :=
  match t.files.find? (·.1 = place) with
  | some (_, bytes) => some (.file bytes)
  | none =>
    if isAround place || t.folders.any (place.isPrefixOf ·) || t.files.any (place.isPrefixOf ·.1) then some .folder
    else none

/-- Whether something is not permitted at a place. -/
def denies (t : FileTree) (a : Access) (place : List String) : Bool :=
  (a, place) ∈ t.denied

/-- The place that the next part of a name leads to. -/
def step (place : List String) (part : String) : List String :=
  if part ≠ ".." then place ++ [part]
  else if place = top then top
  else if isAround place then place ++ [part]
  else place.dropLast

/-- The place that a name starts from. -/
def origin (name : String) : List String :=
  if Path.root name = "" then [] else top

/-- The name that leads to a place. -/
def nameOf : List String → String
  | "/" :: parts => "/" ++ "/".intercalate parts
  | parts => "/".intercalate parts

/-- The places on the way from a place along the parts of a name. -/
def way (place : List String) : List String → List (List String)
  | [] => []
  | p :: ps => step place p :: way (step place p) ps

/-- Follow the parts of a name from a folder on. No part may have more than 255 bytes. -/
def follow (t : FileTree) (place : List String) : List String → Except FileFault (List String)
  | [] => .ok place
  | p :: ps =>
    match t.entry? place with
    | some .folder =>
      if t.denies .search place then .error .denied
      else if 255 < p.utf8ByteSize then .error .tooLong
      else follow t (step place p) ps
    | some (.file _) => .error .notFolder
    | none => .error .missing

/-- The place that a name leads to. The whole name has to be shorter than 4096 bytes. -/
def locate (t : FileTree) (name : String) : Except FileFault (List String) :=
  if name = "" then .error .missing
  else if 4096 ≤ name.utf8ByteSize then .error .tooLong
  else t.follow (origin name) (Path.parts name)

/-- Whether a name ends as only the name of a folder can. -/
def namesFolder (name : String) : Bool :=
  match (name.toList.splitOn '/').getLast? with
  | some [] => true
  | some ['.'] => true
  | _ => false

/-- The place that a name leads to and what is there. -/
def lookup (t : FileTree) (name : String) : Except FileFault (List String × Entry) :=
  match t.locate name with
  | .error f => .error f
  | .ok place =>
    match t.entry? place with
    | none => .error .missing
    | some .folder => .ok (place, .folder)
    | some (.file bytes) => if namesFolder name then .error .notFolder else .ok (place, .file bytes)

/-- The contents of a file. -/
def read (t : FileTree) (name : String) : Except FileFault (List UInt8) :=
  match t.lookup name with
  | .error f => .error f
  | .ok (place, entry) =>
    if t.denies .read place then .error .denied
    else
      match entry with
      | .folder => .error .isFolder
      | .file bytes => .ok bytes

/-- Why no file can be written to a place. A new file needs a folder that may be written. -/
def obstacle? (t : FileTree) (place : List String) : Option FileFault :=
  match t.entry? place with
  | some .folder => some .isFolder
  | some (.file _) => if t.denies .write place then some .denied else none
  | none => if t.denies .write place.dropLast then some .denied else none

/-- Put a file at a place, instead of the one that is there. -/
def putAt (t : FileTree) (place : List String) (bytes : List UInt8) : FileTree :=
  if (t.files.find? (·.1 = place)).isSome then
    { t with files := t.files.map fun f => if f.1 = place then (place, bytes) else f }
  else { t with files := t.files ++ [(place, bytes)] }

/-- Write a file. Its folder has to exist. -/
def write (t : FileTree) (name : String) (bytes : List UInt8) : Except FileFault FileTree :=
  match t.locate name with
  | .error f => .error f
  | .ok place =>
    match t.obstacle? place with
    | some f => .error f
    | none => .ok (t.putAt place bytes)

/-- Put a file at the end of a way of names, making the folders on the way. -/
def putFrom (t : FileTree) (place : List String) (bytes : List UInt8) : List String → FileTree
  | [] => t
  | [p] => { t with files := t.files.filter (·.1 ≠ place ++ [p]) ++ [(place ++ [p], bytes)] }
  | p :: ps =>
    { t with folders := step place p :: t.folders }.putFrom (step place p) bytes ps

/-- Put a file, making the folders that it is in. -/
def put (t : FileTree) (name : String) (bytes : List UInt8) : FileTree :=
  t.putFrom (origin name) bytes (Path.parts name)

/-- The files that another tree has not, or has with other contents. -/
def changes (before after : FileTree) : List (List String × List UInt8) :=
  after.files.filter (· ∉ before.files)

end FileTree

end Mc6809
