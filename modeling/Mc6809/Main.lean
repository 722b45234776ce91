import Mc6809.Command.Run

/-!
# The program

The files that the arguments refer to are read first. The command runs on them, and the files that it changed
are written.
-/

namespace Mc6809

/-- Add what a place on disk holds. -/
def observePlace (t : FileTree) (place : List String) : IO FileTree := do
  if (t.entry? place).isSome then return t
  match ← (IO.FS.readBinFile (FileTree.nameOf place)).toBaseIO with
  | .ok bytes => return { t with files := t.files ++ [(place, bytes.toList)] }
  | .error (.inappropriateType _ 21 _) => return { t with folders := place :: t.folders }
  | .error (.permissionDenied ..) =>
    return { t with files := t.files ++ [(place, [])], denied := (.read, place) :: t.denied }
  | .error _ => return t

/-- Add what the places on the way of a name hold. -/
def observeName (t : FileTree) (name : String) : IO FileTree :=
  (FileTree.way (FileTree.origin name) (Path.parts name)).foldlM observePlace t

/-- Write files, up to the first one that may not be written. -/
def writeFiles : List (List String × List UInt8) → IO (Option (List String))
  | [] => return none
  | (place, bytes) :: files => do
    match ← (IO.FS.writeBinFile (FileTree.nameOf place) (ByteArray.mk bytes.toArray)).toBaseIO with
    | .ok () => writeFiles files
    | .error (.permissionDenied ..) => return some place
    | .error e => throw e

/-- Run the command and write the files that it changed. If one of them may not be written, the command has to find
that out by itself, so it runs again. -/
def runOn (tree : FileTree) (command : FileTree → Command.Outcome) : Nat → IO Command.Outcome
  | 0 => return command tree
  | n + 1 => do
    let r := command tree
    match ← writeFiles (tree.changes r.tree) with
    | none => return r
    | some place =>
      let denied := if (tree.entry? place).isSome then place else place.dropLast
      runOn { tree with denied := (.write, denied) :: tree.denied } command n

end Mc6809

open Mc6809 in
def main (args : List String) : IO UInt32 := do
  let tree ← (Command.mentioned args).foldlM observeName {}
  let baseVariable ← IO.getEnv "ASM6809_BASE_ADDRESS"
  let verboseVariable ← IO.getEnv "ASM6809_VERBOSE"
  -- There are three files at most that the command writes.
  let r ← runOn tree (Command.run args baseVariable verboseVariable) 3
  IO.print r.out
  IO.eprint r.err
  return r.exit.toUInt32
