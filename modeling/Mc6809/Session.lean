import Mc6809.FileTree
import Mc6809.Listing
import Mc6809.Text.Letter
import Mc6809.Text.Utf8
import Mc6809.Token.Lexer

/-!
# Sessions

A session assembles one source after the other. It keeps the constants that are defined beforehand and the
results of the last run, which stay readable when the run failed. A run that fails before its first statement
leaves the results of the run before it.
-/

namespace Mc6809

/-- The results of a run: its state and the lines of its source. -/
structure Results where
  state : State
  lines : List String

/-- Why a request to a session fails. -/
inductive Trouble where
  | refused (d : Diagnostic)
  | unboundLabel (name : String)
  | file (f : FileFault) (name : String)
  | encoding (f : Text.Utf8.Fault)
  | nothingAssembled

def Trouble.message : Trouble → String
  | refused d => d.render
  | unboundLabel name => Text.quoted name
  | file f name => f.message name
  | encoding f => f.message
  | nothingAssembled => "nothing has been assembled yet"

/-- What a session reports on the way. -/
inductive Report where
  | assembling (name : String)
  | tokens (file : String) (count : Nat) (base : Int)
  | run (n : Note)
  | wroteBytes (count : Nat) (name : String)
  | wroteListing (name : String)
  | wroteSymbols (name : String)

def Report.message : Report → String
  | assembling name => s!"Assembling {name}"
  | tokens file count base => s!"{file}: {count} tokens, origin $" ++ Text.hex 4 base
  | run n => n.message
  | wroteBytes count name => s!"Wrote {count} bytes to {name}"
  | wroteListing name => s!"Wrote listing to {name}"
  | wroteSymbols name => s!"Wrote symbols to {name}"

structure Session where
  base : Int := 0x4000
  /-- The constants defined beforehand. -/
  defines : List (String × Int) := []
  last : Option Results := none

namespace Session

/-- A session with constants as they are configured, and further ones whose names count without regard to case. -/
def create (base : Int) (configured defines : List (String × Int)) : Session where
  base
  defines := assignAll (assignAll [] configured) (defines.map fun p => (Text.lower p.1, p.2))

/-- Define a constant for the runs to come. -/
def define (s : Session) (name : String) (value : Int) : Session :=
  { s with defines := assign (Text.lower name) value s.defines }

/-- Forget the last run. -/
def reset (s : Session) : Session :=
  { s with last := none }

/-- The symbols that a run starts with. Names that differ in case only are one name given twice. -/
def seed (defines : List (String × Int)) : Except Diagnostic Symbols :=
  defines.foldlM (fun (symbols : Symbols) p =>
    match symbols.defineConstant ⟨Text.lower p.1, p.2, none⟩ with
    | .ok symbols => .ok symbols
    | .error first => .error ⟨.duplicateSymbol (Text.lower p.1) first, none, none⟩) {}

/-- The trouble that a failure amounts to. -/
def trouble (lines : List String) : Failure → Trouble
  | .refused problem token _ => .refused (problem.at lines token)
  | .unboundLabel name => .unboundLabel name

/-- Assemble a source text, at the session's base unless another one is given. -/
def assemble (s : Session) (source : String) (base : Option Int) (file : String) :
    Session × List Report × Except Trouble (List UInt8) :=
  let base := base.getD s.base
  match seed s.defines with
  | .error d => (s, [], .error (.refused d))
  | .ok symbols =>
    match tokenize source file with
    | .error d => (s, [], .error (.refused d))
    | .ok tokens =>
      let lines := quotedLines source
      let r := Mc6809.run { base, symbols } (Line.split tokens)
      let log := .tokens file tokens.length base :: r.state.notes.map .run
      let s := { s with last := some ⟨r.state, lines⟩ }
      match r.failure with
      | some f => (s, log, .error (trouble lines f))
      | none => (s, log, .ok r.state.output.toList)

/-- The text of a file. -/
def readText (t : FileTree) (name : String) : Except Trouble String :=
  match t.read name with
  | .error f => .error (.file f name)
  | .ok bytes =>
    match Text.Utf8.decode bytes with
    | .error f => .error (.encoding f)
    | .ok cs => .ok (String.ofList (Text.unifyFeeds cs))

/-- Assemble a file. -/
def assembleFile (s : Session) (t : FileTree) (name : String) (base : Option Int) :
    Session × List Report × Except Trouble (List UInt8) :=
  let name := Path.normalize name
  match readText t name with
  | .error e => (s, [.assembling name], .error e)
  | .ok source =>
    let (s, log, result) := s.assemble source base name
    (s, .assembling name :: log, result)

def labels (s : Session) : List (String × Int) :=
  match s.last with
  | some r => r.state.symbols.labels.pairs
  | none => []

def constants (s : Session) : List (String × Int) :=
  match s.last with
  | some r => r.state.symbols.constants.pairs
  | none => []

def symbols (s : Session) : List (String × Int) :=
  match s.last with
  | some r => r.state.symbols.merged
  | none => []

def code (s : Session) : List UInt8 :=
  match s.last with
  | some r => r.state.output.toList
  | none => []

def listing (s : Session) : Except Trouble String :=
  match s.last with
  | some r => .ok (Listing.text r.lines r.state)
  | none => .error .nothingAssembled

def symbolFile (s : Session) : Except Trouble String :=
  match s.last with
  | some r => .ok r.state.symbols.file
  | none => .error .nothingAssembled

end Session

end Mc6809
