import Mc6809.Command.Arguments
import Mc6809.Command.Help
import Mc6809.Definition
import Mc6809.Session
import Mc6809.Settings
import Mc6809.Text.Control

/-!
# The command

The command assembles one file and writes the code and, if asked to, a listing and a symbol file. Its arguments
are checked first; nothing is written before the source has been assembled.
-/

namespace Mc6809.Command

/-- What the arguments ask for. -/
structure Request where
  input : String
  output : Option String
  listing : Option String
  symbols : Option String
  base : Option Int
  defines : List String
  verbose : Bool

/-- What the command did: its exit code, what it printed and the files as it left them. -/
structure Outcome where
  exit : Nat
  out : String
  err : String
  tree : FileTree

/-- The files that arguments can refer to. -/
def mentioned (args : List String) : List String :=
  match Arguments.read args with
  | .error _ => []
  | .ok a =>
    a.files ++ a.files.map (Path.withExtension · ".bin") ++ a.values .output ++ a.values .listing ++ a.values .symbols

/-! ### Checking the arguments -/

/-- An option as messages call it. -/
def Opt.display (o : Opt) : String :=
  match o.letter? with
  | some c => s!"'-{c}' / '{o.long}'"
  | none => s!"'{o.long}'"

/-- The message for a file that a parameter must not name. -/
def invalidFile (parameter name reason : String) : String :=
  "Invalid value for " ++ parameter ++ ": File " ++ Text.quoted name ++ " " ++ reason ++ "."

/-- What a parameter names must not be a folder, and if there is a file, it has to be readable. -/
def checkFile (t : FileTree) (parameter name : String) : Except FileFault (List String × Entry) → Except String Unit
  | .ok (_, .folder) => .error (invalidFile parameter name "is a directory")
  | .ok (place, .file _) =>
    if t.denies .read place then .error (invalidFile parameter name "is not readable") else .ok ()
  | .error _ => .ok ()

/-- Check the name of a file that is to be written. -/
def checkTarget (t : FileTree) (o : Opt) (name : String) : Except String Unit :=
  checkFile t o.display name (t.lookup name)

/-- The address in the value of the base option. -/
def readBase (text : String) : Except String Int :=
  match Numeral.parse text with
  | .error _ => .error ("Invalid value for " ++ Opt.base.display ++ s!": '{text}' is not a number")
  | .ok n =>
    if Settings.isAddress n then .ok n
    else .error ("Invalid value for " ++ Opt.base.display ++ s!": '{text}' is outside $0000-$FFFF")

/-- Check the value of an option. -/
def checkOption (t : FileTree) (a : Arguments) (o : Opt) : Except String Unit :=
  match o, a.last? o with
  | .output, some name | .listing, some name | .symbols, some name => checkTarget t o name
  | .base, some text => (readBase text).map fun _ => ()
  | _, _ => .ok ()

/-- Check the name of the input, which has to exist. -/
def checkInput (t : FileTree) (name : String) : Except String Unit :=
  match t.lookup name with
  | .error _ => .error (invalidFile "'INPUT_FILE'" name "does not exist")
  | found => checkFile t "'INPUT_FILE'" name found

/-- Check the options in the order of their first use, then the input, then that nothing else was given. -/
def check (t : FileTree) (a : Arguments) : Except String Request := do
  (a.given.map (·.1)).eraseDups.forM (checkOption t a)
  let base ← match a.last? .base with
    | some text => (readBase text).map some
    | none => pure none
  match a.files with
  | [] => throw "Missing argument 'INPUT_FILE'."
  | input :: extra =>
    checkInput t input
    match extra with
    | [] => pure ()
    | [one] => throw s!"Got unexpected extra argument ({one})"
    | more => throw ("Got unexpected extra arguments (" ++ " ".intercalate more ++ ")")
    return {
      input := Path.normalize input
      output := (a.last? .output).map Path.normalize
      listing := (a.last? .listing).map Path.normalize
      symbols := (a.last? .symbols).map Path.normalize
      base
      defines := a.values .define
      verbose := (a.last? .verbose).isSome }

/-! ### Carrying out a request -/

/-- What has been printed and written so far. -/
structure Console where
  verbose : Bool
  out : List String := []
  err : List String := []
  tree : FileTree

/-- Why a request fails. -/
inductive Obstacle where
  | definition (f : Definition.Fault)
  | trouble (t : Trouble)

abbrev Job := EStateM Obstacle Console

namespace Job

/-- Print a line if the command is verbose. -/
def say (line : String) : Job Unit :=
  modify fun c => if c.verbose then { c with out := c.out ++ [Text.printed line] } else c

/-- Log reports if the command is verbose. -/
def log (reports : List Report) : Job Unit :=
  modify fun c =>
    if c.verbose then { c with err := c.err ++ reports.map fun r => "DEBUG: " ++ r.message } else c

/-- Write a file. -/
def write (name : String) (bytes : List UInt8) : Job Unit := do
  let c ← get
  match c.tree.write name bytes with
  | .ok tree => set { c with tree }
  | .error f => throw (.trouble (.file f name))

/-- The constants that the definitions give; the last one of a name counts. -/
def readDefinitions (texts : List String) : Job (List (String × Int)) :=
  texts.foldlM (fun defines text =>
    match Definition.parse text with
    | .ok (name, value) => pure (assign name value defines)
    | .error f => throw (.definition f)) []

/-- The value of a result. -/
def ofResult {α : Type} : Except Trouble α → Job α
  | .ok a => pure a
  | .error t => throw (.trouble t)

/-- Write a text file and report it. -/
def writeText (name : String) (text : Except Trouble String) (report : Report) : Job Unit := do
  write name (Text.Utf8.encode (← ofResult text))
  log [report]
  say report.message

/-- Assemble and write the results. -/
def perform (r : Request) (base : Int) : Job Unit := do
  let session := Session.create base (← readDefinitions r.defines) []
  say (s!"Assembling {r.input} at $" ++ Text.hex 4 base ++ "...")
  let output := r.output.getD (Path.withExtension r.input ".bin")
  let (session, reports, result) := session.assembleFile (← get).tree r.input none
  log reports
  let code ← ofResult result
  write output code
  log [.wroteBytes code.length output]
  match r.listing with
  | some name => writeText name session.listing (.wroteListing name)
  | none => pure ()
  match r.symbols with
  | some name => writeText name session.symbolFile (.wroteSymbols name)
  | none => pure ()
  say (Report.wroteBytes code.length output).message
  say s!"Defined {session.labels.length} labels and {session.constants.length} constants"

end Job

/-- The exit code for an obstacle, and what is printed. -/
def Obstacle.answer : Obstacle → Nat × String
  | definition f => (2, "Error: " ++ f.message)
  | trouble (.refused d) => (1, d.render)
  | trouble (.file .missing name) => (2, "Error: " ++ FileFault.missing.message name)
  | trouble (.file .denied name) => (2, "Error: " ++ FileFault.denied.message name)
  | trouble t => (3, "Internal error: " ++ t.message)

def joinLines (lines : List String) : String :=
  String.join (lines.map (· ++ "\n"))

/-- Carry out a request with the settings of the environment. -/
def execute (r : Request) (settings : Settings) (warnings : List String) (t : FileTree) : Outcome :=
  let console : Console := { verbose := r.verbose || settings.verbose, err := warnings, tree := t }
  match Job.perform r (r.base.getD settings.base) console with
  | .ok () c => ⟨0, joinLines c.out, joinLines c.err, c.tree⟩
  | .error e c => ⟨e.answer.1, joinLines c.out, joinLines (c.err ++ [Text.printed e.answer.2]), c.tree⟩

/-- Whether an option is answered before the others are checked. -/
def Opt.isEager : Opt → Bool
  | version | help => true
  | _ => false

/-- The outcome of arguments that cannot be used. -/
def misuse (t : FileTree) (message : String) : Outcome :=
  ⟨2, "", usage ++ "Try 'asm6809 --help' for help.\n\n" ++ "Error: " ++ Text.printed message ++ "\n", t⟩

/-- The question whether one of some other names was meant. -/
def suggestion : List String → String
  | [] => ""
  | [name] => " Did you mean " ++ Text.quoted name ++ "?"
  | names => " (Did you mean one of: " ++ ", ".intercalate (names.map Text.quoted) ++ "?)"

def ArgumentFault.outcome (t : FileTree) : ArgumentFault → Outcome
  | unknown name similar => misuse t ("No such option " ++ Text.quoted name ++ "." ++ suggestion similar)
  | needsValue name => ⟨2, "", s!"Error: Option '{name}' requires an argument.\n", t⟩
  | takesNoValue name => ⟨2, "", s!"Error: Option '{name}' does not take a value.\n", t⟩

/-- Run the command with arguments, the values of the two environment variables and the files it can see. Asking
for the version or for help comes before anything else. -/
def run (args : List String) (baseVariable verboseVariable : Option String) (t : FileTree) : Outcome :=
  match Arguments.read args with
  | .error f => f.outcome t
  | .ok a =>
    match (a.given.map (·.1)).find? Opt.isEager with
    | some .version => ⟨0, "asm6809, version 1.0.0\n", "", t⟩
    | some _ => ⟨0, help, "", t⟩
    | none =>
      match check t a with
      | .error message => misuse t message
      | .ok r =>
        let (settings, warnings) := Settings.ofEnvironment baseVariable verboseVariable
        execute r settings warnings t

end Mc6809.Command
