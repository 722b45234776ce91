import Mc6809.Text.Similar

/-!
# Command-line arguments

Options and file names can be mixed. A short option can be joined with its value and with other short options; a
long one can have its value after an equals sign. After `--` everything is a file name.
-/

namespace Mc6809.Command

inductive Opt where
  | output | listing | symbols | base | define | verbose | version | help
  deriving DecidableEq, Repr

namespace Opt

def all : List Opt := [output, listing, symbols, base, define, verbose, version, help]

def long : Opt → String
  | output => "--output" | listing => "--listing" | symbols => "--symbols" | base => "--base"
  | define => "--define" | verbose => "--verbose" | version => "--version" | help => "--help"

def letter? : Opt → Option Char
  | output => some 'o' | listing => some 'l' | symbols => some 's' | base => some 'b'
  | define => some 'D' | verbose => some 'v' | version => none | help => none

def takesValue : Opt → Bool
  | output | listing | symbols | base | define => true
  | verbose | version | help => false

def ofLong? (name : String) : Option Opt :=
  all.find? (·.long = name)

/-- Up to three options whose names are at least three fifths like a word, in the order of their names. -/
def similar (word : String) : List String :=
  (Text.closest 3 3 5 word (all.map long)).mergeSort fun a b => !(b < a)

def ofLetter? (c : Char) : Option Opt :=
  all.find? (·.letter? = some c)

end Opt

/-- Why arguments cannot be read. -/
inductive ArgumentFault where
  /-- There is no such option; similar ones can be suggested. -/
  | unknown (name : String) (similar : List String)
  | needsValue (name : String)
  | takesNoValue (name : String)
  deriving DecidableEq, Repr

/-- The options that were given, in order and with their values, and the other arguments. -/
structure Arguments where
  given : List (Opt × String) := []
  files : List String := []

namespace Arguments

def addOption (o : Opt) (value : String) (a : Arguments) : Arguments :=
  { a with given := (o, value) :: a.given }

def addFile (name : String) (a : Arguments) : Arguments :=
  { a with files := name :: a.files }

/-- The last value that was given for an option. -/
def last? (a : Arguments) (o : Opt) : Option String :=
  (a.given.reverse.find? (·.1 = o)).map (·.2)

/-- All values that were given for an option. -/
def values (a : Arguments) (o : Opt) : List String :=
  (a.given.filter (·.1 = o)).map (·.2)

/-- Letters that stand together. The result names the option, if there is one, that takes the next argument. -/
def readLetters : List Char → Except ArgumentFault (List (Opt × String) × Option (Opt × String))
  | [] => .ok ([], none)
  | c :: cs =>
    match Opt.ofLetter? c with
    | none => .error (.unknown (String.ofList ['-', c]) [])
    | some o =>
      if !o.takesValue then (readLetters cs).map fun (given, pending) => ((o, "") :: given, pending)
      else if cs = [] then .ok ([], some (o, String.ofList ['-', c]))
      else .ok ([(o, String.ofList cs)], none)

/-- The part of an argument before its first equals sign, and the part after it. -/
def splitEqual (cs : List Char) : String × Option String :=
  let (before, rest) := cs.span (· ≠ '=')
  match rest with
  | [] => (String.ofList before, none)
  | _ :: value => (String.ofList before, some (String.ofList value))

/-- One argument that starts with a dash. -/
def readOption (cs : List Char) : Except ArgumentFault (List (Opt × String) × Option (Opt × String)) :=
  let (name, value) := splitEqual cs
  match Opt.ofLong? name, value with
  | some o, some v => if o.takesValue then .ok ([(o, v)], none) else .error (.takesNoValue name)
  | some o, none => if o.takesValue then .ok ([], some (o, name)) else .ok ([(o, "")], none)
  | none, _ =>
    match cs with
    | _ :: '-' :: _ => .error (.unknown name (Opt.similar name))
    | _ => readLetters cs.tail

/-- Read arguments from left to right. `pending` is an option, as it was spelled, that takes the next argument. -/
def readFrom (pending : Option (Opt × String)) : List String → Except ArgumentFault Arguments
  | [] =>
    match pending with
    | some (_, name) => .error (.needsValue name)
    | none => .ok {}
  | arg :: rest =>
    match pending, arg.toList with
    | some (o, _), _ => (readFrom none rest).map (addOption o arg)
    | none, ['-', '-'] => .ok { files := rest }
    | none, '-' :: c :: cs =>
      match readOption ('-' :: c :: cs) with
      | .error f => .error f
      | .ok (given, pending) =>
        (readFrom pending rest).map fun a => { a with given := given ++ a.given }
    | none, _ => (readFrom none rest).map (addFile arg)

/-- Read the arguments of a command. -/
def read (args : List String) : Except ArgumentFault Arguments :=
  readFrom none args

end Arguments

end Mc6809.Command
