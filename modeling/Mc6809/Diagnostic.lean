/-!
# Diagnostics

What an assembly error reports: a description by kind of error, where it happened, the quoted source line with a
caret, and a hint. `Diagnostic.render` puts them together.
-/

namespace Mc6809

/-- A place in a source text. Lines and columns are counted from one. -/
structure Location where
  file : String
  line : Int
  column : Int
  deriving DecidableEq, Repr

/-- `file:line:column`. -/
def Location.render (l : Location) : String :=
  s!"{l.file}:{l.line}:{l.column}"

/-- What went wrong, with the data that belongs to each kind of error. -/
inductive Diagnosis where
  /-- An error of no further kind. -/
  | other (text : String) (hint : Option String)
  /-- The source does not follow the grammar. -/
  | malformed (text : String) (hint : Option String)
  /-- A number does not fit where it is used. -/
  | outOfRange (text : String) (value : Option Int) (hint : Option String)
  /-- A branch does not reach its target. -/
  | branchTooFar (target : String) (offset : Int) (long : Bool)
  /-- A symbol is defined nowhere. -/
  | undefinedSymbol (symbol : String) (similar : List String) (hint : Option String)
  /-- A mnemonic has no form for the operand. -/
  | unsupportedForm (mnemonic form : String) (valid : List String)
  /-- A symbol is defined twice. -/
  | duplicateSymbol (symbol : String) (first : Option Location)
  deriving DecidableEq, Repr

namespace Diagnosis

/-- The description without place and hint. -/
def text : Diagnosis → String
  | other text _ | malformed text _ | outOfRange text _ _ => text
  | branchTooFar target offset _ => s!"branch target '{target}' is out of range (offset: {offset})"
  | undefinedSymbol symbol _ _ => s!"undefined symbol '{symbol}'"
  | unsupportedForm mnemonic form _ => s!"'{mnemonic}' does not support {form} addressing"
  | duplicateSymbol symbol _ => s!"duplicate symbol '{symbol}'"

/-- Up to three names, each in quotes. -/
def suggestions (names : List String) : String :=
  ", ".intercalate ((names.take 3).map fun n => s!"'{n}'")

/-- The advice that goes with an error. An undefined symbol without advice of its own suggests similar names. -/
def hint : Diagnosis → Option String
  | other _ hint | malformed _ hint | outOfRange _ _ hint => hint
  | branchTooFar _ offset true => some s!"branch offset is {offset}, but range is -32768 to +32767"
  | branchTooFar _ offset false =>
    some s!"branch offset is {offset}, but range is -126 to +129; consider the long form of this branch"
  | undefinedSymbol _ similar hint =>
    if hint.getD "" = "" ∧ similar ≠ [] then some s!"did you mean {suggestions similar}?" else hint
  | unsupportedForm mnemonic _ valid =>
    if valid = [] then none else some (mnemonic ++ " supports: " ++ ", ".intercalate valid)
  | duplicateSymbol symbol first => first.map fun l => s!"'{symbol}' was first defined at {l.render}"

end Diagnosis

/-- An error with its place and the source line it is on, as far as they are known. -/
structure Diagnostic where
  diagnosis : Diagnosis
  location : Option Location
  sourceLine : Option String
  deriving DecidableEq, Repr

namespace Diagnostic

/-- The first line: the place, if known, and the description. -/
def headline (d : Diagnostic) : String :=
  match d.location with
  | some l => l.render ++ ": error: " ++ d.diagnosis.text
  | none => "error: " ++ d.diagnosis.text

/-- The quoted source line, and below it a caret at the column. -/
def quotation (d : Diagnostic) : List String :=
  match d.location, d.sourceLine with
  | some l, some line =>
    ("    " ++ line) ::
      if 0 < l.column then [String.ofList (List.replicate (l.column.toNat + 3) ' ') ++ "^"] else []
  | _, _ => []

/-- The hint, unless it is empty. -/
def advice (d : Diagnostic) : List String :=
  match d.diagnosis.hint with
  | some h => if h = "" then [] else ["hint: " ++ h]
  | none => []

/-- The whole message. -/
def render (d : Diagnostic) : String :=
  "\n".intercalate (d.headline :: d.quotation ++ d.advice)

end Diagnostic

end Mc6809
