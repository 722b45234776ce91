import Mc6809.Numeral
import Mc6809.Text.Letter

/-!
# Definitions of constants

A definition on the command line is a name with a value, or a name alone for the value one.
-/

namespace Mc6809.Definition

inductive Fault where
  | missingName (text : String)
  | invalidValue (text : String)
  deriving DecidableEq, Repr

def Fault.message : Fault → String
  | missingName text => s!"missing symbol name in -D {text}"
  | invalidValue text => s!"invalid value in -D {text}"

/-- Read a definition. The name is folded to lower case. -/
def parse (text : String) : Except Fault (String × Int) :=
  let (before, rest) := text.toList.span (· ≠ '=')
  let name := Text.lower (String.ofList (Text.strip before))
  let value := rest.tail
  if name = "" then .error (.missingName text)
  else if Text.strip value = [] then .ok (name, 1)
  else
    match Numeral.parse (String.ofList value) with
    | .ok n => .ok (name, n)
    | .error _ => .error (.invalidValue text)

end Mc6809.Definition
