import Mc6809.Token.Basic

/-!
# Problems

Every reason for which a source is refused, with the wording of each in `Problem.diagnosis`.
-/

namespace Mc6809

/-- The notations of integer literals. -/
inductive Radix where
  | hexadecimal | binary | decimal
  deriving DecidableEq, Repr

namespace Radix

def name : Radix → String
  | hexadecimal => "hexadecimal" | binary => "binary" | decimal => "decimal"

def base : Radix → Nat
  | hexadecimal => 16 | binary => 2 | decimal => 10

end Radix

/-- Why a source is refused. `found` is the lexeme that stands where another one belongs. -/
inductive Problem where
  -- characters
  | unexpectedCharacter (c : Char)
  | missingDigits (radix : Radix)
  | wrongDigit (radix : Radix) (c : Char)
  | openText
  | openCharacter
  | openEscape
  -- statements
  | strayStart (found : Lexeme)
  | trailing (found : Lexeme)
  | unknownInstruction (name : String)
  | nameExpected (found : Lexeme)
  | equalExpected (name : String) (found : Lexeme)
  | valueExpected (found : Lexeme)
  | fillCountExpected (found : Lexeme)
  -- operands
  | operandForbidden (m : Mnemonic)
  | operandExpected (m : Mnemonic)
  | labelExpected (m : Mnemonic) (found : Lexeme)
  | registerExpected (m : Mnemonic) (found : Lexeme)
  | registerListExpected (m : Mnemonic) (found : Lexeme)
  | registerCommaExpected (found : Lexeme)
  | wrongRegister (m : Mnemonic) (r : Register)
  | ownStack (m : Mnemonic) (push : Bool) (r : Register)
  | closingExpected (found : Lexeme)
  | indexExpected (found : Lexeme)
  | notAnIndex (r : Register)
  | steppedTwice
  | steppedOffset
  | steppedCounter (r : Register)
  | steppedByOneIndirect (sign : Lexeme)
  | accumulatorCounter (r : Register)
  | bareCounter (r : Register)
  | unsupportedForm (m : Mnemonic) (mode : Mode)
  -- values
  | outOfRange (what : String) (value low high : Int)
  | offPage (value page : Int)
  | blockTooLarge (bytes : Int)
  | notAByte (c : Char)
  | branchTooFar (target : String) (offset : Int) (long : Bool)
  -- symbols
  | undefinedSymbol (name : String) (similar : List String)
  | duplicateSymbol (name : String) (first : Option Location)
  | phaseError (label : String) (first second : Int)
  -- wording chosen by the caller
  | worded (text : String) (hint : Option String)
  deriving DecidableEq, Repr

namespace Problem

private def indexHint : String := "index registers are x, y, u, s and pcr"

/-- The report of a problem. -/
def diagnosis : Problem → Diagnosis
  | unexpectedCharacter c => .malformed s!"unexpected character '{c}'" none
  | missingDigits radix => .malformed s!"expected {radix.name} digits" none
  | wrongDigit radix c => .malformed s!"invalid {radix.name} digit '{c}'" none
  | openText => .malformed "unterminated string literal" none
  | openCharacter => .malformed "unterminated character literal" none
  | openEscape => .malformed "unexpected end of line in escape sequence" none
  | strayStart found =>
    .malformed s!"unexpected {found.describe} at start of statement"
      (some "a statement is an instruction, a directive or 'name = value'")
  | trailing found => .malformed s!"unexpected {found.describe}" none
  | unknownInstruction name =>
    .malformed s!"unknown instruction '{name}'"
      (some "labels must end with ':'; constants are written 'name = value'")
  | nameExpected found => .malformed s!"expected constant name, found {found.describe}" none
  | equalExpected name found => .malformed s!"expected '=' after '{name}', found {found.describe}" none
  | valueExpected found => .malformed s!"expected a value, found {found.describe}" none
  | fillCountExpected found =>
    .malformed s!"expected ',' between fill value and count, found {found.describe}" none
  | operandForbidden m => .malformed s!"'{m.name}' takes no operand" none
  | operandExpected m => .malformed s!"'{m.name}' expects an operand" none
  | labelExpected m found =>
    .malformed s!"'{m.name}' expects a label, found {found.describe}" (some "branch targets are label names")
  | registerExpected m found => .malformed s!"'{m.name}' expects a register, found {found.describe}" none
  | registerListExpected m found =>
    .malformed s!"'{m.name}' expects a register list, found {found.describe}" none
  | registerCommaExpected found => .malformed s!"expected ',' between registers, found {found.describe}" none
  | wrongRegister m r => .malformed s!"register '{r.name}' cannot be used with '{m.name}'" none
  | ownStack m push r =>
    let verb := if push then "push" else "pull"
    .malformed s!"'{m.name}' cannot {verb} its own stack pointer '{r.name}'" none
  | closingExpected found => .malformed s!"expected ']' to close indirect operand, found {found.describe}" none
  | indexExpected found => .malformed s!"expected index register, found {found.describe}" (some indexHint)
  | notAnIndex r => .malformed s!"'{r.name}' cannot be used as an index register" (some indexHint)
  | steppedTwice => .malformed "cannot combine auto decrement and auto increment" none
  | steppedOffset => .malformed "auto increment/decrement cannot be combined with an offset" none
  | steppedCounter r => .malformed s!"auto increment/decrement is not allowed with '{r.name}'" none
  | steppedByOneIndirect sign =>
    .malformed s!"{sign.describe} auto increment/decrement by one is not allowed in indirect mode"
      (some "use '++' or '--' with indirect addressing")
  | accumulatorCounter r => .malformed s!"accumulator offset cannot be used with '{r.name}'" none
  | bareCounter r => .malformed s!"'{r.name}' addressing needs an offset" none
  | unsupportedForm m mode => .unsupportedForm m.name mode.name (m.forms.map (·.mode.name))
  | outOfRange what value low high =>
    .outOfRange s!"{what} {value} out of range ({low} to {high})" (some value) none
  | offPage value page =>
    .outOfRange ("address $" ++ Text.hex 4 (value % 0x10000) ++ " is outside the direct page $" ++ Text.hex 2 page)
      (some value) (some "use setdp to select the direct page, or drop the '<'")
  | blockTooLarge bytes => .outOfRange s!"variable block of {bytes} bytes is too large" (some bytes) none
  | notAByte c =>
    .outOfRange ("character " ++ Text.quoted (String.singleton c) ++ " cannot be encoded as a byte")
      (some c.toNat) none
  | branchTooFar target offset long => .branchTooFar target offset long
  | undefinedSymbol name similar => .undefinedSymbol name similar none
  | duplicateSymbol name first => .duplicateSymbol name first
  | phaseError label first second =>
    .other ("phase error: label '" ++ label ++ "' was at $" ++ Text.hex 4 first ++ " in the first pass but $" ++
      Text.hex 4 second ++ " in the second") none
  | worded text hint => .malformed text hint

end Problem

end Mc6809
