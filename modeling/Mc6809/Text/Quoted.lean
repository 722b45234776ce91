import Mc6809.Text.Hex
import Mc6809.Text.Printable

/-!
# Quoted text

A text between quotes, as diagnostics show it. Single quotes are used unless the text holds a single quote and no
double quote. Backslashes, the quote in use and characters without a visible form are escaped.
-/

namespace Mc6809.Text

private def escapeHex (letter : Char) (width n : Nat) : List Char :=
  '\x5c' :: letter :: (paddedHex width n).map Char.toLower

/-- One character inside quotes. -/
def escapeChar (quote c : Char) : List Char :=
  if c = quote || c = '\x5c' then ['\x5c', c]
  else if c = '\n' then ['\x5c', 'n']
  else if c = '\r' then ['\x5c', 'r']
  else if c = '\t' then ['\x5c', 't']
  else if isPrintable c then [c]
  else if c.toNat < 0x100 then escapeHex 'x' 2 c.toNat
  else if c.toNat < 0x10000 then escapeHex 'u' 4 c.toNat
  else escapeHex 'U' 8 c.toNat

/-- The quote for a text: double only if the text has a single quote and no double one. -/
def quoteFor (cs : List Char) : Char :=
  if '\x27' ∈ cs ∧ '\x22' ∉ cs then '\x22' else '\x27'

/-- A text between quotes. -/
def quoted (s : String) : String :=
  let cs := s.toList
  let q := quoteFor cs
  String.ofList (q :: cs.flatMap (escapeChar q) ++ [q])

end Mc6809.Text
