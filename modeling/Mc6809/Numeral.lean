import Mc6809.Text.Blank
import Mc6809.Text.Digit
import Mc6809.Text.Quoted

/-!
# Numbers given as text

Numbers outside of source text (options, environment, symbol definitions) use the notations of the assembler:
`$` or `0x` for hexadecimal, `%` or `0b` for binary, decimal otherwise, each after an optional sign. What
follows the mark is read leniently: blanks around it, a second sign, a repeated `0x` or `0b`, single underscores
between digits and the decimal digits of any script are accepted.
-/

namespace Mc6809.Numeral

/-- The value of an ASCII digit or letter as a digit. -/
def charValue? (c : Char) : Option Nat :=
  let n := c.toNat
  if 0x30 ≤ n ∧ n ≤ 0x39 then some (n - 0x30)
  else if 0x41 ≤ n ∧ n ≤ 0x5A then some (n - 0x41 + 10)
  else if 0x61 ≤ n ∧ n ≤ 0x7A then some (n - 0x61 + 10)
  else none

/-- The value of a digit that is below the base. -/
def digit? (base : Nat) (c : Char) : Option Nat :=
  (charValue? c).filter (· < base)

/-- Read on after a digit. An underscore has to stand between two digits. -/
def digitsFrom? (base : Nat) : Nat → List Char → Option Nat
  | acc, [] => some acc
  | _, ['_'] => none
  | acc, '_' :: c :: cs => (digit? base c).bind fun d => digitsFrom? base (acc * base + d) cs
  | acc, c :: cs => (digit? base c).bind fun d => digitsFrom? base (acc * base + d) cs

/-- Read a run of digits, at least one, with single underscores between them. -/
def digits? (base : Nat) : List Char → Option Nat
  | [] => none
  | c :: cs => (digit? base c).bind fun d => digitsFrom? base d cs

/-- The letter that may mark a base again after a zero. -/
def markLetter? : Nat → Option Char
  | 16 => some 'x'
  | 2 => some 'b'
  | _ => none

/-- Drop a zero and the letter of the base, and one underscore after them. -/
def dropMark (base : Nat) : List Char → List Char
  | '0' :: c :: cs =>
    if markLetter? base = some c.toLower then
      match cs with
      | '_' :: cs => cs
      | cs => cs
    else '0' :: c :: cs
  | cs => cs

/-- Blanks above ASCII count as spaces and decimal digits of other scripts as the ASCII ones. -/
def foldScript (c : Char) : Char :=
  if c.toNat < 127 then c
  else if Text.isBlank c then ' '
  else match Text.decimalValue? c with
    | some d => Char.ofNat (0x30 + d)
    | none => '?'

/-- The blanks of ASCII that may surround digits. -/
def isSpace (c : Char) : Bool :=
  (0x09 ≤ c.toNat && c.toNat ≤ 0x0D) || c = ' '

/-- Read a whole text as an integer in a base: blanks around it, one sign, the mark of the base, then digits. -/
def integer? (base : Nat) (cs : List Char) : Option Int :=
  match Text.trimWhile isSpace (cs.map foldScript) with
  | '-' :: rest => (digits? base (dropMark base rest)).map fun n => -(n : Int)
  | '+' :: rest => (digits? base (dropMark base rest)).map Int.ofNat
  | rest => (digits? base (dropMark base rest)).map Int.ofNat

/-- A text that is no integer in its base. -/
structure Fault where
  base : Nat
  text : String
  deriving DecidableEq, Repr

/-- At most 200 characters of the quoted text are shown. -/
def Fault.message (f : Fault) : String :=
  s!"invalid literal for int() with base {f.base}: " ++ String.ofList ((Text.quoted f.text).toList.take 200)

/-- The base that a text is written in, and the text after the mark of the base. -/
def radixOf : List Char → Nat × List Char
  | '$' :: cs => (16, cs)
  | '%' :: cs => (2, cs)
  | '0' :: 'x' :: cs => (16, cs)
  | '0' :: 'X' :: cs => (16, cs)
  | '0' :: 'b' :: cs => (2, cs)
  | '0' :: 'B' :: cs => (2, cs)
  | cs => (10, cs)

/-- Read a number without a sign of its own. -/
def magnitude (cs : List Char) : Except Fault Int :=
  match integer? (radixOf cs).1 (radixOf cs).2 with
  | some n => .ok n
  | none => .error ⟨(radixOf cs).1, String.ofList (radixOf cs).2⟩

/-- Read a number in any notation of the assembler. -/
def parse (text : String) : Except Fault Int :=
  match Text.strip text.toList with
  | '-' :: cs => (magnitude cs).map (- ·)
  | '+' :: cs => magnitude cs
  | cs => magnitude cs

end Mc6809.Numeral
