/-!
# Lines of a text

Two ways to cut a text into lines. `feedLines` cuts at line feeds only and is the rule that line numbers follow.
`lines` cuts at every line separator and is the rule for quoting a line in a listing or a diagnostic.
-/

namespace Mc6809.Text

/-- The characters that end a line of `lines`. -/
def isSeparator (c : Char) : Bool :=
  c ∈ ['\n', '\r', '\x0b', '\x0c', '\x1c', '\x1d', '\x1e', '\u0085', '\u2028', '\u2029']

/-- Put a character in front of the first line. -/
def consLine (c : Char) : List (List Char) → List (List Char)
  | [] => [[c]]
  | l :: ls => (c :: l) :: ls

/-- The lines of a text without their separators. A carriage return and a line feed together are one separator,
and a separator at the very end starts no further line. -/
def lines : List Char → List (List Char)
  | [] => []
  | '\r' :: '\n' :: cs => [] :: lines cs
  | c :: cs => if isSeparator c then [] :: lines cs else consLine c (lines cs)

/-- The stretches between line feeds; there is always one more of them than there are line feeds. -/
def feedLines : List Char → List (List Char)
  | [] => [[]]
  | c :: cs => if c = '\n' then [] :: feedLines cs else consLine c (feedLines cs)

/-- Every way to end a line becomes a line feed. -/
def unifyFeeds : List Char → List Char
  | [] => []
  | '\r' :: '\n' :: cs => '\n' :: unifyFeeds cs
  | c :: cs => (if c = '\r' then '\n' else c) :: unifyFeeds cs

end Mc6809.Text
