import Mc6809.Assembly.Program
import Mc6809.Token.Lexer

/-!
# Cursors

A cursor is a place in a list of tokens that ends with the end mark. It never moves past the end mark.
-/

namespace Mc6809

/-- A place in a list of tokens: the tokens that were read (the latest first), those still to be read, the end
mark, and the lines of the source for quoting. -/
structure Cursor where
  read : List Token
  rest : List Token
  stop : Token
  lines : List String

namespace Cursor

/-- A cursor at the start of a list of tokens, which has to end with the end mark. -/
def ofTokens? (tokens : List Token) (lines : List String) : Option Cursor :=
  match tokens.reverse with
  | [] => none
  | stop :: before => if stop.kind = .eof then some ⟨[], before.reverse, stop, lines⟩ else none

/-- The number of the next token. -/
def index (c : Cursor) : Nat :=
  c.read.length

/-- All tokens. -/
def tokens (c : Cursor) : List Token :=
  c.read.reverse ++ c.rest ++ [c.stop]

/-- The next token. -/
def current (c : Cursor) : Token :=
  nextToken c.stop c.rest

/-- The token with a number; numbers below zero count from the end. -/
def token? (c : Cursor) (place : Int) : Option Token :=
  if 0 ≤ place then c.tokens[place.toNat]?
  else if 0 ≤ c.tokens.length + place then c.tokens[(c.tokens.length + place).toNat]?
  else none

/-- The token at a distance from the next one. Beyond the end it is the end mark; places before the start count
from the end, and there are none before those. -/
def peek? (c : Cursor) (offset : Int) : Option Token :=
  c.token? (min (c.index + offset) (c.tokens.length - 1))

/-- Move past the next token. -/
def advance (c : Cursor) : Cursor :=
  match c.rest with
  | [] => c
  | t :: ts => { c with read := t :: c.read, rest := ts }

/-- Back to the first token. -/
def reset (c : Cursor) : Cursor :=
  { c with read := [], rest := c.read.reverse ++ c.rest }

/-- Whether the next token is of one of some kinds. -/
def check (c : Cursor) (kinds : List Kind) : Bool :=
  c.current.kind ∈ kinds

def atLineEnd (c : Cursor) : Bool :=
  c.check [.newline, .eof]

/-- Move to the end of the line. -/
def skipLine (c : Cursor) : Cursor :=
  let (line, rest) := c.rest.span fun t => t.kind ≠ .newline
  { c with read := line.reverse ++ c.read, rest }

/-- The diagnostic for a problem at a token. -/
def diagnose (c : Cursor) (p : Problem) (t : Token) : Diagnostic :=
  p.at c.lines t

/-- Take the next token if it is of a kind, or complain in the given words about what was found instead. -/
def expect (c : Cursor) (kind : Kind) (wanted : String) (hint : Option String) : Except Diagnostic (Token × Cursor) :=
  if c.check [kind] then .ok (c.current, c.advance)
  else .error (c.diagnose (.worded (wanted ++ ", found " ++ c.current.describe) hint) c.current)

/-- Complain if the line is not at its end. -/
def expectLineEnd (c : Cursor) : Except Diagnostic Unit :=
  if c.atLineEnd then .ok () else .error (c.diagnose (.trailing c.current.lexeme) c.current)

/-- The text of the line that a token is on. -/
def sourceLine (c : Cursor) (t : Token) : Option String :=
  lineText? c.lines t.line

/-- A message at a token, with the line quoted. -/
def message (c : Cursor) (t : Token) (text : String) : String :=
  Diagnostic.render ⟨.other text none, some t.location, c.sourceLine t⟩

end Cursor

end Mc6809
