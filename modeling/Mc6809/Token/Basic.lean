import Mc6809.Diagnostic
import Mc6809.Directive
import Mc6809.Mnemonic
import Mc6809.Register
import Mc6809.Text.Quoted

/-!
# Tokens

A lexeme is what a stretch of source text stands for. A token is a lexeme with its number in the source and its
place.
-/

namespace Mc6809

/-- The kinds of lexemes. -/
inductive Kind where
  | label | directive | opcode | identifier | integer | text | char | register | comma | inc | inc2 | dec | dec2
  | equal | less | greater | hash | bracket | closing | newline | eof
  deriving DecidableEq, Repr

namespace Kind

def all : List Kind :=
  [label, directive, opcode, identifier, integer, text, char, register, comma, inc, inc2, dec, dec2, equal, less,
    greater, hash, bracket, closing, newline, eof]

/-- The name of a kind in displayed tokens. -/
def name : Kind → String
  | label => "LABEL" | directive => "DIRECTIVE" | opcode => "OPCODE" | identifier => "IDENTIFIER"
  | integer => "INTEGER" | text => "STRING" | char => "CHAR" | register => "REGISTER" | comma => "COMMA"
  | inc => "INC" | inc2 => "INC2" | dec => "DEC" | dec2 => "DEC2" | equal => "EQ" | less => "DIRECT"
  | greater => "EXT_DIR" | hash => "IMMEDIATE" | bracket => "INDIRECT_START" | closing => "INDIRECT_END"
  | newline => "NEWLINE" | eof => "EOF"

def ofName? (word : String) : Option Kind :=
  all.find? (·.name = word)

end Kind

/-- What a stretch of source text stands for. -/
inductive Lexeme where
  | label (name : String)
  | directive (d : Directive)
  | opcode (m : Mnemonic)
  | identifier (name : String)
  | integer (n : Nat)
  | text (s : String)
  | char (c : Char)
  | register (r : Register)
  | comma | inc | inc2 | dec | dec2 | equal | less | greater | hash | bracket | closing | newline | eof
  deriving DecidableEq, Repr

namespace Lexeme

def kind : Lexeme → Kind
  | label _ => .label | directive _ => .directive | opcode _ => .opcode | identifier _ => .identifier
  | integer _ => .integer | text _ => .text | char _ => .char | register _ => .register
  | comma => .comma | inc => .inc | inc2 => .inc2 | dec => .dec | dec2 => .dec2 | equal => .equal
  | less => .less | greater => .greater | hash => .hash | bracket => .bracket | closing => .closing
  | newline => .newline | eof => .eof

/-- The number that a number or character literal stands for. -/
def number? : Lexeme → Option Nat
  | integer n => some n
  | char c => some c.toNat
  | _ => none

/-- The word, text or sign of a lexeme that has one; numbers and line ends have none. -/
def word? : Lexeme → Option String
  | label name | identifier name => some name
  | directive d => some d.name
  | opcode m => some m.name
  | text s => some s
  | register r => some r.name
  | comma => some "," | inc => some "+" | inc2 => some "++" | dec => some "-" | dec2 => some "--"
  | equal => some "=" | less => some "<" | greater => some ">" | hash => some "#"
  | bracket => some "[" | closing => some "]"
  | integer _ | char _ | newline | eof => none

/-- A short description for messages. -/
def describe : Lexeme → String
  | newline => "end of line"
  | eof => "end of input"
  | text s => "string \"" ++ s ++ "\""
  | integer n => s!"number {n}"
  | char c => s!"number {c.toNat}"
  | l => "'" ++ l.word?.getD "" ++ "'"

/-- Whether a lexeme ends a statement. -/
def endsLine (l : Lexeme) : Bool :=
  l = newline || l = eof

end Lexeme

/-- A lexeme with its number among the tokens of a source and the place where it starts. -/
structure Token where
  lexeme : Lexeme
  index : Nat
  file : String
  line : Nat
  column : Nat
  deriving DecidableEq, Repr

namespace Token

def kind (t : Token) : Kind := t.lexeme.kind

def location (t : Token) : Location := ⟨t.file, t.line, t.column⟩

def describe (t : Token) : String := t.lexeme.describe

/-- A token on display: its kind, its value if it has one, and its line and column. -/
def display (t : Token) : String :=
  let place := s!"{t.line}:{t.column})"
  match t.lexeme.number?, t.lexeme.word? with
  | some n, _ => "Token(" ++ t.kind.name ++ ", $" ++ Text.hex 0 n ++ ", " ++ place
  | none, some w => "Token(" ++ t.kind.name ++ ", " ++ Text.quoted w ++ ", " ++ place
  | none, none => "Token(" ++ t.kind.name ++ ", " ++ place

end Token

end Mc6809
