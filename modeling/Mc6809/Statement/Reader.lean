import Mc6809.Operand.Reader
import Mc6809.Statement.Action

/-!
# Reading statements

A line is an optional label followed by a directive, an instruction or a definition of constants, or by nothing.
-/

namespace Mc6809

namespace Script

/-- Read one expression for an action. -/
def single (stop : Token) (ts : List Token) (action : Expr → Action) : Script :=
  match Expr.read stop ts with
  | .error f => ⟨[], .error f.requiring⟩
  | .ok (e, rest) => ⟨[action e], .ok rest⟩

/-- A size, and a count if a comma follows it. -/
def readVariables (place stop : Token) (ts : List Token) : Script :=
  match Expr.read stop ts with
  | .error f => ⟨[], .error f.requiring⟩
  | .ok (size, rest) =>
    match afterLexeme? .comma rest with
    | none => ⟨[.reserveMany place size none], .ok rest⟩
    | some rest =>
      match Expr.read stop rest with
      | .error f => ⟨[.check size .variableSize true], .error f.requiring⟩
      | .ok (count, rest) => ⟨[.reserveMany place size (some count)], .ok rest⟩

/-- A value and a count with a comma between them. -/
def readFill (stop : Token) (ts : List Token) : Script :=
  match Expr.read stop ts with
  | .error f => ⟨[], .error f⟩
  | .ok (value, rest) =>
    match afterLexeme? .comma rest with
    | none => ⟨[.check value .fillValue false], .error (faultAt stop rest .fillCountExpected)⟩
    | some rest =>
      match Expr.read stop rest with
      | .error f => ⟨[.check value .fillValue false], .error f.requiring⟩
      | .ok (count, rest) => ⟨[.fill value count], .ok rest⟩

/-- Read one item of a data directive. If `drops` is set, a zero that ends the line is a terminator. -/
def readItem (cell : Cell) (drops : Bool) (d : Directive) (place stop : Token) (ts : List Token) : Reading Action :=
  match ts with
  | [] => .error (faultAt stop [] .valueExpected)
  | t :: rest =>
    match t.lexeme with
    | .text s => .ok (.text cell s t, rest)
    | l =>
      if drops && l = .integer 0 && rest.isEmpty then .ok (.terminator d place, rest)
      else (Expr.read stop (t :: rest)).map fun (e, rest) => (.value cell e, rest)

private theorem readItem_rest_length {cell : Cell} {drops : Bool} {d : Directive} {place stop : Token}
    {ts rest : List Token} {a : Action} (h : readItem cell drops d place stop ts = .ok (a, rest)) :
    rest.length < ts.length := by
  unfold readItem at h
  split at h
  · cases h
  · next t ts =>
    split at h
    · cases h
      simp
    · split at h
      · cases h
        simp
      · cases he : Expr.read stop (t :: ts) with
        | error f => rw [he] at h; cases h
        | ok p =>
          rw [he] at h
          cases h
          exact Expr.read_rest_length he

/-- Read the items of a data directive. A terminator can only follow a text, which `afterText` tells. -/
def readItems (cell : Cell) (drops : Bool) (d : Directive) (place stop : Token) (afterText : Bool)
    (ts : List Token) : Script :=
  match _h : readItem cell (drops && afterText) d place stop ts with
  | .error f => ⟨[], .error f⟩
  | .ok (a, rest) =>
    match _h' : afterLexeme? .comma rest with
    | none => ⟨[a], .ok rest⟩
    | some rest => (readItems cell drops d place stop a.isText rest).cons a
termination_by ts.length
decreasing_by
  have := readItem_rest_length _h
  have := afterLexeme?_length _h'
  omega

/-- Read definitions `name = value` with commas between them. -/
def readConstants (stop : Token) (ts : List Token) : Script :=
  match ts with
  | [] => ⟨[], .error (faultAt stop [] .nameExpected)⟩
  | t :: rest =>
    match t.lexeme with
    | .identifier name =>
      match _h : afterLexeme? .equal rest with
      | none => ⟨[], .error (faultAt stop rest (.equalExpected name))⟩
      | some rest' =>
        match _h' : Expr.read stop rest' with
        | .error f => ⟨[], .error f.requiring⟩
        | .ok (e, rest'') =>
          match _h'' : afterLexeme? .comma rest'' with
          | none => ⟨[.define name t e], .ok rest''⟩
          | some rest''' => (readConstants stop rest''').cons (.define name t e)
    | _ => ⟨[], .error (faultAt stop (t :: rest) .nameExpected)⟩
termination_by ts.length
decreasing_by
  have := afterLexeme?_length _h
  have := Expr.read_rest_length _h'
  have := afterLexeme?_length _h''
  simp only [List.length_cons]
  omega

/-- Read a definition that starts with the name of the constant. -/
def readNamed (name : String) (place stop : Token) (ts : List Token) : Script :=
  match afterLexeme? .equal ts, afterLexeme? (.directive .equ) ts with
  | some rest, _ =>
    match Expr.read stop rest with
    | .error f => ⟨[], .error f.requiring⟩
    | .ok (e, rest) =>
      match afterLexeme? .comma rest with
      | none => ⟨[.define name place e], .ok rest⟩
      | some rest => (readConstants stop rest).cons (.define name place e)
  | none, some rest => single stop rest (.define name place)
  | none, none =>
    ⟨[], .error { problem := .unknownInstruction name, token := place, index := (nextToken stop ts).index }⟩

/-- Read the operands of a directive. -/
def readDirective (d : Directive) (place stop : Token) (ts : List Token) : Script :=
  match d with
  | .org => single stop ts .origin
  | .setdp | .direct => single stop ts .page
  | .stop => ⟨[.stop], .ok ts⟩
  | .const | .equ => readConstants stop ts
  | .rmb | .ds => single stop ts .reserve
  | .var => readVariables place stop ts
  | .fill => readFill stop ts
  | .db | .fcb | .byteList => readItems .byte true d place stop false ts
  | .fcc => readItems .byte false d place stop false ts
  | .dw | .fdb | .wordList => readItems .word false d place stop false ts

/-- Read the operand of an instruction. -/
def readInstruction (m : Mnemonic) (mnemonic stop : Token) (ts : List Token) : Script :=
  match Instruction.read m mnemonic stop ts with
  | .error f => ⟨[], .error f⟩
  | .ok (i, rest) => ⟨[.instruct m mnemonic i (nextToken stop rest).index], .ok rest⟩

end Script

/-- A directive that defines constants. -/
def Directive.definesConstants (d : Directive) : Bool :=
  d = .const || d = .equ

/-- The tokens of a line and the token that ends it. -/
structure Line where
  body : List Token
  stop : Token
  deriving DecidableEq, Repr

namespace Line

/-- Cut tokens into lines. `body` holds the tokens of the line so far. An empty last line does not count. -/
def splitFrom (body : List Token) : List Token → List Line
  | [] => []
  | t :: ts =>
    if t.lexeme = .newline then ⟨body, t⟩ :: splitFrom [] ts
    else if t.lexeme = .eof then
      match body with
      | [] => []
      | _ => [⟨body, t⟩]
    else splitFrom (body ++ [t]) ts

/-- Cut the tokens of a source into lines. -/
def split (tokens : List Token) : List Line :=
  splitFrom [] tokens

/-- The number of the token after a line. The end of the source is never passed. -/
def next (l : Line) : Nat :=
  if l.stop.lexeme = .newline then l.stop.index + 1 else l.stop.index

end Line

/-- A line that is not empty. -/
structure Statement where
  first : Token
  label : Option (String × Token)
  /-- Definitions of constants are carried out in the first pass only. -/
  constants : Bool
  actions : List Action
  fault : Option Fault

namespace Statement

/-- Read what follows the label, and tell whether it defines constants. -/
def readBody (stop : Token) : List Token → Bool × Script
  | [] => (false, ⟨[], .ok []⟩)
  | t :: ts =>
    match t.lexeme with
    | .directive d => (d.definesConstants, Script.readDirective d t stop ts)
    | .opcode m => (false, Script.readInstruction m t stop ts)
    | .identifier name => (true, Script.readNamed name t stop ts)
    | _ => (false, ⟨[], .error (faultAt stop (t :: ts) .strayStart)⟩)

/-- Read a line that starts with `first`. -/
def read (stop first : Token) (ts : List Token) : Statement :=
  match first.lexeme with
  | .label name =>
    let (constants, script) := readBody stop ts
    ⟨first, some (name, first), constants, script.actions, script.fault? stop⟩
  | _ =>
    let (constants, script) := readBody stop (first :: ts)
    ⟨first, none, constants, script.actions, script.fault? stop⟩

end Statement

/-- The statement of a line, if it has one. -/
def Line.statement? (l : Line) : Option Statement :=
  match l.body with
  | [] => none
  | first :: ts => some (Statement.read l.stop first ts)

end Mc6809
