import Mc6809.Assembly.Action
import Mc6809.Statement.Reader

/-!
# Parts of statements

A part of a statement can be carried out by itself at the start of a line. What follows the part is left alone,
and the number of the token it stopped at is returned.
-/

namespace Mc6809

open Assemble

/-- What can be carried out by itself. -/
inductive Part where
  | instruction | directive | constants | named
  deriving DecidableEq, Repr

/-- The first line of a source, which may be empty. -/
def Line.first? (tokens : List Token) : Option Line :=
  match tokens.span fun t => !t.lexeme.endsLine with
  | (body, stop :: _) => some ⟨body, stop⟩
  | (_, []) => none

/-- Carry out a script and return the number of the token after it. -/
def Script.run (stop : Token) (s : Script) : Assemble Nat := do
  s.actions.forM Action.run
  match s.ending with
  | .error f => fail f
  | .ok rest => return (nextToken stop rest).index

namespace Part

/-- Read a part at the start of a line. In the second pass a directive that defines constants is passed over. -/
def read? (p : Part) (pass : Pass) (l : Line) : Option Script :=
  match p, l.body with
  | constants, ts => some (Script.readConstants l.stop ts)
  | _, [] => none
  | instruction, t :: ts =>
    match t.lexeme with
    | .opcode m => some (Script.readInstruction m t l.stop ts)
    | _ => none
  | directive, t :: ts =>
    match t.lexeme with
    | .directive d =>
      if d.definesConstants && pass = .second then some ⟨[], .ok []⟩
      else some (Script.readDirective d t l.stop ts)
    | _ => none
  | named, t :: ts =>
    match t.lexeme with
    | .identifier name => some (Script.readNamed name t l.stop ts)
    | _ => none

/-- Carry out a part at the start of a line. A line that starts otherwise is left alone. -/
def run (p : Part) (l : Line) : Assemble Nat := do
  let s ← get
  match p.read? s.pass l with
  | some script => script.run l.stop
  | none => return (nextToken l.stop l.body).index

end Part

/-- Read and evaluate an expression at the start of a line. The result comes with the number of the token after
it. -/
def evaluateLine (l : Line) (required : Bool) : Assemble (Value × Nat) := do
  match Expr.read l.stop l.body with
  | .error f => fail { f with required }
  | .ok (e, rest) => return (← evaluate e required, (nextToken l.stop rest).index)

end Mc6809
