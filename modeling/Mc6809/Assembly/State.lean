import Mc6809.Machine.Basic
import Mc6809.Statement.Action

/-!
# The state of a run

A source is assembled in two passes. The first one gives every label its address and settles how wide each
operand is; the second one emits the bytes. A step can change the state and then fail, so the state of a failed
run can be looked at.
-/

namespace Mc6809

inductive Pass where
  | first | second
  deriving DecidableEq, Repr

def Pass.number : Pass → Nat
  | first => 1
  | second => 2

/-- What a run reports on the way. -/
inductive Note where
  | constant (name : String) (value : Int)
  | origin (pc : Int)
  | page (dp : Int)
  | terminator (d : Directive) (line : Nat)
  | pass (p : Pass) (pc : Int) (labels constants : Nat)
  | generated (bytes : Nat)
  deriving DecidableEq, Repr

def Note.message : Note → String
  | constant name value => s!"Constant {name} = {value}"
  | origin pc => "org $" ++ Text.hex 4 pc
  | page dp => "Direct page set to $" ++ Text.hex 2 dp
  | terminator d line => s!"{d.name}: string terminator 0 not emitted (line {line})"
  | pass p pc labels constants =>
    s!"Pass {p.number}: pc=$" ++ Text.hex 4 pc ++ s!", {labels} labels, {constants} constants"
  | generated bytes => s!"Generated {bytes} bytes"

/-- What the second pass records of a statement: its address, its bytes and its line. -/
structure Row where
  address : Int
  data : List UInt8
  line : Nat
  deriving DecidableEq, Repr

structure State where
  /-- The program counter at the start of each pass. -/
  base : Int
  pass : Pass := .first
  pc : Int := base
  /-- The direct page that addresses are assumed to be on. -/
  dp : Int := 0
  symbols : Symbols := {}
  /-- The widths chosen for operands, by the number of the mnemonic's token. -/
  widths : List (Int × Int) := []
  output : Array UInt8 := #[]
  listing : Array Row := #[]
  ended : Bool := false
  notes : List Note := []
  /-- What an undefined symbol counts as during the first pass. -/
  placeholder : Int := 0
  deriving DecidableEq, Repr

/-- Why a step fails. -/
inductive Failure where
  /-- A problem at a token, met when the token with the number `index` was the next to be read. -/
  | refused (problem : Problem) (token : Token) (index : Nat)
  /-- A label of the second pass that the first one did not define. -/
  | unboundLabel (name : String)
  deriving DecidableEq, Repr

/-- A step of a run. -/
abbrev Assemble := EStateM Failure State

namespace State

/-- Rewind for a pass. Symbols and widths are kept. -/
def start (p : Pass) (s : State) : State :=
  { s with pass := p, pc := s.base, dp := 0, output := #[], listing := #[], ended := false }

/-- Advance the program counter over bytes and, in the second pass, store them. -/
def emit (bytes : List UInt8) (s : State) : State :=
  { s with
    pc := s.pc + bytes.length
    output := if s.pass = .second then s.output ++ bytes else s.output }

/-- The width to use for an operand: in the second pass the recorded one, if there is one, else the proposed one,
which is recorded. -/
def choose (key width : Int) (s : State) : Int × State :=
  match s.pass, s.widths.lookup key with
  | .second, some w => (w, s)
  | _, _ => (width, { s with widths := assign key width s.widths })

def note (n : Note) (s : State) : State :=
  { s with notes := s.notes ++ [n] }

/-- The widths in the order of their keys. -/
def sortedWidths (s : State) : List (Int × Int) :=
  s.widths.mergeSort fun p q => p.1 ≤ q.1

end State

namespace Assemble

def emit (bytes : List UInt8) : Assemble Unit :=
  modify (·.emit bytes)

def choose (key width : Int) : Assemble Int :=
  modifyGet (·.choose key width)

def note (n : Note) : Assemble Unit :=
  modify (·.note n)

def refuse {α : Type} (problem : Problem) (token : Token) (index : Nat) : Assemble α :=
  throw (.refused problem token index)

/-- Fail at the leftmost undefined symbol if symbols have to be defined: in the second pass, or if `required`. -/
def demand (terms : List Term) (required : Bool) : Assemble Unit := do
  let s ← get
  if required || s.pass = .second then
    match firstUndefined? s.symbols terms with
    | some (name, token) => refuse (.undefinedSymbol name (s.symbols.similar name)) token (token.index + 1)
    | none => pure ()

/-- The value of an expression. -/
def evaluate (e : Expr) (required : Bool) : Assemble Value := do
  demand e.terms required
  let s ← get
  return e.value s.symbols s.placeholder

/-- The total of a value, which has to be within bounds once it is settled. -/
def within (v : Value) (b : Bounds) (index : Nat) : Assemble Int := do
  if v.settled && !b.contains v.total then
    refuse (.outOfRange b.what v.total b.low b.high) v.first index
  else return v.total

/-- Fail with a fault, or with an undefined symbol in front of it. -/
def fail {α : Type} (f : Fault) : Assemble α := do
  demand f.seen f.required
  refuse f.problem f.token f.index

end Assemble

end Mc6809
