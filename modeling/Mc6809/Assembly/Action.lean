import Mc6809.Assembly.Instruction

/-!
# Carrying out actions

The directives: symbols, the program counter, reserved blocks and data.
-/

namespace Mc6809

/-- The bytes of a value in a unit of data. -/
def Cell.bytes : Cell → Int → List UInt8
  | byte, n => [lowByte n]
  | word, n => wordBytes n

namespace Assemble

/-- Bind a label to the program counter, or in the second pass check that it is there again. -/
def bindLabel (name : String) (place : Token) : Assemble Unit := do
  let s ← get
  match s.pass with
  | .first =>
    match s.symbols.defineLabel ⟨name, s.pc, some place.location⟩ with
    | .ok symbols => set { s with symbols }
    | .error first => refuse (.duplicateSymbol name first) place (place.index + 1)
  | .second =>
    match s.symbols.labels.value? name with
    | some address =>
      if address = s.pc then pure () else refuse (.phaseError name address s.pc) place (place.index + 1)
    | none => throw (.unboundLabel name)

def defineConstant (name : String) (place : Token) (e : Expr) : Assemble Unit := do
  let v ← evaluate e true
  let s ← get
  match s.symbols.defineConstant ⟨name, v.total, some place.location⟩ with
  | .ok symbols => set { s with symbols }
  | .error first => refuse (.duplicateSymbol name first) place e.next
  note (.constant name v.total)

/-- The value of an expression that has to be within bounds. -/
def bounded (e : Expr) (b : Bounds) (required : Bool) : Assemble Int := do
  within (← evaluate e required) b e.next

def setOrigin (e : Expr) : Assemble Unit := do
  let pc ← bounded e .origin true
  modify fun s => { s with pc }
  note (.origin pc)

def setPage (e : Expr) : Assemble Unit := do
  let dp ← bounded e .page true
  modify fun s => { s with dp }
  note (.page dp)

/-- Emit the same byte a number of times. -/
def emitBlock (value count : Int) : Assemble Unit :=
  emit (List.replicate count.toNat (lowByte value))

/-- Reserve a block for a number of variables of the same size. -/
def reserveVariables (place : Token) (size : Expr) (count : Option Expr) : Assemble Unit := do
  let each ← bounded size .variableSize true
  let number ← match count with
    | some e => bounded e .variableCount true
    | none => pure 1
  if Bounds.maxBlock < each * number then
    refuse (.blockTooLarge (each * number)) place (count.getD size).next
  else emitBlock 0 (each * number)

def fillBlock (value count : Expr) : Assemble Unit := do
  let value ← bounded value .fillValue false
  emitBlock value (← bounded count .fillCount true)

/-- Emit a text, one unit for each character. Characters that are no bytes are refused. -/
def emitText (cell : Cell) (s : String) (place : Token) : Assemble Unit :=
  match s.toList.find? fun c => 0xFF < c.toNat with
  | some c => refuse (.notAByte c) place (place.index + 1)
  | none => emit (s.toList.flatMap fun c => cell.bytes c.toNat)

end Assemble

open Assemble in
/-- Carry out an action. -/
def Action.run : Action → Assemble Unit
  | define name place e => defineConstant name place e
  | origin e => setOrigin e
  | page e => setPage e
  | reserve e => do emitBlock 0 (← bounded e .reservation true)
  | reserveMany place size count => reserveVariables place size count
  | fill e count => fillBlock e count
  | check e bounds required => discard (bounded e bounds required)
  | text cell s place => emitText cell s place
  | value cell e => do emit (cell.bytes (← bounded e cell.bounds false))
  | terminator d place => note (.terminator d place.line)
  | instruct m mnemonic i next => i.assemble m mnemonic next
  | stop => modify fun s => { s with ended := true }

end Mc6809
