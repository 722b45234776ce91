import Mc6809.Assembly.State

/-!
# Assembling instructions

Each operand becomes the operand of a machine instruction. Where an operand can be stored in several widths the
first pass takes the narrowest one that is certain to do, and the second pass takes the same again.
-/

namespace Mc6809

namespace State

/-- Whether an address lies on the direct page. -/
def onPage (s : State) (address : Int) : Bool :=
  0 ≤ address && address ≤ 0xFFFF && address / 0x100 = s.dp

/-- Whether an address is stored as its low byte when the source leaves the choice. With page zero in force
small negative numbers are, too. -/
def isShort (s : State) (address : Int) : Bool :=
  s.onPage address || (s.dp = 0 && -128 ≤ address && address < 0)

end State

namespace Value

/-- The bytes that an offset from an index register needs besides the postbyte. -/
def offsetWidth (v : Value) (indirect : Bool) : Int :=
  if v.settled && -16 ≤ v.total && v.total ≤ 15 && !indirect then 0
  else if v.settled && -128 ≤ v.total && v.total ≤ 127 then 1
  else 2

/-- The bytes that an offset from the program counter needs besides the postbyte. -/
def counterWidth (v : Value) : Int :=
  if v.settled && -128 ≤ v.total && v.total ≤ 127 then 1 else 2

/-- The same for a target address, where `after` is the address after the postbyte. -/
def targetWidth (v : Value) (after : Int) : Int :=
  if v.settled && -128 ≤ v.total - (after + 1) && v.total - (after + 1) ≤ 127 then 1 else 2

end Value

namespace Machine.Index

/-- An offset from an index register in a given width. -/
def ofOffset (width : Int) (r : IndexRegister) (indirect : Bool) (offset : Int) : Index :=
  if width = 0 then packed r offset
  else if width = 1 then byteOffset r indirect offset
  else wordOffset r indirect offset

/-- An offset from the program counter in a given width. -/
def ofCounter (width : Int) (indirect : Bool) (offset : Int) : Index :=
  if width = 1 then byteCounter indirect offset else wordCounter indirect offset

end Machine.Index

namespace Instruction

/-- The distances that a branch can bridge. -/
def reaches (long : Bool) (offset : Int) : Bool :=
  if long then -32768 ≤ offset && offset ≤ 32767 else -126 ≤ offset && offset ≤ 129

open Assemble

def emitMachine (f : Form) (operand : Machine.Operand) : Assemble Unit :=
  emit (Machine.Instruction.bytes ⟨f, operand⟩)

def assembleBranch (f : Form) (name : String) (target : Token) : Assemble Unit := do
  let s ← get
  let long := f.operandSize = 2
  let offset ← match s.symbols.resolve name with
    | some value =>
      let offset := value - (s.pc + f.size)
      if reaches long offset then pure offset
      else refuse (.branchTooFar name offset long) target (target.index + 1)
    | none =>
      if s.pass = .second then
        refuse (.undefinedSymbol name (s.symbols.similar name)) target (target.index + 1)
      else pure 0
  emitMachine f (if long then .word offset else .byte offset)

/-- The opcode is emitted before the value is checked. -/
def assembleImmediate (f : Form) (e : Expr) : Assemble Unit := do
  let v ← evaluate e false
  emit (opcodeBytes f.opcode)
  if f.operandSize = 1 then emit [lowByte (← within v .immediateByte e.next)]
  else emit (wordBytes (← within v .immediateWord e.next))

def assembleDirect (f : Form) (e : Expr) : Assemble Unit := do
  let v ← evaluate e false
  let s ← get
  if v.settled && !(-128 ≤ v.total && v.total ≤ 255) && !s.onPage v.total then
    refuse (.offPage v.total s.dp) v.first e.next
  else emitMachine f (.byte v.total)

def assembleExtended (f : Form) (e : Expr) : Assemble Unit := do
  let v ← evaluate e false
  emitMachine f (.word (← within v .address e.next))

/-- An address is stored in the direct form if it lies on the direct page, and in the extended form otherwise. -/
def assembleAddress (m : Mnemonic) (mnemonic : Token) (e : Expr) : Assemble Unit := do
  let v ← evaluate e false
  let s ← get
  let short := v.settled && (m.form? .direct).isSome && s.isShort v.total
  let width ← choose mnemonic.index (if short then 1 else 2)
  if width = 1 then
    match m.form? .direct with
    | some f => emitMachine f (.byte v.total)
    | none => refuse (.unsupportedForm m .direct) mnemonic e.next
  else
    match m.form? .extended with
    | some f => emitMachine f (.word (← within v .address e.next))
    | none => refuse (.unsupportedForm m .extended) mnemonic e.next

def assemblePointer (f : Form) (e : Expr) (next : Nat) : Assemble Unit := do
  let v ← evaluate e false
  emitMachine f (.index (.pointer (← within v .address next)))

def assembleOffset (key : Nat) (f : Form) (e : Expr) (r : IndexRegister) (indirect : Bool) (next : Nat) :
    Assemble Unit := do
  let v ← evaluate e false
  let offset ← within v .indexOffset next
  let width ← choose key (v.offsetWidth indirect)
  emitMachine f (.index (.ofOffset width r indirect offset))

def assembleCounter (key : Nat) (f : Form) (e : Expr) (indirect : Bool) (next : Nat) : Assemble Unit := do
  let v ← evaluate e false
  let offset ← within v .counterOffset next
  let width ← choose key v.counterWidth
  emitMachine f (.index (.ofCounter width indirect offset))

/-- The distance to a target is measured from the end of the instruction, which depends on the width of the
distance. -/
def assembleTarget (key : Nat) (f : Form) (e : Expr) (indirect : Bool) : Assemble Unit := do
  let v ← evaluate e false
  let s ← get
  let after := s.pc + f.size
  let width ← choose key (v.targetWidth after)
  emitMachine f (.index (.ofCounter width indirect (v.total - (after + width))))

def assembleIndexed (key : Nat) (f : Form) (indirect : Bool) (next : Nat) : IndexOperand → Assemble Unit
  | .noOffset r => emitMachine f (.index (.noOffset r indirect))
  | .accumulator acc r => emitMachine f (.index (.accumulator acc r indirect))
  | .stepping s r => emitMachine f (.index (.stepping s r indirect))
  | .offset e r => assembleOffset key f e r indirect next
  | .counter e => assembleCounter key f e indirect next
  | .target e => assembleTarget key f e indirect

/-- Assemble an instruction. `next` is the number of the token after its operand. -/
def assemble (m : Mnemonic) (mnemonic : Token) (next : Nat) : Instruction → Assemble Unit
  | inherent f => emitMachine f .none
  | branch f name target => assembleBranch f name target
  | transfer f source target => emitMachine f (.transfer source target)
  | stack f registers => emitMachine f (.stack registers)
  | immediate f e => assembleImmediate f e
  | direct f e => assembleDirect f e
  | extended f e => assembleExtended f e
  | address e => assembleAddress m mnemonic e
  | pointer f e => assemblePointer f e next
  | indexed f operand indirect => assembleIndexed mnemonic.index f indirect next operand

end Instruction

end Mc6809
