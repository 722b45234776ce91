import Mc6809.Mnemonic
import Mc6809.Register

/-!
# Machine instructions

An instruction as the processor sees it: a form and an operand, and the bytes they are stored as. Words are
stored with the high byte first, except for the address of an extended indirect operand.
-/

namespace Mc6809

/-- The low eight bits of a number. -/
def lowByte (n : Int) : UInt8 :=
  UInt8.ofNat (n % 0x100).toNat

/-- The low sixteen bits of a number, high byte first. -/
def wordBytes (n : Int) : List UInt8 :=
  [lowByte (n / 0x100), lowByte n]

/-- An opcode, its page byte first if it has one. -/
def opcodeBytes (opcode : Int) : List UInt8 :=
  if 0xFF < opcode then wordBytes opcode else [lowByte opcode]

namespace Machine

/-- The operand of an indexed form. A flag tells whether the operand is indirect. -/
inductive Index where
  /-- An offset of five bits, which lies in the postbyte. -/
  | packed (r : IndexRegister) (offset : Int)
  | byteOffset (r : IndexRegister) (indirect : Bool) (offset : Int)
  | wordOffset (r : IndexRegister) (indirect : Bool) (offset : Int)
  | noOffset (r : IndexRegister) (indirect : Bool)
  | accumulator (acc : Accumulator) (r : IndexRegister) (indirect : Bool)
  | stepping (s : Stepping) (r : IndexRegister) (indirect : Bool)
  | byteCounter (indirect : Bool) (offset : Int)
  | wordCounter (indirect : Bool) (offset : Int)
  /-- The address of a pointer, always indirect. -/
  | pointer (address : Int)
  deriving DecidableEq, Repr

/-- The postbyte of an indexed operand: the register field, the indirect bit and the low bits that name the
kind. -/
def postbyte (field : Nat) (indirect : Bool) (code : Nat) : UInt8 :=
  UInt8.ofNat (0x80 + 0x20 * field + (if indirect then 0x10 else 0) + code)

def Index.bytes : Index → List UInt8
  | packed r offset => [UInt8.ofNat (0x20 * r.field + (offset % 0x20).toNat)]
  | byteOffset r indirect offset => [postbyte r.field indirect 8, lowByte offset]
  | wordOffset r indirect offset => postbyte r.field indirect 9 :: wordBytes offset
  | noOffset r indirect => [postbyte r.field indirect 4]
  | accumulator acc r indirect => [postbyte r.field indirect acc.code]
  | stepping s r indirect => [postbyte r.field indirect s.code]
  | byteCounter indirect offset => [postbyte 0 indirect 12, lowByte offset]
  | wordCounter indirect offset => postbyte 0 indirect 13 :: wordBytes offset
  | pointer address => [postbyte 0 true 15, lowByte address, lowByte (address / 0x100)]

/-- The mask of a list of registers. -/
def stackMask (rs : List StackRegister) : Nat :=
  rs.foldl (fun mask r => mask ||| r.mask) 0

/-- What follows the opcode. -/
inductive Operand where
  | none
  | byte (n : Int)
  | word (n : Int)
  | transfer (source target : TransferRegister)
  | stack (rs : List StackRegister)
  | index (i : Index)
  deriving DecidableEq, Repr

def Operand.bytes : Operand → List UInt8
  | none => []
  | byte n => [lowByte n]
  | word n => wordBytes n
  | transfer source target => [UInt8.ofNat (0x10 * source.code + target.code)]
  | stack rs => [UInt8.ofNat (stackMask rs)]
  | index i => i.bytes

/-- A form with its operand. -/
structure Instruction where
  form : Form
  operand : Operand
  deriving DecidableEq, Repr

def Instruction.bytes (i : Instruction) : List UInt8 :=
  opcodeBytes i.form.opcode ++ i.operand.bytes

end Machine

end Mc6809
