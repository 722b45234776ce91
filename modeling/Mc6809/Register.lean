/-!
# Registers

The register names of the source language and the codes by which instructions refer to registers.
-/

namespace Mc6809

/-- The registers that source text can name. `pcr` is the program counter as the base of a target address. -/
inductive Register where
  | cc | a | b | dp | x | y | u | s | pc | d | pcr
  deriving DecidableEq, Repr

namespace Register

def all : List Register := [cc, a, b, dp, x, y, u, s, pc, d, pcr]

def name : Register → String
  | cc => "cc" | a => "a" | b => "b" | dp => "dp" | x => "x" | y => "y" | u => "u" | s => "s"
  | pc => "pc" | d => "d" | pcr => "pcr"

def ofName? (word : String) : Option Register :=
  all.find? (·.name = word)

end Register

/-- The registers that can be transferred or exchanged. -/
inductive TransferRegister where
  | d | x | y | u | s | pc | a | b | cc | dp
  deriving DecidableEq, Repr

/-- The code of a register in the postbyte of a transfer or exchange. -/
def TransferRegister.code : TransferRegister → Nat
  | d => 0 | x => 1 | y => 2 | u => 3 | s => 4 | pc => 5 | a => 8 | b => 9 | cc => 10 | dp => 11

def Register.transfer? : Register → Option TransferRegister
  | d => some .d | x => some .x | y => some .y | u => some .u | s => some .s | pc => some .pc
  | a => some .a | b => some .b | cc => some .cc | dp => some .dp
  | pcr => none

/-- The registers that can be pushed or pulled. `other` is the stack pointer that the instruction does not use. -/
inductive StackRegister where
  | cc | a | b | d | dp | x | y | other | pc
  deriving DecidableEq, Repr

/-- The bits of a register in the mask of a push or pull. -/
def StackRegister.mask : StackRegister → Nat
  | cc => 0x01 | a => 0x02 | b => 0x04 | d => 0x06 | dp => 0x08 | x => 0x10 | y => 0x20 | other => 0x40 | pc => 0x80

def Register.stacked? : Register → Option StackRegister
  | cc => some .cc | a => some .a | b => some .b | d => some .d | dp => some .dp | x => some .x | y => some .y
  | u => some .other | s => some .other | pc => some .pc
  | pcr => none

/-- The registers that index an address. -/
inductive IndexRegister where
  | x | y | u | s
  deriving DecidableEq, Repr

/-- The two-bit field of an index register in a postbyte. -/
def IndexRegister.field : IndexRegister → Nat
  | x => 0 | y => 1 | u => 2 | s => 3

def Register.index? : Register → Option IndexRegister
  | x => some .x | y => some .y | u => some .u | s => some .s
  | _ => none

/-- The accumulators that can be an index offset. -/
inductive Accumulator where
  | a | b | d
  deriving DecidableEq, Repr

/-- The low bits of the postbyte for an accumulator offset. -/
def Accumulator.code : Accumulator → Nat
  | a => 6 | b => 5 | d => 11

def Register.accumulator? : Register → Option Accumulator
  | a => some .a | b => some .b | d => some .d
  | _ => none

/-- Automatic stepping of an index register: after use by one or two, or before use by one or two. -/
inductive Stepping where
  | inc | inc2 | dec | dec2
  deriving DecidableEq, Repr

/-- The low bits of the postbyte for automatic stepping. -/
def Stepping.code : Stepping → Nat
  | inc => 0 | inc2 => 1 | dec => 2 | dec2 => 3

end Mc6809
