import Mc6809.Expr.Basic
import Mc6809.Pattern

/-!
# Operands

The operands that source text can give to an instruction.
-/

namespace Mc6809

/-- An operand that goes through an index register or the program counter. -/
inductive IndexOperand where
  | noOffset (r : IndexRegister)
  | offset (e : Expr) (r : IndexRegister)
  | accumulator (acc : Accumulator) (r : IndexRegister)
  | stepping (s : Stepping) (r : IndexRegister)
  /-- An offset from the program counter. -/
  | counter (e : Expr)
  /-- A target address, stored relative to the program counter. -/
  | target (e : Expr)
  deriving DecidableEq, Repr

/-- The expression in an indexed operand. -/
def IndexOperand.terms : IndexOperand → List Term
  | offset e _ | counter e | target e => e.terms
  | noOffset _ | accumulator _ _ | stepping _ _ => []

/-- An instruction with an operand that its mnemonic has a form for. Only for an address the form is still open.
-/
inductive Instruction where
  | inherent (f : Form)
  | branch (f : Form) (name : String) (target : Token)
  | transfer (f : Form) (source target : TransferRegister)
  | stack (f : Form) (registers : List StackRegister)
  | immediate (f : Form) (e : Expr)
  | direct (f : Form) (e : Expr)
  | extended (f : Form) (e : Expr)
  | address (e : Expr)
  | pointer (f : Form) (e : Expr)
  | indexed (f : Form) (operand : IndexOperand) (indirect : Bool)
  deriving DecidableEq, Repr

end Mc6809
