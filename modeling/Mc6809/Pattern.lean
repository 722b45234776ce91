import Mc6809.Mnemonic
import Mc6809.Register

/-!
# Operand patterns

What kind of operand a mnemonic takes. Mnemonics with a single form that is inherent or relative take no operand
or a label; transfers take two registers and stack instructions a list of them; all others choose a form by the
operand.
-/

namespace Mc6809

inductive Pattern where
  | inherent (f : Form)
  | branch (f : Form)
  | transfer (f : Form)
  /-- A push or pull, and the stack pointer that it uses. -/
  | stack (f : Form) (push : Bool) (own : Register)
  | general
  deriving DecidableEq, Repr

namespace Mnemonic

/-- For a stack instruction: whether it pushes, and its stack pointer. -/
def stack? : Mnemonic → Option (Bool × Register)
  | pshs => some (true, .s)
  | puls => some (false, .s)
  | pshu => some (true, .u)
  | pulu => some (false, .u)
  | _ => none

def isTransfer (m : Mnemonic) : Bool :=
  m = tfr || m = exg

def pattern (m : Mnemonic) : Pattern :=
  match m.forms with
  | [f] =>
    match f.mode, m.stack? with
    | .inherent, _ => .inherent f
    | .relative, _ => .branch f
    | _, some (push, own) => .stack f push own
    | _, none => if m.isTransfer then .transfer f else .general
  | _ => .general

end Mnemonic

end Mc6809
