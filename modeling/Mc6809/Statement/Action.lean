import Mc6809.Operand.Basic
import Mc6809.Fault

/-!
# Actions

A statement asks for a list of actions, one after the other. A statement that goes wrong at some token still
asks for the actions in front of it.
-/

namespace Mc6809

/-- The size of the units of a data directive. -/
inductive Cell where
  | byte | word
  deriving DecidableEq, Repr

/-- The values that are allowed in some place, and what they are called there. -/
structure Bounds where
  what : String
  low : Int
  high : Int
  deriving DecidableEq, Repr

namespace Bounds

/-- The most bytes that one directive can reserve. -/
def maxBlock : Int := 0x10000

def origin : Bounds := ⟨"origin", 0, 0xFFFF⟩
def page : Bounds := ⟨"direct page", 0, 0xFF⟩
def reservation : Bounds := ⟨"reservation size", 0, maxBlock⟩
def variableSize : Bounds := ⟨"variable size", 0, maxBlock⟩
def variableCount : Bounds := ⟨"variable count", 0, maxBlock⟩
def fillValue : Bounds := ⟨"fill value", -128, 255⟩
def fillCount : Bounds := ⟨"fill count", 0, maxBlock⟩
def immediateByte : Bounds := ⟨"immediate value", -128, 255⟩
def immediateWord : Bounds := ⟨"immediate value", -32768, 65535⟩
def address : Bounds := ⟨"address", -32768, 65535⟩
def indexOffset : Bounds := ⟨"indexed offset", -32768, 32767⟩
def counterOffset : Bounds := ⟨"pc offset", -32768, 32767⟩

def contains (b : Bounds) (n : Int) : Bool :=
  b.low ≤ n && n ≤ b.high

end Bounds

def Cell.bounds : Cell → Bounds
  | byte => ⟨"byte value", -128, 255⟩
  | word => ⟨"word value", -32768, 65535⟩

inductive Action where
  | define (name : String) (place : Token) (e : Expr)
  | origin (e : Expr)
  | page (e : Expr)
  | reserve (e : Expr)
  | reserveMany (place : Token) (size : Expr) (count : Option Expr)
  | fill (value count : Expr)
  /-- A value that has to be within bounds, in a directive that goes wrong further on. -/
  | check (e : Expr) (bounds : Bounds) (required : Bool)
  | text (cell : Cell) (s : String) (place : Token)
  | value (cell : Cell) (e : Expr)
  /-- A final zero after a text, which is not emitted. -/
  | terminator (d : Directive) (place : Token)
  | instruct (m : Mnemonic) (mnemonic : Token) (i : Instruction) (next : Nat)
  | stop
  deriving DecidableEq, Repr

def Action.isText : Action → Bool
  | text _ _ _ => true
  | _ => false

/-- Actions, and how reading them ended: with a fault, or with tokens that are left. -/
structure Script where
  actions : List Action
  ending : Except Fault (List Token)

namespace Script

def cons (a : Action) (s : Script) : Script :=
  { s with actions := a :: s.actions }

/-- The fault of a script that has to use up its tokens. -/
def fault? (stop : Token) (s : Script) : Option Fault :=
  match s.ending with
  | .error f => some f
  | .ok [] => none
  | .ok ts => some (faultAt stop ts .trailing)

end Script

end Mc6809
