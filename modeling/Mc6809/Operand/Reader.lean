import Mc6809.Expr.Reader
import Mc6809.Operand.Basic

/-!
# Reading operands

Each mnemonic reads its operand by its pattern. An operand that the mnemonic has no form for is a fault: after
the marks `#`, `<` and `>` at once, otherwise when the whole operand has been read.
-/

namespace Mc6809

/-- What stands in front of the comma of an indexed operand. -/
inductive IndexHead where
  | empty
  | offset (e : Expr)
  | accumulator (acc : Accumulator)
  deriving DecidableEq, Repr

def IndexHead.terms : IndexHead → List Term
  | offset e => e.terms
  | empty | accumulator _ => []

/-- An operand without a mark: an address, or an indexed one. -/
inductive PlainOperand where
  | address (e : Expr)
  | index (i : IndexOperand)
  deriving DecidableEq, Repr

def PlainOperand.terms : PlainOperand → List Term
  | address e => e.terms
  | index i => i.terms

namespace Operand

/-- An accumulator and a comma, and the tokens after them. -/
def accumulatorAhead? : List Token → Option (Accumulator × List Token)
  | [] => none
  | t :: ts =>
    match t.lexeme, afterLexeme? .comma ts with
    | .register r, some rest => r.accumulator?.map (·, rest)
    | _, _ => none

/-- The stepping that a sign token in front of an index register asks for. -/
def before? : Lexeme → Option Stepping
  | .dec => some .dec
  | .dec2 => some .dec2
  | _ => none

/-- The stepping that a sign token behind an index register asks for. -/
def behind? : Lexeme → Option Stepping
  | .inc => some .inc
  | .inc2 => some .inc2
  | _ => none

/-- Take the next token if it asks for stepping. -/
def takeStepping (asks : Lexeme → Option Stepping) : List Token → Option (Stepping × Token) × List Token
  | [] => (none, [])
  | t :: ts =>
    match asks t.lexeme with
    | some s => (some (s, t), ts)
    | none => (none, t :: ts)

def Stepping.byOne (s : Stepping) : Bool :=
  s = .inc || s = .dec

/-- The combination of a head with a register and the steppings around it, or the token and the reason for which
there is none. -/
def combine (indirect : Bool) (head : IndexHead) (before : Option (Stepping × Token)) (r : Register) (t : Token)
    (behind : Option (Stepping × Token)) : Except (Problem × Token) IndexOperand :=
  match before, behind with
  | some _, some (_, mark) => .error (.steppedTwice, mark)
  | some (s, mark), none | none, some (s, mark) =>
    match head, r.index? with
    | .empty, some i =>
      if indirect && Stepping.byOne s then .error (.steppedByOneIndirect mark.lexeme, mark) else .ok (.stepping s i)
    | .empty, none => .error (.steppedCounter r, mark)
    | _, _ => .error (.steppedOffset, mark)
  | none, none =>
    match head, r.index? with
    | .empty, some i => .ok (.noOffset i)
    | .offset e, some i => .ok (.offset e i)
    | .accumulator acc, some i => .ok (.accumulator acc i)
    | .offset e, none => .ok (if r = .pc then .counter e else .target e)
    | .accumulator _, none => .error (.accumulatorCounter r, t)
    | .empty, none => .error (.bareCounter r, t)

/-- Whether a register can stand behind the comma of an indexed operand. -/
def indexes (r : Register) : Bool :=
  r.index?.isSome || r = .pc || r = .pcr

/-- Read the part of an indexed operand behind its comma. -/
def readIndex (stop : Token) (indirect : Bool) (head : IndexHead) (ts : List Token) : Reading PlainOperand :=
  let (before, ts) := takeStepping before? ts
  match ts with
  | [] => .error ((faultAt stop [] .indexExpected).after head.terms)
  | t :: ts =>
    match t.lexeme with
    | .register r =>
      if indexes r then
        let (behind, rest) := takeStepping behind? ts
        match combine indirect head before r t behind with
        | .ok i => .ok (.index i, rest)
        | .error (problem, place) =>
          .error { problem, token := place, index := (nextToken stop rest).index, seen := head.terms }
      else .error { problem := .notAnIndex r, token := t, index := t.index + 1, seen := head.terms }
    | _ => .error ((faultAt stop (t :: ts) .indexExpected).after head.terms)

/-- Read an address or an indexed operand. An accumulator counts as an offset only if a comma follows it. -/
def readPlain (stop : Token) (indirect : Bool) (ts : List Token) : Reading PlainOperand :=
  match accumulatorAhead? ts, afterLexeme? .comma ts with
  | some (acc, rest), _ => readIndex stop indirect (.accumulator acc) rest
  | none, some rest => readIndex stop indirect .empty rest
  | none, none =>
    match Expr.read stop ts with
    | .error f => .error f
    | .ok (e, rest) =>
      match afterLexeme? .comma rest with
      | some rest => readIndex stop indirect (.offset e) rest
      | none => .ok (.address e, rest)

end Operand

namespace Instruction

/-- The form of a mnemonic for a mode, or the fault that there is none. -/
def require (m : Mnemonic) (mnemonic : Token) (mode : Mode) (index : Nat) : Except Fault Form :=
  match m.form? mode with
  | some f => .ok f
  | none => .error { problem := .unsupportedForm m mode, token := mnemonic, index }

/-- Read the value after a mark that selects a mode. -/
def readMarked (m : Mnemonic) (mnemonic stop : Token) (mode : Mode) (build : Form → Expr → Instruction)
    (ts : List Token) : Reading Instruction :=
  match require m mnemonic mode (nextToken stop ts).index with
  | .error f => .error f
  | .ok f => (Expr.read stop ts).map fun (e, rest) => (build f e, rest)

/-- The instruction for an indirect operand. -/
def indirect (f : Form) : PlainOperand → Instruction
  | .address e => .pointer f e
  | .index i => .indexed f i true

/-- Read an indirect operand after its opening bracket. -/
def readIndirect (m : Mnemonic) (mnemonic stop : Token) (ts : List Token) : Reading Instruction :=
  match Operand.readPlain stop true ts with
  | .error f => .error f
  | .ok (operand, rest) =>
    match afterLexeme? .closing rest with
    | none => .error ((faultAt stop rest .closingExpected).after operand.terms)
    | some rest =>
      match require m mnemonic .indexed (nextToken stop rest).index with
      | .error f => .error (f.after operand.terms)
      | .ok f => .ok (indirect f operand, rest)

/-- Read an operand that has neither a mark nor brackets. -/
def readUnmarked (m : Mnemonic) (mnemonic stop : Token) (ts : List Token) : Reading Instruction :=
  match Operand.readPlain stop false ts with
  | .error f => .error f
  | .ok (.address e, rest) => .ok (.address e, rest)
  | .ok (.index i, rest) =>
    match require m mnemonic .indexed (nextToken stop rest).index with
    | .error f => .error (f.after i.terms)
    | .ok f => .ok (.indexed f i false, rest)

/-- Read an operand that selects its form by its shape. -/
def readGeneral (m : Mnemonic) (mnemonic stop : Token) (ts : List Token) : Reading Instruction :=
  match ts with
  | [] => .error (faultAt stop [] fun _ => .operandExpected m)
  | t :: rest =>
    match t.lexeme with
    | .hash => readMarked m mnemonic stop .immediate .immediate rest
    | .less => readMarked m mnemonic stop .direct .direct rest
    | .greater => readMarked m mnemonic stop .extended .extended rest
    | .bracket => readIndirect m mnemonic stop rest
    | _ => readUnmarked m mnemonic stop (t :: rest)

/-- Read a register of a transfer or exchange. -/
def readTransferRegister (m : Mnemonic) (stop : Token) : List Token → Reading TransferRegister
  | [] => .error (faultAt stop [] (.registerExpected m))
  | t :: ts =>
    match t.lexeme with
    | .register r =>
      match r.transfer? with
      | some r => .ok (r, ts)
      | none => .error { problem := .wrongRegister m r, token := t, index := t.index + 1 }
    | _ => .error (faultAt stop (t :: ts) (.registerExpected m))

/-- Read the two registers of a transfer or exchange. -/
def readTransfer (m : Mnemonic) (f : Form) (stop : Token) (ts : List Token) : Reading Instruction :=
  match readTransferRegister m stop ts with
  | .error f => .error f
  | .ok (source, rest) =>
    match afterLexeme? .comma rest with
    | none => .error (faultAt stop rest .registerCommaExpected)
    | some rest =>
      (readTransferRegister m stop rest).map fun (target, rest) => (.transfer f source target, rest)

/-- Read the registers of a push or pull. -/
def readStacked (m : Mnemonic) (push : Bool) (own : Register) (stop : Token) :
    List StackRegister → List Token → Reading (List StackRegister)
  | _, [] => .error (faultAt stop [] (.registerListExpected m))
  | seen, t :: ts =>
    match t.lexeme with
    | .register r =>
      if r = own then .error { problem := .ownStack m push r, token := t, index := t.index + 1 }
      else match r.stacked? with
        | none => .error { problem := .wrongRegister m r, token := t, index := t.index + 1 }
        | some s =>
          match ts with
          | u :: us =>
            if u.lexeme = .comma then readStacked m push own stop (seen ++ [s]) us
            else .ok (seen ++ [s], u :: us)
          | [] => .ok (seen ++ [s], [])
    | _ => .error (faultAt stop (t :: ts) (.registerListExpected m))

/-- Read the target of a branch. -/
def readBranch (m : Mnemonic) (f : Form) (stop : Token) : List Token → Reading Instruction
  | [] => .error (faultAt stop [] (.labelExpected m))
  | t :: ts =>
    match t.lexeme with
    | .identifier name => .ok (.branch f name t, ts)
    | _ => .error (faultAt stop (t :: ts) (.labelExpected m))

/-- Read the operand of a mnemonic. -/
def read (m : Mnemonic) (mnemonic stop : Token) (ts : List Token) : Reading Instruction :=
  match m.pattern with
  | .inherent f =>
    if ts = [] then .ok (.inherent f, []) else .error (faultAt stop ts fun _ => .operandForbidden m)
  | .branch f => readBranch m f stop ts
  | .transfer f => readTransfer m f stop ts
  | .stack f push own =>
    (readStacked m push own stop [] ts).map fun (rs, rest) => (.stack f rs, rest)
  | .general => readGeneral m mnemonic stop ts

end Instruction

end Mc6809
