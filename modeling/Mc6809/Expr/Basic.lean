import Mc6809.Symbols
import Mc6809.Token.Basic

/-!
# Expressions

An operand value is a signed sum of numbers and symbols. While symbols may still be undefined, a sum has a
provisional total in which a placeholder stands for each of them, and is not settled.
-/

namespace Mc6809

/-- A number or the name of a symbol. -/
inductive Atom where
  | number (n : Nat)
  | symbol (name : String)
  deriving DecidableEq, Repr

/-- An atom with its sign and the token that it comes from. -/
structure Term where
  sign : Int
  atom : Atom
  token : Token
  deriving DecidableEq, Repr

/-- A signed sum, and the token it starts with. -/
structure Expr where
  first : Token
  terms : List Term
  deriving DecidableEq, Repr

/-- What a sum amounts to, whether all its symbols were defined, and the token it starts with. -/
structure Value where
  total : Int
  settled : Bool
  first : Token
  deriving DecidableEq, Repr

def Atom.value? (symbols : Symbols) : Atom → Option Int
  | number n => some n
  | symbol name => symbols.resolve name

namespace Term

/-- The name of a symbol that is defined nowhere. -/
def undefined? (symbols : Symbols) (t : Term) : Option String :=
  match t.atom with
  | .number _ => none
  | .symbol name => if (symbols.resolve name).isSome then none else some name

/-- What a term contributes, with a placeholder for an undefined symbol. -/
def amount (symbols : Symbols) (placeholder : Int) (t : Term) : Int :=
  t.sign * (t.atom.value? symbols).getD placeholder

end Term

/-- The leftmost undefined symbol, with its token. -/
def firstUndefined? (symbols : Symbols) (terms : List Term) : Option (String × Token) :=
  terms.findSome? fun t => (t.undefined? symbols).map (·, t.token)

namespace Expr

/-- The number of the token after an expression. -/
def next (e : Expr) : Nat :=
  match e.terms.getLast? with
  | some t => t.token.index + 1
  | none => e.first.index

def value (e : Expr) (symbols : Symbols) (placeholder : Int) : Value where
  total := (e.terms.map (Term.amount symbols placeholder)).foldr (· + ·) 0
  settled := e.terms.all fun t => (t.undefined? symbols).isNone
  first := e.first

end Expr

end Mc6809
