import Mc6809.Expr.Basic
import Mc6809.Problem

/-!
# Faults

A fault is a place where a line does not follow the grammar. The values in front of it have been read by then,
so an undefined symbol among them is reported in its place if symbols have to be defined.
-/

namespace Mc6809

structure Fault where
  problem : Problem
  /-- The token that is complained about. -/
  token : Token
  /-- The number of the next token to be read. -/
  index : Nat
  /-- The terms that were read before. -/
  seen : List Term := []
  /-- Whether their symbols have to be defined already in the first pass. -/
  required : Bool := false
  deriving DecidableEq, Repr

/-- A reader takes tokens off the front of a line and hands back the rest. -/
abbrev Reading (α : Type) := Except Fault (α × List Token)

namespace Fault

/-- A fault that comes after some terms. -/
def after (terms : List Term) (f : Fault) : Fault :=
  { f with seen := terms ++ f.seen }

def requiring (f : Fault) : Fault :=
  { f with required := true }

end Fault

/-- The next token of a line, which is its end if there is no other. -/
def nextToken (stop : Token) (ts : List Token) : Token :=
  ts.headD stop

/-- A fault at the next token. -/
def faultAt (stop : Token) (ts : List Token) (problem : Lexeme → Problem) : Fault :=
  let t := nextToken stop ts
  { problem := problem t.lexeme, token := t, index := t.index }

/-- The tokens after a lexeme, if that is what comes next. -/
def afterLexeme? (l : Lexeme) : List Token → Option (List Token)
  | [] => none
  | t :: ts => if t.lexeme = l then some ts else none

theorem afterLexeme?_length {l : Lexeme} {ts rest : List Token} (h : afterLexeme? l ts = some rest) :
    rest.length < ts.length := by
  cases ts with
  | nil => cases h
  | cons t ts =>
    simp only [afterLexeme?] at h
    split at h
    · cases h
      simp
    · cases h

end Mc6809
