import Mc6809.Fault

/-!
# Reading expressions

An expression is a term with any signs in front of it, then further terms with at least one sign in front of
each. Of the sign tokens only a single minus is negative.
-/

namespace Mc6809

/-- The factor that a sign token contributes. -/
def Lexeme.sign? : Lexeme → Option Int
  | inc => some 1
  | inc2 => some 1
  | dec => some (-1)
  | dec2 => some 1
  | _ => none

/-- The atom that a token stands for. -/
def Lexeme.atom? : Lexeme → Option Atom
  | integer n => some (.number n)
  | char c => some (.number c.toNat)
  | identifier name => some (.symbol name)
  | _ => none

namespace Expr

/-- Whether an expression can start with a lexeme. -/
def startsWith (l : Lexeme) : Bool :=
  l.sign?.isSome || l.atom?.isSome

/-- Whether a sign comes next. -/
def signFollows : List Token → Bool
  | [] => false
  | t :: _ => t.lexeme.sign?.isSome

/-- Read signs and terms. `sign` is the product of the signs since the last term and `seen` the terms so far. -/
def readTerms (stop : Token) (sign : Int) (seen : List Term) : List Token → Reading (List Term)
  | [] => .error ((faultAt stop [] .valueExpected).after seen)
  | t :: ts =>
    match t.lexeme.sign?, t.lexeme.atom? with
    | some k, _ => readTerms stop (sign * k) seen ts
    | none, some a =>
      let seen := seen ++ [⟨sign, a, t⟩]
      if signFollows ts then readTerms stop 1 seen ts else .ok (seen, ts)
    | none, none => .error ((faultAt stop (t :: ts) .valueExpected).after seen)

/-- Read an expression. -/
def read (stop : Token) (ts : List Token) : Reading Expr :=
  (readTerms stop 1 [] ts).map fun (terms, rest) => (⟨nextToken stop ts, terms⟩, rest)

private theorem readTerms_rest_length {stop : Token} {sign : Int} {seen terms : List Term} {ts rest : List Token}
    (h : readTerms stop sign seen ts = .ok (terms, rest)) : rest.length < ts.length := by
  induction ts generalizing sign seen with
  | nil => cases h
  | cons t ts ih =>
    unfold readTerms at h
    split at h
    · have := ih h
      simp only [List.length_cons]
      omega
    · dsimp only at h
      split at h
      · have := ih h
        simp only [List.length_cons]
        omega
      · cases h
        simp
    · cases h

/-- An expression takes at least one token. -/
theorem read_rest_length {stop : Token} {ts rest : List Token} {e : Expr} (h : read stop ts = .ok (e, rest)) :
    rest.length < ts.length := by
  unfold read at h
  cases ht : readTerms stop 1 [] ts with
  | error f => rw [ht] at h; cases h
  | ok p =>
    rw [ht] at h
    cases h
    exact readTerms_rest_length ht

end Expr

end Mc6809
