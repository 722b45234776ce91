import Mc6809.Assembly.Program

/-!
# Translations

A translation gives the symbols of a source other names and its tokens other numbers and places (`Translation`).  It
carries over to everything that is read from tokens: expressions, operands, actions, faults and statements.  Names may
not be merged, and neither may the numbers that widths are recorded under.  The other source may have lines in front,
which leave places of names, rows and notes.
-/

namespace Mc6809

/-- How the tokens of one source become those of another one. -/
structure Translation where
  /-- The names of symbols. -/
  name : String → String := id
  /-- How far the numbers of the tokens of a line move. -/
  shift : Nat := 0
  line : Nat → Nat := id
  column : Nat → Nat := id
  /-- Whether the end of the source becomes the end of a line. -/
  continued : Bool := false
  /-- The numbers that widths are recorded under. -/
  key : Int → Int := id
  /-- Where names are defined that had no place. -/
  place : String → Option Location := fun _ => none
  /-- What an earlier part of the other source has left. -/
  rows : List Row := []
  notes : List Note := []
  name_injective : Function.Injective name := by exact fun _ _ h => h
  key_injective : Function.Injective key := by exact fun _ _ h => h

/-! ### Tokens -/

def Lexeme.translate (τ : Translation) : Lexeme → Lexeme
  | label name => label (τ.name name)
  | identifier name => identifier (τ.name name)
  | eof => if τ.continued then newline else eof
  | l => l

def Token.translate (τ : Translation) (t : Token) : Token where
  lexeme := t.lexeme.translate τ
  index := t.index + τ.shift
  file := t.file
  line := τ.line t.line
  column := τ.column t.column

def Location.translate (τ : Translation) (l : Location) : Location :=
  ⟨l.file, τ.line l.line.toNat, τ.column l.column.toNat⟩

/-- The place of a name, which may be new. -/
def Location.translate? (τ : Translation) (name : String) (first : Option Location) : Option Location :=
  (first.map (Location.translate τ)).or (τ.place name)

/-! ### Expressions and operands -/

def Atom.translate (τ : Translation) : Atom → Atom
  | number n => number n
  | symbol name => symbol (τ.name name)

def Term.translate (τ : Translation) (t : Term) : Term :=
  ⟨t.sign, t.atom.translate τ, t.token.translate τ⟩

def Expr.translate (τ : Translation) (e : Expr) : Expr :=
  ⟨e.first.translate τ, e.terms.map (Term.translate τ)⟩

def Value.translate (τ : Translation) (v : Value) : Value :=
  { v with first := v.first.translate τ }

def IndexHead.translate (τ : Translation) : IndexHead → IndexHead
  | empty => empty
  | offset e => offset (e.translate τ)
  | accumulator acc => accumulator acc

def IndexOperand.translate (τ : Translation) : IndexOperand → IndexOperand
  | noOffset r => noOffset r
  | offset e r => offset (e.translate τ) r
  | accumulator acc r => accumulator acc r
  | stepping s r => stepping s r
  | counter e => counter (e.translate τ)
  | target e => target (e.translate τ)

def PlainOperand.translate (τ : Translation) : PlainOperand → PlainOperand
  | address e => address (e.translate τ)
  | index i => index (i.translate τ)

def Instruction.translate (τ : Translation) : Instruction → Instruction
  | inherent f => inherent f
  | branch f name target => branch f (τ.name name) (target.translate τ)
  | transfer f source target => transfer f source target
  | stack f registers => stack f registers
  | immediate f e => immediate f (e.translate τ)
  | direct f e => direct f (e.translate τ)
  | extended f e => extended f (e.translate τ)
  | address e => address (e.translate τ)
  | pointer f e => pointer f (e.translate τ)
  | indexed f operand indirect => indexed f (operand.translate τ) indirect

/-! ### Faults -/

def Problem.translate (τ : Translation) : Problem → Problem
  | strayStart found => strayStart (found.translate τ)
  | trailing found => trailing (found.translate τ)
  | unknownInstruction name => unknownInstruction (τ.name name)
  | nameExpected found => nameExpected (found.translate τ)
  | equalExpected name found => equalExpected (τ.name name) (found.translate τ)
  | valueExpected found => valueExpected (found.translate τ)
  | fillCountExpected found => fillCountExpected (found.translate τ)
  | labelExpected m found => labelExpected m (found.translate τ)
  | registerExpected m found => registerExpected m (found.translate τ)
  | registerListExpected m found => registerListExpected m (found.translate τ)
  | registerCommaExpected found => registerCommaExpected (found.translate τ)
  | closingExpected found => closingExpected (found.translate τ)
  | indexExpected found => indexExpected (found.translate τ)
  | steppedByOneIndirect sign => steppedByOneIndirect (sign.translate τ)
  | branchTooFar target offset long => branchTooFar (τ.name target) offset long
  | undefinedSymbol name similar => undefinedSymbol (τ.name name) (similar.map τ.name)
  | duplicateSymbol name first => duplicateSymbol (τ.name name) (Location.translate? τ name first)
  | phaseError label first second => phaseError (τ.name label) first second
  | p => p

/-- What kind of error is reported. -/
inductive Diagnosis.Kind where
  | other | malformed | outOfRange | branchTooFar | undefinedSymbol | unsupportedForm | duplicateSymbol
  deriving DecidableEq

def Diagnosis.kind : Diagnosis → Kind
  | other _ _ => .other
  | malformed _ _ => .malformed
  | outOfRange _ _ _ => .outOfRange
  | branchTooFar _ _ _ => .branchTooFar
  | undefinedSymbol _ _ _ => .undefinedSymbol
  | unsupportedForm _ _ _ => .unsupportedForm
  | duplicateSymbol _ _ => .duplicateSymbol

theorem Problem.kind_translate (τ : Translation) (p : Problem) :
    (p.translate τ).diagnosis.kind = p.diagnosis.kind := by
  cases p <;> rfl

def Fault.translate (τ : Translation) (f : Fault) : Fault where
  problem := f.problem.translate τ
  token := f.token.translate τ
  index := f.index + τ.shift
  seen := f.seen.map (Term.translate τ)
  required := f.required

/-- What a reader returns, with the tokens that are left. -/
def Reading.translate {α : Type} (τ : Translation) (g : α → α) : Reading α → Reading α
  | .ok (a, rest) => .ok (g a, rest.map (Token.translate τ))
  | .error f => .error (f.translate τ)

/-! ### Statements -/

def Action.translate (τ : Translation) : Action → Action
  | define name place e => define (τ.name name) (place.translate τ) (e.translate τ)
  | origin e => origin (e.translate τ)
  | page e => page (e.translate τ)
  | reserve e => reserve (e.translate τ)
  | reserveMany place size count =>
    reserveMany (place.translate τ) (size.translate τ) (count.map (Expr.translate τ))
  | fill e count => fill (e.translate τ) (count.translate τ)
  | check e bounds required => check (e.translate τ) bounds required
  | text cell s place => text cell s (place.translate τ)
  | value cell e => value cell (e.translate τ)
  | terminator d place => terminator d (place.translate τ)
  | instruct m mnemonic i next => instruct m (mnemonic.translate τ) (i.translate τ) (next + τ.shift)
  | stop => stop

def Script.translate (τ : Translation) (s : Script) : Script where
  actions := s.actions.map (Action.translate τ)
  ending := match s.ending with
    | .ok rest => .ok (rest.map (Token.translate τ))
    | .error f => .error (f.translate τ)

def Statement.translate (τ : Translation) (st : Statement) : Statement where
  first := st.first.translate τ
  label := st.label.map fun p => (τ.name p.1, p.2.translate τ)
  constants := st.constants
  actions := st.actions.map (Action.translate τ)
  fault := st.fault.map (Fault.translate τ)

def Line.translate (τ : Translation) (l : Line) : Line :=
  ⟨l.body.map (Token.translate τ), l.stop.translate τ⟩

/-! ### What a translation keeps -/

section

variable {τ : Translation}

namespace Lexeme

/-- Lexemes that stand for themselves wherever they are. -/
def isFixed : Lexeme → Bool
  | label _ | identifier _ | newline | eof => false
  | _ => true

/-- The end of the source remains the end of a statement. -/
theorem translate_eof (τ : Translation) : eof.translate τ = newline ∨ eof.translate τ = eof := by
  rcases h : τ.continued with _ | _ <;> simp [translate, h]

theorem translate_eq_iff {l : Lexeme} (h : l.isFixed = true) (l' : Lexeme) : l'.translate τ = l ↔ l' = l := by
  unfold translate
  split
  · constructor <;> rintro rfl <;> cases h
  · constructor <;> rintro rfl <;> cases h
  · split <;> constructor <;> rintro rfl <;> cases h
  · exact Iff.rfl

theorem translate_ne_identifier {l : Lexeme} (h : ∀ name, l ≠ identifier name) (name : String) :
    l.translate τ ≠ identifier name := by
  cases l with
  | identifier name => exact absurd rfl (h name)
  | eof => rcases translate_eof τ with h | h <;> simp [h]
  | _ => simp [translate]

@[simp]
theorem translate_register (r : Register) : (register r).translate τ = register r := rfl

/-- What takes no notice of names and of ends of lines does not see a translation. -/
theorem apply_translate {α : Type} {f : Lexeme → Option α} (hlabel : ∀ name, f (label name) = none)
    (hname : ∀ name, f (identifier name) = none) (hnewline : f newline = none) (heof : f eof = none) (l : Lexeme) :
    f (l.translate τ) = f l := by
  cases l with
  | label name => exact (hlabel _).trans (hlabel name).symm
  | identifier name => exact (hname _).trans (hname name).symm
  | eof =>
    rcases translate_eof τ with h | h
    · rw [h, hnewline, heof]
    · rw [h]
  | _ => rfl

@[simp]
theorem sign?_translate (l : Lexeme) : (l.translate τ).sign? = l.sign? :=
  apply_translate (fun _ => rfl) (fun _ => rfl) rfl rfl l

@[simp]
theorem atom?_translate (l : Lexeme) : (l.translate τ).atom? = l.atom?.map (Atom.translate τ) := by
  cases l with
  | eof =>
    rcases translate_eof τ with h | h
    · rw [h]
      rfl
    · rw [h]
      rfl
  | _ => rfl

end Lexeme

@[simp]
theorem Token.lexeme_translate (t : Token) : (t.translate τ).lexeme = t.lexeme.translate τ := rfl

@[simp]
theorem Token.index_translate (t : Token) : (t.translate τ).index = t.index + τ.shift := rfl

@[simp]
theorem Expr.terms_translate (e : Expr) : (e.translate τ).terms = e.terms.map (Term.translate τ) := rfl

theorem Expr.next_translate (e : Expr) : (e.translate τ).next = e.next + τ.shift := by
  unfold next
  rw [terms_translate, List.getLast?_map]
  cases e.terms.getLast? with
  | none => rfl
  | some t => exact Nat.add_right_comm ..

end

end Mc6809
