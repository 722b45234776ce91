import Mc6809.Proofs.Statement

/-!
# What readers take

A reader takes tokens off the front of a line and makes something of them.  What it makes mentions only tokens
that it took, and the names in it are the identifiers among these (`Takes`).  A fault is at a token of the line or
at its end (`Fault.Within`).  This is shown for expressions here.
-/

namespace Mc6809

/-! ### Names and tokens -/

/-- The name that a token stands for as a symbol. -/
def Token.identifier? (t : Token) : Option String :=
  match t.lexeme with
  | .identifier name => some name
  | _ => none

theorem Token.identifier?_eq_none {t : Token} (h : ∀ name, t.lexeme ≠ .identifier name) : t.identifier? = none := by
  unfold identifier?
  split
  · next name hn => exact absurd hn (h name)
  · rfl

theorem Token.identifier?_of_register {t : Token} {r : Register} (h : t.lexeme = .register r) :
    t.identifier? = none :=
  identifier?_eq_none (by simp [h])

/-- The names among tokens. -/
def identifiers (ts : List Token) : List String :=
  ts.filterMap Token.identifier?

def Term.name? (t : Term) : Option String :=
  match t.atom with
  | .symbol name => some name
  | .number _ => none

namespace Expr

/-- The names of the symbols in an expression. -/
def names (e : Expr) : List String :=
  e.terms.filterMap Term.name?

/-- The tokens that an expression refers to. -/
def tokens (e : Expr) : List Token :=
  e.first :: e.terms.map Term.token

end Expr

/-- The expression in an indexed operand. -/
def IndexOperand.expr? : IndexOperand → Option Expr
  | offset e _ | counter e | target e => some e
  | noOffset _ | accumulator _ _ | stepping _ _ => none

def IndexHead.expr? : IndexHead → Option Expr
  | offset e => some e
  | empty | accumulator _ => none

namespace PlainOperand

def expr? : PlainOperand → Option Expr
  | address e => some e
  | index i => i.expr?

def names (operand : PlainOperand) : List String :=
  operand.expr?.toList.flatMap Expr.names

def tokens (operand : PlainOperand) : List Token :=
  operand.expr?.toList.flatMap Expr.tokens

end PlainOperand

namespace Instruction

/-- The expression in an operand. -/
def expr? : Instruction → Option Expr
  | immediate _ e | direct _ e | extended _ e | address e | pointer _ e => some e
  | indexed _ operand _ => operand.expr?
  | inherent _ | branch _ _ _ | transfer _ _ _ | stack _ _ => none

/-- The names that an operand uses: those of its expression, or the target of a branch. -/
def names : Instruction → List String
  | branch _ name _ => [name]
  | i => i.expr?.toList.flatMap Expr.names

/-- The tokens that an operand refers to. -/
def tokens : Instruction → List Token
  | branch _ _ target => [target]
  | i => i.expr?.toList.flatMap Expr.tokens

end Instruction

namespace Action

/-- The expressions of an action. -/
def exprs : Action → List Expr
  | define _ _ e | origin e | page e | reserve e | check e _ _ | value _ e => [e]
  | reserveMany _ size count => size :: count.toList
  | fill e count => [e, count]
  | instruct _ _ i _ => i.expr?.toList
  | text _ _ _ | terminator _ _ | stop => []

/-- The names that an action defines or uses. -/
def names : Action → List String
  | define name _ e => name :: e.names
  | instruct _ _ i _ => i.names
  | a => a.exprs.flatMap Expr.names

/-- The tokens that an action can be refused at. -/
def tokens : Action → List Token
  | define _ place e => place :: e.tokens
  | reserveMany place size count => place :: (size :: count.toList).flatMap Expr.tokens
  | text _ _ place => [place]
  | instruct _ mnemonic i _ => mnemonic :: i.tokens
  | a => a.exprs.flatMap Expr.tokens

/-- The number of the token after an instruction. -/
def following : Action → List Nat
  | instruct _ _ _ next => [next]
  | _ => []

end Action

/-! ### Readers -/

/-- Tokens that come before the end of their line. -/
def Precede (ts : List Token) (stop : Token) : Prop :=
  ∀ t ∈ ts, t.index < stop.index

/-- Of the tokens `ts` those before `rest` were taken. What was made of them refers to `tokens`, which are among
them, and the identifiers among them are `names`. -/
def Takes (ts rest tokens : List Token) (names : List String) : Prop :=
  ∃ used, ts = used ++ rest ∧ (∀ t ∈ tokens, t ∈ used) ∧ identifiers used = names

namespace Takes

variable {ts mid rest us vs : List Token} {ns ms : List String}

theorem refl (ts : List Token) : Takes ts ts [] [] :=
  ⟨[], rfl, by simp, rfl⟩

theorem trans (h : Takes ts mid us ns) (h' : Takes mid rest vs ms) : Takes ts rest (us ++ vs) (ns ++ ms) := by
  obtain ⟨used, rfl, hu, rfl⟩ := h
  obtain ⟨used', rfl, hv, rfl⟩ := h'
  refine ⟨used ++ used', by simp, ?_, by simp [identifiers]⟩
  intro t ht
  rcases List.mem_append.1 ht with ht | ht
  · exact List.mem_append_left _ (hu t ht)
  · exact List.mem_append_right _ (hv t ht)

theorem head (t : Token) (ts : List Token) : Takes (t :: ts) ts [t] t.identifier?.toList := by
  refine ⟨[t], rfl, fun u hu => hu, ?_⟩
  cases hn : t.identifier? <;> simp [identifiers, hn]

/-- A token in front, which may be referred to. -/
theorem cons (t : Token) (h : Takes ts rest us ns) :
    Takes (t :: ts) rest (t :: us) (t.identifier?.toList ++ ns) :=
  (head t ts).trans h

theorem skip {t : Token} (ht : t.identifier? = none) (h : Takes ts rest us ns) : Takes (t :: ts) rest (t :: us) ns := by
  have := h.cons t
  rwa [ht] at this

theorem mono (h : Takes ts rest us ns) (hv : ∀ t ∈ vs, t ∈ us) : Takes ts rest vs ns := by
  obtain ⟨used, hts, hu, hn⟩ := h
  exact ⟨used, hts, fun t ht => hu t (hv t ht), hn⟩

theorem mem (h : Takes ts rest us ns) : ∀ t ∈ us, t ∈ ts := by
  obtain ⟨used, rfl, hu, -⟩ := h
  exact fun t ht => List.mem_append_left _ (hu t ht)

theorem rest_mem (h : Takes ts rest us ns) : ∀ t ∈ rest, t ∈ ts := by
  obtain ⟨used, rfl, -, -⟩ := h
  exact fun t ht => List.mem_append_right _ ht

end Takes

/-- A fault in a line: it is at one of the tokens or at the end of the line, and the terms in front of it are from
the tokens. -/
structure Fault.Within (stop : Token) (ts : List Token) (f : Fault) : Prop where
  token : f.token ∈ ts ∨ f.token = stop
  index : f.index ≤ stop.index
  seen : ∀ x ∈ f.seen, x.token ∈ ts

namespace Fault.Within

variable {stop : Token} {ts us : List Token} {f : Fault}

theorem mono (h : f.Within stop us) (hu : ∀ t ∈ us, t ∈ ts) : f.Within stop ts :=
  ⟨h.token.imp (hu _) id, h.index, fun x hx => hu _ (h.seen x hx)⟩

theorem requiring (h : f.Within stop ts) : f.requiring.Within stop ts :=
  ⟨h.token, h.index, h.seen⟩

theorem after {terms : List Term} (h : f.Within stop ts) (ht : ∀ x ∈ terms, x.token ∈ ts) :
    (f.after terms).Within stop ts := by
  refine ⟨h.token, h.index, fun x hx => ?_⟩
  rcases List.mem_append.1 hx with hx | hx
  · exact ht x hx
  · exact h.seen x hx

end Fault.Within

section Readers

variable {stop : Token} {ts rest : List Token}

private theorem nextToken_mem (stop : Token) (ts : List Token) : nextToken stop ts ∈ ts ∨ nextToken stop ts = stop := by
  cases ts with
  | nil => exact .inr rfl
  | cons t ts => exact .inl (List.mem_cons_self ..)

theorem index_nextToken_le (h : Precede ts stop) : (nextToken stop ts).index ≤ stop.index := by
  rcases nextToken_mem stop ts with ht | ht
  · exact Nat.le_of_lt (h _ ht)
  · exact Nat.le_of_eq (congrArg Token.index ht)

theorem Precede.mono {us : List Token} (h : Precede ts stop) (hu : ∀ t ∈ us, t ∈ ts) : Precede us stop :=
  fun t ht => h t (hu t ht)

theorem faultAt_within (h : Precede ts stop) (problem : Lexeme → Problem) :
    (faultAt stop ts problem).Within stop ts :=
  ⟨nextToken_mem stop ts, index_nextToken_le h, by simp [faultAt]⟩

/-- A sign or mark that is passed over is no name. -/
theorem takes_of_afterLexeme? {l : Lexeme} (h : afterLexeme? l ts = some rest) (hl : ∀ name, l ≠ .identifier name) :
    Takes ts rest [] [] := by
  cases ts with
  | nil => cases h
  | cons t ts =>
    simp only [afterLexeme?] at h
    split at h
    · next ht =>
      cases h
      have hnone : t.identifier? = none := Token.identifier?_eq_none fun name => ht ▸ hl name
      exact ((Takes.refl rest).skip hnone).mono (by simp)
    · cases h

/-! ### Expressions -/

namespace Expr

theorem name?_of_atom {t : Token} {a : Atom} (h : t.lexeme.atom? = some a) (sign : Int) :
    (Term.mk sign a t).name? = t.identifier? := by
  unfold Lexeme.atom? at h
  unfold Term.name? Token.identifier?
  cases hl : t.lexeme <;> simp_all <;> subst h <;> rfl

theorem identifier?_of_sign {t : Token} {k : Int} (h : t.lexeme.sign? = some k) : t.identifier? = none := by
  refine Token.identifier?_eq_none fun name hn => ?_
  rw [hn] at h
  cases h

private theorem readTerms_takes {sign : Int} {seen terms : List Term}
    (h : readTerms stop sign seen ts = .ok (terms, rest)) :
    ∃ new, terms = seen ++ new ∧ Takes ts rest (new.map Term.token) (new.filterMap Term.name?) := by
  induction ts generalizing sign seen with
  | nil => cases h
  | cons t ts ih =>
    unfold readTerms at h
    split at h
    · next k hk =>
      obtain ⟨new, rfl, ht⟩ := ih h
      exact ⟨new, rfl, (ht.skip (identifier?_of_sign hk)).mono fun u hu => List.mem_cons_of_mem _ hu⟩
    · next a _ ha =>
      have hname := name?_of_atom ha sign
      dsimp only at h
      split at h
      · obtain ⟨new, rfl, ht⟩ := ih h
        refine ⟨⟨sign, a, t⟩ :: new, by simp, ?_⟩
        have := ht.cons t
        rw [← hname] at this
        cases hn : Term.name? ⟨sign, a, t⟩ <;> simpa [List.filterMap_cons, hn] using this
      · cases h
        refine ⟨[⟨sign, a, t⟩], rfl, ?_⟩
        have := Takes.head t rest
        rw [← hname] at this
        cases hn : Term.name? ⟨sign, a, t⟩ <;> simpa [List.filterMap_cons, hn] using this
    · cases h

private theorem readTerms_within {sign : Int} {seen : List Term} {f : Fault} (hb : Precede ts stop)
    (h : readTerms stop sign seen ts = .error f) :
    (f.token ∈ ts ∨ f.token = stop) ∧ f.index ≤ stop.index ∧ ∀ x ∈ f.seen, x ∈ seen ∨ x.token ∈ ts := by
  induction ts generalizing sign seen with
  | nil =>
    cases h
    have := faultAt_within hb .valueExpected
    exact ⟨this.token, this.index, fun x hx => .inl (by simpa [Fault.after, faultAt] using hx)⟩
  | cons t ts ih =>
    have hb' : Precede ts stop := hb.mono fun u hu => List.mem_cons_of_mem _ hu
    unfold readTerms at h
    split at h
    · obtain ⟨ht, hi, hs⟩ := ih hb' h
      exact ⟨ht.imp_left (List.mem_cons_of_mem _), hi, fun x hx => (hs x hx).imp_right (List.mem_cons_of_mem _)⟩
    · dsimp only at h
      split at h
      · obtain ⟨ht, hi, hs⟩ := ih hb' h
        refine ⟨ht.imp_left (List.mem_cons_of_mem _), hi, fun x hx => ?_⟩
        rcases hs x hx with hx | hx
        · rcases List.mem_append.1 hx with hx | hx
          · exact .inl hx
          · rw [List.mem_singleton] at hx
            subst hx
            exact .inr (List.mem_cons_self ..)
        · exact .inr (List.mem_cons_of_mem _ hx)
      · cases h
    · cases h
      have := faultAt_within hb .valueExpected
      exact ⟨this.token, this.index, fun x hx => .inl (by simpa [Fault.after, faultAt] using hx)⟩

theorem read_takes {e : Expr} (h : read stop ts = .ok (e, rest)) : Takes ts rest e.tokens e.names := by
  have hlength := read_rest_length h
  unfold read at h
  cases hr : readTerms stop 1 [] ts with
  | error f =>
    rw [hr] at h
    cases h
  | ok p =>
    rw [hr] at h
    cases h
    obtain ⟨new, hnew, used, hts, hu, hn⟩ := readTerms_takes hr
    rw [List.nil_append] at hnew
    subst hnew
    refine ⟨used, hts, ?_, hn⟩
    intro t ht
    rcases List.mem_cons.1 ht with rfl | ht
    · cases used with
      | nil =>
        rw [List.nil_append] at hts
        rw [hts] at hlength
        exact absurd hlength (Nat.lt_irrefl _)
      | cons u used =>
        rw [hts]
        exact List.mem_cons_self ..
    · exact hu t ht

theorem read_within {f : Fault} (hb : Precede ts stop) (h : read stop ts = .error f) : f.Within stop ts := by
  unfold read at h
  cases hr : readTerms stop 1 [] ts with
  | ok p =>
    rw [hr] at h
    cases h
  | error g =>
    rw [hr] at h
    cases h
    obtain ⟨ht, hi, hs⟩ := readTerms_within hb hr
    exact ⟨ht, hi, fun x hx => (hs x hx).resolve_left (by simp)⟩

/-- The terms of an expression lie where the expression does. -/
theorem term_token_mem {e : Expr} {x : Term} (hx : x ∈ e.terms) : x.token ∈ e.tokens :=
  List.mem_cons_of_mem _ (List.mem_map_of_mem hx)

end Expr

end Readers

end Mc6809
