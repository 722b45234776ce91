import Mc6809.Assembly.Part
import Mc6809.Proofs.Symbols
import Mc6809.Proofs.Assembly.Failure

/-!
# Signed sums

The grammar of expressions as a relation between terms and tokens (`Expr.SignedSum`): a term with any signs in
front of it, then further terms with at least one sign in front of each.  An expression is read exactly from a
sum that no sign follows (`Expr.read_eq_ok_iff`), and a fault is where a term is due and does not come
(`Expr.read_eq_error_iff`).  `evaluateLine_iff` adds the values: the sum of the signed terms, or a failure at the
leftmost symbol without a value or at the missing term, whichever comes first.
-/

namespace Mc6809

namespace Lexeme

/-- A sign and its factor.  Only a single minus is negative. -/
inductive Sign : Lexeme → Int → Prop
  | plus : Sign .inc 1
  | plusPlus : Sign .inc2 1
  | minus : Sign .dec (-1)
  | minusMinus : Sign .dec2 1

/-- A number, a character or a name, and the atom that it stands for. -/
inductive StandsFor : Lexeme → Atom → Prop
  | integer (n : Nat) : StandsFor (.integer n) (.number n)
  | char (c : Char) : StandsFor (.char c) (.number c.toNat)
  | identifier (name : String) : StandsFor (.identifier name) (.symbol name)

variable {l : Lexeme} {k : Int} {a : Atom}

private theorem sign?_eq_some_iff : l.sign? = some k ↔ l.Sign k := by
  constructor
  · intro h
    unfold sign? at h
    split at h
    all_goals cases h
    · exact .plus
    · exact .plusPlus
    · exact .minus
    · exact .minusMinus
  · intro h
    cases h <;> rfl

private theorem atom?_eq_some_iff : l.atom? = some a ↔ l.StandsFor a := by
  constructor
  · intro h
    unfold atom? at h
    split at h
    all_goals cases h
    · exact .integer _
    · exact .char _
    · exact .identifier _
  · intro h
    cases h <;> rfl

private theorem sign?_eq_none_iff : l.sign? = none ↔ ∀ k, ¬l.Sign k := by
  simp only [Option.eq_none_iff_forall_ne_some, ne_eq, sign?_eq_some_iff]

private theorem atom?_eq_none_iff : l.atom? = none ↔ ∀ a, ¬l.StandsFor a := by
  simp only [Option.eq_none_iff_forall_ne_some, ne_eq, atom?_eq_some_iff]

private theorem StandsFor.not_sign (h : l.StandsFor a) : ∀ k, ¬l.Sign k := by
  intro k hk
  cases h <;> cases hk

end Lexeme

private theorem identifiers_append (ts us : List Token) : identifiers (ts ++ us) = identifiers ts ++ identifiers us :=
  List.filterMap_append

theorem mem_identifiers_append {name : String} {ts : List Token} (h : name ∈ identifiers ts) (us : List Token) :
    name ∈ identifiers (ts ++ us) := by
  rw [identifiers_append]
  exact List.mem_append_left _ h

namespace Expr

/-! ### The grammar -/

/-- Sign tokens, and the product of their factors. -/
inductive Signs : Int → List Token → Prop
  | nil : Signs 1 []
  | cons {k n : Int} {t : Token} {ts : List Token} (ht : t.lexeme.Sign k) (hs : Signs n ts) :
      Signs (k * n) (t :: ts)

/-- A term behind its signs. -/
inductive SignedTerm : Term → List Token → Prop
  | mk {k : Int} {a : Atom} {t : Token} {signs : List Token} (hs : Signs k signs) (ha : t.lexeme.StandsFor a) :
      SignedTerm ⟨k, a, t⟩ (signs ++ [t])

/-- A term and then any number of others, each of which has at least one sign. -/
inductive SignedSum : List Term → List Token → Prop
  | one {x : Term} {ts : List Token} (hx : SignedTerm x ts) : SignedSum [x] ts
  | more {xs : List Term} {x : Term} {ts us : List Token} (h : SignedSum xs ts) (hx : SignedTerm x us)
      (hs : 1 < us.length) : SignedSum (xs ++ [x]) (ts ++ us)

/-- Tokens behind which a term has to come, with the sign that it will have and the terms so far: signs at the
start of a sum or behind one. -/
inductive TermDue : Int → List Term → List Token → Prop
  | start {k : Int} {signs : List Token} (hs : Signs k signs) : TermDue k [] signs
  | behind {k : Int} {xs : List Term} {ts signs : List Token} (h : SignedSum xs ts) (hs : Signs k signs)
      (hne : signs ≠ []) : TermDue k xs (ts ++ signs)

/-- No sign comes next. -/
def NoSign (ts : List Token) : Prop :=
  ∀ t ∈ ts.head?, ∀ k, ¬t.lexeme.Sign k

/-- Neither a sign nor a term comes next. -/
def NoPart (ts : List Token) : Prop :=
  NoSign ts ∧ ∀ t ∈ ts.head?, ∀ a, ¬t.lexeme.StandsFor a

variable {stop t : Token} {k n : Int} {a : Atom} {x : Term} {xs seen : List Term} {ts us used rest : List Token}

private theorem noSign_nil : NoSign [] := by
  simp [NoSign]

theorem noSign_cons : NoSign (t :: ts) ↔ ∀ k, ¬t.lexeme.Sign k := by
  simp [NoSign]

private theorem noPart_nil : NoPart [] := by
  simp [NoPart, NoSign]

private theorem noPart_cons : NoPart (t :: ts) ↔ (∀ k, ¬t.lexeme.Sign k) ∧ ∀ a, ¬t.lexeme.StandsFor a := by
  simp [NoPart, NoSign]

private theorem Signs.concat (h : Signs n ts) (ht : t.lexeme.Sign k) : Signs (n * k) (ts ++ [t]) := by
  induction h with
  | nil =>
    have hone : Signs (k * 1) [t] := .cons ht .nil
    rwa [Int.mul_comm] at hone
  | cons hu _ ih =>
    rw [Int.mul_assoc]
    exact .cons hu ih

theorem SignedSum.exists_cons (h : SignedSum xs used) : ∃ t ts, used = t :: ts ∧ startsWith t.lexeme = true := by
  induction h with
  | one hx =>
    obtain ⟨hs, ha⟩ := hx
    cases hs with
    | nil => exact ⟨_, _, rfl, by simp [startsWith, Lexeme.atom?_eq_some_iff.2 ha]⟩
    | cons ht => exact ⟨_, _, rfl, by simp [startsWith, Lexeme.sign?_eq_some_iff.2 ht]⟩
  | more _ _ _ ih =>
    obtain ⟨t, ts, rfl, hstart⟩ := ih
    exact ⟨_, _, rfl, hstart⟩

/-- The terms up to one of them are a sum at the front. -/
private theorem SignedSum.front {ys zs : List Term} (h : SignedSum (ys ++ x :: zs) used) :
    ∃ front back, used = front ++ back ∧ SignedSum (ys ++ [x]) front := by
  generalize hxs : ys ++ x :: zs = xs at h
  induction h generalizing zs with
  | one hx =>
    obtain ⟨rfl, hcons⟩ | ⟨_, rfl, hcons⟩ := List.append_eq_cons_iff.1 hxs
    · cases hcons
      exact ⟨_, [], (List.append_nil _).symm, .one hx⟩
    · simp at hcons
  | @more xs w ts us h hw hs ih =>
    rcases List.eq_nil_or_concat zs with rfl | ⟨zs', z, rfl⟩
    · obtain ⟨rfl, hlast⟩ := List.append_inj' hxs rfl
      cases hlast
      exact ⟨_, [], (List.append_nil _).symm, .more h hw hs⟩
    · have hlast : (ys ++ x :: zs') ++ [z] = xs ++ [w] := by simpa using hxs
      obtain ⟨front, back, rfl, hfront⟩ := ih (List.append_inj' hlast rfl).1
      exact ⟨front, back ++ us, List.append_assoc .., hfront⟩

/-! The names in a sum are the identifiers among its tokens. -/

private theorem Signs.identifiers_eq (h : Signs k ts) : identifiers ts = [] := by
  induction h with
  | nil => rfl
  | cons ht _ ih =>
    rw [identifiers, List.filterMap_cons_none (identifier?_of_sign (Lexeme.sign?_eq_some_iff.2 ht))]
    exact ih

private theorem SignedTerm.names_eq (h : SignedTerm x ts) : [x].filterMap Term.name? = identifiers ts := by
  obtain ⟨hs, ha⟩ := h
  rw [identifiers_append, hs.identifiers_eq, List.nil_append, identifiers, List.filterMap_cons, List.filterMap_cons,
    name?_of_atom (Lexeme.atom?_eq_some_iff.2 ha)]
  rfl

theorem SignedSum.names_eq (h : SignedSum xs used) : xs.filterMap Term.name? = identifiers used := by
  induction h with
  | one hx => exact hx.names_eq
  | more _ hx _ ih => rw [List.filterMap_append, ih, hx.names_eq, identifiers_append]

theorem TermDue.names_eq (h : TermDue k xs used) : xs.filterMap Term.name? = identifiers used := by
  cases h with
  | start hs => exact hs.identifiers_eq.symm
  | behind h hs _ => rw [h.names_eq, identifiers_append, hs.identifiers_eq, List.append_nil]

/-! One token at a time, a sum and the places where a term is due turn into each other. -/

private theorem TermDue.sign (h : TermDue n xs used) (ht : t.lexeme.Sign k) : TermDue (n * k) xs (used ++ [t]) := by
  cases h with
  | start hs => exact .start (hs.concat ht)
  | behind h hs _ =>
    rw [List.append_assoc]
    exact .behind h (hs.concat ht) (List.concat_ne_nil _ _)

private theorem TermDue.term (h : TermDue k xs used) (ha : t.lexeme.StandsFor a) :
    SignedSum (xs ++ [⟨k, a, t⟩]) (used ++ [t]) := by
  cases h with
  | start hs => exact .one (.mk hs ha)
  | behind h hs hne =>
    rw [List.append_assoc]
    refine .more h (.mk hs ha) ?_
    simpa [List.length_pos_iff] using hne

private theorem SignedSum.sign (h : SignedSum xs used) (ht : t.lexeme.Sign k) : ∃ k, TermDue k xs (used ++ [t]) :=
  ⟨_, .behind h (.cons ht .nil) (List.cons_ne_nil _ _)⟩

/-- Every line begins with a sum that ends there, or stops where a term is due. -/
private theorem sum_or_due (ts : List Token) :
    (∃ used rest xs, ts = used ++ rest ∧ SignedSum xs used ∧ NoSign rest) ∨
      ∃ used rest k xs, ts = used ++ rest ∧ TermDue k xs used ∧ NoPart rest := by
  -- what is in front of `rest` is known to be the one or the other, and `rest` is taken in token by token
  suffices h : ∀ rest used xs, ts = used ++ rest → (SignedSum xs used ∨ ∃ k, TermDue k xs used) → _ from
    h ts [] [] rfl (.inr ⟨1, .start .nil⟩)
  intro rest
  induction rest with
  | nil =>
    intro used xs hts hused
    obtain hsum | ⟨k, hdue⟩ := hused
    · exact .inl ⟨used, [], xs, hts, hsum, noSign_nil⟩
    · exact .inr ⟨used, [], k, xs, hts, hdue, noPart_nil⟩
  | cons t rest ih =>
    intro used xs hts hused
    have hnext : ts = (used ++ [t]) ++ rest := by
      rw [hts, List.append_assoc]
      rfl
    by_cases hsign : ∃ j, t.lexeme.Sign j
    · obtain ⟨j, ht⟩ := hsign
      refine ih _ xs hnext (.inr ?_)
      obtain hsum | ⟨k, hdue⟩ := hused
      · exact hsum.sign ht
      · exact ⟨_, hdue.sign ht⟩
    · have hsign := not_exists.1 hsign
      obtain hsum | ⟨k, hdue⟩ := hused
      · exact .inl ⟨used, t :: rest, xs, hts, hsum, noSign_cons.2 hsign⟩
      · by_cases hatom : ∃ a, t.lexeme.StandsFor a
        · obtain ⟨a, ha⟩ := hatom
          exact ih _ _ hnext (.inl (hdue.term ha))
        · exact .inr ⟨used, t :: rest, k, xs, hts, hdue, noPart_cons.2 ⟨hsign, not_exists.1 hatom⟩⟩

/-! ### Reading -/

private theorem signFollows_eq_false_iff : signFollows ts = false ↔ NoSign ts := by
  cases ts with
  | nil => simp [signFollows, noSign_nil]
  | cons t ts =>
    rw [signFollows, Option.isSome_eq_false_iff, Option.isNone_iff_eq_none, noSign_cons, Lexeme.sign?_eq_none_iff]

private theorem Signs.signFollows_append (h : Signs k ts) (hne : ts ≠ []) : signFollows (ts ++ us) = true := by
  cases h with
  | nil => exact absurd rfl hne
  | cons ht => simp [signFollows, Lexeme.sign?_eq_some_iff.2 ht]

private theorem SignedTerm.signFollows_append (h : SignedTerm x ts) (hs : 1 < ts.length) :
    signFollows (ts ++ us) = true := by
  obtain ⟨hsigns, ha⟩ := h
  rw [List.append_assoc]
  refine hsigns.signFollows_append ?_
  simpa [List.length_pos_iff] using hs

private theorem readTerms_sign (ht : t.lexeme.Sign k) :
    readTerms stop n seen (t :: ts) = readTerms stop (n * k) seen ts := by
  simp only [readTerms, Lexeme.sign?_eq_some_iff.2 ht]

private theorem readTerms_term (ha : t.lexeme.StandsFor a) :
    readTerms stop k seen (t :: ts) =
      if signFollows ts then readTerms stop 1 (seen ++ [⟨k, a, t⟩]) ts else .ok (seen ++ [⟨k, a, t⟩], ts) := by
  simp only [readTerms, Lexeme.sign?_eq_none_iff.2 ha.not_sign, Lexeme.atom?_eq_some_iff.2 ha]

private theorem readTerms_of_noPart (h : NoPart ts) :
    readTerms stop k seen ts = .error ((faultAt stop ts .valueExpected).after seen) := by
  cases ts with
  | nil => rfl
  | cons t ts =>
    obtain ⟨hsign, hatom⟩ := noPart_cons.1 h
    simp only [readTerms, Lexeme.sign?_eq_none_iff.2 hsign, Lexeme.atom?_eq_none_iff.2 hatom]

private theorem Signs.readTerms_append (h : Signs k ts) :
    readTerms stop n seen (ts ++ rest) = readTerms stop (n * k) seen rest := by
  induction h generalizing n with
  | nil => rw [Int.mul_one, List.nil_append]
  | cons ht _ ih => rw [List.cons_append, readTerms_sign ht, ih, Int.mul_assoc]

private theorem SignedTerm.readTerms_append (h : SignedTerm x ts) :
    readTerms stop 1 seen (ts ++ rest) =
      if signFollows rest then readTerms stop 1 (seen ++ [x]) rest else .ok (seen ++ [x], rest) := by
  obtain ⟨hs, ha⟩ := h
  rw [List.append_assoc, hs.readTerms_append, Int.one_mul]
  exact readTerms_term ha

/-- A sum is read to its end, whatever follows it. -/
private theorem SignedSum.readTerms_append (h : SignedSum xs used) :
    readTerms stop 1 seen (used ++ rest) =
      if signFollows rest then readTerms stop 1 (seen ++ xs) rest else .ok (seen ++ xs, rest) := by
  induction h generalizing rest with
  | one hx => exact hx.readTerms_append
  | more _ hx hs ih =>
    rw [List.append_assoc, ih, if_pos (hx.signFollows_append hs), hx.readTerms_append, List.append_assoc]

private theorem TermDue.readTerms_append (h : TermDue k xs used) :
    readTerms stop 1 [] (used ++ rest) = readTerms stop k xs rest := by
  cases h with
  | start hs => rw [hs.readTerms_append, Int.one_mul]
  | behind h hs hne =>
    rw [List.append_assoc, h.readTerms_append, if_pos (hs.signFollows_append hne), hs.readTerms_append, Int.one_mul,
      List.nil_append]

/-- The terms so far stay in front, also in a fault. -/
private theorem readTerms_seen (stop : Token) (k : Int) (seen : List Term) (ts : List Token) :
    (∃ new rest, readTerms stop k seen ts = .ok (seen ++ new, rest)) ∨
      ∃ new rest, readTerms stop k seen ts = .error ((faultAt stop rest .valueExpected).after (seen ++ new)) := by
  induction ts generalizing k seen with
  | nil => exact .inr ⟨[], [], by rw [List.append_nil]; rfl⟩
  | cons t ts ih =>
    by_cases hsign : ∃ j, t.lexeme.Sign j
    · obtain ⟨j, ht⟩ := hsign
      rw [readTerms_sign ht]
      exact ih _ _
    · by_cases hatom : ∃ a, t.lexeme.StandsFor a
      · obtain ⟨a, ha⟩ := hatom
        rw [readTerms_term ha]
        split
        · have hseen := ih 1 (seen ++ [⟨k, a, t⟩])
          simp only [List.append_assoc] at hseen
          obtain ⟨new, rest, h⟩ | ⟨new, rest, h⟩ := hseen
          · exact .inl ⟨_, rest, h⟩
          · exact .inr ⟨_, rest, h⟩
        · exact .inl ⟨[_], ts, rfl⟩
      · refine .inr ⟨[], t :: ts, ?_⟩
        rw [List.append_nil]
        exact readTerms_of_noPart (noPart_cons.2 ⟨not_exists.1 hsign, not_exists.1 hatom⟩)

/-- The tokens of an expression. -/
structure Spelled (e : Expr) (used : List Token) : Prop where
  sum : SignedSum e.terms used
  first : used.head? = some e.first

/-- Reading succeeds exactly on a sum that no sign follows, and ends behind it. -/
theorem read_eq_ok_iff {e : Expr} :
    read stop ts = .ok (e, rest) ↔ ∃ used, ts = used ++ rest ∧ e.Spelled used ∧ NoSign rest := by
  constructor
  · intro h
    obtain ⟨used, rest', xs, rfl, hsum, hend⟩ | ⟨used, rest', k, xs, rfl, hdue, hend⟩ := sum_or_due ts
    · rw [read, hsum.readTerms_append, if_neg (by simp [signFollows_eq_false_iff.2 hend])] at h
      cases h
      obtain ⟨t, us, rfl, -⟩ := hsum.exists_cons
      exact ⟨t :: us, rfl, ⟨hsum, rfl⟩, hend⟩
    · rw [read, hdue.readTerms_append, readTerms_of_noPart hend] at h
      cases h
  · rintro ⟨used, rfl, ⟨hsum, hfirst⟩, hend⟩
    rw [read, hsum.readTerms_append, if_neg (by simp [signFollows_eq_false_iff.2 hend])]
    obtain ⟨t, us, rfl, -⟩ := hsum.exists_cons
    cases hfirst
    rfl

/-- Reading fails exactly where a term is due and neither it nor a sign follows. -/
theorem read_eq_error_iff {f : Fault} :
    read stop ts = .error f ↔ ∃ used rest k xs, ts = used ++ rest ∧ TermDue k xs used ∧ NoPart rest ∧
      f = (faultAt stop rest .valueExpected).after xs := by
  constructor
  · intro h
    obtain ⟨used, rest, xs, rfl, hsum, hend⟩ | ⟨used, rest, k, xs, rfl, hdue, hend⟩ := sum_or_due ts
    · rw [read, hsum.readTerms_append, if_neg (by simp [signFollows_eq_false_iff.2 hend])] at h
      cases h
    · rw [read, hdue.readTerms_append, readTerms_of_noPart hend] at h
      cases h
      exact ⟨used, rest, k, xs, rfl, hdue, hend, rfl⟩
  · rintro ⟨used, rest, k, xs, rfl, hdue, hend, rfl⟩
    rw [read, hdue.readTerms_append, readTerms_of_noPart hend]
    rfl

/-- The terms of a sum at the front are read first, also if a fault follows. -/
private theorem SignedSum.read_append (h : SignedSum xs used) (stop : Token) (rest : List Token) :
    (∃ e new rest', read stop (used ++ rest) = .ok (e, rest') ∧ e.terms = xs ++ new) ∨
      ∃ f new, read stop (used ++ rest) = .error f ∧ f.seen = xs ++ new := by
  rw [read, h.readTerms_append, List.nil_append]
  split
  · obtain ⟨new, rest', hr⟩ | ⟨new, rest', hr⟩ := readTerms_seen stop 1 xs rest
    · rw [hr]
      exact .inl ⟨_, new, rest', rfl, rfl⟩
    · rw [hr]
      exact .inr ⟨_, new, rfl, List.append_nil _⟩
  · exact .inl ⟨_, [], rest, rfl, (List.append_nil _).symm⟩

end Expr

/-! ### Values of terms -/

/-- What an atom denotes: a number itself, and a name the constant of that name or, if there is none, the label. -/
inductive Atom.Denotes (symbols : Symbols) : Atom → Int → Prop
  | number (n : Nat) : Denotes symbols (.number n) n
  | constant {name : String} {v : Int} (hc : symbols.constants.value? name = some v) :
      Denotes symbols (.symbol name) v
  | label {name : String} {v : Int} (hc : symbols.constants.value? name = none)
      (hl : symbols.labels.value? name = some v) : Denotes symbols (.symbol name) v

namespace Term

/-- A term has a value. -/
def Known (symbols : Symbols) (x : Term) : Prop :=
  ∃ v, x.atom.Denotes symbols v

/-- Terms and their sum, in which `p` stands for what has no value. -/
inductive AddUp (symbols : Symbols) (p : Int) : List Term → Int → Prop
  | nil : AddUp symbols p [] 0
  | known {x : Term} {xs : List Term} {v n : Int} (hx : x.atom.Denotes symbols v) (hxs : AddUp symbols p xs n) :
      AddUp symbols p (x :: xs) (x.sign * v + n)
  | unknown {x : Term} {xs : List Term} {n : Int} (hx : ¬x.Known symbols) (hxs : AddUp symbols p xs n) :
      AddUp symbols p (x :: xs) (x.sign * p + n)

end Term

section Known

variable {symbols : Symbols} {p : Int} {a : Atom} {x : Term} {xs ys zs : List Term} {name : String}

private theorem Atom.value?_eq_some_iff {v : Int} : a.value? symbols = some v ↔ a.Denotes symbols v := by
  constructor
  · intro h
    cases a with
    | number n =>
      cases h
      exact .number n
    | symbol name =>
      obtain hc | ⟨hc, hl⟩ := Option.or_eq_some_iff.1 h
      · exact .constant hc
      · exact .label hc hl
  · intro h
    cases h with
    | number n => rfl
    | constant hc => exact Option.or_eq_some_iff.2 (.inl hc)
    | label hc hl => exact Option.or_eq_some_iff.2 (.inr ⟨hc, hl⟩)

private theorem Term.known_iff_value? : x.Known symbols ↔ (x.atom.value? symbols).isSome = true := by
  simp only [Known, ← Atom.value?_eq_some_iff, Option.isSome_iff_exists]

theorem Term.addUp_iff {n : Int} :
    AddUp symbols p xs n ↔ n = (xs.map (Term.amount symbols p)).foldr (· + ·) 0 := by
  constructor
  · intro h
    induction h with
    | nil => rfl
    | known hx _ ih => simp [Term.amount, Atom.value?_eq_some_iff.2 hx, ih]
    | unknown hx _ ih =>
      rw [known_iff_value?, Option.not_isSome_iff_eq_none] at hx
      simp [Term.amount, hx, ih]
  · rintro rfl
    induction xs with
    | nil => exact .nil
    | cons x xs ih =>
      cases hx : x.atom.value? symbols with
      | some v =>
        have hknown := AddUp.known (Atom.value?_eq_some_iff.1 hx) ih
        simpa [Term.amount, hx] using hknown
      | none =>
        have hunknown := AddUp.unknown (x := x) (by simp [known_iff_value?, hx]) ih
        simpa [Term.amount, hx] using hunknown

private theorem firstUndefined?_eq_none_iff : firstUndefined? symbols xs = none ↔ ∀ x ∈ xs, x.Known symbols := by
  simp [firstUndefined?, List.findSome?_eq_none_iff, Term.undefined?_eq_none_iff, Term.Known,
    Atom.value?_eq_some_iff]

theorem Expr.settled_iff_known (e : Expr) (symbols : Symbols) (p : Int) :
    (e.value symbols p).settled = true ↔ ∀ x ∈ e.terms, x.Known symbols := by
  rw [settled_iff, firstUndefined?_eq_none_iff]

private theorem Term.resolve_of_not_known (hx : x.atom = .symbol name) (h : ¬x.Known symbols) :
    symbols.resolve name = none := by
  rw [known_iff_value?, hx] at h
  exact Option.not_isSome_iff_eq_none.1 h

private theorem Term.exists_symbol_of_not_known (h : ¬x.Known symbols) : ∃ name, x.atom = .symbol name := by
  cases hx : x.atom with
  | number n => exact absurd ⟨n, hx ▸ .number n⟩ h
  | symbol name => exact ⟨name, rfl⟩

private theorem firstUndefined?_append (hys : ∀ y ∈ ys, y.Known symbols) (hx : x.atom = .symbol name)
    (hunknown : ¬x.Known symbols) : firstUndefined? symbols (ys ++ x :: zs) = some (name, x.token) := by
  have hnone : firstUndefined? symbols ys = none := firstUndefined?_eq_none_iff.2 hys
  unfold firstUndefined? at hnone ⊢
  rw [List.findSome?_append, hnone]
  simp [Term.undefined?, hx, Term.resolve_of_not_known hx hunknown]

theorem known_of_names (h : ∀ name ∈ xs.filterMap Term.name?, (symbols.resolve name).isSome = true) :
    ∀ x ∈ xs, x.Known symbols := by
  intro x hx
  rw [Term.known_iff_value?]
  cases hatom : x.atom with
  | number n => rfl
  | symbol name => exact h name (List.mem_filterMap.2 ⟨x, hx, by simp [Term.name?, hatom]⟩)

/-- All terms have a value, or there is a leftmost one without. -/
private theorem known_or_first_unknown (symbols : Symbols) (xs : List Term) :
    (∀ x ∈ xs, x.Known symbols) ∨
      ∃ ys x zs, xs = ys ++ x :: zs ∧ (∀ y ∈ ys, y.Known symbols) ∧ ¬x.Known symbols := by
  induction xs with
  | nil => exact .inl (by simp)
  | cons x xs ih =>
    by_cases hx : x.Known symbols
    · obtain hall | ⟨ys, y, zs, rfl, hys, hy⟩ := ih
      · exact .inl (by simpa [hx] using hall)
      · exact .inr ⟨x :: ys, y, zs, rfl, by simpa [hx] using hys, hy⟩
    · exact .inr ⟨[], x, xs, rfl, by simp, hx⟩

end Known

/-! ### Evaluation -/

namespace Assemble

variable {s : State} {required : Bool} {xs ys zs : List Term} {x : Term} {name : String}

/-- Symbols are demanded up to the leftmost one without a value. -/
private theorem demand_append (hr : required = true ∨ s.pass = .second) (hys : ∀ y ∈ ys, y.Known s.symbols)
    (hx : x.atom = .symbol name) (hunknown : ¬x.Known s.symbols) :
    demand (ys ++ x :: zs) required s =
      .error (.refused (.undefinedSymbol name (s.symbols.similar name)) x.token (x.token.index + 1)) s := by
  rw [demand, get_bind, if_pos (by simpa using hr), firstUndefined?_append hys hx hunknown]
  rfl

theorem demand_of_known (h : required = true ∨ s.pass = .second → ∀ x ∈ xs, x.Known s.symbols) :
    demand xs required s = .ok () s :=
  demand_eq_ok.2 ⟨rfl, fun hr => firstUndefined?_eq_none_iff.2 (h hr)⟩

end Assemble

/-- What comes of the expression at the start of a line. -/
inductive Line.Evaluates (l : Line) (required : Bool) (s : State) :
    EStateM.Result Failure State (Value × Nat) → Prop
  /-- A sum that no sign follows has the sum of its signed terms as its value. The placeholder, which is 0 by
  default, stands for a symbol without a value. -/
  | value {used rest : List Token} {terms : List Term} {first : Token} {total : Int} {settled : Bool}
      (hl : l.body = used ++ rest) (hsum : Expr.SignedSum terms used) (hend : Expr.NoSign rest)
      (hknown : required = true ∨ s.pass = .second → ∀ x ∈ terms, x.Known s.symbols)
      (hfirst : used.head? = some first) (htotal : Term.AddUp s.symbols s.placeholder terms total)
      (hsettled : settled = true ↔ ∀ x ∈ terms, x.Known s.symbols) :
      Evaluates l required s (.ok (⟨total, settled, first⟩, (nextToken l.stop rest).index) s)
  /-- A symbol has no value, and all terms in front of it have one. -/
  | undefined {used rest : List Token} {terms : List Term} {x : Term} {name : String} (hl : l.body = used ++ rest)
      (hsum : Expr.SignedSum (terms ++ [x]) used) (hr : required = true ∨ s.pass = .second)
      (hknown : ∀ y ∈ terms, y.Known s.symbols) (hx : x.atom = .symbol name) (hunknown : ¬x.Known s.symbols) :
      Evaluates l required s
        (.error (.refused (.undefinedSymbol name (s.symbols.similar name)) x.token (x.token.index + 1)) s)
  /-- A term is due and does not come. -/
  | malformed {used rest : List Token} {terms : List Term} {k : Int} {t : Token} (hl : l.body = used ++ rest)
      (hdue : Expr.TermDue k terms used) (hend : Expr.NoPart rest)
      (hknown : required = true ∨ s.pass = .second → ∀ x ∈ terms, x.Known s.symbols)
      (ht : t = nextToken l.stop rest) :
      Evaluates l required s (.error (.refused (.valueExpected t.lexeme) t t.index) s)

section Evaluation

variable {l : Line} {required : Bool} {s : State} {r : EStateM.Result Failure State (Value × Nat)}

private theorem evaluateLine_of_ok {e : Expr} {rest : List Token} (h : Expr.read l.stop l.body = .ok (e, rest)) :
    evaluateLine l required =
      Assemble.evaluate e required >>= fun v => pure (v, (nextToken l.stop rest).index) := by
  unfold evaluateLine
  rw [h]

private theorem evaluateLine_of_error {f : Fault} (h : Expr.read l.stop l.body = .error f) :
    evaluateLine l required = Assemble.fail { f with required } := by
  unfold evaluateLine
  rw [h]

private theorem Line.Evaluates.evaluateLine_eq (h : l.Evaluates required s r) : evaluateLine l required s = r := by
  cases h with
  | @value used rest terms first total settled hl hsum hend hknown hfirst htotal hsettled =>
    have hread : Expr.read l.stop l.body = .ok (⟨first, terms⟩, rest) :=
      Expr.read_eq_ok_iff.2 ⟨used, hl, ⟨hsum, hfirst⟩, hend⟩
    have hadmits : s.Admits required ⟨first, terms⟩ := fun hr =>
      (Expr.settled_iff_known ..).2 (hknown hr)
    have hvalue : ⟨total, settled, first⟩ = s.value ⟨first, terms⟩ := by
      have hiff := hsettled.trans (Expr.settled_iff_known ⟨first, terms⟩ s.symbols s.placeholder).symm
      rw [Term.addUp_iff.1 htotal, Bool.eq_iff_iff.2 hiff]
      rfl
    rw [evaluateLine_of_ok hread, Assemble.bind_eq_ok, hvalue]
    exact ⟨_, s, Assemble.evaluate_eq_ok.2 ⟨rfl, rfl, hadmits⟩, Assemble.pure_eq_ok.2 ⟨rfl, rfl⟩⟩
  | undefined hl hsum hr hknown hx hunknown =>
    -- the symbol is among the terms read, whether or not they go on to a fault
    obtain ⟨e, new, rest, hread, hterms⟩ | ⟨f, new, hread, hseen⟩ := hsum.read_append l.stop _
    all_goals rw [← hl] at hread
    · rw [evaluateLine_of_ok hread, Assemble.bind_eq_error]
      refine .inl (Assemble.bind_eq_error.2 (.inl ?_))
      rw [hterms, List.append_assoc]
      exact Assemble.demand_append hr hknown hx hunknown
    · rw [evaluateLine_of_error hread]
      refine Assemble.bind_eq_error.2 (.inl ?_)
      rw [hseen, List.append_assoc]
      exact Assemble.demand_append hr hknown hx hunknown
  | malformed hl hdue hend hknown ht =>
    rw [evaluateLine_of_error (Expr.read_eq_error_iff.2 ⟨_, _, _, _, hl, hdue, hend, rfl⟩), ht]
    refine Assemble.bind_eq_error.2 (.inr ⟨(), s, Assemble.demand_of_known ?_, rfl⟩)
    simpa [Fault.after, faultAt] using hknown

private theorem Line.exists_evaluates (l : Line) (required : Bool) (s : State) : ∃ r, l.Evaluates required s r := by
  have hundefined : ∀ {used rest ys zs x}, l.body = used ++ rest → Expr.SignedSum (ys ++ x :: zs) used →
      (required = true ∨ s.pass = .second) → (∀ y ∈ ys, y.Known s.symbols) → ¬x.Known s.symbols →
      ∃ r, l.Evaluates required s r := by
    intro used rest ys zs x hl hsum hr hys hx
    obtain ⟨front, back, rfl, hfront⟩ := hsum.front
    obtain ⟨name, hatom⟩ := Term.exists_symbol_of_not_known hx
    exact ⟨_, .undefined (by rw [hl, List.append_assoc]) hfront hr hys hatom hx⟩
  have hneeds : ∀ xs : List Term,
      (required = true ∨ s.pass = .second → ∀ x ∈ xs, x.Known s.symbols) ∨
        (required = true ∨ s.pass = .second) ∧
          ∃ ys x zs, xs = ys ++ x :: zs ∧ (∀ y ∈ ys, y.Known s.symbols) ∧ ¬x.Known s.symbols := by
    intro xs
    by_cases hr : required = true ∨ s.pass = .second
    · exact (known_or_first_unknown s.symbols xs).imp (fun h _ => h) (fun h => ⟨hr, h⟩)
    · exact .inl fun h => absurd h hr
  obtain ⟨used, rest, xs, hl, hsum, hend⟩ | ⟨used, rest, k, xs, hl, hdue, hend⟩ := Expr.sum_or_due l.body
  · obtain hknown | ⟨hr, ys, x, zs, rfl, hys, hx⟩ := hneeds xs
    · obtain ⟨t, ts, rfl, -⟩ := hsum.exists_cons
      have hsettled := Expr.settled_iff_known ⟨t, xs⟩ s.symbols s.placeholder
      exact ⟨_, .value hl hsum hend hknown rfl (Term.addUp_iff.2 rfl) hsettled⟩
    · exact hundefined hl hsum hr hys hx
  · obtain hknown | ⟨hr, ys, x, zs, hxs, hys, hx⟩ := hneeds xs
    · exact ⟨_, .malformed hl hdue hend hknown rfl⟩
    · cases hdue with
      | start hs => simp at hxs
      | behind hsum hs hf =>
        rw [hxs] at hsum
        rw [List.append_assoc] at hl
        exact hundefined hl hsum hr hys hx

/-- Evaluation gives the signed sum at the start of a line, the leftmost symbol without a value if symbols have to
be defined, or else the first token that should be a term, and it leaves the state as it is. -/
theorem evaluateLine_iff (l : Line) (required : Bool) (s : State)
    (r : EStateM.Result Failure State (Value × Nat)) :
    evaluateLine l required s = r ↔ l.Evaluates required s r := by
  constructor
  · rintro rfl
    obtain ⟨r, hr⟩ := l.exists_evaluates required s
    rw [hr.evaluateLine_eq]
    exact hr
  · exact Line.Evaluates.evaluateLine_eq

end Evaluation

end Mc6809
