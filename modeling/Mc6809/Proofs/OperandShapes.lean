import Mc6809.Proofs.SignedSums

/-!
# Shapes of operands

The shapes of an operand without a mark, as a relation between the operand, the tokens that spell it and the tokens
behind it (`Operand.Shape`).  A plus sign directly behind the register of an indexed operand is part of it.  An
operand is read exactly from tokens of one of these shapes (`Operand.readPlain_eq_ok_iff`).  What is read is
consistent (`PlainOperand.Consistent`), and every fault is one of syntax.
-/

namespace Mc6809

/-! ### What an operand consists of -/

def IndexRegister.register : IndexRegister → Register
  | x => .x | y => .y | u => .u | s => .s

def Accumulator.register : Accumulator → Register
  | a => .a | b => .b | d => .d

/-- The sign that asks for stepping. -/
def Stepping.sign : Stepping → Lexeme
  | inc => .inc | inc2 => .inc2 | dec => .dec | dec2 => .dec2

private theorem Register.index?_eq_some_iff {r : Register} {i : IndexRegister} :
    r.index? = some i ↔ r = i.register := by
  cases r <;> cases i <;> decide

private theorem Register.accumulator?_eq_some_iff {r : Register} {acc : Accumulator} :
    r.accumulator? = some acc ↔ r = acc.register := by
  cases r <;> cases acc <;> decide

private theorem IndexRegister.register_ne_counter (i : IndexRegister) :
    ¬(some i.register = some .pc ∨ some i.register = some .pcr) := by
  cases i <;> decide

/-- A problem of syntax. -/
def Problem.Malformed (p : Problem) : Prop :=
  ∃ text hint, p.diagnosis = .malformed text hint

namespace PlainOperand

/-- The register that an operand goes through. -/
def register? : PlainOperand → Option Register
  | address _ => none
  | index (.noOffset r) | index (.offset _ r) | index (.accumulator _ r) | index (.stepping _ r) => some r.register
  | index (.counter _) => some .pc
  | index (.target _) => some .pcr

def accumulator? : PlainOperand → Option Accumulator
  | index (.accumulator acc _) => some acc
  | _ => none

def stepping? : PlainOperand → Option Stepping
  | index (.stepping s _) => some s
  | _ => none

/-- The parts of an operand go together. -/
structure Consistent (indirect : Bool) (o : PlainOperand) : Prop where
  atMostOne : o.expr?.toList.length + o.accumulator?.toList.length + o.stepping?.toList.length ≤ 1
  counter : o.register? = some .pc ∨ o.register? = some .pcr →
    o.expr?.isSome = true ∧ o.accumulator? = none ∧ o.stepping? = none
  bare : o.register? = none → o.expr?.isSome = true
  notByOne : indirect = true → o.stepping? ≠ some .inc ∧ o.stepping? ≠ some .dec

end PlainOperand

namespace Operand

/-! ### Shapes -/

/-- Neither `+` nor `++` comes next. -/
def NoPlus (ts : List Token) : Prop :=
  ∀ u ∈ ts.head?, u.lexeme ≠ .inc ∧ u.lexeme ≠ .inc2

/-- What stands in front of the comma: nothing, a value or an accumulator. -/
inductive Head : IndexHead → List Token → Prop
  | empty : Head .empty []
  | offset {e : Expr} {used : List Token} (he : e.Spelled used) : Head (.offset e) used
  | accumulator {t : Token} {acc : Accumulator} (ht : t.lexeme = .register acc.register) :
      Head (.accumulator acc) [t]

/-- What stands behind the comma, up to `rest`: a register, which can have a sign on one side if nothing is in front
of the comma.  A single sign is not allowed in an indirect operand. -/
inductive Tail (indirect : Bool) : IndexHead → IndexOperand → List Token → List Token → Prop
  | noOffset {t : Token} {i : IndexRegister} {rest : List Token} (ht : t.lexeme = .register i.register)
      (hrest : NoPlus rest) : Tail indirect .empty (.noOffset i) [t] rest
  | offset {e : Expr} {t : Token} {i : IndexRegister} {rest : List Token} (ht : t.lexeme = .register i.register)
      (hrest : NoPlus rest) : Tail indirect (.offset e) (.offset e i) [t] rest
  | accumulator {acc : Accumulator} {t : Token} {i : IndexRegister} {rest : List Token}
      (ht : t.lexeme = .register i.register) (hrest : NoPlus rest) :
      Tail indirect (.accumulator acc) (.accumulator acc i) [t] rest
  | counter {e : Expr} {t : Token} {rest : List Token} (ht : t.lexeme = .register .pc) (hrest : NoPlus rest) :
      Tail indirect (.offset e) (.counter e) [t] rest
  | target {e : Expr} {t : Token} {rest : List Token} (ht : t.lexeme = .register .pcr) (hrest : NoPlus rest) :
      Tail indirect (.offset e) (.target e) [t] rest
  | before {s : Stepping} {mark t : Token} {i : IndexRegister} {rest : List Token}
      (hs : s = .dec ∧ indirect = false ∨ s = .dec2) (hm : mark.lexeme = s.sign)
      (ht : t.lexeme = .register i.register) (hrest : NoPlus rest) :
      Tail indirect .empty (.stepping s i) [mark, t] rest
  | behind {s : Stepping} {mark t : Token} {i : IndexRegister} {rest : List Token}
      (hs : s = .inc ∧ indirect = false ∨ s = .inc2) (ht : t.lexeme = .register i.register)
      (hm : mark.lexeme = s.sign) : Tail indirect .empty (.stepping s i) [t, mark] rest

/-- The tokens `used` of an operand, with the tokens `rest` behind them: a value that no comma follows, or the parts
on both sides of a comma. -/
inductive Shape (indirect : Bool) : PlainOperand → List Token → List Token → Prop
  | address {e : Expr} {used rest : List Token} (he : e.Spelled used) (hsign : Expr.NoSign rest)
      (hcomma : ∀ u ∈ rest.head?, u.lexeme ≠ .comma) : Shape indirect (.address e) used rest
  | index {head : IndexHead} {i : IndexOperand} {front back rest : List Token} {comma : Token}
      (hhead : Head head front) (hcomma : comma.lexeme = .comma) (htail : Tail indirect head i back rest) :
      Shape indirect (.index i) (front ++ comma :: back) rest

variable {stop t : Token} {ts rest back used : List Token} {indirect : Bool} {head : IndexHead} {r : Register}
  {i : IndexOperand} {operand : PlainOperand} {asks : Lexeme → Option Stepping} {s : Stepping}

/-! ### Reading behind the comma -/

private theorem before?_eq_some_iff {l : Lexeme} : before? l = some s ↔ (s = .dec ∨ s = .dec2) ∧ l = s.sign := by
  cases s <;> cases l <;> simp [before?, Stepping.sign]

private theorem behind?_eq_some_iff {l : Lexeme} : behind? l = some s ↔ (s = .inc ∨ s = .inc2) ∧ l = s.sign := by
  cases s <;> cases l <;> simp [behind?, Stepping.sign]

private theorem noPlus_iff : NoPlus ts ↔ ∀ u ∈ ts.head?, behind? u.lexeme = none := by
  have hnone : ∀ l : Lexeme, behind? l = none ↔ l ≠ .inc ∧ l ≠ .inc2 := by
    intro l
    cases l <;> simp [behind?]
  simp only [NoPlus, hnone]

private theorem takeStepping_of_some (h : asks t.lexeme = some s) :
    takeStepping asks (t :: ts) = (some (s, t), ts) := by
  simp only [takeStepping, h]

private theorem takeStepping_of_none (h : ∀ u ∈ ts.head?, asks u.lexeme = none) :
    takeStepping asks ts = (none, ts) := by
  cases ts with
  | nil => rfl
  | cons t ts => simp only [takeStepping, h t rfl]

private theorem takeStepping_cases (asks : Lexeme → Option Stepping) (ts : List Token) :
    (∃ s t us, ts = t :: us ∧ asks t.lexeme = some s) ∨ ∀ u ∈ ts.head?, asks u.lexeme = none := by
  cases ts with
  | nil => exact .inr (by simp)
  | cons t us =>
    cases h : asks t.lexeme with
    | some s => exact .inl ⟨s, t, us, rfl, h⟩
    | none => exact .inr (by simpa using h)

private theorem combine_before {mark : Token} :
    combine indirect head (some (s, mark)) r t none = .ok i ↔
      head = .empty ∧ (indirect && Stepping.byOne s) = false ∧ ∃ j, r.index? = some j ∧ i = .stepping s j := by
  unfold combine
  cases head with
  | empty =>
    cases r.index? with
    | none => simp
    | some j =>
      dsimp only
      split
      · next hone => simp [hone]
      · next hone =>
        constructor
        · intro h
          cases h
          exact ⟨rfl, by simpa using hone, j, rfl, rfl⟩
        · rintro ⟨-, -, _, hj, rfl⟩
          cases hj
          rfl
  | offset e => simp
  | accumulator acc => simp

/-- It makes no difference for the combination on which side of the register a sign stands. -/
private theorem combine_behind {mark : Token} :
    combine indirect head none r t (some (s, mark)) = combine indirect head (some (s, mark)) r t none :=
  rfl

private theorem tail_of_combine (hindexes : indexes r = true) (h : combine indirect head none r t none = .ok i)
    (ht : t.lexeme = .register r) (hrest : NoPlus rest) : Tail indirect head i [t] rest := by
  cases hr : r.index? with
  | some j =>
    have htj : t.lexeme = .register j.register := by rw [ht, Register.index?_eq_some_iff.1 hr]
    cases head with
    | empty =>
      simp only [combine, hr] at h
      cases h
      exact .noOffset htj hrest
    | offset e =>
      simp only [combine, hr] at h
      cases h
      exact .offset htj hrest
    | accumulator acc =>
      simp only [combine, hr] at h
      cases h
      exact .accumulator htj hrest
  | none =>
    cases head with
    | offset e =>
      simp only [combine, hr] at h
      have hcounter : r = .pc ∨ r = .pcr := by simpa [indexes, hr] using hindexes
      rcases hcounter with rfl | rfl
      · cases h
        exact .counter ht hrest
      · cases h
        exact .target ht hrest
    | _ =>
      simp only [combine, hr] at h
      cases h

/-- Behind the comma come a sign that asks for stepping, a register and another such sign, as far as they are
there. -/
private theorem readIndex_eq_ok (h : readIndex stop indirect head ts = .ok (operand, rest)) :
    ∃ before us r t behind i, takeStepping before? ts = (before, t :: us) ∧ t.lexeme = .register r ∧
      indexes r = true ∧ takeStepping behind? us = (behind, rest) ∧
      combine indirect head before r t behind = .ok i ∧ operand = .index i := by
  unfold readIndex at h
  rcases hbefore : takeStepping before? ts with ⟨before, us⟩
  simp only [hbefore] at h
  split at h
  · cases h
  · next t us =>
    split at h
    · next r hr =>
      split at h
      · next hi =>
        rcases hbehind : takeStepping behind? us with ⟨behind, vs⟩
        simp only [hbehind] at h
        split at h
        · next i hc =>
          cases h
          exact ⟨before, us, r, t, behind, i, rfl, hr, hi, hbehind, hc, rfl⟩
        · cases h
      · cases h
    · cases h

private theorem tail_of_readIndex (h : readIndex stop indirect head ts = .ok (operand, rest)) :
    ∃ i back, operand = .index i ∧ ts = back ++ rest ∧ Tail indirect head i back rest := by
  obtain ⟨before, us, r, t, behind, i, hbefore, ht, hindexes, hbehind, hc, rfl⟩ := readIndex_eq_ok h
  refine ⟨i, ?_⟩
  -- which signs there are on the two sides of the register
  obtain ⟨s, mark, us', rfl, hm⟩ | hnone := takeStepping_cases before? ts
  · rw [takeStepping_of_some hm] at hbefore
    cases hbefore
    obtain ⟨s', mark', us', rfl, hm'⟩ | hrest := takeStepping_cases behind? us
    · rw [takeStepping_of_some hm'] at hbehind
      cases hbehind
      cases hc
    · rw [takeStepping_of_none hrest] at hbehind
      cases hbehind
      obtain ⟨rfl, hone, j, hr, rfl⟩ := combine_before.1 hc
      rw [Register.index?_eq_some_iff.1 hr] at ht
      obtain ⟨hs, hsign⟩ := before?_eq_some_iff.1 hm
      refine ⟨[mark, t], rfl, rfl, .before ?_ hsign ht (noPlus_iff.2 hrest)⟩
      rcases hs with rfl | rfl
      · exact .inl ⟨rfl, by simpa [Stepping.byOne] using hone⟩
      · exact .inr rfl
  · rw [takeStepping_of_none hnone] at hbefore
    cases hbefore
    obtain ⟨s, mark, us', rfl, hm⟩ | hrest := takeStepping_cases behind? us
    · rw [takeStepping_of_some hm] at hbehind
      cases hbehind
      rw [combine_behind] at hc
      obtain ⟨rfl, hone, j, hr, rfl⟩ := combine_before.1 hc
      rw [Register.index?_eq_some_iff.1 hr] at ht
      obtain ⟨hs, hsign⟩ := behind?_eq_some_iff.1 hm
      refine ⟨[t, mark], rfl, rfl, .behind ?_ ht hsign⟩
      rcases hs with rfl | rfl
      · exact .inl ⟨rfl, by simpa [Stepping.byOne] using hone⟩
      · exact .inr rfl
    · rw [takeStepping_of_none hrest] at hbehind
      cases hbehind
      exact ⟨[t], rfl, rfl, tail_of_combine hindexes hc ht (noPlus_iff.2 hrest)⟩

private theorem not_byOne {one two : Stepping} (hs : s = one ∧ indirect = false ∨ s = two)
    (htwo : Stepping.byOne two = false) : (indirect && Stepping.byOne s) = false := by
  rcases hs with ⟨-, rfl⟩ | rfl
  · rfl
  · rw [htwo, Bool.and_false]

private theorem index?_register (j : IndexRegister) : j.register.index? = some j :=
  Register.index?_eq_some_iff.2 rfl

private theorem indexes_register (j : IndexRegister) : indexes j.register = true := by
  simp [indexes, index?_register]

/-- A register without a sign in front of it is read together with the sign behind it. -/
private theorem readIndex_register {behind : Option (Stepping × Token)} (ht : t.lexeme = .register r)
    (hindexes : indexes r = true) (hbehind : takeStepping behind? ts = (behind, rest))
    (hc : combine indirect head none r t behind = .ok i) :
    readIndex stop indirect head (t :: ts) = .ok (.index i, rest) := by
  have hbefore : takeStepping before? (t :: ts) = (none, t :: ts) := by
    simp only [takeStepping, ht, before?]
  simp only [readIndex, hbefore, ht, hindexes, hbehind, hc, ↓reduceIte]

private theorem Tail.readIndex_eq (h : Tail indirect head i back rest) :
    readIndex stop indirect head (back ++ rest) = .ok (.index i, rest) := by
  cases h with
  | @noOffset t j _ ht hrest =>
    exact readIndex_register ht (indexes_register j) (takeStepping_of_none (noPlus_iff.1 hrest))
      (by simp [combine, index?_register])
  | @offset e t j _ ht hrest =>
    exact readIndex_register ht (indexes_register j) (takeStepping_of_none (noPlus_iff.1 hrest))
      (by simp [combine, index?_register])
  | @accumulator acc t j _ ht hrest =>
    exact readIndex_register ht (indexes_register j) (takeStepping_of_none (noPlus_iff.1 hrest))
      (by simp [combine, index?_register])
  | counter ht hrest => exact readIndex_register ht rfl (takeStepping_of_none (noPlus_iff.1 hrest)) rfl
  | target ht hrest => exact readIndex_register ht rfl (takeStepping_of_none (noPlus_iff.1 hrest)) rfl
  | @before s mark t j _ hs hm ht hrest =>
    have hmark : before? mark.lexeme = some s := before?_eq_some_iff.2 ⟨hs.imp_left And.left, hm⟩
    have hc : combine indirect .empty (some (s, mark)) j.register t none = .ok (.stepping s j) :=
      combine_before.2 ⟨rfl, not_byOne hs rfl, j, index?_register j, rfl⟩
    simp only [List.cons_append, List.nil_append, readIndex, takeStepping_of_some hmark, ht, indexes_register,
      takeStepping_of_none (noPlus_iff.1 hrest), hc, ↓reduceIte]
  | @behind s mark t j _ hs ht hm =>
    have hmark : behind? mark.lexeme = some s := behind?_eq_some_iff.2 ⟨hs.imp_left And.left, hm⟩
    refine readIndex_register ht (indexes_register j) (takeStepping_of_some hmark) ?_
    rw [combine_behind]
    exact combine_before.2 ⟨rfl, not_byOne hs rfl, j, index?_register j, rfl⟩

/-! ### Reading an operand -/

private theorem afterLexeme?_eq_some {l : Lexeme} :
    afterLexeme? l ts = some rest ↔ ∃ t, ts = t :: rest ∧ t.lexeme = l := by
  cases ts with
  | nil => simp [afterLexeme?]
  | cons t ts =>
    rw [afterLexeme?]
    split
    · next ht =>
      constructor
      · rintro ⟨⟩
        exact ⟨t, rfl, ht⟩
      · rintro ⟨_, ⟨⟩, -⟩
        rfl
    · next ht =>
      constructor
      · rintro ⟨⟩
      · rintro ⟨_, ⟨⟩, hl⟩
        exact absurd hl ht

private theorem afterLexeme?_eq_none {l : Lexeme} : afterLexeme? l ts = none ↔ ∀ t ∈ ts.head?, t.lexeme ≠ l := by
  cases ts with
  | nil => simp [afterLexeme?]
  | cons t ts => simp [afterLexeme?]

private theorem accumulatorAhead?_eq_some {acc : Accumulator} :
    accumulatorAhead? ts = some (acc, rest) ↔
      ∃ t comma r, ts = t :: comma :: rest ∧ t.lexeme = .register r ∧ r.accumulator? = some acc ∧
        comma.lexeme = .comma := by
  constructor
  · intro h
    cases ts with
    | nil => cases h
    | cons t ts =>
      simp only [accumulatorAhead?] at h
      split at h
      · next r mid hr hc =>
        obtain ⟨acc', hacc, hpair⟩ := Option.map_eq_some_iff.1 h
        cases hpair
        obtain ⟨comma, rfl, hcomma⟩ := afterLexeme?_eq_some.1 hc
        exact ⟨t, comma, r, rfl, hr, hacc, hcomma⟩
      · cases h
  · rintro ⟨t, comma, r, rfl, ht, hr, hcomma⟩
    simp only [accumulatorAhead?, ht, afterLexeme?, hcomma, ↓reduceIte, hr, Option.map_some]

/-- An expression starts with neither a register nor a comma. -/
private theorem nothing_ahead_of_spelled {e : Expr} (he : e.Spelled used) (rest : List Token) :
    accumulatorAhead? (used ++ rest) = none ∧ afterLexeme? .comma (used ++ rest) = none := by
  obtain ⟨t, us, rfl, hstart⟩ := he.sum.exists_cons
  constructor
  · rw [Option.eq_none_iff_forall_ne_some]
    rintro ⟨acc, mid⟩ hacc
    obtain ⟨u, comma, r, hcons, hr, -⟩ := accumulatorAhead?_eq_some.1 hacc
    obtain ⟨rfl, -⟩ := List.cons.inj hcons
    rw [hr] at hstart
    cases hstart
  · rw [afterLexeme?_eq_none]
    rintro u hu hl
    cases hu
    rw [hl] at hstart
    cases hstart

/-- An operand is read exactly from tokens of one of the shapes, and up to the end of the shape. -/
theorem readPlain_eq_ok_iff :
    readPlain stop indirect ts = .ok (operand, rest) ↔
      ∃ used, ts = used ++ rest ∧ Shape indirect operand used rest := by
  constructor
  · intro h
    unfold readPlain at h
    split at h
    · next acc mid hacc =>
      obtain ⟨t, comma, r, rfl, ht, hr, hcomma⟩ := accumulatorAhead?_eq_some.1 hacc
      obtain ⟨i, back, rfl, rfl, htail⟩ := tail_of_readIndex h
      rw [Register.accumulator?_eq_some_iff.1 hr] at ht
      exact ⟨[t] ++ comma :: back, rfl, .index (.accumulator ht) hcomma htail⟩
    · next mid _ hafter =>
      obtain ⟨comma, rfl, hcomma⟩ := afterLexeme?_eq_some.1 hafter
      obtain ⟨i, back, rfl, rfl, htail⟩ := tail_of_readIndex h
      exact ⟨[] ++ comma :: back, rfl, .index .empty hcomma htail⟩
    · split at h
      · cases h
      · next e mid hread =>
        obtain ⟨used, rfl, he, hsign⟩ := Expr.read_eq_ok_iff.1 hread
        split at h
        · next mid hafter =>
          obtain ⟨comma, rfl, hcomma⟩ := afterLexeme?_eq_some.1 hafter
          obtain ⟨i, back, rfl, rfl, htail⟩ := tail_of_readIndex h
          exact ⟨used ++ comma :: back, by simp, .index (.offset he) hcomma htail⟩
        · next hafter =>
          cases h
          exact ⟨used, rfl, .address he hsign (afterLexeme?_eq_none.1 hafter)⟩
  · rintro ⟨used, rfl, hshape⟩
    cases hshape with
    | address he hsign hcomma =>
      have hread : Expr.read stop (used ++ rest) = .ok (_, rest) := Expr.read_eq_ok_iff.2 ⟨used, rfl, he, hsign⟩
      obtain ⟨hacc, hempty⟩ := nothing_ahead_of_spelled he rest
      simp only [readPlain, hacc, hempty, hread, afterLexeme?_eq_none.2 hcomma]
    | @index head i front back rest comma hhead hcomma htail =>
      rw [List.append_assoc, List.cons_append]
      have hafter : afterLexeme? .comma (comma :: (back ++ rest)) = some (back ++ rest) :=
        afterLexeme?_eq_some.2 ⟨comma, rfl, hcomma⟩
      cases hhead with
      | empty =>
        have hacc : accumulatorAhead? (comma :: (back ++ rest)) = none := by
          simp only [accumulatorAhead?, hcomma]
        simp only [List.nil_append, readPlain, hacc, hafter, htail.readIndex_eq]
      | @accumulator t acc ht =>
        have hr : acc.register.accumulator? = some acc := Register.accumulator?_eq_some_iff.2 rfl
        have hacc : accumulatorAhead? (t :: comma :: (back ++ rest)) = some (acc, back ++ rest) :=
          accumulatorAhead?_eq_some.2 ⟨t, comma, acc.register, rfl, ht, hr, hcomma⟩
        simp only [List.cons_append, List.nil_append, readPlain, hacc, htail.readIndex_eq]
      | offset he =>
        have hsign : Expr.NoSign (comma :: (back ++ rest)) := by
          rw [Expr.noSign_cons, hcomma]
          rintro k ⟨⟩
        have hread : Expr.read stop (front ++ comma :: (back ++ rest)) = .ok (_, comma :: (back ++ rest)) :=
          Expr.read_eq_ok_iff.2 ⟨front, rfl, he, hsign⟩
        obtain ⟨hacc, hempty⟩ := nothing_ahead_of_spelled he (comma :: (back ++ rest))
        simp only [readPlain, hacc, hempty, hread, hafter, htail.readIndex_eq]

private theorem ne_of_not_byOne (h : (indirect && Stepping.byOne s) = false) (hi : indirect = true) :
    some s ≠ some .inc ∧ some s ≠ some .dec := by
  rw [hi, Bool.true_and] at h
  cases s with
  | inc => cases h
  | dec => cases h
  | inc2 => exact ⟨nofun, nofun⟩
  | dec2 => exact ⟨nofun, nofun⟩

private theorem Shape.consistent (h : Shape indirect operand used rest) : operand.Consistent indirect := by
  cases h with
  | address =>
    refine ⟨Nat.le_refl 1, ?_, fun _ => rfl, fun _ => ⟨nofun, nofun⟩⟩
    rintro (h | h)
    all_goals cases h
  | index _ _ htail =>
    cases htail with
    | @noOffset _ j =>
      exact ⟨Nat.zero_le 1, fun h => absurd h j.register_ne_counter, nofun, fun _ => ⟨nofun, nofun⟩⟩
    | @offset _ _ j =>
      exact ⟨Nat.le_refl 1, fun h => absurd h j.register_ne_counter, nofun, fun _ => ⟨nofun, nofun⟩⟩
    | @accumulator _ _ j =>
      exact ⟨Nat.le_refl 1, fun h => absurd h j.register_ne_counter, nofun, fun _ => ⟨nofun, nofun⟩⟩
    | counter => exact ⟨Nat.le_refl 1, fun _ => ⟨rfl, rfl, rfl⟩, nofun, fun _ => ⟨nofun, nofun⟩⟩
    | target => exact ⟨Nat.le_refl 1, fun _ => ⟨rfl, rfl, rfl⟩, nofun, fun _ => ⟨nofun, nofun⟩⟩
    | @before s _ _ j _ hs =>
      exact ⟨Nat.le_refl 1, fun h => absurd h j.register_ne_counter, nofun, ne_of_not_byOne (not_byOne hs rfl)⟩
    | @behind s _ _ j _ hs =>
      exact ⟨Nat.le_refl 1, fun h => absurd h j.register_ne_counter, nofun, ne_of_not_byOne (not_byOne hs rfl)⟩

/-! ### Faults -/

private theorem malformed_of_combine {before behind : Option (Stepping × Token)} {problem : Problem} {place : Token}
    (h : combine indirect head before r t behind = .error (problem, place)) : problem.Malformed := by
  unfold combine at h
  split at h
  · cases h
    exact ⟨_, _, rfl⟩
  · split at h
    · split at h
      · cases h
        exact ⟨_, _, rfl⟩
      · cases h
    · cases h
      exact ⟨_, _, rfl⟩
    · cases h
      exact ⟨_, _, rfl⟩
  · split at h
    · split at h
      · cases h
        exact ⟨_, _, rfl⟩
      · cases h
    · cases h
      exact ⟨_, _, rfl⟩
    · cases h
      exact ⟨_, _, rfl⟩
  · split at h
    all_goals cases h
    all_goals exact ⟨_, _, rfl⟩

private theorem readIndex_eq_error {f : Fault} (h : readIndex stop indirect head ts = .error f) :
    f.problem.Malformed ∧ f.seen = head.terms ∧ f.required = false := by
  unfold readIndex at h
  rcases hbefore : takeStepping before? ts with ⟨before, us⟩
  simp only [hbefore] at h
  split at h
  · cases h
    exact ⟨⟨_, _, rfl⟩, List.append_nil _, rfl⟩
  · next t us =>
    split at h
    · split at h
      · rcases hbehind : takeStepping behind? us with ⟨behind, vs⟩
        simp only [hbehind] at h
        split at h
        · cases h
        · next hc =>
          cases h
          exact ⟨malformed_of_combine hc, rfl, rfl⟩
      · cases h
        exact ⟨⟨_, _, rfl⟩, rfl, rfl⟩
    · cases h
      exact ⟨⟨_, _, rfl⟩, List.append_nil _, rfl⟩

/-- A fault of an operand is one of syntax, and the names in front of it are among the tokens. -/
private theorem readPlain_eq_error {f : Fault} (h : readPlain stop indirect ts = .error f) :
    f.problem.Malformed ∧ f.required = false ∧ ∀ name ∈ f.seen.filterMap Term.name?, name ∈ identifiers ts := by
  unfold readPlain at h
  split at h
  · obtain ⟨hproblem, hseen, hrequired⟩ := readIndex_eq_error h
    exact ⟨hproblem, hrequired, by simp [hseen, IndexHead.terms]⟩
  · obtain ⟨hproblem, hseen, hrequired⟩ := readIndex_eq_error h
    exact ⟨hproblem, hrequired, by simp [hseen, IndexHead.terms]⟩
  · split at h
    · next g hread =>
      cases h
      obtain ⟨used, rest, k, xs, rfl, hdue, -, rfl⟩ := Expr.read_eq_error_iff.1 hread
      refine ⟨⟨_, _, rfl⟩, rfl, fun name hname => ?_⟩
      rw [Fault.after, faultAt, List.append_nil, hdue.names_eq] at hname
      exact mem_identifiers_append hname rest
    · next e mid hread =>
      obtain ⟨used, rfl, he, -⟩ := Expr.read_eq_ok_iff.1 hread
      split at h
      · obtain ⟨hproblem, hseen, hrequired⟩ := readIndex_eq_error h
        refine ⟨hproblem, hrequired, fun name hname => ?_⟩
        rw [hseen, IndexHead.terms, he.sum.names_eq] at hname
        exact mem_identifiers_append hname mid
      · cases h

end Operand

open Assemble

/-- An operand is read from tokens of one of the shapes, and from nothing else.  It is consistent, and its value can
be asked for if its symbols may be undefined or are not.  Any other tokens are refused for their syntax. -/
theorem operands_have_the_documented_shapes (stop : Token) (indirect : Bool) (ts : List Token) (s : State)
    (hs : s.pass = .first ∨ ∀ name ∈ identifiers ts, (s.symbols.resolve name).isSome = true) :
    (∀ operand rest, Operand.readPlain stop indirect ts = .ok (operand, rest) ↔
      ∃ used, ts = used ++ rest ∧ Operand.Shape indirect operand used rest) ∧
    (∀ operand rest, Operand.readPlain stop indirect ts = .ok (operand, rest) →
      operand.Consistent indirect ∧ ∀ e, operand.expr? = some e → evaluate e false s = .ok (s.value e) s) ∧
    ∀ f, Operand.readPlain stop indirect ts = .error f →
      f.problem.Malformed ∧ (fail f : Assemble Unit) s = .error (.refused f.problem f.token f.index) s := by
  have hknown : ∀ xs : List Term, (∀ name ∈ xs.filterMap Term.name?, name ∈ identifiers ts) →
      s.pass = .second → ∀ x ∈ xs, x.Known s.symbols := by
    intro xs hxs hp
    rcases hs with hfirst | hbound
    · rw [hfirst] at hp
      cases hp
    · exact known_of_names fun name hname => hbound name (hxs name hname)
  refine ⟨fun operand rest => Operand.readPlain_eq_ok_iff, fun operand rest h => ?_, fun f h => ?_⟩
  · obtain ⟨used, hts, hshape⟩ := Operand.readPlain_eq_ok_iff.1 h
    refine ⟨hshape.consistent, fun e he => evaluate_eq_ok.2 ⟨rfl, rfl, fun hr => ?_⟩⟩
    refine (e.settled_iff_known ..).2 (hknown e.terms (fun name hname => ?_) (by simpa using hr))
    obtain ⟨used, rfl, -, hnames⟩ := Operand.readPlain_takes h
    have hmem : name ∈ operand.names := by
      rw [PlainOperand.names, he]
      simpa [Expr.names] using hname
    rw [← hnames] at hmem
    exact mem_identifiers_append hmem rest
  · obtain ⟨hproblem, hrequired, hnames⟩ := Operand.readPlain_eq_error h
    refine ⟨hproblem, bind_eq_error.2 (.inr ⟨(), s, demand_of_known fun hr => ?_, rfl⟩)⟩
    exact hknown f.seen hnames (by simpa [hrequired] using hr)

/-- The tokens of `n-1,pcr]`. -/
private def pointerTokens : List Token :=
  [⟨.identifier "n", 2, "main.asm", 1, 6⟩, ⟨.dec, 3, "main.asm", 1, 7⟩, ⟨.integer 1, 4, "main.asm", 1, 8⟩,
    ⟨.comma, 5, "main.asm", 1, 9⟩, ⟨.register .pcr, 6, "main.asm", 1, 10⟩, ⟨.closing, 7, "main.asm", 1, 13⟩]

/-- A second pass in which `n` is a label. -/
private def pointerState : State :=
  { base := 0, pass := .second, symbols := { labels := [⟨"n", 0x1234, none⟩] } }

theorem operands_have_the_documented_shapes_relative :
    ∃ e closing, Operand.readPlain ⟨.eof, 8, "main.asm", 1, 14⟩ true pointerTokens =
        .ok (.index (.target e), [closing]) ∧
      (∃ used, pointerTokens = used ++ [closing] ∧ Operand.Shape true (.index (.target e)) used [closing]) ∧
      PlainOperand.Consistent true (.index (.target e)) ∧
      evaluate e false pointerState = .ok (pointerState.value e) pointerState := by
  have hbound : ∀ name ∈ identifiers pointerTokens, (pointerState.symbols.resolve name).isSome = true := by decide
  obtain ⟨hiff, hok, -⟩ := operands_have_the_documented_shapes ⟨.eof, 8, "main.asm", 1, 14⟩ true pointerTokens
    pointerState (.inr hbound)
  obtain ⟨hconsistent, hvalue⟩ := hok _ _ rfl
  exact ⟨_, _, rfl, (hiff _ _).1 rfl, hconsistent, hvalue _ rfl⟩

end Mc6809
